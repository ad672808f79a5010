import Coolos.Kernel.Schedule

/-!
# System calls (`syscall.c`)

`Syscall_Handler`, one definition for each case of its switch. A case that does
not end in `break` is followed by the next one, as in the source: `SYSCALL_HALT`
by `SYSCALL_NVME_READ`, `SYSCALL_KMALLOC` by `SYSCALL_KFREE`. The result is the
kernel reached and the value returned, `none` while the call has not returned;
`hlt` is an instruction that resumes.
-/

namespace Coolos

open Lib

def syscallClear : Word := 0
def syscallPrint : Word := 1
def syscallExec : Word := 2
def syscallTerminate : Word := 3
def syscallHalt : Word := 4
def syscallNvmeRead : Word := 5
def syscallNvmeWrite : Word := 6
def syscallKmalloc : Word := 7
def syscallKfree : Word := 8

namespace Kernel

/-- `SYSCALL_CLEAR`. -/
def clearCase (k : Kernel) (a1 : Word) : Kernel × Option Word :=
  ({ k with graphics := k.graphics.clear (a1.truncate 32), console := ⟨10, 10⟩ }, some 0)

/-- Put one character of `SYSCALL_PRINT` and move the cursor. -/
def printChar (k : Kernel) (c : BitVec 8) (color width : BitVec 32) : Kernel :=
  if c = 0x0A then { k with console := ⟨10, k.console.y + 16⟩ }
  else if c = 0x0D then { k with console.x := 10 }
  else
    let k := { k with graphics := k.graphics.putChar k.console.x k.console.y c color }
    let k := { k with console.x := k.console.x + 8 }
    if width - 8 ≤ k.console.x then { k with console := ⟨10, k.console.y + 16⟩ } else k

/-- "Clear screen on wrap for now". -/
def printWrap (k : Kernel) (height : BitVec 32) : Kernel :=
  if height - 16 ≤ k.console.y then
    { k with console.y := 10, graphics := k.graphics.clear 0x000000 }
  else k

/-- The loop of `SYSCALL_PRINT`, with one unit of fuel for each address. -/
def printLoop (color width height : BitVec 32) : Nat → Kernel → Word → Kernel × Option Word
  | 0, k, _ => (k, none)
  | fuel + 1, k, str =>
      let c := k.mem str
      if c = 0 then (k, some 0)
      else
        printLoop color width height fuel ((k.printChar c color width).printWrap height) (str + 1)

/-- `SYSCALL_PRINT`. -/
def printCase (k : Kernel) (a1 a2 : Word) : Kernel × Option Word :=
  let (width, height) := k.graphics.getDimensions
  let width := if width = 0 then 800 else width
  let height := if height = 0 then 600 else height
  printLoop (a2.truncate 32) width height (2 ^ 64) k a1

/-- `SYSCALL_EXEC`. -/
def execCase (k : Kernel) (a1 a2 : Word) : Kernel × Option Word :=
  let (pages, stack) := k.pages.alloc a2
  let k := { k with pages := pages }
  if stack = 0 then (k, some 0) else (k.addUserTask a1 stack a2, some 0)

/-- `SYSCALL_TERMINATE`. -/
def terminateCase (k : Kernel) : Kernel × Option Word :=
  let (k, newRsp) := k.terminateCurrentTask 0
  (k, some newRsp)

/-- `SYSCALL_NVME_READ`. -/
def nvmeReadCase (k : Kernel) (a1 a2 a3 a4 : Word) (polls : List NvmeCQEntry) :
    Kernel × Option Word :=
  let (q, result) := k.ioQueue.read (a1.truncate 32) a2 a3 (a4.truncate 32) polls
  ({ k with ioQueue := q }, result.map fun _ => 0)

/-- `SYSCALL_NVME_WRITE`. -/
def nvmeWriteCase (k : Kernel) (a1 a2 a3 a4 : Word) (polls : List NvmeCQEntry) :
    Kernel × Option Word :=
  let (q, result) := k.ioQueue.write (a1.truncate 32) a2 a3 (a4.truncate 32) polls
  ({ k with ioQueue := q }, result.map fun _ => 0)

/-- `SYSCALL_HALT`: `hlt`, then on into `SYSCALL_NVME_READ`. -/
def haltCase (k : Kernel) (a1 a2 a3 a4 : Word) (polls : List NvmeCQEntry) :
    Kernel × Option Word :=
  k.nvmeReadCase a1 a2 a3 a4 polls

/-- `SYSCALL_KFREE`. -/
def kfreeCase (k : Kernel) (a1 : Word) : Kernel × Option Word :=
  ({ k with heap := k.heap.kfree a1 }, some 0)

/-- `SYSCALL_KMALLOC`: the pointer goes into `a1`, then on into
`SYSCALL_KFREE`. -/
def kmallocCase (k : Kernel) (a1 : Word) : Kernel × Option Word :=
  match k.heap.kmalloc a1 with
  | none => (k, none)
  | some (heap, ptr) => { k with heap := heap }.kfreeCase ptr

/-- The `default` case. -/
def defaultCase (k : Kernel) : Kernel × Option Word :=
  ({ k with
      graphics := (k.graphics.clear 0xEEE8D5).print 100 100
        (Graphics.ascii "SYSCALL NOT IMPLEMENTED") 0x268BD2 }, some 0)

/-- `Syscall_Handler`. `polls` is what `NVMe_WaitForCompletion` finds at the
head of the completion queue each time it looks; no case reads `a5`. -/
def syscallHandler (k : Kernel) (sysNum a1 a2 a3 a4 _a5 : Word) (polls : List NvmeCQEntry) :
    Kernel × Option Word :=
  if sysNum = syscallClear then k.clearCase a1
  else if sysNum = syscallPrint then k.printCase a1 a2
  else if sysNum = syscallExec then k.execCase a1 a2
  else if sysNum = syscallTerminate then k.terminateCase
  else if sysNum = syscallHalt then k.haltCase a1 a2 a3 a4 polls
  else if sysNum = syscallNvmeRead then k.nvmeReadCase a1 a2 a3 a4 polls
  else if sysNum = syscallNvmeWrite then k.nvmeWriteCase a1 a2 a3 a4 polls
  else if sysNum = syscallKmalloc then k.kmallocCase a1
  else if sysNum = syscallKfree then k.kfreeCase a1
  else k.defaultCase

end Kernel
end Coolos
