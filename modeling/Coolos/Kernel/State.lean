import Coolos.Kernel.Heap
import Coolos.Kernel.PageAllocator
import Coolos.Kernel.Graphics
import Coolos.Kernel.Nvme

/-!
# The state of the kernel

The statics of the source files, one component for each. `mem` is the memory
the kernel reaches through plain pointers: stacks, frames, user strings. The
frame buffer, the heap's arena, the NVMe queues and the statics themselves are
separate objects, kept in their own components.
-/

namespace Coolos

open Lib

/-- `TCB`. -/
structure TCB where
  rsp : Word
  active : Bool
  stackBase : Word
  stackPages : Word
  deriving DecidableEq

/-- `MAX_TASKS`. -/
def maxTasks : Nat := 10

/-- The statics of `schedule.c`. Only `tasks 0` to `tasks 9` exist. -/
structure Scheduler where
  tasks : Nat → TCB
  currentTaskIndex : Nat
  totalTasks : Nat

/-- The task table before `Scheduler_Init`. -/
def Scheduler.zero : Scheduler where
  tasks := fun _ => ⟨0, false, 0, 0⟩
  currentTaskIndex := 0
  totalTasks := 0

/-- `console_x` and `console_y` of `syscall.c`. -/
structure Console where
  x : BitVec 32
  y : BitVec 32
  deriving DecidableEq

/-- What `handler_table` can hold. -/
inductive InterruptHandler where
  | timer
  | keyboard
  deriving DecidableEq

structure Kernel where
  mem : Mem
  pages : PageAllocator
  sched : Scheduler
  graphics : Graphics
  heap : Heap
  console : Console
  ioQueue : NvmeQueue
  handlerTable : Nat → Option InterruptHandler
  ticks : Word
  lastChar : BitVec 8
  /-- End-of-interrupt writes to the local APIC so far. -/
  eois : Nat

/-- The statics as they are loaded. -/
def Kernel.statics : Kernel where
  mem := fun _ => 0
  pages := PageAllocator.zero
  sched := Scheduler.zero
  graphics := ⟨0, 0, 0, 0, []⟩
  heap := ⟨fun _ => 0, 0⟩
  console := ⟨10, 10⟩
  ioQueue := ⟨0, 0, 0, 0, 0, 0, 0, 0, 0, []⟩
  handlerTable := fun _ => none
  ticks := 0
  lastChar := 0
  eois := 0

end Coolos
