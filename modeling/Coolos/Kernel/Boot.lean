import Coolos.Kernel.PageTable
import Coolos.Kernel.Interrupt

/-!
# Memory at boot (`memory.c`, `main.c`)

The steps of `KernelMain` that take pages. `PageTable_Init` builds the identity
map it runs on from then on. Its loops count addresses up to a bound; a loop
whose bound is within a page of the top of the address space wraps round and
never ends, which is `none` here: the fuel of a loop is one unit for each
address.
-/

namespace Coolos

open Lib

/-- The types `PageTable_Init` maps. -/
def mappable (entry : MemoryDescriptor) : Prop :=
  entry.type = EfiMemoryType.conventionalMemory.code ∨
    entry.type = EfiMemoryType.loaderCode.code ∨
    entry.type = EfiMemoryType.loaderData.code ∨
    entry.type = EfiMemoryType.bootServicesCode.code ∨
    entry.type = EfiMemoryType.bootServicesData.code ∨
    entry.type = EfiMemoryType.runtimeServicesCode.code ∨
    entry.type = EfiMemoryType.runtimeServicesData.code ∨
    entry.type = EfiMemoryType.acpiReclaimMemory.code ∨
    entry.type = EfiMemoryType.acpiMemoryNVS.code ∨
    entry.type = EfiMemoryType.memoryMappedIO.code ∨
    entry.type = EfiMemoryType.memoryMappedIOPortSpace.code

instance (entry : MemoryDescriptor) : Decidable (mappable entry) :=
  inferInstanceAs (Decidable (_ ∨ _))

/-- The IOAPIC's page, "usually `0xFEC00000`". -/
def ioapicAddr : Word := 0xFEC00000

/-- The first address of the 1 MB of stack around `rsp`. -/
def stackWindow (rsp : Word) : Word := rsp &&& ~~~0xFFFFF

/-- The first two steps of `KernelMain`: `PageAllocator_Init`, and the image marked
used. -/
def PageAllocator.boot (pa : PageAllocator) (map : List MemoryDescriptor)
    (imageBase imageSize : Word) : PageAllocator :=
  (pa.init map).markUsed imageBase ((imageSize + 4095) / 4096)

namespace Kernel

/-- The page `Syscall_Init` takes for `cpu_data`. -/
def syscallInit (k : Kernel) : Kernel := { k with pages := (k.pages.alloc 1).1 }

/-- `for (addr = ..; addr < stop; addr += PAGE_SIZE)` around
`PageTable_Map(pml4, addr, addr, flags)`. -/
def mapRange (pml4 stop flags : Word) : Nat → Kernel → Word → Option Kernel
  | 0, _, _ => none
  | fuel + 1, k, addr =>
      if addr < stop then
        mapRange pml4 stop flags fuel (k.pageTableMap pml4 addr addr flags) (addr + pageSize)
      else some k

/-- The body of the loop over the memory map. -/
def mapEntry (pml4 : Word) (k : Kernel) (entry : MemoryDescriptor) : Option Kernel :=
  if mappable entry then
    mapRange pml4 (entry.physicalStart + entry.numberOfPages * pageSize)
      (pageWritable ||| pageUser) (2 ^ 64) k entry.physicalStart
  else some k

/-- `PageTable_Init`: the kernel and the root, which goes into `g_kernel_pml4`
and CR3. `rsp` is the stack pointer read in it; its first two arguments are not
used. -/
def pageTableInit (k : Kernel) (fbBase fbSize : Word) (map : List MemoryDescriptor)
    (lapicAddr rsp : Word) : Option (Kernel × Word) := do
  let (pages, pml4) := k.pages.alloc 1
  let k := { k with pages := pages, mem := clearTable k.mem pml4 512 }
  -- 1. all usable physical memory
  let k ← map.foldlM (mapEntry pml4) k
  -- 2. frame buffer
  let k ← mapRange pml4 (fbBase + fbSize) (pageWritable ||| pageUser) (2 ^ 64) k fbBase
  -- 3. LAPIC and IOAPIC
  let k := if lapicAddr ≠ 0 then k.pageTableMap pml4 lapicAddr lapicAddr pageWritable else k
  let k ← mapRange pml4 0xFEC01000 pageWritable (2 ^ 64) k ioapicAddr
  -- 4. stack
  let k ← mapRange pml4 (stackWindow rsp + 0x100000) (pageWritable ||| pageUser) (2 ^ 64) k
    (stackWindow rsp)
  some (k, pml4)

/-- `KernelMain` sets up the heap. -/
def heapSetup (k : Kernel) : Kernel :=
  let (pages, heapAddr) := k.pages.alloc 4096
  let k := { k with pages := pages }
  if heapAddr ≠ 0 then { k with heap := Heap.init k.heap.mem heapAddr (4096 * 4096) } else k

/-- `Interrupt_RegisterHandler`. -/
def registerHandler (k : Kernel) (vector : Word) (handler : InterruptHandler) : Kernel :=
  { k with handlerTable := Function.update k.handlerTable vector.toNat (some handler) }

/-- `KernelMain` registers its two handlers and calls `Scheduler_Init`. -/
def schedulerSetup (k : Kernel) : Kernel :=
  let k := k.registerHandler intTimer .timer
  let k := k.registerHandler intKeyboard .keyboard
  { k with sched := k.sched.init }

/-- `Memory_MapMMIO`. `invlpg` changes no memory. -/
def memoryMapMmio (k : Kernel) (gKernelPml4 physAddr size : Word) : Option Kernel :=
  if gKernelPml4 = 0 then some k
  else mapRange gKernelPml4 (physAddr + size) (pageWritable ||| pageUser) (2 ^ 64) k physAddr

end Kernel
end Coolos
