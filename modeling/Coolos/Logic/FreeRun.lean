import Coolos.Logic.Entry
import Coolos.Logic.HeapRun
import Coolos.Logic.HeapList

/-!
# Runs in which ring 3 frees what it likes

The kernel's clients use the heap by its rules while ring 3 passes any pointer
to `SYSCALL_KFREE`. `kfree` takes the 32 bytes below the pointer for a header
without a look at the list, so what it does depends on where they lie: a header
on the list is a block, allocated or free; elsewhere it does no harm as long as
the header read there names no free neighbour and the flag written there is no
part of a header on the list. The kernel stack is a block of the heap too: what
`syscall_entry` pushes must not be taken for a header.
-/

namespace Coolos

open Lib Lib.X86 Lib.BlockList HeapBlock

/-- `kfree(ptr)` sets a flag outside every header on the list and then finds no
free neighbour to join with. -/
structure Inert (h : Heap) (ptr : Word) : Prop where
  flag : ∃ ps, ListFrom h.mem h.freeList ps ∧
    ∀ p ∈ ps, Apart (ptr - sizeofHeapBlock + 24) 4 p 32
  next : let m := setFree h.mem (ptr - sizeofHeapBlock) 1
    ¬ ((read m (ptr - sizeofHeapBlock)).next ≠ 0 ∧
      (read m (read m (ptr - sizeofHeapBlock)).next).free ≠ 0)
  prev : let m := setFree h.mem (ptr - sizeofHeapBlock) 1
    ¬ ((read m (ptr - sizeofHeapBlock)).prev ≠ 0 ∧
      (read m (read m (ptr - sizeofHeapBlock)).prev).free ≠ 0)

/-- Pointers `kfree` can be given without harm to the list. -/
def Harmless (h : Heap) (ptr : Word) : Prop := ptr = 0 ∨ OnList h ptr ∨ Inert h ptr

section Free

variable {h : Heap} {start stop : Nat} {bs : List Block} {ptr : Word}

/-- A header on the list is the header of one of its blocks. -/
theorem OnList.block (on : OnList h ptr) (inv : HeapInv h start stop bs) :
    ∃ pre b post, bs = pre ++ b :: post ∧ ptr = loc (start + span 32 pre + 32) := by
  obtain ⟨ps, walk, hmem⟩ := on
  obtain rfl := inv.walk_eq walk
  obtain ⟨x, hx, place⟩ := List.mem_map.mp hmem
  obtain ⟨pre, b, post, rfl, rfl⟩ := mem_headers hx
  refine ⟨pre, b, post, rfl, ?_⟩
  calc ptr = ptr - sizeofHeapBlock + sizeofHeapBlock := (BitVec.sub_add_cancel ..).symm
    _ = loc (start + span 32 pre + 32) := by rw [← place, loc_add _ 32]; rfl

end Free

section Harmless

variable {start stop : Nat} {s : HeapRun}

/-- A write into an allocation leaves the block list in memory. -/
theorem HeapRunInv.store (inv : HeapRunInv start stop s) {addr : Word} {byte : BitVec 8}
    (held : ∃ a ∈ s.live, (addr - a.1).toNat < a.2.toNat) :
    HeapRunInv start stop
      ⟨{ s.heap with mem := fun x => if x = addr then byte else s.heap.mem x }, s.live⟩ := by
  obtain ⟨bs, payloads, heap, perm, backed⟩ := inv
  refine ⟨bs, payloads, heap.update ?_ rfl rfl heap.coalesced, perm, backed⟩
  -- no header is in a payload
  apply heap.linked.congr
  intro x hx
  obtain ⟨a, ha, inside⟩ := held
  obtain ⟨t, ht, room⟩ := backed.mem ha
  have apart := headers_used_disjoint hx (perm.mem_iff.mpr ht)
  have low := headers_bounds hx
  have high := used_bounds (perm.mem_iff.mpr ht)
  have bound := heap.bound
  apply read_congr
  intro y hy
  apply if_neg
  rintro rfl
  have place : (loc x).toNat = x := toNat_loc (by omega)
  bv_omega

end Harmless

/-! ## The system call -/

section Call

variable {m : Machine}

end Call

/-! ## Runs -/

/-- The machine and the allocations the kernel's clients hold. -/
structure FreeRun where
  machine : Machine
  live : List (Word × Word)

/-- A client's call or its write into memory it holds; ring 3 setting its
registers or calling `SYSCALL_KFREE`. -/
inductive FreeOp where
  | client (op : HeapOp)
  | store (addr : Word) (byte : BitVec 8)
  | user (regs : Reg → Word)
  | kfree (env : Env)

namespace FreeRun

/-- The heap and its clients. -/
def heapRun (s : FreeRun) : HeapRun := ⟨s.machine.kernel.heap, s.live⟩

/-- The run with another heap and other clients. -/
def withHeap (s : FreeRun) (r : HeapRun) : FreeRun where
  machine := { s.machine with kernel := { s.machine.kernel with heap := r.heap } }
  live := r.live

/-- The argument `a1` of a system call. -/
def a1 (s : FreeRun) : Word := s.machine.cpu.regs .rdi

/-- What ring 3 frees nobody holds any longer. -/
def release (s : FreeRun) (m : Machine) : FreeRun := ⟨m, s.live.eraseP fun a => a.1 = s.a1⟩

def next (s : FreeRun) : FreeOp → FreeRun → Prop
  | .client op, s' =>
      s.heapRun.Allowed op ∧ ∃ r, s.heapRun.step op = some r ∧ s' = s.withHeap r
  | .store addr byte, s' =>
      (∃ a ∈ s.live, (addr - a.1).toNat < a.2.toNat) ∧
        s' = s.withHeap ⟨{ s.machine.kernel.heap with
          mem := fun x => if x = addr then byte else s.machine.kernel.heap.mem x }, s.live⟩
  | .user regs, s' =>
      s' = { s with machine := { s.machine with cpu := { s.machine.cpu with regs := regs } } }
  | .kfree env, s' =>
      s.machine.cpu.regs .rax = syscallKfree ∧
        ∃ m, s.machine.syscall env = .returned m ∧ s' = s.release m

/-- Runs from `Heap_Init(start, size)`. -/
def sys (start size : Word) : TSys FreeRun FreeOp where
  init s := (∃ m, s.machine.kernel.heap = Heap.init m start size) ∧ s.live = []
  next := next

/-- Where the kernel stack that ends at `tss.rsp0` begins. -/
def stack (s : FreeRun) : Word := s.machine.rsp0 - loc kernelStackSize

/-- Neither the header that `kfree` reads below the pointer nor the flag of a neighbour named there
lies on the kernel stack. -/
structure OffStack (s : FreeRun) : Prop where
  header : Apart (s.a1 - sizeofHeapBlock) 32 s.stack kernelStackSize
  next : (read s.machine.kernel.heap.mem (s.a1 - sizeofHeapBlock)).next ≠ 0 →
    Apart ((read s.machine.kernel.heap.mem (s.a1 - sizeofHeapBlock)).next + 24) 4 s.stack
      kernelStackSize
  prev : (read s.machine.kernel.heap.mem (s.a1 - sizeofHeapBlock)).prev ≠ 0 →
    Apart ((read s.machine.kernel.heap.mem (s.a1 - sizeofHeapBlock)).prev + 24) 4 s.stack
      kernelStackSize

/-- The kernel stack is an allocation. Ring 3 does not free it, and frees harmless pointers
only, those that are not on the list off the kernel stack. -/
structure Frees (s : FreeRun) : Prop where
  held : (s.stack, loc kernelStackSize) ∈ s.live
  other : s.a1 ≠ s.stack
  harmless : Harmless s.machine.kernel.heap s.a1
  offStack : s.a1 = 0 ∨ OnList s.machine.kernel.heap s.a1 ∨ s.OffStack

variable {start size : Word}

end FreeRun
end Coolos
