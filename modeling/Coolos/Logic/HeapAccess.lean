import Coolos.Kernel.HeapAccess
import Coolos.Logic.Syscall

/-!
# Where the heap stores

The functions that record their stores do what those of the heap do. What holds of all stores
is said field by field: which headers a call writes depends on what it finds in memory.
-/

namespace Coolos

open Lib HeapBlock

namespace RawHeap

variable (h : RawHeap)

/-! ## The same functions -/

theorem take_mem (current size : Word) :
    (h.take current size).mem = Heap.take h.mem current size := by
  have split (fits : Prop) [Decidable fits] (h₁ h₂ : RawHeap) :
      ((if fits then h₁ else h₂).setFree current 0).mem =
        HeapBlock.setFree (if fits then h₁.mem else h₂.mem) current 0 := by
    split <;> rfl
  have link (some : Prop) [Decidable some] (h₁ h₂ : RawHeap) (v w : Word) :
      (((if some then h₁ else h₂).setSize current v).setNext current w).mem =
        HeapBlock.setNext (HeapBlock.setSize (if some then h₁.mem else h₂.mem) current v)
          current w := by
    split <;> rfl
  unfold take Heap.take
  dsimp only
  rw [split, link]
  rfl

theorem kmalloc_heap (freeList size : Word) :
    (h.kmalloc freeList size).map (fun r => (⟨r.1.mem, freeList⟩, r.2)) =
      (⟨h.mem, freeList⟩ : Heap).kmalloc size := by
  unfold kmalloc Heap.kmalloc
  cases Heap.search h.mem size (2 ^ 64) freeList with
  | none => rfl
  | some current =>
      dsimp only
      split
      · rfl
      · rw [Option.map_some, take_mem]

theorem coalesceNext_mem (b : Word) : (h.coalesceNext b).mem = Heap.coalesceNext h.mem b := by
  unfold coalesceNext Heap.coalesceNext
  rw [apply_ite RawHeap.mem]
  dsimp only
  rw [apply_ite RawHeap.mem]
  rfl

theorem coalescePrev_mem (b : Word) : (h.coalescePrev b).mem = Heap.coalescePrev h.mem b := by
  unfold coalescePrev Heap.coalescePrev
  rw [apply_ite RawHeap.mem]
  dsimp only
  rw [apply_ite RawHeap.mem]
  rfl

theorem kfree_mem (freeList ptr : Word) :
    (h.kfree ptr).mem = ((⟨h.mem, freeList⟩ : Heap).kfree ptr).mem := by
  have flag (p : Word) : (h.setFree p 1).mem = HeapBlock.setFree h.mem p 1 := rfl
  unfold kfree Heap.kfree
  by_cases null : ptr = 0
  · rw [if_pos null, if_pos null]
  · rw [if_neg null, if_neg null]
    dsimp only
    rw [coalescePrev_mem, coalesceNext_mem, flag]

/-! ## Field by field -/

section Fields

variable (P : Word → Nat → Prop)

/-- The fields written when the block behind is joined on: the size, the link, and the link back of
the block after that. -/
def JoinsNext (m : Mem) (b : Word) : Prop :=
  (read m b).next ≠ 0 → (read m (read m b).next).free ≠ 0 →
    let m := HeapBlock.setSize m b
      ((read m b).size + ((read m (read m b).next).size + sizeofHeapBlock))
    let m' := HeapBlock.setNext m b (read m (read m b).next).next
    P b 8 ∧ P (b + 8) 8 ∧ ((read m' b).next ≠ 0 → P ((read m' b).next + 16) 8)

/-- Those written when the block is joined to the one before. -/
def JoinsPrev (m : Mem) (b : Word) : Prop :=
  (read m b).prev ≠ 0 → (read m (read m b).prev).free ≠ 0 →
    let m₁ := HeapBlock.setSize m (read m b).prev
      ((read m (read m b).prev).size + ((read m b).size + sizeofHeapBlock))
    let m₂ := HeapBlock.setNext m₁ (read m₁ b).prev (read m₁ b).next
    P (read m b).prev 8 ∧ P ((read m₁ b).prev + 8) 8 ∧
      ((read m₂ b).next ≠ 0 → P ((read m₂ b).next + 16) 8)

/-- Those written by `kfree(ptr)`. -/
def Frees (m : Mem) (ptr : Word) : Prop :=
  ptr ≠ 0 →
    let b := ptr - sizeofHeapBlock
    let m := HeapBlock.setFree m b 1
    P (b + 24) 4 ∧ JoinsNext P m b ∧ JoinsPrev P (Heap.coalesceNext m b) b

variable {P}

theorem forall_setSize (p v : Word) : (∀ q ∈ (h.setSize p v).stores, P q.1 q.2) ↔
    P p 8 ∧ ∀ q ∈ h.stores, P q.1 q.2 := List.forall_mem_cons

theorem forall_setNext (p v : Word) : (∀ q ∈ (h.setNext p v).stores, P q.1 q.2) ↔
    P (p + 8) 8 ∧ ∀ q ∈ h.stores, P q.1 q.2 := List.forall_mem_cons

theorem forall_setPrev (p v : Word) : (∀ q ∈ (h.setPrev p v).stores, P q.1 q.2) ↔
    P (p + 16) 8 ∧ ∀ q ∈ h.stores, P q.1 q.2 := List.forall_mem_cons

theorem forall_setFree (p : Word) (v : BitVec 32) :
    (∀ q ∈ (h.setFree p v).stores, P q.1 q.2) ↔
      P (p + 24) 4 ∧ ∀ q ∈ h.stores, P q.1 q.2 := List.forall_mem_cons

/-- A link back, if there is a block to set it in. -/
theorem forall_linkBack (some : Prop) [Decidable some] (p v : Word) :
    (∀ q ∈ (if some then h.setPrev p v else h).stores, P q.1 q.2) ↔
      (some → P (p + 16) 8) ∧ ∀ q ∈ h.stores, P q.1 q.2 := by
  split
  · rename_i here
    rw [forall_setPrev, imp_iff_right here]
  · rename_i none
    exact (and_iff_right fun here => absurd here none).symm

theorem coalesceNext_stores (b : Word) :
    (∀ q ∈ (h.coalesceNext b).stores, P q.1 q.2) ↔
      JoinsNext P h.mem b ∧ ∀ q ∈ h.stores, P q.1 q.2 := by
  unfold coalesceNext JoinsNext
  by_cases joins : (h.block b).next ≠ 0 ∧ (h.block (h.block b).next).free ≠ 0
  · rw [if_pos joins, forall_linkBack, forall_setNext, forall_setSize]
    constructor
    · rintro ⟨back, next, size, rest⟩
      exact ⟨fun _ _ => ⟨size, next, back⟩, rest⟩
    · rintro ⟨fields, rest⟩
      obtain ⟨size, next, back⟩ := fields joins.1 joins.2
      exact ⟨back, next, size, rest⟩
  · rw [if_neg joins]
    exact (and_iff_right fun next free => absurd ⟨next, free⟩ joins).symm

theorem coalescePrev_stores (b : Word) :
    (∀ q ∈ (h.coalescePrev b).stores, P q.1 q.2) ↔
      JoinsPrev P h.mem b ∧ ∀ q ∈ h.stores, P q.1 q.2 := by
  unfold coalescePrev JoinsPrev
  by_cases joins : (h.block b).prev ≠ 0 ∧ (h.block (h.block b).prev).free ≠ 0
  · rw [if_pos joins, forall_linkBack, forall_setNext, forall_setSize]
    constructor
    · rintro ⟨back, next, size, rest⟩
      exact ⟨fun _ _ => ⟨size, next, back⟩, rest⟩
    · rintro ⟨fields, rest⟩
      obtain ⟨size, next, back⟩ := fields joins.1 joins.2
      exact ⟨back, next, size, rest⟩
  · rw [if_neg joins]
    exact (and_iff_right fun prev free => absurd ⟨prev, free⟩ joins).symm

theorem kfree_stores (ptr : Word) : (∀ q ∈ (h.kfree ptr).stores, P q.1 q.2) ↔
    Frees P h.mem ptr ∧ ∀ q ∈ h.stores, P q.1 q.2 := by
  unfold kfree Frees
  by_cases null : ptr = 0
  · rw [if_pos null]
    exact (and_iff_right fun some => absurd null some).symm
  · have flag (p : Word) : (h.setFree p 1).mem = HeapBlock.setFree h.mem p 1 := rfl
    rw [if_neg null, imp_iff_right null, coalescePrev_stores, coalesceNext_stores,
      forall_setFree, coalesceNext_mem, flag]
    constructor
    · rintro ⟨prev, next, free, rest⟩
      exact ⟨⟨free, next, prev⟩, rest⟩
    · rintro ⟨⟨free, next, prev⟩, rest⟩
      exact ⟨prev, next, free, rest⟩

/-- Those written when `kmalloc` takes the block `current`. -/
def Takes (P : Word → Nat → Prop) (m : Mem) (current size : Word) : Prop :=
  (size + sizeofHeapBlock + 16 ≤ (read m current).size →
    let next := current + sizeofHeapBlock + size
    let m := HeapBlock.setSize m next ((read m current).size - size - sizeofHeapBlock)
    let m := HeapBlock.setNext m next (read m current).next
    let m := HeapBlock.setPrev m next current
    let m := HeapBlock.setFree m next 1
    P next 8 ∧ P (next + 8) 8 ∧ P (next + 16) 8 ∧ P (next + 24) 4 ∧
      ((read m next).next ≠ 0 → P ((read m next).next + 16) 8) ∧
        P current 8 ∧ P (current + 8) 8) ∧
  P (current + 24) 4

theorem take_stores (current size : Word) :
    (∀ q ∈ (h.take current size).stores, P q.1 q.2) ↔
      Takes P h.mem current size ∧ ∀ q ∈ h.stores, P q.1 q.2 := by
  unfold take Takes
  by_cases fits : size + sizeofHeapBlock + 16 ≤ (h.block current).size
  · have fits' : size + sizeofHeapBlock + 16 ≤ (read h.mem current).size := fits
    rw [if_pos fits, imp_iff_right fits', forall_setFree]
    dsimp only
    rw [forall_setNext, forall_setSize, forall_linkBack, forall_setFree, forall_setPrev,
      forall_setNext, forall_setSize]
    constructor
    · rintro ⟨used, link, size, back, free, prev, next, length, rest⟩
      exact ⟨⟨⟨length, next, prev, free, back, size, link⟩, used⟩, rest⟩
    · rintro ⟨⟨⟨length, next, prev, free, back, size, link⟩, used⟩, rest⟩
      exact ⟨used, link, size, back, free, prev, next, length, rest⟩
  · have fits' : ¬ size + sizeofHeapBlock + 16 ≤ (read h.mem current).size := fits
    rw [if_neg fits, forall_setFree]
    exact and_congr_left fun _ => (and_iff_right fun here => absurd here fits').symm

end Fields

/-! ## Bytes not stored to -/

/-- Only bytes stored to differ from `m`. -/
def Kept (m : Mem) : Prop := ∀ x, (∀ q ∈ h.stores, q.2 ≤ (x - q.1).toNat) → h.mem x = m x

variable {h} {m : Mem}

theorem Kept.setSize (kept : h.Kept m) (p v : Word) : (h.setSize p v).Kept m := by
  intro x apart
  obtain ⟨here, rest⟩ := List.forall_mem_cons.mp apart
  exact (Mem.write64_apply here).trans (kept x rest)

theorem Kept.setNext (kept : h.Kept m) (p v : Word) : (h.setNext p v).Kept m := by
  intro x apart
  obtain ⟨here, rest⟩ := List.forall_mem_cons.mp apart
  exact (Mem.write64_apply here).trans (kept x rest)

theorem Kept.setPrev (kept : h.Kept m) (p v : Word) : (h.setPrev p v).Kept m := by
  intro x apart
  obtain ⟨here, rest⟩ := List.forall_mem_cons.mp apart
  exact (Mem.write64_apply here).trans (kept x rest)

theorem Kept.setFree (kept : h.Kept m) (p : Word) (v : BitVec 32) : (h.setFree p v).Kept m := by
  intro x apart
  obtain ⟨here, rest⟩ := List.forall_mem_cons.mp apart
  exact (Mem.write32_apply here).trans (kept x rest)

theorem Kept.linkBack (kept : h.Kept m) (some : Prop) [Decidable some] (p v : Word) :
    (if some then h.setPrev p v else h).Kept m := by
  split
  · exact kept.setPrev p v
  · exact kept

theorem Kept.coalesceNext (kept : h.Kept m) (b : Word) : (h.coalesceNext b).Kept m := by
  unfold RawHeap.coalesceNext
  split
  · exact ((kept.setSize _ _).setNext _ _).linkBack _ _ _
  · exact kept

theorem Kept.coalescePrev (kept : h.Kept m) (b : Word) : (h.coalescePrev b).Kept m := by
  unfold RawHeap.coalescePrev
  split
  · exact ((kept.setSize _ _).setNext _ _).linkBack _ _ _
  · exact kept

theorem Kept.kfree (kept : h.Kept m) (ptr : Word) : (h.kfree ptr).Kept m := by
  unfold RawHeap.kfree
  split
  · exact kept
  · exact ((kept.setFree _ _).coalesceNext _).coalescePrev _

theorem Kept.take (kept : h.Kept m) (current size : Word) : (h.take current size).Kept m := by
  unfold RawHeap.take
  refine Kept.setFree ?_ _ _
  split
  · refine Kept.setNext (Kept.setSize (Kept.linkBack ?_ _ _ _) _ _) _ _
    exact (((kept.setSize _ _).setNext _ _).setPrev _ _).setFree _ _
  · exact kept

theorem Kept.kmalloc (kept : h.Kept m) {freeList size : Word} {r : RawHeap × Word}
    (run : h.kmalloc freeList size = some r) : r.1.Kept m := by
  unfold RawHeap.kmalloc at run
  split at run
  · cases run
  · split at run
    · obtain rfl := Option.some.inj run
      exact kept
    · obtain rfl := Option.some.inj run
      exact kept.take _ _

end RawHeap

/-! ## The two system calls -/

namespace Kernel

open RawHeap

/-- The fields that system call `n` has the heap functions write. -/
def HeapWrites (P : Word → Nat → Prop) (k : Kernel) (n a1 : Word) : Prop :=
  (n = syscallKfree → Frees P k.heap.mem a1) ∧
  (n = syscallKmalloc → ∀ current, current ≠ 0 →
    Heap.search k.heap.mem a1 (2 ^ 64) k.heap.freeList = some current →
      Takes P k.heap.mem current a1 ∧
        Frees P (Heap.take k.heap.mem current a1) (current + sizeofHeapBlock))

theorem heapStores_iff {P : Word → Nat → Prop} (k : Kernel) (n a1 : Word) :
    (∀ q ∈ k.heapStores n a1, P q.1 q.2) ↔ k.HeapWrites P n a1 := by
  have none (h : RawHeap) (empty : h.stores = []) : ∀ q ∈ h.stores, P q.1 q.2 := by
    rw [empty]
    exact fun q hq => nomatch hq
  unfold heapStores HeapWrites
  by_cases kmalloc : n = syscallKmalloc
  · have other : n ≠ syscallKfree := by
      rw [kmalloc]
      decide
    rw [if_pos kmalloc, and_iff_right fun named => absurd named other, imp_iff_right kmalloc]
    cases found : Heap.search k.heap.mem a1 (2 ^ 64) k.heap.freeList with
    | none =>
        simp only [RawHeap.kmalloc, found]
        exact iff_of_true (fun q hq => nomatch hq) fun current _ other => nomatch other
    | some current =>
        by_cases null : current = 0
        · simp only [RawHeap.kmalloc, found, if_pos null]
          refine iff_of_true (none _ rfl) fun current' some same => ?_
          exact absurd ((Option.some.inj same).symm.trans null) some
        · simp only [RawHeap.kmalloc, found, if_neg null]
          rw [kfree_stores, take_stores, take_mem]
          constructor
          · rintro ⟨frees, takes, -⟩ current' - same
            obtain rfl := Option.some.inj same
            exact ⟨takes, frees⟩
          · intro writes
            obtain ⟨takes, frees⟩ := writes current null rfl
            exact ⟨frees, takes, none _ rfl⟩
  · rw [if_neg kmalloc]
    by_cases kfree : n = syscallKfree
    · rw [if_pos kfree, kfree_stores]
      constructor
      · rintro ⟨frees, -⟩
        exact ⟨fun _ => frees, fun named => absurd named kmalloc⟩
      · rintro ⟨frees, -⟩
        exact ⟨frees kfree, none _ rfl⟩
    · rw [if_neg kfree]
      exact iff_of_true (fun q hq => nomatch hq)
        ⟨fun named => absurd named kfree, fun named => absurd named kmalloc⟩

theorem syscallHandler_heap (k : Kernel) {n : Word} (kmalloc : n ≠ syscallKmalloc)
    (kfree : n ≠ syscallKfree) (a1 a2 a3 a4 a5 : Word) (polls : List NvmeCQEntry) :
    (k.syscallHandler n a1 a2 a3 a4 a5 polls).1.heap = k.heap := by
  have dispatched := k.syscallHandler_dispatched n a1 a2 a3 a4 a5 polls
  generalize k.syscallHandler n a1 a2 a3 a4 a5 polls = result at dispatched
  cases dispatched with
  | drawn frame console zero => exact frame.heap
  | execs named => exact (k.execCase_frame a1 a2).1.2.1
  | terminates named => exact (k.terminateCurrentTask_frame 0).2.1
  | transfers named zero => rfl
  | heap named zero => exact absurd (named.resolve_left kmalloc) kfree

/-- Of the heap's memory a system call leaves whatever it does not store to. -/
theorem heap_kept (k : Kernel) (n a1 a2 a3 a4 a5 : Word) (polls : List NvmeCQEntry) {x : Word}
    (apart : ∀ q ∈ k.heapStores n a1, q.2 ≤ (x - q.1).toNat) :
    (k.syscallHandler n a1 a2 a3 a4 a5 polls).1.heap.mem x = k.heap.mem x := by
  have start : (⟨k.heap.mem, []⟩ : RawHeap).Kept k.heap.mem := fun _ _ => rfl
  have frees (h : RawHeap) (kept : h.Kept k.heap.mem) (freeList ptr : Word)
      (apart : ∀ q ∈ (h.kfree ptr).stores, q.2 ≤ (x - q.1).toNat) :
      ((⟨h.mem, freeList⟩ : Heap).kfree ptr).mem x = k.heap.mem x := by
    rw [← kfree_mem]
    exact kept.kfree ptr x apart
  unfold heapStores at apart
  by_cases kmalloc : n = syscallKmalloc
  · subst kmalloc
    have run : k.syscallHandler syscallKmalloc a1 a2 a3 a4 a5 polls = k.kmallocCase a1 := rfl
    have same := kmalloc_heap ⟨k.heap.mem, []⟩ k.heap.freeList a1
    rw [if_pos rfl] at apart
    rw [run, kmallocCase]
    cases found : (⟨k.heap.mem, []⟩ : RawHeap).kmalloc k.heap.freeList a1 with
    | none =>
        rw [found] at same
        rw [show k.heap.kmalloc a1 = none from same.symm]
    | some r =>
        rw [found] at same apart
        rw [show k.heap.kmalloc a1 = some (⟨r.1.mem, k.heap.freeList⟩, r.2) from same.symm]
        exact frees r.1 (start.kmalloc found) _ _ apart
  · rw [if_neg kmalloc] at apart
    by_cases kfree : n = syscallKfree
    · subst kfree
      rw [if_pos rfl] at apart
      exact frees _ start k.heap.freeList a1 apart
    · rw [k.syscallHandler_heap kmalloc kfree]

end Kernel
end Coolos
