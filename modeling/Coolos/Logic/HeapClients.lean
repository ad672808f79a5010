import Coolos.Logic.HeapRun
import Coolos.Logic.HeapList
import Coolos.Lib.BlockGaps

/-!
# Clients that ask for anything

The heap under clients that free only what is theirs but ask for any size and any
alignment, also where `size + alignment + sizeof(HeapBlock)` wraps. `HeapRunInv` still
holds in every run in which such a sum never meets a block with room for it
(`Fitting`), and it determines the block list up to the live payloads.
-/

namespace Coolos

open Lib Lib.BlockList HeapBlock

/-! ## The region -/

/-- A region `Heap_Init` is given: some memory, away from address 0 and from the very top
of the address space. -/
structure HeapRegion (start size : Word) : Prop where
  pos : start ≠ 0
  room : 32 ≤ size.toNat
  top : start.toNat + size.toNat + 48 ≤ 2 ^ 64

theorem HeapRegion.start_pos {start size : Word} (region : HeapRegion start size) :
    0 < start.toNat :=
  Nat.pos_of_ne_zero fun h => region.pos (BitVec.eq_of_toNat_eq h)

/-! ## Runs -/

namespace HeapClients

/-- `kfree` takes `NULL` or a live address. -/
def Owned (s : HeapRun) : HeapOp → Prop
  | .kfree ptr => ptr = 0 ∨ ∃ size, (ptr, size) ∈ s.live
  | _ => True

/-- Runs from `Heap_Init(start, size)`. -/
def sys (start size : Word) : TSys HeapRun HeapOp where
  init s := ∃ m, s = ⟨Heap.init m start size, []⟩
  next s op s' := Owned s op ∧ s.step op = some s'

/-- `kmalloc_aligned` asks `kmalloc` for the exact sum, or for one that wraps and that no
free block has room for. -/
def SumFits (h : Heap) (size alignment : Word) : Prop :=
  size.toNat + alignment.toNat + 32 < 2 ^ 64 ∨
    ¬ HasRoom h (size + alignment + sizeofHeapBlock)

/-- No step of `kmalloc_aligned` goes wrong over its sum. -/
def Fitting (s : HeapRun) : HeapOp → Prop
  | .kmallocAligned size alignment => alignment ≤ 16 ∨ SumFits s.heap size alignment
  | _ => True

end HeapClients

open HeapClients

section Step

variable {start stop : Nat} {s : HeapRun}

theorem kmalloc_of_no_room {h : Heap} {bs : List Block} (inv : HeapInv h start stop bs) {n : Word}
    (none : ¬ HasRoom h n) : h.kmalloc n = some (h, 0) := by
  rcases kmalloc_spec inv n with ⟨pre, b, post, h', fit, -⟩ | ⟨-, fail⟩
  · have mem : b ∈ bs := by
      rw [fit.split]
      exact List.mem_append_right _ List.mem_cons_self
    exact absurd ((inv.hasRoom_iff n).mpr ⟨b, mem, fit.fits⟩) none
  · exact fail

/-- Without room for its sum `kmalloc_aligned` fails and leaves the heap alone. -/
theorem kmallocAligned_of_no_room {h : Heap} {bs : List Block} (inv : HeapInv h start stop bs)
    {size alignment : Word} (large : ¬ alignment ≤ 16)
    (none : ¬ HasRoom h (size + alignment + sizeofHeapBlock)) :
    h.kmallocAligned size alignment = some (h, 0) := by
  have fail := kmalloc_of_no_room inv none
  simp only [Heap.kmallocAligned, large, if_false, fail, if_true]

theorem HeapRunInv.client_step (inv : HeapRunInv start stop s) {op : HeapOp} (own : Owned s op)
    (fitting : Fitting s op) : ∃ s', s.step op = some s' ∧ HeapRunInv start stop s' := by
  cases op with
  | kmalloc size =>
      obtain ⟨s', run, inv', -⟩ := inv.step (show s.Allowed (.kmalloc size) from trivial)
      exact ⟨s', run, inv'⟩
  | kfree ptr =>
      obtain ⟨s', run, inv', -⟩ := inv.step (show s.Allowed (.kfree ptr) from own)
      exact ⟨s', run, inv'⟩
  | kmallocAligned size alignment =>
      by_cases small : alignment ≤ 16
      · -- delegated to `kmalloc`
        obtain ⟨s', run, inv', -⟩ := inv.step (show s.Allowed (.kmalloc size) from trivial)
        refine ⟨s', ?_, inv'⟩
        rw [← run]
        simp only [HeapRun.step, Heap.kmallocAligned, small, if_true]
      · rcases fitting.resolve_left small with exact_sum | none
        · obtain ⟨h', ptr, run, inv', -⟩ := inv.kmallocAligned exact_sum
          exact ⟨_, by simp only [HeapRun.step, run, Option.map_some], inv'⟩
        · obtain ⟨bs, heap⟩ : ∃ bs, HeapInv s.heap start stop bs := by
            obtain ⟨bs, -, heap, -⟩ := inv
            exact ⟨bs, heap⟩
          have fail := kmallocAligned_of_no_room heap small none
          refine ⟨s, ?_, inv⟩
          simp only [HeapRun.step, fail, Option.map_some, HeapRun.grant, if_true]

end Step

/-- `HeapRunInv` holds in every run in which no sum goes wrong. -/
theorem heapClients_invariant {start size : Word} (region : HeapRegion start size) :
    ((sys start size).guard Fitting).Invariant
      (HeapRunInv start.toNat (start.toNat + size.toNat)) := by
  have top := region.top
  have pos := region.start_pos
  apply TSys.Inductive.invariant
  constructor
  · rintro s ⟨m, rfl⟩
    have fresh := heapInit_inv m region.pos region.room (by omega) (by omega)
    exact ⟨_, [], fresh, by simp [used], .nil⟩
  · rintro s op s' inv ⟨fitting, own, run⟩
    obtain ⟨s₁, run₁, inv₁⟩ := inv.client_step own fitting
    exact Option.some.inj (run₁.symm.trans run) ▸ inv₁

/-! ## The payloads determine the list -/

section Unique

variable {h h' : Heap} {start stop : Nat} {bs bs' : List Block}

theorem HeapInv.list_unique (inv : HeapInv h start stop bs) (inv' : HeapInv h' start stop bs')
    (same : ∀ x, x ∈ used 32 start bs ↔ x ∈ used 32 start bs') : bs = bs' := by
  have region : span 32 bs = span 32 bs' := by
    have := inv.tiles
    have := inv'.tiles
    omega
  exact coalesced_unique (by decide) inv.coalesced inv'.coalesced region
    (used_ext (by decide) same)

/-- Heaps over one region with the same payloads hold the same list. -/
theorem HeapInv.sameList_of_used (inv : HeapInv h start stop bs)
    (inv' : HeapInv h' start stop bs')
    (same : ∀ x, x ∈ used 32 start bs ↔ x ∈ used 32 start bs') : SameList h h' := by
  obtain rfl := inv.list_unique inv' same
  exact inv.sameList inv'

/-- Releasing a payload takes it off the list and leaves the others. -/
theorem kfree_used (inv : HeapInv h start stop bs) {p : Word} {n : Nat}
    (hp : (p.toNat, n) ∈ used 32 start bs) :
    ∃ bs', HeapInv (h.kfree p) start stop bs' ∧
      ∀ x, x ∈ used 32 start bs' ↔ x ∈ used 32 start bs ∧ x.1 ≠ p.toNat := by
  obtain ⟨bs', inv', perm, -⟩ := kfree_releases inv hp
  rw [loc_toNat] at inv'
  refine ⟨bs', inv', ?_⟩
  rintro ⟨q, t⟩
  have nodup := (perm.nodup_iff).mp (used_nodup (by decide) bs start)
  constructor
  · intro mem
    have old := perm.mem_iff.mpr (List.mem_cons_of_mem _ mem)
    refine ⟨old, ?_⟩
    rintro rfl
    obtain rfl := used_size_unique (by decide) hp old
    exact (List.nodup_cons.mp nodup).1 mem
  · rintro ⟨old, other⟩
    rcases List.mem_cons.mp (perm.mem_iff.mp old) with here | mem
    · exact absurd (Prod.mk.inj here).1 other
    · exact mem

/-- Releasing several payloads, each once, in the order given. -/
theorem kfrees_used (l : List Word) : ∀ {h : Heap} {bs : List Block}, HeapInv h start stop bs →
    l.Nodup → (∀ p ∈ l, ∃ n, (p.toNat, n) ∈ used 32 start bs) →
    ∃ bs', HeapInv (l.foldl Heap.kfree h) start stop bs' ∧
      ∀ x, x ∈ used 32 start bs' ↔ x ∈ used 32 start bs ∧ ∀ p ∈ l, x.1 ≠ p.toNat := by
  -- on the pointers left; those are still live after each release
  induction l with
  | nil =>
      intro h bs inv _ _
      exact ⟨bs, inv, by simp⟩
  | cons p l ih =>
      intro h bs inv nodup live
      obtain ⟨fresh, rest⟩ := List.nodup_cons.mp nodup
      obtain ⟨n, hp⟩ := live p List.mem_cons_self
      obtain ⟨bs₁, inv₁, used₁⟩ := kfree_used inv hp
      have live₁ : ∀ q ∈ l, ∃ n, (q.toNat, n) ∈ used 32 start bs₁ := by
        intro q hq
        obtain ⟨t, ht⟩ := live q (List.mem_cons_of_mem _ hq)
        refine ⟨t, (used₁ _).mpr ⟨ht, ?_⟩⟩
        intro same
        exact fresh (BitVec.eq_of_toNat_eq same ▸ hq)
      obtain ⟨bs', inv', used'⟩ := ih inv₁ rest live₁
      refine ⟨bs', inv', ?_⟩
      intro x
      rw [used', used₁, and_assoc, List.forall_mem_cons]

end Unique
end Coolos
