import Coolos.Logic.HeapClients
import Coolos.Theorems.Heap

/-!
# The heap is determined by its live set

Free blocks are gaps between live ones and nothing else is on the list, so a release
undoes the allocation before it, and what is left after several releases does not
depend on their order.
-/

namespace Coolos.Theorems

open Lib Lib.BlockList HeapBlock HeapClients

/-- A release right after an allocation restores the list. -/
theorem grant_undone {h h' : Heap} {start stop p n : Nat} {bs bs' : List Block}
    (inv : HeapInv h start stop bs) (top : p < 2 ^ 64)
    (grants : Grants h h' start stop bs bs' p n) : SameList (h'.kfree (loc p)) h := by
  obtain ⟨s, -, perm⟩ := grants.grant
  have place : (loc p).toNat = p := toNat_loc top
  have granted : (p, s) ∈ used 32 start bs' := perm.mem_iff.mpr List.mem_cons_self
  obtain ⟨bs₂, inv₂, left⟩ := kfree_used grants.inv (p := loc p) (by rw [place]; exact granted)
  have nodup := perm.nodup_iff.mp (used_nodup (by decide) bs' start)
  refine inv₂.sameList_of_used inv ?_
  rintro ⟨q, t⟩
  rw [left, place]
  constructor
  · rintro ⟨mem, other⟩
    rcases List.mem_cons.mp (perm.mem_iff.mp mem) with here | old
    · exact absurd (Prod.mk.inj here).1 other
    · exact old
  · intro old
    have mem := perm.mem_iff.mpr (List.mem_cons_of_mem _ old)
    refine ⟨mem, ?_⟩
    rintro rfl
    -- the new payload was not live before
    obtain rfl := used_size_unique (by decide) granted mem
    exact (List.nodup_cons.mp nodup).1 old

/-- What an allocation that succeeds returned, if it grants the request or fails. -/
theorem undone_of_result {h : Heap} {start stop n : Nat} {bs : List Block}
    {r : Option (Heap × Word)} (inv : HeapInv h start stop bs)
    (result : (∃ p h' bs', 0 < p ∧ p < 2 ^ 64 ∧ r = some (h', loc p) ∧
      Grants h h' start stop bs bs' p n) ∨ r = some (h, 0))
    {h' : Heap} {ptr : Word} (run : r = some (h', ptr)) (nonnull : ptr ≠ 0) :
    SameList (h'.kfree ptr) h := by
  rcases result with ⟨p, h₁, bs', -, top, granted, grants⟩ | fail
  · obtain ⟨rfl, rfl⟩ := Prod.mk.inj (Option.some.inj (granted.symm.trans run))
    exact grant_undone inv top grants
  · obtain ⟨rfl, rfl⟩ := Prod.mk.inj (Option.some.inj (fail.symm.trans run))
    exact absurd rfl nonnull

/-- The pointers in `l` are live, each named once. -/
def LivePointers (s : HeapRun) (l : List Word) : Prop :=
  l.Nodup ∧ ∀ p ∈ l, ∃ n, (p, n) ∈ s.live

/-- The list depends on the live allocations only: `kfree` undoes `kmalloc` and
`kmalloc_aligned`, releases commute, and with nothing live the list is that of
`Heap_Init`. -/
structure ListOfLive (s : HeapRun) (start size : Word) : Prop where
  undoes : ∀ n h p, s.heap.kmalloc n = some (h, p) → p ≠ 0 → SameList (h.kfree p) s.heap
  undoesAligned : ∀ n a h p, n.toNat + a.toNat + 32 < 2 ^ 64 →
    s.heap.kmallocAligned n a = some (h, p) → p ≠ 0 → SameList (h.kfree p) s.heap
  order : ∀ l l', LivePointers s l → l.Perm l' →
    SameList (l.foldl Heap.kfree s.heap) (l'.foldl Heap.kfree s.heap)
  all : ∀ l, LivePointers s l → (∀ a ∈ s.live, a.1 ∈ l) →
    ∀ m, SameList (l.foldl Heap.kfree s.heap) (Heap.init m start size)

/-- The heap is determined by its live set in every state of every run. -/
theorem heap_determined_by_live {start size : Word} (region : HeapRegion start size) :
    ((sys start size).guard Fitting).Invariant fun s => ListOfLive s start size := by
  intro s hs
  obtain ⟨bs, payloads, inv, perm, backed⟩ := heapClients_invariant region s hs
  -- a live pointer is the address of a used payload, and the other way round
  have payload : ∀ p n, (p, n) ∈ s.live → ∃ t, (p.toNat, t) ∈ used 32 start.toNat bs := by
    intro p n live
    obtain ⟨t, ht, -⟩ := backed.mem live
    exact ⟨t, perm.mem_iff.mpr ht⟩
  have frees : ∀ l, LivePointers s l → ∃ bs',
      HeapInv (l.foldl Heap.kfree s.heap) start.toNat (start.toNat + size.toNat) bs' ∧
        ∀ x, x ∈ used 32 start.toNat bs' ↔
          x ∈ used 32 start.toNat bs ∧ ∀ p ∈ l, x.1 ≠ p.toNat := by
    rintro l ⟨nodup, live⟩
    apply kfrees_used l inv nodup
    intro p hp
    obtain ⟨n, hn⟩ := live p hp
    exact payload p n hn
  refine ⟨?_, ?_, ?_, ?_⟩
  · intro n h p run nonnull
    exact undone_of_result inv (kmalloc_grants inv n) run nonnull
  · intro n a h p fits run nonnull
    by_cases small : a ≤ 16
    · rw [Heap.kmallocAligned, if_pos small] at run
      exact undone_of_result inv (kmalloc_grants inv n) run nonnull
    · rw [BitVec.le_def] at small
      exact undone_of_result inv (kmallocAligned_grants inv fits (Nat.not_le.mp small)) run nonnull
  · intro l l' live same
    have live' : LivePointers s l' :=
      ⟨same.nodup_iff.mp live.1, fun p hp => live.2 p (same.mem_iff.mpr hp)⟩
    obtain ⟨bs₁, inv₁, left₁⟩ := frees l live
    obtain ⟨bs₂, inv₂, left₂⟩ := frees l' live'
    refine inv₁.sameList_of_used inv₂ ?_
    intro x
    simp only [left₁, left₂, same.mem_iff]
  · intro l live everything m
    obtain ⟨bs₁, inv₁, left₁⟩ := frees l live
    have top := region.top
    have fresh := heapInit_inv m region.pos region.room (by omega) (by omega)
    refine inv₁.sameList_of_used fresh ?_
    rintro ⟨q, t⟩
    rw [left₁]
    constructor
    · rintro ⟨mem, kept⟩
      -- every payload has an owner, who freed it
      obtain ⟨a, ha, owner⟩ := backed.owner (perm.mem_iff.mp mem)
      exact absurd owner.symm (kept a.1 (everything a ha))
    · intro mem
      simp [used] at mem

/-- A 64 KiB heap with an ordinary and an aligned allocation. -/
theorem twoLive_reachable : ∃ s, ((sys 4096 65536).guard Fitting).Reachable s ∧
    s.live = [(4352, 50), (4128, 100)] := by
  obtain ⟨s₁, s, hs₁, hs₂, live⟩ := twoLive_run
  have first : ((sys 4096 65536).guard Fitting).Reachable s₁ :=
    .step (e := .kmalloc 100) (.init ⟨_, rfl⟩) ⟨trivial, trivial, hs₁⟩
  refine ⟨s, .step (e := .kmallocAligned 50 64) first ⟨.inr (.inl ?_), trivial, hs₂⟩, live⟩
  decide

/-- Both are freed, in either order. -/
theorem heap_determined_by_live_64K : ∃ s : HeapRun, s.live = [(4352, 50), (4128, 100)] ∧
    SameList ((s.heap.kfree 4128).kfree 4352) ((s.heap.kfree 4352).kfree 4128) ∧
    SameList ((s.heap.kfree 4128).kfree 4352) (Heap.init (fun _ => 0) 4096 65536) := by
  obtain ⟨s, hs, live⟩ := twoLive_reachable
  have determined :=
    heap_determined_by_live (show HeapRegion 4096 65536 from ⟨by decide, by decide, by decide⟩)
      s hs
  have both : LivePointers s [4128, 4352] := by
    refine ⟨by decide, ?_⟩
    rw [live]
    intro p hp
    rcases List.mem_pair.mp hp with rfl | rfl
    · exact ⟨100, by decide⟩
    · exact ⟨50, by decide⟩
  refine ⟨s, live, determined.order [4128, 4352] [4352, 4128] both (.swap _ _ _), ?_⟩
  refine determined.all [4128, 4352] both ?_ _
  rw [live]
  intro a ha
  rcases List.mem_pair.mp ha with rfl | rfl
  · exact List.mem_cons_of_mem _ List.mem_cons_self
  · exact List.mem_cons_self

end Coolos.Theorems
