import Coolos.Logic.HeapOps
import Coolos.Lib.TSys

/-!
# Runs of the heap

The heap under its clients: any sequence of `kmalloc`, `kmalloc_aligned` and
`kfree`, with the allocations still live recorded beside it. `HeapRunInv` ties
the record to the block list, one used payload for each live allocation, and
every step keeps it.
-/

namespace Coolos

open Lib Lib.BlockList HeapBlock

/-- A call to the heap. -/
inductive HeapOp where
  | kmalloc (size : Word)
  | kmallocAligned (size alignment : Word)
  | kfree (ptr : Word)

/-- The heap and the allocations not yet freed: address and requested size. -/
structure HeapRun where
  heap : Heap
  live : List (Word × Word)

namespace HeapRun

/-- What clients may call. Aligned requests take a power of two and stay clear
of the top of the address space; `kfree` takes `NULL` or a live address. -/
def Allowed (s : HeapRun) : HeapOp → Prop
  | .kmalloc _ => True
  | .kmallocAligned size alignment =>
      (∃ k, alignment.toNat = 2 ^ k) ∧ size.toNat + alignment.toNat + 32 < 2 ^ 64
  | .kfree ptr => ptr = 0 ∨ ∃ size, (ptr, size) ∈ s.live

/-- The record of live allocations after an allocation returned `ptr`. -/
def grant (live : List (Word × Word)) (ptr size : Word) : List (Word × Word) :=
  if ptr = 0 then live else (ptr, size) :: live

/-- Carry out a call, `none` when it does not return. -/
def step (s : HeapRun) : HeapOp → Option HeapRun
  | .kmalloc size =>
      (s.heap.kmalloc size).map fun r => ⟨r.1, grant s.live r.2 size⟩
  | .kmallocAligned size alignment =>
      (s.heap.kmallocAligned size alignment).map fun r => ⟨r.1, grant s.live r.2 size⟩
  | .kfree ptr => some ⟨s.heap.kfree ptr, s.live.eraseP fun a => a.1 = ptr⟩

/-- Runs from `Heap_Init(start, size)`. -/
def sys (start size : Word) : TSys HeapRun HeapOp where
  init s := ∃ m, s = ⟨Heap.init m start size, []⟩
  next s op s' := s.Allowed op ∧ s.step op = some s'

end HeapRun

/-! ## `Heap_Init` -/

/-- A fresh heap is one free block. -/
theorem heapInit_inv {start size : Word} (m : Mem) (pos : start ≠ 0) (room : 32 ≤ size.toNat)
    (top : start.toNat + size.toNat < 2 ^ 64) (narrow : size.toNat + 16 < 2 ^ 64) :
    HeapInv (Heap.init m start size) start.toNat (start.toNat + size.toNat)
      [⟨size.toNat - 32, true⟩] where
  linked := by
    refine ⟨?_, trivial⟩
    have less : loc (size.toNat - 32) = size - sizeofHeapBlock := by
      rw [loc_sub room, loc_toNat]
      rfl
    rw [loc_toNat]
    simp only [Heap.init, read_setFree, read_setPrev, read_setNext, read_setSize, less]
    rfl
  head := by rw [loc_toNat]; rfl
  tiles := by simp only [span_cons, span_nil]; omega
  pos := Nat.pos_of_ne_zero fun h => pos (BitVec.eq_of_toNat_eq h)
  top := top
  narrow := by omega
  nonempty := by simp
  coalesced := List.isChain_singleton _

/-! ## The invariant of a run -/

/-- Each live allocation has a used payload of its own, large enough. -/
def Backed : List (Word × Word) → List (Nat × Nat) → Prop :=
  List.Forall₂ fun a b => a.1.toNat = b.1 ∧ a.2.toNat ≤ b.2

/-- The block list in memory backs the live allocations, and nothing else is
used. -/
def HeapRunInv (start stop : Nat) (s : HeapRun) : Prop :=
  ∃ bs payloads, HeapInv s.heap start stop bs ∧ (used 32 start bs).Perm payloads ∧
    Backed s.live payloads

/-- The bytes of the live payloads are as they were. -/
def KeepsLive (s : HeapRun) (h : Heap) : Prop :=
  ∀ a ∈ s.live, ∀ i < a.2.toNat, h.mem (a.1 + loc i) = s.heap.mem (a.1 + loc i)

theorem Backed.mem {live : List (Word × Word)} {payloads : List (Nat × Nat)}
    (h : Backed live payloads) {a : Word × Word} (ha : a ∈ live) :
    ∃ s, (a.1.toNat, s) ∈ payloads ∧ a.2.toNat ≤ s := by
  induction h with
  | nil => simp at ha
  | cons hab _ ih =>
      rcases List.mem_cons.mp ha with rfl | later
      · exact ⟨_, by rw [hab.1]; exact List.mem_cons_self, hab.2⟩
      · obtain ⟨s, hs, le⟩ := ih later
        exact ⟨s, List.mem_cons_of_mem _ hs, le⟩

/-- A used payload has an owner. -/
theorem Backed.owner {live : List (Word × Word)} {payloads : List (Nat × Nat)}
    (h : Backed live payloads) {b : Nat × Nat} (hb : b ∈ payloads) :
    ∃ a ∈ live, a.1.toNat = b.1 := by
  induction h with
  | nil => cases hb
  | cons hab _ ih =>
      rcases List.mem_cons.mp hb with rfl | later
      · exact ⟨_, List.mem_cons_self, hab.1⟩
      · obtain ⟨a, ha, same⟩ := ih later
        exact ⟨a, List.mem_cons_of_mem _ ha, same⟩

/-- The payload of one allocation can be taken out. -/
theorem Backed.split {pre post : List (Word × Word)} {a : Word × Word}
    {payloads : List (Nat × Nat)} (h : Backed (pre ++ a :: post) payloads) :
    ∃ s rest, payloads.Perm ((a.1.toNat, s) :: rest) ∧ Backed (pre ++ post) rest := by
  induction pre generalizing payloads with
  | nil =>
      cases h with
      | @cons _ b _ rest hab htail => exact ⟨b.2, rest, by rw [hab.1], htail⟩
  | cons c pre ih =>
      cases h with
      | @cons _ b _ rest hcb htail =>
          obtain ⟨s, rest, perm, backed⟩ := ih htail
          exact ⟨s, b :: rest, (perm.cons b).trans (.swap _ _ _), .cons hcb backed⟩

/-- What holds between any two payloads holds between any two allocations. -/
theorem Backed.pairwise {R : Nat × Nat → Nat × Nat → Prop}
    {S : Word × Word → Word × Word → Prop} {live : List (Word × Word)}
    {payloads : List (Nat × Nat)} (h : Backed live payloads) (hR : payloads.Pairwise R)
    (sub : ∀ a b s t, a.2.toNat ≤ s → b.2.toNat ≤ t → R (a.1.toNat, s) (b.1.toNat, t) → S a b) :
    live.Pairwise S := by
  induction h with
  | nil => exact .nil
  | @cons a b live payloads hab htail ih =>
      obtain ⟨hhead, hrest⟩ := List.pairwise_cons.mp hR
      refine List.pairwise_cons.mpr ⟨fun c hc => ?_, ih hrest⟩
      obtain ⟨t, ht, le⟩ := Backed.mem htail hc
      exact sub a c b.2 t hab.2 le (hab.1 ▸ hhead _ ht)

section Step

variable {start stop : Nat} {s : HeapRun}

/-- A frame over the used payloads covers the live ones. -/
theorem keepsLive_of_used {h : Heap} {bs : List Block} {payloads : List (Nat × Nat)}
    (perm : (used 32 start bs).Perm payloads) (backed : Backed s.live payloads)
    (keeps : ∀ q t x, (q, t) ∈ used 32 start bs → q ≤ x → x < q + t →
      h.mem (loc x) = s.heap.mem (loc x)) : KeepsLive s h := by
  intro a ha i hi
  obtain ⟨t, ht, le⟩ := backed.mem ha
  have := keeps a.1.toNat t (a.1.toNat + i) (perm.mem_iff.mpr ht) (by omega) (by omega)
  rwa [loc_add, loc_toNat] at this

/-- An allocation that returns. -/
theorem HeapRunInv.alloc {bs : List Block} {payloads : List (Nat × Nat)}
    {r : Option (Heap × Word)} {size : Word}
    (inv : HeapInv s.heap start stop bs) (perm : (used 32 start bs).Perm payloads)
    (backed : Backed s.live payloads)
    (result : (∃ p h' bs', 0 < p ∧ p < 2 ^ 64 ∧ r = some (h', loc p) ∧
      Grants s.heap h' start stop bs bs' p size.toNat) ∨ r = some (s.heap, 0)) :
    ∃ h' ptr, r = some (h', ptr) ∧
      HeapRunInv start stop ⟨h', HeapRun.grant s.live ptr size⟩ ∧ KeepsLive s h' ∧
      (ptr = 0 → h' = s.heap) := by
  rcases result with ⟨p, h', bs', pos, top, rfl, grants⟩ | rfl
  · have hne : loc p ≠ 0 := by
      rw [Ne, show (0 : Word) = loc 0 from rfl, loc_inj top (by omega)]
      omega
    obtain ⟨t, room, more⟩ := grants.grant
    refine ⟨h', loc p, rfl, ⟨bs', (p, t) :: payloads, grants.inv, more.trans (perm.cons _), ?_⟩,
      keepsLive_of_used perm backed grants.keeps, fun h => absurd h hne⟩
    rw [HeapRun.grant, if_neg hne]
    exact .cons ⟨toNat_loc top, room⟩ backed
  · refine ⟨s.heap, 0, rfl, ⟨bs, payloads, inv, perm, ?_⟩, fun _ _ _ _ => rfl, fun _ => rfl⟩
    rw [HeapRun.grant, if_pos rfl]
    exact backed

theorem HeapRunInv.kmalloc (inv : HeapRunInv start stop s) (size : Word) :
    ∃ h' ptr, s.heap.kmalloc size = some (h', ptr) ∧
      HeapRunInv start stop ⟨h', HeapRun.grant s.live ptr size⟩ ∧ KeepsLive s h' ∧
      (ptr = 0 → h' = s.heap) := by
  obtain ⟨bs, payloads, heap, perm, backed⟩ := inv
  exact HeapRunInv.alloc heap perm backed (kmalloc_grants heap size)

theorem HeapRunInv.kmallocAligned (inv : HeapRunInv start stop s) {size alignment : Word}
    (fits : size.toNat + alignment.toNat + 32 < 2 ^ 64) :
    ∃ h' ptr, s.heap.kmallocAligned size alignment = some (h', ptr) ∧
      HeapRunInv start stop ⟨h', HeapRun.grant s.live ptr size⟩ ∧ KeepsLive s h' ∧
      (ptr = 0 → h' = s.heap) := by
  by_cases small : alignment ≤ 16
  · -- delegated to `kmalloc`
    simp only [Heap.kmallocAligned, small, if_true]
    exact inv.kmalloc size
  · obtain ⟨bs, payloads, heap, perm, backed⟩ := inv
    have large : 16 < alignment.toNat := by
      rw [BitVec.le_def] at small
      exact Nat.not_le.mp small
    exact HeapRunInv.alloc heap perm backed (kmallocAligned_grants heap fits large)

theorem HeapRunInv.kfree (inv : HeapRunInv start stop s) {ptr : Word}
    (ok : s.Allowed (.kfree ptr)) :
    HeapRunInv start stop ⟨s.heap.kfree ptr, s.live.eraseP fun a => a.1 = ptr⟩ ∧
      KeepsLive s (s.heap.kfree ptr) := by
  obtain ⟨bs, payloads, heap, perm, backed⟩ := inv
  by_cases live : ∃ size, (ptr, size) ∈ s.live
  · obtain ⟨size, mem⟩ := live
    obtain ⟨a, pre, post, -, ha, hlive, herase⟩ :=
      List.exists_of_eraseP (p := fun a : Word × Word => a.1 = ptr) mem (by simp)
    obtain rfl : a.1 = ptr := by simpa using ha
    obtain ⟨t, rest, take, backed'⟩ := (hlive ▸ backed : Backed (pre ++ a :: post) payloads).split
    have hused : (a.1.toNat, t) ∈ used 32 start bs :=
      perm.mem_iff.mpr (take.mem_iff.mpr List.mem_cons_self)
    obtain ⟨bs', heap', gone, keeps⟩ := kfree_releases heap hused
    rw [loc_toNat] at heap' keeps
    refine ⟨⟨bs', rest, heap', ?_, ?_⟩, keepsLive_of_used perm backed keeps⟩
    · exact (gone.symm.trans (perm.trans take)).cons_inv
    · show Backed (s.live.eraseP _) rest
      rw [herase]
      exact backed'
  · -- `NULL`, which is no live address
    obtain rfl : ptr = 0 := ok.resolve_right live
    have keep : s.live.eraseP (fun a => a.1 = 0) = s.live :=
      List.eraseP_of_forall_not fun a ha h =>
        live ⟨a.2, (show a.1 = 0 by simpa using h) ▸ ha⟩
    refine ⟨⟨bs, payloads, heap, perm, ?_⟩, fun _ _ _ _ => rfl⟩
    show Backed (s.live.eraseP _) payloads
    rw [keep]
    exact backed

/-- Every allowed call returns, keeps the invariant and the live bytes. -/
theorem HeapRunInv.step (inv : HeapRunInv start stop s) {op : HeapOp} (ok : s.Allowed op) :
    ∃ s', s.step op = some s' ∧ HeapRunInv start stop s' ∧ KeepsLive s s'.heap := by
  cases op with
  | kmalloc size =>
      obtain ⟨h', ptr, run, inv', keep, -⟩ := inv.kmalloc size
      exact ⟨_, by simp only [HeapRun.step, run, Option.map_some], inv', keep⟩
  | kmallocAligned size alignment =>
      obtain ⟨h', ptr, run, inv', keep, -⟩ := inv.kmallocAligned ok.2
      exact ⟨_, by simp only [HeapRun.step, run, Option.map_some], inv', keep⟩
  | kfree ptr => exact ⟨_, rfl, inv.kfree ok⟩

end Step

/-- `HeapRunInv` holds in every run that starts in room enough. -/
theorem heapRun_invariant {start size : Word} (pos : start ≠ 0) (room : 32 ≤ size.toNat)
    (top : start.toNat + size.toNat < 2 ^ 64) (narrow : size.toNat + 16 < 2 ^ 64) :
    (HeapRun.sys start size).Invariant
      (HeapRunInv start.toNat (start.toNat + size.toNat)) := by
  refine TSys.Inductive.invariant ⟨?_, ?_⟩
  · rintro s ⟨m, rfl⟩
    exact ⟨_, [], heapInit_inv m pos room top narrow, by simp [used], .nil⟩
  · rintro s op s' inv ⟨ok, run⟩
    obtain ⟨s₁, run₁, inv₁, -⟩ := inv.step ok
    exact Option.some.inj (run₁.symm.trans run) ▸ inv₁

end Coolos
