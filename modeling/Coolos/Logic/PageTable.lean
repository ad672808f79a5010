import Coolos.Kernel.PageTable
import Coolos.Lib.Paging
import Coolos.Logic.PageRun

/-!
# What the page table functions do to the tree

`TablesInv` ties memory and bitmap together: memory holds a tree of tables, each
on a page that is marked used and that no one else owns. `GetOrCreateTable`
goes down one level, adding a table when there is none; `PageTable_Map` and
`PageTable_UnMap` set one leaf entry and keep every other.
-/

namespace Coolos

open Lib Lib.Paging PageAllocator

/-- The ranges others have allocated: apart, used, below `MAX_PAGES`. -/
structure OwnedInv (pa : PageAllocator) (owned : List (Word × Word)) : Prop where
  disjoint : owned.Pairwise fun a b => ∀ p, ¬ (InRange a p ∧ InRange b p)
  used : ∀ a ∈ owned, ∀ p, InRange a p → ¬ pa.Clear p
  inside : ∀ a ∈ owned, a.1.toNat / 4096 + a.2.toNat ≤ maxPages

/-- Page `t` is one the allocator gave out, and not one of the ranges. -/
structure Kept (pa : PageAllocator) (owned : List (Word × Word)) (t : Nat) : Prop where
  low : 1 ≤ t
  high : t < pa.totalPages.toNat
  used : ¬ pa.Clear t
  apart : ∀ a ∈ owned, ¬ InRange a t

/-- Memory holds the tree `T`, on pages of its own. -/
structure TablesInv (k : Kernel) (owned : List (Word × Word)) (root : Nat) (T : Tables)
    (leaf : Nat → Word) : Prop where
  holds : Holds k.mem 3 root T leaf
  kept : ∀ l n t, T l n = some t → Kept k.pages owned t
  own : OwnedInv k.pages owned

theorem entryAddr_table (t : Nat) (i : Word) :
    entryAddr (loc (t * 4096)) i = loc (t * 4096 + 8 * i.toNat) :=
  entry_addr t i

theorem entryAddr_read (m : Mem) (t : Nat) (i : Word) :
    m.read64 (entryAddr (loc (t * 4096)) i) = entry m t i.toNat :=
  entry_eq m t i

/-- A single page from the allocator. -/
theorem alloc_page {pa pa' : PageAllocator} {ptr : Word} (h : pa.alloc 1 = (pa', ptr))
    (hptr : ptr ≠ 0) : ∃ c, ptr = loc (c * 4096) ∧ c < 2 ^ 40 ∧ 1 ≤ c ∧ c < pa.totalPages.toNat ∧
      pa.Clear c ∧ pa'.totalPages = pa.totalPages ∧ ∀ p, pa'.Clear p ↔ pa.Clear p ∧ p ≠ c := by
  obtain ⟨c, -, addr, -, run, total, bits⟩ := alloc_success h hptr
  have one : (1 : Word).toNat = 1 := rfl
  have low := run.low
  have high := run.high
  rw [one] at high
  have bounded := pa.bounded
  have pages : maxPages = 1048576 := rfl
  refine ⟨c, BitVec.eq_of_toNat_eq (by rw [addr, toNat_loc (by omega)]), by omega, low, by omega,
    run.clear 0 (by decide), total, fun p => ?_⟩
  rw [bits, one]
  exact and_congr_right fun _ => by omega

/-! ## Clearing a table -/

theorem entry_clearTable {m : Mem} {c t j : Nat} (hc : c < 2 ^ 40) (ht : t < 2 ^ 40)
    (hj : j < 512) : ∀ n ≤ 512, entry (clearTable m (loc (c * 4096)) n) t j =
      if t = c ∧ j < n then 0 else entry m t j := by
  intro n
  induction n with
  | zero => intro _; rw [clearTable, if_neg (fun h => Nat.not_lt_zero _ h.2)]
  | succ n ih =>
      intro hn
      have place : entryAddr (loc (c * 4096)) (loc n) = loc (c * 4096 + 8 * n) := by
        rw [entryAddr_table, toNat_loc (by omega)]
      rw [clearTable, place, entry_write hc ht (by omega) hj, ih (by omega)]
      by_cases here : t = c ∧ j = n
      · rw [if_pos here, if_pos ⟨here.1, by omega⟩]
      · rw [if_neg here]
        by_cases below : t = c ∧ j < n
        · rw [if_pos below, if_pos ⟨below.1, by omega⟩]
        · rw [if_neg below, if_neg (by omega)]

/-! ## `GetOrCreateTable` -/

section Operations

variable {k : Kernel} {owned : List (Word × Word)} {root : Nat} {T : Tables} {leaf : Nat → Word}

/-- An entry on the way of `v` is 0 or points at the next table. -/
theorem TablesInv.next (inv : TablesInv k owned root T leaf) {v i : Word} {l t : Nat} (hl : l < 3)
    (ht : T (l + 1) (page v / 512 ^ (l + 1 + 1)) = some t) (hi : i = index v (l + 1)) :
    let e := k.mem.read64 (entryAddr (loc (t * 4096)) i)
    (T l (page v / 512 ^ (l + 1)) = none ∧ e &&& pagePresent = 0) ∨
      ∃ c, T l (page v / 512 ^ (l + 1)) = some c ∧ e &&& pagePresent ≠ 0 ∧
        e &&& ~~~0xFFF = loc (c * 4096) := by
  have here := inv.holds.inner l _ t hl ht (page v / 512 ^ (l + 1) % 512)
    (Nat.mod_lt _ (by decide))
  rw [prefix_step] at here
  intro e
  have read : e = entry k.mem t (page v / 512 ^ (l + 1) % 512) := by
    rw [← toNat_index, ← hi, ← entryAddr_read]
  rw [read, here]
  cases below : T l (page v / 512 ^ (l + 1)) with
  | none => exact .inl ⟨rfl, by rw [Option.map_none, Option.getD_none]; rfl⟩
  | some c =>
      have csmall := inv.holds.small _ _ c below
      rw [Option.map_some, Option.getD_some]
      exact .inr ⟨c, rfl, link_present csmall, link_addr csmall⟩

/-- Going down to the table of `n` in level `l` takes nothing, or one page for the
table that was missing. -/
def Grows (k k' : Kernel) (T T' : Tables) (l n : Nat) : Prop :=
  (k' = k ∧ T' = T) ∨ T l n = none ∧ (∃ c, T' = T.add l n c) ∧
    ∃ ptr, ptr ≠ 0 ∧ k.pages.alloc 1 = (k'.pages, ptr)

/-- One level down: the table is there, or is made, or no page was left. -/
theorem TablesInv.getOrCreateTable (inv : TablesInv k owned root T leaf) {v i : Word} {l t : Nat}
    (hl : l < 3) (ht : T (l + 1) (page v / 512 ^ (l + 1 + 1)) = some t)
    (hi : i = index v (l + 1)) :
    (k.getOrCreateTable (loc (t * 4096)) i = (k, 0) ∧ T l (page v / 512 ^ (l + 1)) = none ∧
        (k.pages.alloc 1).2 = 0) ∨
      ∃ k' T' c, k.getOrCreateTable (loc (t * 4096)) i = (k', loc (c * 4096)) ∧
        T' l (page v / 512 ^ (l + 1)) = some c ∧ TablesInv k' owned root T' leaf ∧
        Grows k k' T T' l (page v / 512 ^ (l + 1)) := by
  rcases inv.next hl ht hi with ⟨missing, absent⟩ | ⟨c, below, there, addr⟩
  · have absent := not_not_intro absent
    rcases h : k.pages.alloc 1 with ⟨pa, ptr⟩
    by_cases null : ptr = 0
    · -- no page was left
      subst null
      obtain ⟨rfl, -⟩ := alloc_null h
      refine .inl ⟨?_, missing, rfl⟩
      rw [Kernel.getOrCreateTable, if_neg absent, h]
      rfl
    · obtain ⟨c, rfl, csmall, low, high, clear, total, bits⟩ := alloc_page h null
      have fresh : ∀ l' n', T l' n' ≠ some c := fun l' n' h' => (inv.kept l' n' c h').used clear
      have stays : ∀ p, ¬ k.pages.Clear p → ¬ pa.Clear p := fun p hp h' => hp ((bits p).mp h').1
      let m := clearTable k.mem (loc (c * 4096)) 512
      have cleared : Holds m 3 root T leaf := by
        refine inv.holds.congr fun l' n' t' h' j hj => ?_
        rw [entry_clearTable csmall (inv.holds.small _ _ t' h') hj 512 le_rfl, if_neg]
        rintro ⟨rfl, -⟩
        exact fresh _ _ h'
      have empty : ∀ j < 512, entry m c j = 0 := by
        intro j hj
        rw [entry_clearTable csmall csmall hj 512 le_rfl, if_pos ⟨rfl, hj⟩]
      have digit : i.toNat = page v / 512 ^ (l + 1) % 512 := by rw [hi, toNat_index]
      have linked := cleared.addTable hl ht (i := i.toNat)
        (by rw [digit]; exact Nat.mod_lt _ (by decide)) (by rwa [digit, prefix_step]) fresh csmall
        empty
      rw [digit, prefix_step, ← digit] at linked
      have made : link c = loc (c * 4096) ||| pagePresent ||| pageWritable ||| pageUser := by
        rw [link, BitVec.or_assoc, BitVec.or_assoc]
        rfl
      refine .inr ⟨{ k with pages := pa, mem := m.write64 (loc (t * 4096 + 8 * i.toNat)) (link c) },
        T.add l (page v / 512 ^ (l + 1)) c, c, ?_, T.add_self .., ⟨linked, fun l' n' t' h' => ?_,
        inv.own.disjoint, fun a ha p hp => stays p (inv.own.used a ha p hp), inv.own.inside⟩,
        .inr ⟨missing, ⟨c, rfl⟩, _, null, h⟩⟩
      · rw [Kernel.getOrCreateTable, if_neg absent, h]
        simp only [if_neg null, entryAddr_table, made]
        rfl
      · by_cases new : l' = l ∧ n' = page v / 512 ^ (l + 1)
        · -- a page that was clear is no one else's
          obtain rfl : c = t' := by
            simpa only [Tables.add, if_pos new, Option.some.injEq] using h'
          exact ⟨low, total ▸ high, fun h => ((bits c).mp h).2 rfl,
            fun a ha hr => inv.own.used a ha c hr clear⟩
        · rw [T.add_of_ne new] at h'
          have old := inv.kept l' n' t' h'
          exact ⟨old.low, total ▸ old.high, stays t' old.used, old.apart⟩
  · refine .inr ⟨k, T, c, ?_, below, inv, .inl ⟨rfl, rfl⟩⟩
    rw [Kernel.getOrCreateTable, if_pos there, addr]

/-- A leaf entry of the page of `v` is set. -/
theorem TablesInv.setLeaf (inv : TablesInv k owned root T leaf) {v : Word} {t : Nat}
    (ht : T 0 (page v / 512 ^ (0 + 1)) = some t) (e : Word) :
    TablesInv { k with mem := k.mem.write64 (entryAddr (loc (t * 4096)) (ptIdx v)) e } owned root T
      (Function.update leaf (page v) e) := by
  have digit : (ptIdx v).toNat = page v / 512 ^ 0 % 512 := toNat_index v 0
  have set := inv.holds.setLeaf ht (i := page v / 512 ^ 0 % 512) (Nat.mod_lt _ (by decide)) e
  rw [prefix_step, Nat.pow_zero, Nat.div_one] at set
  refine ⟨?_, inv.kept, inv.own⟩
  rw [entryAddr_table, digit, Nat.pow_zero, Nat.div_one]
  exact set

/-- The tree of a root without tables below it. -/
def Tables.single (c : Nat) : Tables := fun l n => if l = 3 ∧ n = 0 then some c else none

theorem Tables.single_eq_some {c l n t : Nat} (h : Tables.single c l n = some t) :
    (l = 3 ∧ n = 0) ∧ t = c := by
  unfold Tables.single at h
  split at h
  · rename_i here
    exact ⟨here, (Option.some.inj h).symm⟩
  · exact absurd h (by simp)

/-- A fresh zeroed root is a tree of one table. -/
theorem TablesInv.fresh {pa : PageAllocator} {pml4 : Word} (own : OwnedInv k.pages owned)
    (run : k.pages.alloc 1 = (pa, pml4)) (nonzero : pml4 ≠ 0) :
    ∃ c, pml4 = loc (c * 4096) ∧ TablesInv
      { k with pages := pa, mem := clearTable k.mem pml4 512 } owned c (Tables.single c)
      fun _ => 0 := by
  obtain ⟨c, rfl, csmall, low, high, clear, total, bits⟩ := alloc_page run nonzero
  refine ⟨c, rfl, ?_, ?_, ?_⟩
  · refine ⟨if_pos ⟨rfl, rfl⟩, ?_, ?_, ?_, ?_, fun n h => absurd rfl h, ?_⟩
    · intro l n t h
      rw [(Tables.single_eq_some h).2]
      exact csmall
    · intro l n t hl h i hi
      obtain ⟨⟨level, rfl⟩, rfl⟩ := Tables.single_eq_some h
      rw [entry_clearTable csmall csmall hi 512 le_rfl, if_pos ⟨rfl, hi⟩, Tables.single,
        if_neg (by omega)]
      rfl
    · intro n t h
      exact absurd (Tables.single_eq_some h).1.1 (by decide)
    · intro l n t hl h
      exact absurd (Tables.single_eq_some h).1.1 (by omega)
    · intro l n l' n' t h h'
      obtain ⟨⟨rfl, rfl⟩, -⟩ := Tables.single_eq_some h
      obtain ⟨⟨rfl, rfl⟩, -⟩ := Tables.single_eq_some h'
      exact ⟨rfl, rfl⟩
  · intro l n t h
    obtain ⟨-, rfl⟩ := Tables.single_eq_some h
    exact ⟨low, total ▸ high, fun h => ((bits t).mp h).2 rfl,
      fun a ha hr => own.used a ha t hr clear⟩
  · exact ⟨own.disjoint, fun a ha p hp h => own.used a ha p hp ((bits p).mp h).1, own.inside⟩

/-! ## `PageTable_Map` and `PageTable_UnMap` -/

/-- `PageTable_Map` finds or makes the three tables it needs. -/
def Supplied (k : Kernel) (pml4 virt : Word) : Prop :=
  let pdp := k.getOrCreateTable pml4 (pml4Idx virt)
  let pd := pdp.1.getOrCreateTable pdp.2 (pdpIdx virt)
  let pt := pd.1.getOrCreateTable pd.2 (pdIdx virt)
  pdp.2 ≠ 0 ∧ pd.2 ≠ 0 ∧ pt.2 ≠ 0

instance (k : Kernel) (pml4 virt : Word) : Decidable (Supplied k pml4 virt) :=
  inferInstanceAs (Decidable (_ ∧ _))

theorem page_root {v : Word} (hv : v.toNat < 2 ^ 48) : page v / 512 ^ (3 + 1) = 0 :=
  Nat.div_eq_of_lt (by rw [page]; omega)

theorem TablesInv.top (inv : TablesInv k owned root T leaf) {v : Word} (hv : v.toNat < 2 ^ 48) :
    T 3 (page v / 512 ^ (3 + 1)) = some root := by
  rw [page_root hv]
  exact inv.holds.root

/-- `GetOrCreateTable` with `k` goes from table `t` down to table `c` of level `l`, which it
found or made. -/
structure Descends (k k' : Kernel) (owned : List (Word × Word)) (root : Nat) (T T' : Tables)
    (leaf : Nat → Word) (v i : Word) (l t c : Nat) : Prop where
  run : k.getOrCreateTable (loc (t * 4096)) i = (k', loc (c * 4096))
  table : T' l (page v / 512 ^ (l + 1)) = some c
  inv : TablesInv k' owned root T' leaf
  grows : Grows k k' T T' l (page v / 512 ^ (l + 1))

/-- The three calls of `PageTable_Map`. -/
theorem TablesInv.descends (inv : TablesInv k owned root T leaf) {v : Word} (hv : v.toNat < 2 ^ 48)
    (supplied : Supplied k (loc (root * 4096)) v) : ∃ k₁ T₁ pdp k₂ T₂ pd k₃ T₃ pt,
      Descends k k₁ owned root T T₁ leaf v (pml4Idx v) 2 root pdp ∧
      Descends k₁ k₂ owned root T₁ T₂ leaf v (pdpIdx v) 1 pdp pd ∧
      Descends k₂ k₃ owned root T₂ T₃ leaf v (pdIdx v) 0 pd pt := by
  unfold Supplied at supplied
  rcases inv.getOrCreateTable (i := pml4Idx v) (by decide) (inv.top hv) rfl with
    ⟨fail, -⟩ | ⟨k₁, T₁, pdp, run₁, ht₁, inv₁, grows₁⟩
  · simp only [fail] at supplied
    exact absurd rfl supplied.1
  rcases inv₁.getOrCreateTable (i := pdpIdx v) (by decide) ht₁ rfl with
    ⟨fail, -⟩ | ⟨k₂, T₂, pd, run₂, ht₂, inv₂, grows₂⟩
  · simp only [run₁, fail] at supplied
    exact absurd rfl supplied.2.1
  rcases inv₂.getOrCreateTable (i := pdIdx v) (by decide) ht₂ rfl with
    ⟨fail, -⟩ | ⟨k₃, T₃, pt, run₃, ht₃, inv₃, grows₃⟩
  · simp only [run₁, run₂, fail] at supplied
    exact absurd rfl supplied.2.2
  exact ⟨k₁, T₁, pdp, k₂, T₂, pd, k₃, T₃, pt, ⟨run₁, ht₁, inv₁, grows₁⟩,
    ⟨run₂, ht₂, inv₂, grows₂⟩, ⟨run₃, ht₃, inv₃, grows₃⟩⟩

/-- `PageTable_Map` sets the leaf entry of the page, and only that one. -/
theorem TablesInv.map (inv : TablesInv k owned root T leaf) {v : Word} (hv : v.toNat < 2 ^ 48)
    (supplied : Supplied k (loc (root * 4096)) v) (p f : Word) :
    ∃ T', TablesInv (k.pageTableMap (loc (root * 4096)) v p f) owned root T'
      (Function.update leaf (page v) (p ||| f ||| pagePresent)) := by
  obtain ⟨k₁, T₁, pdp, k₂, T₂, pd, k₃, T₃, pt, first, second, third⟩ := inv.descends hv supplied
  refine ⟨T₃, ?_⟩
  simp only [Kernel.pageTableMap, first.run, second.run, third.run]
  exact third.inv.setLeaf third.table _

/-- A page without its tables has no entry to clear. -/
theorem TablesInv.update_missing (inv : TablesInv k owned root T leaf) {n l : Nat} (hl : l ≤ 3)
    (missing : T l (n / 512 ^ (l + 1)) = none) : Function.update leaf n 0 = leaf := by
  rw [← inv.holds.unmapped hl missing, Function.update_eq_self]

/-- `PageTable_UnMap` clears the leaf entry of the page, and only that one. -/
theorem TablesInv.unMap (inv : TablesInv k owned root T leaf) {v : Word} (hv : v.toNat < 2 ^ 48) :
    TablesInv (k.pageTableUnMap (loc (root * 4096)) v) owned root T
      (Function.update leaf (page v) 0) := by
  rcases inv.next (i := pml4Idx v) (by decide) (inv.top hv) rfl with
    ⟨missing, absent⟩ | ⟨pdp, ht₂, there₃, addr₃⟩
  · simp only [Kernel.pageTableUnMap, absent, if_true]
    rwa [inv.update_missing (by decide) missing]
  rcases inv.next (i := pdpIdx v) (by decide) ht₂ rfl with
    ⟨missing, absent⟩ | ⟨pd, ht₁, there₂, addr₂⟩
  · simp only [Kernel.pageTableUnMap, there₃, addr₃, absent, if_true, if_false]
    rwa [inv.update_missing (by decide) missing]
  rcases inv.next (i := pdIdx v) (by decide) ht₁ rfl with
    ⟨missing, absent⟩ | ⟨pt, ht₀, there₁, addr₁⟩
  · simp only [Kernel.pageTableUnMap, there₃, addr₃, there₂, addr₂, absent, if_true, if_false]
    rwa [inv.update_missing (by decide) missing]
  simp only [Kernel.pageTableUnMap, there₃, addr₃, there₂, addr₂, there₁, addr₁, if_false]
  exact inv.setLeaf ht₀ 0

end Operations
end Coolos
