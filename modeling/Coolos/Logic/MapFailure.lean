import Coolos.Logic.SelfMap

/-!
# Running out of pages while mapping

`PageTable_Map` needs one table of each level below the root. Each that is not there yet
takes a page, and `GetOrCreateTable` returns the address 0 exactly when fewer pages are
left than tables are missing (`tablesMissing`).
-/

namespace Coolos

open Lib Lib.Paging PageAllocator

/-- The tables whose entries `PageTable_Map` reads or writes: the root, and what each call
of `GetOrCreateTable` returned. -/
def Kernel.mapTables (k : Kernel) (pml4 virt : Word) : List Word :=
  let pdp := k.getOrCreateTable pml4 (pml4Idx virt)
  let pd := pdp.1.getOrCreateTable pdp.2 (pdpIdx virt)
  let pt := pd.1.getOrCreateTable pd.2 (pdIdx virt)
  [pml4, pdp.2, pd.2, pt.2]

theorem not_mem_mapTables (k : Kernel) (pml4 virt : Word) :
    0 ∉ k.mapTables pml4 virt ↔ pml4 ≠ 0 ∧ Supplied k pml4 virt := by
  simp only [Kernel.mapTables, Supplied, List.mem_cons, List.not_mem_nil, or_false, not_or, ne_eq,
    eq_comm]

/-- None of this depends on the bits from 48 on. -/
theorem mapTables_low48 (k : Kernel) (pml4 v : Word) :
    k.mapTables pml4 v = k.mapTables pml4 (low48 v) := by
  rw [Kernel.mapTables, Kernel.mapTables, pml4Idx_low48, pdpIdx_low48, pdIdx_low48]

theorem tablesMissing_low48 (m : Mem) (v : Word) : ∀ l ≤ 3, ∀ table,
    tablesMissing m (low48 v) l table = tablesMissing m v l table := by
  intro l
  induction l with
  | zero => intro _ table; rfl
  | succ l ih =>
      intro hl table
      rw [tablesMissing, tablesMissing, index_low48 v hl, ih (by omega)]

theorem withinLarge_low48 (v : Word) {level : Nat} (hl : level ≤ 2) (t : Translation) :
    withinLarge (low48 v) level t = withinLarge v level t := by
  have within : low48 v &&& loc (2 ^ (12 + 9 * level) - 1) =
      v &&& loc (2 ^ (12 + 9 * level) - 1) := by
    have small : 2 ^ (12 + 9 * level) ∣ 2 ^ 48 := Nat.pow_dvd_pow 2 (by omega)
    have bound : 2 ^ (12 + 9 * level) ≤ 2 ^ 48 := Nat.le_of_dvd (by decide) small
    apply BitVec.eq_of_toNat_eq
    rw [BitVec.toNat_and, BitVec.toNat_and, toNat_loc (by omega), toNat_low48,
      Nat.and_two_pow_sub_one_eq_mod, Nat.and_two_pow_sub_one_eq_mod, Nat.mod_mod_of_dvd _ small]
  rw [withinLarge, withinLarge, within]

theorem walk_low48 (m : Mem) (v : Word) : ∀ l ≤ 3, ∀ table,
    walk m (low48 v) l table = walk m v l table := by
  intro l
  induction l with
  | zero =>
      intro _ table
      rw [walk, walk, index_low48 v (by decide)]
  | succ l ih =>
      intro hl table
      rw [walk, walk, index_low48 v hl, ih (by omega)]
      by_cases inner : l < 2
      · have large : withinLarge (low48 v) (l + 1) = withinLarge v (l + 1) :=
          funext (withinLarge_low48 v inner)
        rw [large]
      · simp only [if_neg inner]

section Missing

variable {k k' : Kernel} {owned : List (Word × Word)} {root : Nat} {T T' : Tables}
  {leaf : Nat → Word} {v : Word}

theorem TablesInv.table_ne_zero (inv : TablesInv k owned root T leaf) {l n t : Nat}
    (ht : T l n = some t) : loc (t * 4096) ≠ 0 := by
  have low := (inv.kept l n t ht).low
  have place := toNat_table (inv.holds.small l n t ht)
  intro zero
  rw [zero, show (0 : Word).toNat = 0 from rfl] at place
  omega

/-- They are the tables that a page of `v` alone lacks. -/
theorem TablesInv.tablesMissing (inv : TablesInv k owned root T leaf) (hv : v.toNat < 2 ^ 48) :
    tablesMissing k.mem v 3 (loc (root * 4096)) = missing T {page v} := by
  rw [inv.holds.tablesMissing v 3 le_rfl root (inv.top hv), missing]
  apply Finset.sum_congr rfl
  intro l _
  rw [serving, Finset.image_singleton, Finset.filter_singleton]
  split <;> rfl

/-- A table made is a page taken. -/
theorem Grows.balance {P : Finset Nat} {l n : Nat} (grows : Grows k k' T T' l n) (hl : l < 3)
    (hn : n ∈ serving P l) :
    missing T' P + k.pages.clearPages.card = missing T P + k'.pages.clearPages.card := by
  rcases grows with ⟨rfl, rfl⟩ | ⟨lacks, ⟨c, rfl⟩, ptr, nonzero, run⟩
  · rfl
  · have taken := card_clearPages_alloc run nonzero
    have made := missing_add hl hn lacks c
    rw [show (1 : Word).toNat = 1 from rfl] at taken
    omega

/-- The tables `PageTable_Map` needs are found or made exactly when there are pages left
for those missing. -/
theorem TablesInv.supplied_iff (inv : TablesInv k owned root T leaf) (hv : v.toNat < 2 ^ 48) :
    Supplied k (loc (root * 4096)) v ↔ missing T {page v} ≤ k.pages.clearPages.card := by
  have mine (l : Nat) : page v / 512 ^ (l + 1) ∈ serving {page v} l :=
    mem_serving (Finset.mem_singleton_self (page v)) l
  constructor
  · intro supplied
    obtain ⟨k₁, T₁, pdp, k₂, T₂, pd, k₃, T₃, pt, first, second, third⟩ := inv.descends hv supplied
    -- in the end no table is missing
    have lacked : missing T₃ {page v} = 0 := by
      apply Finset.sum_eq_zero
      intro l hl
      have hl : l < 3 := Finset.mem_range.mp hl
      have there : T₃ l (page v / 512 ^ (l + 1)) ≠ none := by
        intro lacks
        have bottom := third.inv.holds.none_below hl lacks 0 (Nat.zero_le l)
        rw [third.table] at bottom
        cases bottom
      rw [serving, Finset.image_singleton, Finset.filter_singleton, if_neg there,
        Finset.card_empty]
    have balance₁ := first.grows.balance (by decide) (mine 2)
    have balance₂ := second.grows.balance (by decide) (mine 1)
    have balance₃ := third.grows.balance (by decide) (mine 0)
    omega
  · intro enough
    have here := Finset.mem_singleton_self (page v)
    have spare : Spare k T {page v} 0 := enough
    obtain ⟨k₁, T₁, pdp, run₁, ht₁, inv₁, spare₁⟩ :=
      inv.create (i := pml4Idx v) spare (by decide) here (inv.top hv) rfl
    obtain ⟨k₂, T₂, pd, run₂, ht₂, inv₂, spare₂⟩ :=
      inv₁.create (i := pdpIdx v) spare₁ (by decide) here ht₁ rfl
    obtain ⟨k₃, T₃, pt, run₃, ht₃, inv₃, -⟩ :=
      inv₂.create (i := pdIdx v) spare₂ (by decide) here ht₂ rfl
    unfold Supplied
    simp only [run₁, run₂, run₃]
    exact ⟨inv₁.table_ne_zero ht₁, inv₂.table_ne_zero ht₂, inv₃.table_ne_zero ht₃⟩

end Missing

/-! ## What a mapping does -/

/-- Memory holds page tables under `pml4`, each on a page of its own. -/
def TablesAt (k : Kernel) (pml4 : Word) : Prop :=
  ∃ owned root T leaf, pml4 = loc (root * 4096) ∧ TablesInv k owned root T leaf

/-- The page of `virt` has the entry asked for, every other page the translation it had. -/
structure Installed (k k' : Kernel) (pml4 virt phys flags : Word) : Prop where
  here : walk k'.mem virt 3 pml4 = decode (phys ||| flags ||| pagePresent)
  others : ∀ v, lowPage v ≠ lowPage virt → walk k'.mem v 3 pml4 = walk k.mem v 3 pml4

/-- Every translation is what it was, and every byte but those of new empty tables. -/
structure Unchanged (k k' : Kernel) (pml4 : Word) : Prop where
  translations : ∀ v, walk k'.mem v 3 pml4 = walk k.mem v 3 pml4
  bytes : ∀ a, k'.mem a = k.mem a ∨
    k.pages.Clear (page a) ∧ ¬ k'.pages.Clear (page a) ∧ k'.mem a = 0

/-- `PageTable_Map` survives: no table is at address 0, and it maps the page or does
nothing. -/
structure Survives (k : Kernel) (pml4 virt phys flags : Word) : Prop where
  noNull : 0 ∉ k.mapTables pml4 virt
  outcome : Installed k (k.pageTableMap pml4 virt phys flags) pml4 virt phys flags ∨
    Unchanged k (k.pageTableMap pml4 virt phys flags) pml4

section Outcome

variable {k : Kernel} {owned : List (Word × Word)} {root : Nat} {T : Tables} {leaf : Nat → Word}

/-- The processor's translation, through tables that stand. -/
theorem TablesInv.walk_eq (inv : TablesInv k owned root T leaf) (v : Word) :
    walk k.mem v 3 (loc (root * 4096)) = decode (leaf (lowPage v)) := by
  have small : page (low48 v) < 512 ^ (3 + 1) := by
    rw [page_low48, lowPage]
    exact Nat.mod_lt _ (by decide)
  rw [← walk_low48 k.mem v 3 le_rfl, inv.holds.walk small, page_low48]

/-- With its tables `PageTable_Map` installs the mapping. -/
theorem TablesInv.installed (inv : TablesInv k owned root T leaf) {virt : Word}
    (supplied : Supplied k (loc (root * 4096)) (low48 virt)) (phys flags : Word) :
    Installed k (k.pageTableMap (loc (root * 4096)) virt phys flags) (loc (root * 4096)) virt phys
      flags := by
  have low : (low48 virt).toNat < 2 ^ 48 := by
    rw [toNat_low48]
    exact Nat.mod_lt _ (by decide)
  obtain ⟨T', inv'⟩ := inv.map low supplied phys flags
  rw [← pageTableMap_low48, page_low48] at inv'
  constructor
  · rw [inv'.walk_eq, Function.update_self]
  · intro v other
    rw [inv'.walk_eq, inv.walk_eq, Function.update_of_ne other]

/-- `PageTable_Map` survives exactly when there is a root, and pages enough for the tables
that are missing below it. -/
theorem survives_iff {pml4 : Word} (tables : pml4 = 0 ∨ TablesAt k pml4)
    (virt phys flags : Word) : Survives k pml4 virt phys flags ↔
      pml4 ≠ 0 ∧ tablesMissing k.mem virt 3 pml4 ≤ k.pages.clearPages.card := by
  rcases tables with rfl | ⟨owned, root, T, leaf, rfl, inv⟩
  · refine iff_of_false ?_ (fun h => h.1 rfl)
    intro survives
    exact ((not_mem_mapTables k 0 virt).mp survives.noNull).1 rfl
  have low : (low48 virt).toNat < 2 ^ 48 := by
    rw [toNat_low48]
    exact Nat.mod_lt _ (by decide)
  have nonzero := inv.table_ne_zero inv.holds.root
  rw [← tablesMissing_low48 k.mem virt 3 le_rfl, inv.tablesMissing low, ← inv.supplied_iff low,
    and_iff_right nonzero]
  constructor
  · intro survives
    have there := survives.noNull
    rw [mapTables_low48] at there
    exact ((not_mem_mapTables ..).mp there).2
  · intro supplied
    constructor
    · rw [mapTables_low48]
      exact (not_mem_mapTables ..).mpr ⟨nonzero, supplied⟩
    · exact .inl (inv.installed supplied phys flags)

end Outcome
end Coolos
