import Coolos.Theorems.MapFailure

/-!
# Device registers

`Memory_MapMMIO` goes from its argument on in steps of a page, and ORs the address into
the entry as it is. An argument that is not page-aligned leaves its low bits among the
flags, and the range may end on a page the steps do not come to.
-/

namespace Coolos.Theorems

open Lib Lib.Paging PageAllocator

/-- The processor translates `v` to itself. -/
def TranslatesToItself (m : Mem) (pml4 v : Word) : Prop :=
  ∃ t, walk m v 3 pml4 = some t ∧ t.frame = loc (page v * 4096)

/-- Every byte of the range translates to itself, and the entries written for it have the
flags present, writable and user and no others. -/
structure Covered (m : Mem) (pml4 physAddr size : Word) : Prop where
  translates : ∀ v : Word, physAddr.toNat ≤ v.toNat → v.toNat < physAddr.toNat + size.toNat →
    TranslatesToItself m pml4 v
  flags : ∀ i < turnsTo physAddr (physAddr + size),
    lastEntry m (turn physAddr i) 3 pml4 &&& 0xFFF = pagePresent ||| pageWritable ||| pageUser

/-- Each call of `PageTable_Map` finds pages for the tables it lacks. -/
def EnoughPages (k : Kernel) (pml4 physAddr size : Word) : Prop :=
  ∀ i < turnsTo physAddr (physAddr + size),
    let k' := k.turns pml4 (pageWritable ||| pageUser) physAddr i
    tablesMissing k'.mem (turn physAddr i) 3 pml4 ≤ k'.pages.clearPages.card

/-- The steps come to every page of the range, or the last one was mapped to itself before. -/
def LastPage (m : Mem) (pml4 physAddr size : Word) : Prop :=
  physAddr.toNat % 4096 + size.toNat ≤ (size.toNat + 4095) / 4096 * 4096 ∨
    TranslatesToItself m pml4 (physAddr + size - 1)

/-- The low bits of an entry are those of the address and the flags. -/
theorem flags_selfEntry (v : Word) :
    selfEntry (pageWritable ||| pageUser) v &&& 0xFFF = pagePresent ||| pageWritable ||| pageUser ↔
      v.toNat % 4096 < 8 := by
  have flags : (pageWritable ||| pageUser ||| pagePresent) &&& 0xFFF = (7 : Word) := by decide
  have low : (v &&& 0xFFF).toNat = v.toNat % 4096 := Nat.and_two_pow_sub_one_eq_mod v.toNat 12
  have entry : (selfEntry (pageWritable ||| pageUser) v &&& 0xFFF).toNat =
      v.toNat % 4096 ||| 7 := by
    rw [selfEntry, BitVec.or_assoc, BitVec.and_or_distrib_right, flags, BitVec.toNat_or, low]
    rfl
  have seven : pagePresent ||| pageWritable ||| pageUser = (7 : Word) := by decide
  rw [seven, ← BitVec.toNat_inj, entry, show (7 : Word).toNat = 7 from rfl]
  constructor
  · intro same
    have left : v.toNat % 4096 ≤ v.toNat % 4096 ||| 7 := Nat.left_le_or
    omega
  · intro small
    have below : v.toNat % 4096 ||| 7 < 2 ^ 3 := Nat.or_lt_two_pow small (by decide)
    have above : 7 ≤ v.toNat % 4096 ||| 7 := Nat.right_le_or
    omega

section Range

variable {k : Kernel} {owned : List (Word × Word)} {root : Nat} {T : Tables}
  {leaf leaf' : Nat → Word} {physAddr size v : Word} {i : Nat}

/-- A range below `2 ^ 48`. -/
theorem mmio_turns (below : physAddr.toNat + size.toNat < 2 ^ 48) :
    (physAddr + size).toNat = physAddr.toNat + size.toNat ∧
      turnsTo physAddr (physAddr + size) = (size.toNat + 4095) / 4096 := by
  have stop : (physAddr + size).toNat = physAddr.toNat + size.toNat := by
    rw [BitVec.toNat_add]
    omega
  refine ⟨stop, ?_⟩
  rw [turnsTo, stop]
  omega

theorem toNat_mmio_turn (below : physAddr.toNat + size.toNat < 2 ^ 48)
    (hi : i < turnsTo physAddr (physAddr + size)) :
    (turn physAddr i).toNat = physAddr.toNat + i * 4096 ∧ (turn physAddr i).toNat < 2 ^ 48 := by
  obtain ⟨stop, turns⟩ := mmio_turns below
  have place := toNat_turn (Nat.le_of_lt hi) (by omega)
  rw [turns] at hi
  refine ⟨place, ?_⟩
  omega

/-- `Memory_MapMMIO` with pages enough: it returns, the tables stand, and the entries of
its turns are written. -/
theorem mmio_tables (inv : TablesInv k owned root T leaf)
    (below : physAddr.toNat + size.toNat < 2 ^ 48)
    (enough : EnoughPages k (loc (root * 4096)) physAddr size) :
    ∃ k' T' leaf', k.memoryMapMmio (loc (root * 4096)) physAddr size = some k' ∧
      TablesInv k' owned root T' leaf' ∧ Overwrites (Written (pageWritable ||| pageUser) physAddr
        (turnsTo physAddr (physAddr + size))) leaf leaf' := by
  obtain ⟨stop, turns⟩ := mmio_turns below
  have nonzero := inv.table_ne_zero inv.holds.root
  have place : ∀ i < turnsTo physAddr (physAddr + size), (turn physAddr i).toNat < 2 ^ 48 :=
    fun i hi => (toNat_mmio_turn below hi).2
  have supplied : ∀ i < turnsTo physAddr (physAddr + size), ∀ T leaf,
      TablesInv (k.turns (loc (root * 4096)) (pageWritable ||| pageUser) physAddr i) owned root T
        leaf →
      Supplied (k.turns (loc (root * 4096)) (pageWritable ||| pageUser) physAddr i)
        (loc (root * 4096)) (turn physAddr i) := by
    intro i hi T leaf inv
    have there : tablesMissing _ (turn physAddr i) 3 (loc (root * 4096)) ≤ _ := enough i hi
    rw [inv.tablesMissing (place i hi)] at there
    exact (inv.supplied_iff (place i hi)).mpr there
  obtain ⟨T', leaf', inv', wrote⟩ := inv.turns_supplied place supplied _ le_rfl
  refine ⟨_, T', leaf', ?_, inv', wrote⟩
  have top : (physAddr + size).toNat + 4096 ≤ 2 ^ 64 := by omega
  rw [Kernel.memoryMapMmio, if_neg nonzero]
  exact mapRange_turns _ _ k top

theorem lowPage_turn (below : physAddr.toNat + size.toNat < 2 ^ 48)
    (hi : i < turnsTo physAddr (physAddr + size)) :
    lowPage (turn physAddr i) = page physAddr + i := by
  obtain ⟨place, small⟩ := toNat_mmio_turn below hi
  rw [lowPage_of_lt small, page, page, place, Nat.add_mul_div_right _ _ (by decide)]

/-- The pages whose entries are written. -/
theorem written_page (below : physAddr.toNat + size.toNat < 2 ^ 48) {n : Nat} {e : Word}
    (written : Written (pageWritable ||| pageUser) physAddr
      (turnsTo physAddr (physAddr + size)) n e) :
    ∃ i < turnsTo physAddr (physAddr + size), n = page physAddr + i ∧
      e = selfEntry (pageWritable ||| pageUser) (turn physAddr i) := by
  obtain ⟨i, hi, rfl, rfl⟩ := written
  exact ⟨i, hi, lowPage_turn below hi, rfl⟩

/-- A page that a turn comes to translates to itself. -/
theorem translates_of_turn (inv : TablesInv k owned root T leaf')
    (wrote : Overwrites (Written (pageWritable ||| pageUser) physAddr
      (turnsTo physAddr (physAddr + size))) leaf leaf')
    (below : physAddr.toNat + size.toNat < 2 ^ 48) (hv : v.toNat < 2 ^ 48)
    (hi : i < turnsTo physAddr (physAddr + size)) (here : page v = page physAddr + i) :
    TranslatesToItself k.mem (loc (root * 4096)) v := by
  have mine : lowPage (turn physAddr i) = page v := (lowPage_turn below hi).trans here.symm
  obtain ⟨j, hj, last, entry⟩ := wrote.all (page v) _ ⟨i, hi, mine, rfl⟩
  obtain ⟨-, low⟩ := toNat_mmio_turn below hj
  obtain ⟨u, read⟩ := decode_selfEntry (.inr rfl) (turn physAddr j)
  refine ⟨⟨loc (page v * 4096), true, u⟩, ?_, rfl⟩
  rw [inv.walk_eq, lowPage_of_lt hv, entry, read, and_addrMask (by omega), ← lowPage_of_lt low,
    last]

/-- A page that no turn comes to translates as before. -/
theorem translates_other {k' : Kernel} {T' : Tables} (inv : TablesInv k owned root T leaf)
    (inv' : TablesInv k' owned root T' leaf')
    (wrote : Overwrites (Written (pageWritable ||| pageUser) physAddr
      (turnsTo physAddr (physAddr + size))) leaf leaf')
    (below : physAddr.toNat + size.toNat < 2 ^ 48) (hv : v.toNat < 2 ^ 48)
    (none : ∀ i < turnsTo physAddr (physAddr + size), page v ≠ page physAddr + i) :
    TranslatesToItself k'.mem (loc (root * 4096)) v ↔
      TranslatesToItself k.mem (loc (root * 4096)) v := by
  have same : leaf' (page v) = leaf (page v) := by
    rcases wrote.only (page v) with same | written
    · exact same
    · obtain ⟨i, hi, here, -⟩ := written_page below written
      exact absurd here (none i hi)
  rw [TranslatesToItself, TranslatesToItself, inv'.walk_eq, inv.walk_eq, lowPage_of_lt hv, same]

/-- The entries of the turns have the right flags exactly when the low bits of the address
are flags. -/
theorem flags_iff (inv : TablesInv k owned root T leaf')
    (wrote : Overwrites (Written (pageWritable ||| pageUser) physAddr
      (turnsTo physAddr (physAddr + size))) leaf leaf')
    (below : physAddr.toNat + size.toNat < 2 ^ 48) (hi : i < turnsTo physAddr (physAddr + size)) :
    lastEntry k.mem (turn physAddr i) 3 (loc (root * 4096)) &&& 0xFFF =
      pagePresent ||| pageWritable ||| pageUser ↔ physAddr.toNat % 4096 < 8 := by
  obtain ⟨-, small⟩ := toNat_mmio_turn below hi
  have mine : lowPage (turn physAddr i) = page (turn physAddr i) := lowPage_of_lt small
  obtain ⟨j, hj, -, entry⟩ := wrote.all _ _ ⟨i, hi, mine, rfl⟩
  obtain ⟨place, -⟩ := toNat_mmio_turn below hj
  rw [inv.holds.lastEntry (by rw [page]; omega), entry, flags_selfEntry, place,
    Nat.add_mul_mod_self_right]

/-- Bytes of one page translate alike. -/
theorem translates_page (inv : TablesInv k owned root T leaf) {w : Word} (hv : v.toNat < 2 ^ 48)
    (hw : w.toNat < 2 ^ 48) (same : page v = page w) :
    TranslatesToItself k.mem (loc (root * 4096)) v ↔
      TranslatesToItself k.mem (loc (root * 4096)) w := by
  rw [TranslatesToItself, TranslatesToItself, inv.walk_eq, inv.walk_eq, lowPage_of_lt hv,
    lowPage_of_lt hw, same]

/-- The last byte of a range. -/
theorem toNat_lastByte (below : physAddr.toNat + size.toNat < 2 ^ 48) (some : size ≠ 0) :
    (physAddr + size - 1).toNat = physAddr.toNat + size.toNat - 1 ∧ 1 ≤ size.toNat := by
  have pos : 1 ≤ size.toNat := Nat.one_le_iff_ne_zero.mpr fun h => some (BitVec.eq_of_toNat_eq h)
  obtain ⟨stop, -⟩ := mmio_turns below
  refine ⟨?_, pos⟩
  rw [BitVec.toNat_sub_of_le, stop]
  · rfl
  · rw [BitVec.le_def, stop]
    exact Nat.le_add_left_of_le pos

/-- If every byte translates, the steps come to the last page or need not. -/
theorem lastPage_of_translates {k' : Kernel} {T' : Tables} (inv : TablesInv k owned root T leaf)
    (inv' : TablesInv k' owned root T' leaf')
    (wrote : Overwrites (Written (pageWritable ||| pageUser) physAddr
      (turnsTo physAddr (physAddr + size))) leaf leaf')
    (below : physAddr.toNat + size.toNat < 2 ^ 48) (some : size ≠ 0)
    (translates : ∀ v : Word, physAddr.toNat ≤ v.toNat → v.toNat < physAddr.toNat + size.toNat →
      TranslatesToItself k'.mem (loc (root * 4096)) v) :
    LastPage k.mem (loc (root * 4096)) physAddr size := by
  obtain ⟨-, turns⟩ := mmio_turns below
  obtain ⟨last, pos⟩ := toNat_lastByte below some
  by_cases reach : physAddr.toNat % 4096 + size.toNat ≤ (size.toNat + 4095) / 4096 * 4096
  · exact .inl reach
  · -- no turn comes to the page of the last byte
    right
    have there := translates (physAddr + size - 1) (by omega) (by omega)
    apply (translates_other inv inv' wrote below (by omega) ?_).mp there
    intro i hi
    rw [turns] at hi
    rw [page, page, last]
    omega

/-- A byte whose page no turn comes to is on the last page. -/
theorem page_lastByte (below : physAddr.toNat + size.toNat < 2 ^ 48)
    (low : physAddr.toNat ≤ v.toNat) (high : v.toNat < physAddr.toNat + size.toNat)
    (left : ¬ page v - page physAddr < turnsTo physAddr (physAddr + size)) :
    page v = page (physAddr + size - 1) ∧
      ¬ physAddr.toNat % 4096 + size.toNat ≤ (size.toNat + 4095) / 4096 * 4096 := by
  obtain ⟨-, turns⟩ := mmio_turns below
  have some : size ≠ 0 := by
    intro empty
    rw [empty, show (0 : Word).toNat = 0 from rfl] at high
    omega
  obtain ⟨last, pos⟩ := toNat_lastByte below some
  have there : page physAddr ≤ page v := Nat.div_le_div_right low
  rw [turns] at left
  rw [page, page] at left there ⊢
  rw [last]
  omega

theorem translates_of_lastPage {k' : Kernel} {T' : Tables} (inv : TablesInv k owned root T leaf)
    (inv' : TablesInv k' owned root T' leaf')
    (wrote : Overwrites (Written (pageWritable ||| pageUser) physAddr
      (turnsTo physAddr (physAddr + size))) leaf leaf')
    (below : physAddr.toNat + size.toNat < 2 ^ 48)
    (lastPage : LastPage k.mem (loc (root * 4096)) physAddr size)
    (low : physAddr.toNat ≤ v.toNat) (high : v.toNat < physAddr.toNat + size.toNat) :
    TranslatesToItself k'.mem (loc (root * 4096)) v := by
  have hv : v.toNat < 2 ^ 48 := by omega
  have there : page physAddr ≤ page v := Nat.div_le_div_right low
  by_cases reached : page v - page physAddr < turnsTo physAddr (physAddr + size)
  · exact translates_of_turn inv' wrote below hv reached (by omega)
  · obtain ⟨same, short⟩ := page_lastByte below low high reached
    have before := lastPage.resolve_left short
    have top : (physAddr + size - 1).toNat < 2 ^ 48 := by
      have stop := (mmio_turns below).1
      rw [BitVec.toNat_sub_of_le (BitVec.le_def.mpr (by rw [stop]; show 1 ≤ _; omega)), stop]
      omega
    rw [translates_other inv inv' wrote below hv, translates_page inv hv top same]
    · exact before
    · intro i hi here
      rw [here] at reached
      omega

/-- A range is covered exactly when it is empty, or the low bits of its address are flags
and the steps come to its last page or need not. -/
theorem covered_iff {pml4 : Word} (tables : TablesAt k pml4)
    (below : physAddr.toNat + size.toNat < 2 ^ 48) (enough : EnoughPages k pml4 physAddr size) :
    ∃ k', k.memoryMapMmio pml4 physAddr size = some k' ∧
      (Covered k'.mem pml4 physAddr size ↔
        size = 0 ∨ physAddr.toNat % 4096 < 8 ∧ LastPage k.mem pml4 physAddr size) := by
  obtain ⟨owned, root, T, leaf, rfl, inv⟩ := tables
  obtain ⟨k', T', leaf', run, inv', wrote⟩ := mmio_tables inv below enough
  obtain ⟨-, turns⟩ := mmio_turns below
  refine ⟨k', run, ?_⟩
  constructor
  · intro covered
    by_cases empty : size = 0
    · exact .inl empty
    have pos := (toNat_lastByte below empty).2
    have first : 0 < turnsTo physAddr (physAddr + size) := by
      rw [turns]
      omega
    exact .inr ⟨(flags_iff inv' wrote below first).mp (covered.flags 0 first),
      lastPage_of_translates inv inv' wrote below empty covered.translates⟩
  · intro h
    rcases h with empty | ⟨flags, lastPage⟩
    · have zero : size.toNat = 0 := by rw [empty]; rfl
      constructor
      · intro v low high
        omega
      · intro i hi
        rw [turns, zero] at hi
        omega
    · constructor
      · intro v low high
        exact translates_of_lastPage inv inv' wrote below lastPage low high
      · intro i hi
        exact (flags_iff inv' wrote below hi).mpr flags

end Range

/-- `Memory_MapMMIO` covers a range with the right flags exactly when the range is empty, or
the low bits of its address are among the flags and its last page is one the steps come to
or was mapped to itself already. -/
theorem mmio_covered_iff (k : Kernel) (pml4 physAddr size : Word) (tables : TablesAt k pml4)
    (below : physAddr.toNat + size.toNat < 2 ^ 48) (enough : EnoughPages k pml4 physAddr size) :
    ∃ k', k.memoryMapMmio pml4 physAddr size = some k' ∧
      (Covered k'.mem pml4 physAddr size ↔
        size = 0 ∨ physAddr.toNat % 4096 < 8 ∧ LastPage k.mem pml4 physAddr size) :=
  covered_iff tables below enough

/-- Sixteen pages are enough for a range of one turn. -/
theorem enoughPages_one {physAddr : Word} (one : turnsTo physAddr (physAddr + 0x1000) = 1)
    (missing : tablesMissing (rootOnly 16 (by decide)).mem (turn physAddr 0) 3 0x1000 ≤
      (rootOnly 16 (by decide)).pages.clearPages.card) :
    EnoughPages (rootOnly 16 (by decide)) 0x1000 physAddr 0x1000 := by
  intro i hi
  rw [one] at hi
  obtain rfl : i = 0 := by omega
  exact missing

/-- One page of registers. -/
theorem mmio_covered_page : ∃ k',
    (rootOnly 16 (by decide)).memoryMapMmio 0x1000 0x400000 0x1000 = some k' ∧
      Covered k'.mem 0x1000 0x400000 0x1000 := by
  have tables := rootOnly_tables 16 (by decide) (by decide)
  have enough : EnoughPages (rootOnly 16 (by decide)) 0x1000 0x400000 0x1000 :=
    enoughPages_one rfl (by decide +kernel)
  obtain ⟨k', run, covered⟩ := mmio_covered_iff _ 0x1000 0x400000 0x1000 tables (by decide) enough
  exact ⟨k', run, covered.mpr (.inr ⟨by decide, .inl (by decide)⟩)⟩

/-- Registers in the middle of a page get bit 11 of their address as a flag. -/
theorem mmio_not_covered : ¬ ∀ (k k' : Kernel) (pml4 physAddr size : Word), TablesAt k pml4 →
    physAddr.toNat + size.toNat < 2 ^ 48 → EnoughPages k pml4 physAddr size →
      k.memoryMapMmio pml4 physAddr size = some k' → Covered k'.mem pml4 physAddr size := by
  intro claim
  have tables := rootOnly_tables 16 (by decide) (by decide)
  have enough : EnoughPages (rootOnly 16 (by decide)) 0x1000 0x400800 0x1000 :=
    enoughPages_one rfl (by decide +kernel)
  obtain ⟨k', run, covered⟩ := covered_iff tables (by decide) enough
  have holds := covered.mp (claim _ k' 0x1000 0x400800 0x1000 tables (by decide) enough run)
  rcases holds with empty | ⟨flags, -⟩
  · exact absurd empty (by decide)
  · exact absurd flags (by decide)

end Coolos.Theorems
