import Coolos.Kernel.Acpi

/-!
# Finding a firmware table

`ACPI_FindTable` counts the entries of the XSDT in a `size_t` and keeps the count in an `int`.
For a table shorter than its own header the difference wraps, and what is left of the quotient
is negative, so that nothing is looked at. Otherwise it goes through the entries up to the
first whose signature is right.
-/

namespace Coolos.Theorems

open Lib Acpi

variable {m : Mem} {xsdt signature : Word}

/-- `memcmp` is zero exactly on equal bytes. -/
theorem memcmp_eq_zero_iff (n : Nat) : ∀ p q : Word,
    memcmp m p q n = 0 ↔ ∀ j < n, m (p + loc j) = m (q + loc j) := by
  induction n with
  | zero =>
      intro p q
      exact ⟨fun _ j hj => absurd hj (Nat.not_lt_zero j), fun _ => rfl⟩
  | succ n ih =>
      intro p q
      have next (a : Word) (j : Nat) : a + 1 + loc j = a + loc (j + 1) := by
        rw [Nat.add_comm, loc_add, BitVec.add_assoc]
        rfl
      have first (a : Word) : a + loc 0 = a := BitVec.add_zero a
      rw [memcmp]
      split
      · rename_i differ
        constructor
        · intro zero
          exact absurd (BitVec.eq_of_toNat_eq (by omega)) differ
        · intro same
          have here := same 0 (Nat.succ_pos n)
          rw [first, first] at here
          exact absurd here differ
      · rename_i here
        rw [ih]
        constructor
        · intro same j hj
          cases j with
          | zero => rw [first, first]; exact not_not.mp here
          | succ j =>
              rw [← next, ← next]
              exact same j (Nat.lt_of_succ_lt_succ hj)
        · intro same j hj
          rw [next, next]
          exact same (j + 1) (Nat.succ_lt_succ hj)

/-- The entries that the length gives room for. -/
def entryCount (m : Mem) (xsdt : Word) : Nat :=
  (max 0 ((((Acpi.length m xsdt).toNat : Int) - 36) / 8)).toNat

/-- What is left of the quotient in an `int` is the number of entries, or negative. -/
theorem toNat_numTables (m : Mem) (xsdt : Word) :
    (numTables m xsdt).toInt.toNat = entryCount m xsdt := by
  have bound : (Acpi.length m xsdt).toNat < 2 ^ 32 := (Acpi.length m xsdt).isLt
  have count : (numTables m xsdt).toNat =
      (2 ^ 64 - 36 + (Acpi.length m xsdt).toNat) % 2 ^ 64 / 8 % 2 ^ 32 := by
    rw [numTables, BitVec.truncate_eq_setWidth, BitVec.toNat_setWidth, BitVec.toNat_udiv,
      BitVec.toNat_sub, BitVec.zeroExtend_eq_setWidth, BitVec.toNat_setWidth,
      Nat.mod_eq_of_lt (show (Acpi.length m xsdt).toNat < 2 ^ 64 by omega)]
    rfl
  rw [BitVec.toInt_eq_toNat_cond, entryCount]
  split <;> omega

/-- The header of entry `i` begins with the four bytes of `signature`. -/
def Matches (m : Mem) (xsdt signature : Word) (i : Nat) : Prop :=
  ∀ j < 4, m (tables m xsdt i + loc j) = m (signature + loc j)

/-- Entry `i` lies wholly inside the table. -/
def EntryInside (m : Mem) (xsdt : Word) (i : Nat) : Prop :=
  sdtHeaderSize + 8 * i + 8 ≤ (Acpi.length m xsdt).toNat

theorem entryInside_of_lt {i : Nat} (hi : i < entryCount m xsdt) : EntryInside m xsdt i := by
  have size : sdtHeaderSize = 36 := rfl
  rw [entryCount] at hi
  rw [EntryInside, size]
  omega

/-- The search from entry `i` on stops at the first match or behind the last entry. -/
theorem findFrom_cases (m : Mem) (xsdt signature : Word) (left : Nat) : ∀ i,
    (∃ k < left, Matches m xsdt signature (i + k) ∧ (∀ j < k, ¬ Matches m xsdt signature (i + j)) ∧
      findFrom m xsdt signature left i = (List.range' i (k + 1), tables m xsdt (i + k))) ∨
    (∀ k < left, ¬ Matches m xsdt signature (i + k)) ∧
      findFrom m xsdt signature left i = (List.range' i left, 0) := by
  induction left with
  | zero =>
      intro i
      exact .inr ⟨fun k hk => absurd hk (Nat.not_lt_zero k), rfl⟩
  | succ left ih =>
      intro i
      have same := memcmp_eq_zero_iff (m := m) 4 (tables m xsdt i) signature
      have shift (k : Nat) : i + 1 + k = i + (k + 1) := by omega
      by_cases here : Matches m xsdt signature i
      · left
        refine ⟨0, Nat.succ_pos left, here, fun j hj => absurd hj (Nat.not_lt_zero j), ?_⟩
        rw [findFrom]
        dsimp only
        rw [if_pos (same.mpr here)]
        rfl
      · have step : findFrom m xsdt signature (left + 1) i =
            (i :: (findFrom m xsdt signature left (i + 1)).1,
              (findFrom m xsdt signature left (i + 1)).2) := by
          rw [findFrom]
          dsimp only
          rw [if_neg (mt same.mp here)]
        rw [step]
        rcases ih (i + 1) with ⟨k, hk, found, before, run⟩ | ⟨missing, run⟩
        · left
          rw [shift] at found
          refine ⟨k + 1, Nat.succ_lt_succ hk, found, ?_, ?_⟩
          · intro j hj
            cases j with
            | zero => exact here
            | succ j =>
                rw [← shift]
                exact before j (Nat.lt_of_succ_lt_succ hj)
          · rw [run, shift]
            rfl
        · right
          refine ⟨?_, ?_⟩
          · intro k hk
            cases k with
            | zero => exact here
            | succ k =>
                rw [← shift]
                exact missing k (Nat.lt_of_succ_lt_succ hk)
          · rw [run]
            rfl

/-- The table found is that of the lowest entry with the signature, or there is none. -/
def FindsFirst (m : Mem) (xsdt signature header : Word) : Prop :=
  (∃ i < entryCount m xsdt, Matches m xsdt signature i ∧
    (∀ j < i, ¬ Matches m xsdt signature j) ∧ header = tables m xsdt i) ∨
  (∀ i < entryCount m xsdt, ¬ Matches m xsdt signature i) ∧ header = 0

/-- The entries up to the first match, or all of them. -/
def UpToMatch (m : Mem) (xsdt signature : Word) (examined : List Nat) : Prop :=
  (∃ i < entryCount m xsdt, Matches m xsdt signature i ∧
    (∀ j < i, ¬ Matches m xsdt signature j) ∧ examined = List.range (i + 1)) ∨
  (∀ i < entryCount m xsdt, ¬ Matches m xsdt signature i) ∧
    examined = List.range (entryCount m xsdt)

/-- `ACPI_FindTable` looks at the entries up to the first match, in order and all of them
inside the table, and returns that match. -/
theorem findTable_first (m : Mem) (xsdt signature : Word) (present : xsdt ≠ 0) :
    UpToMatch m xsdt signature (findTable m xsdt signature).1 ∧
      (∀ i ∈ (findTable m xsdt signature).1, EntryInside m xsdt i) ∧
      FindsFirst m xsdt signature (findTable m xsdt signature).2 := by
  have run : findTable m xsdt signature = findFrom m xsdt signature (entryCount m xsdt) 0 := by
    rw [findTable, if_neg present, toNat_numTables]
  rw [run]
  rcases findFrom_cases m xsdt signature (entryCount m xsdt) 0 with
    ⟨i, hi, found, before, result⟩ | ⟨missing, result⟩
  · simp only [Nat.zero_add] at found before result
    rw [result, ← List.range_eq_range']
    refine ⟨.inl ⟨i, hi, found, before, rfl⟩, ?_, .inl ⟨i, hi, found, before, rfl⟩⟩
    intro j hj
    have upTo : j < i + 1 := List.mem_range.mp hj
    exact entryInside_of_lt (by omega)
  · simp only [Nat.zero_add] at missing
    rw [result, ← List.range_eq_range']
    refine ⟨.inr ⟨missing, rfl⟩, ?_, .inr ⟨missing, rfl⟩⟩
    intro j hj
    exact entryInside_of_lt (List.mem_range.mp hj)

/-- An XSDT with two entries at 0x1000, the first of them for the table "APIC" at 0x3000, and
the string "APIC" at 0x2000. -/
def twoTables : Mem :=
  let m : Mem := fun _ => 0
  let m := (m.write32 0x1004 52).write64 0x1024 0x3000
  (m.write32 0x2000 0x43495041).write32 0x3000 0x43495041

theorem findTable_first_apic : FindsFirst twoTables 0x1000 0x2000 0x3000 := by
  have first := (findTable_first twoTables 0x1000 0x2000 (by decide)).2.2
  have header : (findTable twoTables 0x1000 0x2000).2 = 0x3000 := by decide +kernel
  rw [header] at first
  exact first

/-- The second entry is not looked at. -/
theorem not_all_examined : ¬ ∀ (m : Mem) (xsdt signature : Word), xsdt ≠ 0 →
    (findTable m xsdt signature).1 = List.range (entryCount m xsdt) := by
  intro claim
  have all := claim twoTables 0x1000 0x2000 (by decide)
  have one : (findTable twoTables 0x1000 0x2000).1 = [0] := by decide +kernel
  have count : entryCount twoTables 0x1000 = 2 := by decide +kernel
  rw [one, count] at all
  exact absurd all (by decide)

end Coolos.Theorems
