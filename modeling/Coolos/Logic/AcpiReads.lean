import Coolos.Kernel.Acpi

/-!
# What `ACPI_FindTable` reads

The length of the XSDT, the entries it looks at, and the signatures. On two memories that
agree there it goes the same way.
-/

namespace Coolos.Acpi

open Lib

variable {m m' : Mem} {xsdt signature : Word}

/-- `memcmp` reads up to `n` bytes behind each pointer. -/
theorem memcmp_congr (n : Nat) : ∀ p q : Word, (∀ j < n, m' (p + loc j) = m (p + loc j)) →
    (∀ j < n, m' (q + loc j) = m (q + loc j)) → memcmp m' p q n = memcmp m p q n := by
  induction n with
  | zero => intro p q _ _; rfl
  | succ n ih =>
      intro p q hp hq
      have first (a : Word) : a + loc 0 = a := BitVec.add_zero a
      have next (a : Word) (j : Nat) : a + 1 + loc j = a + loc (j + 1) := by
        rw [Nat.add_comm, loc_add, BitVec.add_assoc]
        rfl
      have here := hp 0 (Nat.succ_pos n)
      have there := hq 0 (Nat.succ_pos n)
      rw [first] at here there
      have rest := ih (p + 1) (q + 1)
        (fun j hj => by rw [next]; exact hp (j + 1) (Nat.succ_lt_succ hj))
        (fun j hj => by rw [next]; exact hq (j + 1) (Nat.succ_lt_succ hj))
      rw [memcmp, memcmp, here, there, rest]

/-- The bytes read for the entries `examined`. -/
def EntryRead (m : Mem) (xsdt : Word) (examined : List Nat) (a : Word) : Prop :=
  ∃ i ∈ examined, (∃ j < 8, a = xsdt + loc (sdtHeaderSize + 8 * i) + loc j) ∨
    ∃ j < 4, a = tables m xsdt i + loc j

/-- The bytes that `ACPI_FindTable` reads. -/
def FindReads (m : Mem) (xsdt signature a : Word) : Prop :=
  (∃ j < 4, a = xsdt + loc lengthOffset + loc j) ∨ (∃ j < 4, a = signature + loc j) ∨
    EntryRead m xsdt (findTable m xsdt signature).1 a

/-- The loop, on memories that agree on what it reads. -/
theorem findFrom_congr (sig : ∀ j < 4, m' (signature + loc j) = m (signature + loc j))
    (left : Nat) : ∀ i,
      (∀ a, EntryRead m xsdt (findFrom m xsdt signature left i).1 a → m' a = m a) →
      findFrom m' xsdt signature left i = findFrom m xsdt signature left i := by
  induction left with
  | zero => intro i _; rfl
  | succ left ih =>
      intro i same
      -- entry `i` is looked at whatever it is
      have mem : i ∈ (findFrom m xsdt signature (left + 1) i).1 := by
        rw [findFrom]
        split <;> exact List.mem_cons_self
      have entry : tables m' xsdt i = tables m xsdt i :=
        Mem.read64_congr fun j hj => same _ ⟨i, mem, .inl ⟨j, hj, rfl⟩⟩
      have equal : memcmp m' (tables m xsdt i) signature 4 =
          memcmp m (tables m xsdt i) signature 4 :=
        memcmp_congr 4 _ _ (fun j hj => same _ ⟨i, mem, .inr ⟨j, hj, rfl⟩⟩) sig
      rw [findFrom, findFrom]
      simp only [entry, equal]
      split
      · rfl
      · rename_i other
        rw [ih (i + 1) ?_]
        rintro a ⟨e, he, read⟩
        apply same a
        refine ⟨e, ?_, read⟩
        rw [findFrom]
        simp only [if_neg other]
        exact List.mem_cons_of_mem _ he

theorem findTable_congr (same : ∀ a, FindReads m xsdt signature a → m' a = m a) :
    findTable m' xsdt signature = findTable m xsdt signature := by
  have length : Acpi.length m' xsdt = Acpi.length m xsdt :=
    Mem.read32_congr fun j hj => same _ (.inl ⟨j, hj, rfl⟩)
  by_cases null : xsdt = 0
  · rw [findTable, findTable, if_pos null, if_pos null]
  · have entries : ∀ a, EntryRead m xsdt
        (findFrom m xsdt signature (numTables m xsdt).toInt.toNat 0).1 a → m' a = m a := by
      intro a read
      apply same a
      refine .inr (.inr ?_)
      rw [findTable, if_neg null]
      exact read
    rw [findTable, findTable, if_neg null, if_neg null, numTables, length]
    exact findFrom_congr (fun j hj => same _ (.inr (.inl ⟨j, hj, rfl⟩))) _ 0 entries

end Coolos.Acpi
