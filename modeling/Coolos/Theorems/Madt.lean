import Coolos.Logic.Madt

/-!
# The search for the I/O APIC

The loop adds the length byte of each entry to its pointer and tests the pointer only: an
entry of length 0 holds it up, and an entry that begins in the last bytes of the table takes
it over the end.
-/

namespace Coolos.Theorems

open Lib Acpi

section Walk

variable {m : Mem} {madt : Word} {fuel ptr : Nat}

/-! ## Termination -/

/-- The walk ends after finitely many turns. -/
def Terminates (m : Mem) (madt : Word) : Prop :=
  ∃ fuel result, (searchIoApic m madt fuel).2 = some result

/-- At an entry of length 0 it stays. -/
theorem madtWalk_stuck (inside : ptr < (Acpi.length m madt).toNat)
    (other : entryType m madt ptr ≠ madtTypeIoApic) (zero : entryLength m madt ptr = 0)
    (fuel : Nat) : (madtWalk m madt fuel ptr).2 = none := by
  induction fuel with
  | zero => rfl
  | succ fuel ih =>
      rw [madtWalk_next inside other, zero]
      exact ih

/-- A walk that ends comes past every entry it visits. -/
theorem ends_of_visited (ends : Terminates m madt) (visited : Visited m madt ptr) :
    ∃ fuel result, (madtWalk m madt fuel ptr).2 = some result := by
  induction visited with
  | first => exact ends
  | next _ inside other ih =>
      obtain ⟨fuel, result, ended⟩ := ih
      cases fuel with
      | zero => cases ended
      | succ fuel =>
          rw [madtWalk_next inside other] at ended
          exact ⟨fuel, result, ended⟩

/-- With lengths that are not 0 it has ended once it has had a turn for each byte left. -/
theorem madtWalk_ends (moves : ∀ p, Visited m madt p → p < (Acpi.length m madt).toNat →
      entryType m madt p ≠ madtTypeIoApic → entryLength m madt p ≠ 0) (left : Nat) :
    ∀ {ptr}, Visited m madt ptr → (Acpi.length m madt).toNat ≤ ptr + left →
      ∃ result, (madtWalk m madt (left + 1) ptr).2 = some result := by
  induction left with
  | zero =>
      intro ptr _ reach
      rw [madtWalk_end (by omega)]
      exact ⟨none, rfl⟩
  | succ left ih =>
      intro ptr visited reach
      by_cases inside : ptr < (Acpi.length m madt).toNat
      · by_cases ioApic : entryType m madt ptr = madtTypeIoApic
        · rw [madtWalk_ioApic inside ioApic]
          exact ⟨some ptr, rfl⟩
        · rw [madtWalk_next inside ioApic]
          have moved : (entryLength m madt ptr).toNat ≠ 0 := fun zero =>
            moves ptr visited inside ioApic (BitVec.eq_of_toNat_eq zero)
          exact ih (visited.next inside ioApic) (by omega)
      · rw [madtWalk_end inside]
        exact ⟨none, rfl⟩

end Walk

/-- The walk terminates exactly when no entry it comes to before an I/O APIC has length 0. -/
theorem walk_terminates_iff (m : Mem) (madt : Word) : Terminates m madt ↔
    ∀ p, Visited m madt p → p < (Acpi.length m madt).toNat →
      entryType m madt p ≠ madtTypeIoApic → entryLength m madt p ≠ 0 := by
  constructor
  · intro ends p visited inside other zero
    obtain ⟨fuel, result, ended⟩ := ends_of_visited ends visited
    rw [madtWalk_stuck inside other zero] at ended
    cases ended
  · intro moves
    obtain ⟨result, ended⟩ := madtWalk_ends moves (Acpi.length m madt).toNat .first
      (Nat.le_add_left ..)
    exact ⟨_, result, ended⟩

/-- A table of `n` bytes in memory that is zero otherwise. -/
def zeroTable (n : BitVec 8) : Mem := fun a => if a = 0x1004 then n else 0

/-- An entry of length 0 right behind the header. -/
theorem walk_not_terminates : ¬ ∀ (m : Mem) (madt : Word), Terminates m madt := by
  intro claim
  obtain ⟨fuel, result, ended⟩ := claim (zeroTable 46) 0x1000
  have inside : controllersOffset < (Acpi.length (zeroTable 46) 0x1000).toNat := by decide
  have stuck := madtWalk_stuck inside (by decide) (by decide) fuel
  rw [searchIoApic, stuck] at ended
  cases ended

/-! ## Staying inside -/

/-- An entry of type 1 that lies wholly inside the table. -/
structure IoApicEntry (m : Mem) (madt : Word) (p : Nat) : Prop where
  begins : Begins m madt p
  start : p < (Acpi.length m madt).toNat
  type : entryType m madt p = madtTypeIoApic
  inside : p + (entryLength m madt p).toNat ≤ (Acpi.length m madt).toNat

/-- The first of them. -/
def FirstIoApic (m : Mem) (madt : Word) (p : Nat) : Prop :=
  IoApicEntry m madt p ∧ ∀ q, IoApicEntry m madt q → p ≤ q

/-- All that the walk reads lies in the table, and it passes on the first I/O APIC entry
there, if there is one. -/
structure StaysInside (m : Mem) (madt : Word) : Prop where
  reads : ∀ fuel, ∀ r ∈ (searchIoApic m madt fuel).1,
    r.offset + r.size ≤ (Acpi.length m madt).toNat
  passes : ∀ p, (∃ fuel, (searchIoApic m madt fuel).2 = some (some p)) ↔ FirstIoApic m madt p

/-- What the walk needs of an entry it comes to is in the table: both bytes of its header,
or of an I/O APIC the address and all of the entry. -/
def Fits (m : Mem) (madt : Word) (p : Nat) : Prop :=
  if entryType m madt p = madtTypeIoApic then
    p + 8 ≤ (Acpi.length m madt).toNat ∧
      p + (entryLength m madt p).toNat ≤ (Acpi.length m madt).toNat
  else p + 2 ≤ (Acpi.length m madt).toNat

section Inside

variable {m : Mem} {madt : Word} {p q : Nat}

/-- The walk stops at an I/O APIC it comes to. -/
theorem passes_of_visited (visited : Visited m madt p) (start : p < (Acpi.length m madt).toNat)
    (type : entryType m madt p = madtTypeIoApic) :
    ∃ fuel, (searchIoApic m madt fuel).2 = some (some p) := by
  obtain ⟨fuel, -, result⟩ := visited.walk 1
  rw [madtWalk_ioApic start type] at result
  exact ⟨fuel, result⟩

theorem visited_of_passes (passes : ∃ fuel, (searchIoApic m madt fuel).2 = some (some p)) :
    Visited m madt p ∧ p < (Acpi.length m madt).toNat ∧ entryType m madt p = madtTypeIoApic := by
  obtain ⟨fuel, result⟩ := passes
  exact found_of_madtWalk .first result

/-- It comes to one at most. -/
theorem visited_ioApic_unique (hp : Visited m madt p) (p_start : p < (Acpi.length m madt).toNat)
    (p_type : entryType m madt p = madtTypeIoApic) (hq : Visited m madt q)
    (q_start : q < (Acpi.length m madt).toNat) (q_type : entryType m madt q = madtTypeIoApic) :
    p = q := by
  obtain ⟨fuel, found⟩ := passes_of_visited hp p_start p_type
  obtain ⟨fuel', found'⟩ := passes_of_visited hq q_start q_type
  exact Option.some.inj (madtWalk_unique found found')

/-- With all that is needed inside, the walk reads nothing else. -/
theorem reads_of_fits (fits : ∀ p, Visited m madt p → p < (Acpi.length m madt).toNat →
      Fits m madt p) (fuel : Nat) :
    ∀ r ∈ (searchIoApic m madt fuel).1, r.offset + r.size ≤ (Acpi.length m madt).toNat := by
  intro r read
  obtain ⟨p, visited, start, place⟩ := mem_madtWalk .first read
  have room := fits p visited start
  unfold Fits at room
  rcases place with rfl | ⟨other, rfl⟩ | ⟨ioApic, rfl⟩
  · exact start
  · rw [if_neg other] at room
    exact room
  · rw [if_pos ioApic] at room
    exact room.1

/-- And what it passes on is the first I/O APIC entry there. -/
theorem passes_of_fits
    (lengths : ∀ p, Begins m madt p → p + 1 < (Acpi.length m madt).toNat →
      2 ≤ (entryLength m madt p).toNat)
    (fits : ∀ p, Visited m madt p → p < (Acpi.length m madt).toNat → Fits m madt p) :
    (∃ fuel, (searchIoApic m madt fuel).2 = some (some p)) ↔ FirstIoApic m madt p := by
  -- an I/O APIC the walk comes to lies wholly inside
  have whole {p} (visited : Visited m madt p) (start : p < (Acpi.length m madt).toNat)
      (type : entryType m madt p = madtTypeIoApic) :
      p + 8 ≤ (Acpi.length m madt).toNat ∧ IoApicEntry m madt p := by
    have room := fits p visited start
    rw [Fits, if_pos type] at room
    exact ⟨room.1, visited.begins, start, type, room.2⟩
  constructor
  · intro passes
    obtain ⟨visited, start, type⟩ := visited_of_passes passes
    refine ⟨(whole visited start type).2, ?_⟩
    intro q entry
    rcases entry.begins.visited_or with early | ⟨r, early, r_start, r_type, behind⟩
    · exact Nat.le_of_eq (visited_ioApic_unique visited start type early entry.start entry.type)
    · have same := visited_ioApic_unique visited start type early r_start r_type
      omega
  · intro ⟨entry, first⟩
    rcases entry.begins.visited_or with visited | ⟨r, visited, start, type, behind⟩
    · exact passes_of_visited visited entry.start entry.type
    · -- the walk would have stopped at an earlier one
      obtain ⟨room, earlier⟩ := whole visited start type
      have least := first r earlier
      have long := lengths r earlier.begins (by omega)
      omega

end Inside

/-- For entries of length at least 2, the walk stays inside the table and passes on the first
I/O APIC entry there exactly when what it needs of each entry it comes to is in the table. -/
theorem walk_inside_iff (m : Mem) (madt : Word)
    (lengths : ∀ p, Begins m madt p → p + 1 < (Acpi.length m madt).toNat →
      2 ≤ (entryLength m madt p).toNat) :
    StaysInside m madt ↔
      ∀ p, Visited m madt p → p < (Acpi.length m madt).toNat → Fits m madt p := by
  constructor
  · intro stays p visited start
    obtain ⟨fuel, reads, -⟩ := visited.walk 1
    unfold Fits
    split
    · rename_i ioApic
      rw [madtWalk_ioApic start ioApic] at reads
      have address := stays.reads fuel ⟨p + ioApicAddressOffset, 4⟩ (reads (by simp))
      have entry := (stays.passes p).mp (passes_of_visited visited start ioApic)
      exact ⟨address, entry.1.inside⟩
    · rename_i other
      rw [madtWalk_next start other] at reads
      exact stays.reads fuel ⟨p + 1, 1⟩ (reads (by simp))
  · intro fits
    exact ⟨reads_of_fits fits, fun p => passes_of_fits lengths fits⟩

/-- An I/O APIC and nothing else. -/
def ioApicTable : Mem := fun a =>
  if a = 0x1004 then 56 else if a = 0x102C then 1 else if a = 0x102D then 12 else 0

theorem ioApicTable_begins {p : Nat} (begins : Begins ioApicTable 0x1000 p) : p = 44 ∨ p = 56 := by
  induction begins with
  | first => exact .inl rfl
  | next _ inside ih =>
      rcases ih with rfl | rfl
      · exact .inr (by decide)
      · exact absurd inside (by decide)

theorem walk_inside_ioApic : StaysInside ioApicTable 0x1000 := by
  have lengths : ∀ p, Begins ioApicTable 0x1000 p →
      p + 1 < (Acpi.length ioApicTable 0x1000).toNat →
        2 ≤ (entryLength ioApicTable 0x1000 p).toNat := by
    intro p begins start
    rcases ioApicTable_begins begins with rfl | rfl
    · decide
    · exact absurd start (by decide)
  apply (walk_inside_iff ioApicTable 0x1000 lengths).mpr
  intro p visited start
  rcases ioApicTable_begins visited.begins with rfl | rfl
  · rw [Fits, if_pos (by decide)]
    decide
  · exact absurd start (by decide)

/-- The last byte of a table of 45 bytes is taken for an entry, and the byte behind the table
for its length. -/
theorem walk_not_inside : ¬ ∀ (m : Mem) (madt : Word),
    (∀ p, Begins m madt p → p + 1 < (Acpi.length m madt).toNat →
      2 ≤ (entryLength m madt p).toNat) → StaysInside m madt := by
  intro claim
  have late {p : Nat} (begins : Begins (zeroTable 45) 0x1000 p) : 44 ≤ p := by
    induction begins with
    | first => exact le_rfl
    | next _ _ ih => exact Nat.le_add_right_of_le ih
  have short : (Acpi.length (zeroTable 45) 0x1000).toNat = 45 := by decide
  have stays := claim (zeroTable 45) 0x1000 fun p begins start => by
    have := late begins
    omega
  have read := stays.reads 1 ⟨45, 1⟩ (by decide)
  exact absurd read (by decide)

end Coolos.Theorems
