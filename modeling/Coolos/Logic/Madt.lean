import Coolos.Kernel.Acpi

/-!
# The walk over the MADT

The entries the walk comes to, and the entries there are. The two differ behind the first
I/O APIC, where the walk stops.
-/

namespace Coolos.Acpi

open Lib

/-- The walk comes to an entry at `ptr`, or to the end of the table. -/
inductive Visited (m : Mem) (madt : Word) : Nat → Prop
  | first : Visited m madt controllersOffset
  | next {ptr} (visited : Visited m madt ptr) (inside : ptr < (length m madt).toNat)
      (other : entryType m madt ptr ≠ madtTypeIoApic) :
      Visited m madt (ptr + (entryLength m madt ptr).toNat)

/-- An entry begins at `ptr`, or the table ends. -/
inductive Begins (m : Mem) (madt : Word) : Nat → Prop
  | first : Begins m madt controllersOffset
  | next {ptr} (begins : Begins m madt ptr) (inside : ptr < (length m madt).toNat) :
      Begins m madt (ptr + (entryLength m madt ptr).toNat)

variable {m : Mem} {madt : Word} {fuel ptr : Nat}

/-! ## One turn -/

theorem madtWalk_end (outside : ¬ ptr < (length m madt).toNat) :
    madtWalk m madt (fuel + 1) ptr = ([], some none) := by
  rw [madtWalk, if_neg outside]

theorem madtWalk_ioApic (inside : ptr < (length m madt).toNat)
    (ioApic : entryType m madt ptr = madtTypeIoApic) :
    madtWalk m madt (fuel + 1) ptr =
      ([⟨ptr, 1⟩, ⟨ptr + ioApicAddressOffset, 4⟩], some (some ptr)) := by
  rw [madtWalk, if_pos inside, if_pos ioApic]

theorem madtWalk_next (inside : ptr < (length m madt).toNat)
    (other : entryType m madt ptr ≠ madtTypeIoApic) :
    madtWalk m madt (fuel + 1) ptr =
      (⟨ptr, 1⟩ :: ⟨ptr + 1, 1⟩ :: (madtWalk m madt fuel (ptr + (entryLength m madt ptr).toNat)).1,
        (madtWalk m madt fuel (ptr + (entryLength m madt ptr).toNat)).2) := by
  rw [madtWalk, if_pos inside, if_neg other]

/-! ## Whole walks -/

/-- A walk that has ended does not depend on how many turns it was given. -/
theorem madtWalk_unique {fuel' : Nat} {a b : Option Nat}
    (first : (madtWalk m madt fuel ptr).2 = some a)
    (second : (madtWalk m madt fuel' ptr).2 = some b) : a = b := by
  induction fuel generalizing fuel' ptr with
  | zero => cases first
  | succ fuel ih =>
      cases fuel' with
      | zero => cases second
      | succ fuel' =>
          by_cases inside : ptr < (length m madt).toNat
          · by_cases ioApic : entryType m madt ptr = madtTypeIoApic
            · rw [madtWalk_ioApic inside ioApic] at first second
              exact Option.some.inj (first.symm.trans second)
            · rw [madtWalk_next inside ioApic] at first second
              exact ih first second
          · rw [madtWalk_end inside] at first second
            exact Option.some.inj (first.symm.trans second)

/-- A visited place is walked from: what is read there is read by the whole walk, and what
ends there ends the whole walk with the same result. -/
theorem Visited.walk (visited : Visited m madt ptr) (fuel : Nat) : ∃ fuel',
    (madtWalk m madt fuel ptr).1 ⊆ (searchIoApic m madt fuel').1 ∧
      (searchIoApic m madt fuel').2 = (madtWalk m madt fuel ptr).2 := by
  induction visited generalizing fuel with
  | first => exact ⟨fuel, List.Subset.refl _, rfl⟩
  | next _ inside other ih =>
      obtain ⟨fuel', reads, result⟩ := ih (fuel + 1)
      rw [madtWalk_next inside other] at reads result
      refine ⟨fuel', ?_, result⟩
      intro r hr
      exact reads (List.mem_cons_of_mem _ (List.mem_cons_of_mem _ hr))

/-- What the walk reads, it reads of entries it visits. -/
theorem mem_madtWalk {r : TableRead} (visited : Visited m madt ptr)
    (read : r ∈ (madtWalk m madt fuel ptr).1) : ∃ p, Visited m madt p ∧
      p < (length m madt).toNat ∧ (r = ⟨p, 1⟩ ∨
        entryType m madt p ≠ madtTypeIoApic ∧ r = ⟨p + 1, 1⟩ ∨
        entryType m madt p = madtTypeIoApic ∧ r = ⟨p + ioApicAddressOffset, 4⟩) := by
  induction fuel generalizing ptr with
  | zero => cases read
  | succ fuel ih =>
      by_cases inside : ptr < (length m madt).toNat
      · by_cases ioApic : entryType m madt ptr = madtTypeIoApic
        · rw [madtWalk_ioApic inside ioApic] at read
          refine ⟨ptr, visited, inside, ?_⟩
          simp only [List.mem_cons, List.not_mem_nil, or_false] at read
          rcases read with rfl | rfl
          · exact .inl rfl
          · exact .inr (.inr ⟨ioApic, rfl⟩)
        · rw [madtWalk_next inside ioApic] at read
          simp only [List.mem_cons] at read
          rcases read with rfl | rfl | later
          · exact ⟨ptr, visited, inside, .inl rfl⟩
          · exact ⟨ptr, visited, inside, .inr (.inl ⟨ioApic, rfl⟩)⟩
          · exact ih (visited.next inside ioApic) later
      · rw [madtWalk_end inside] at read
        cases read

/-- The entry found is visited, inside, and of an I/O APIC. -/
theorem found_of_madtWalk {p : Nat} (visited : Visited m madt ptr)
    (result : (madtWalk m madt fuel ptr).2 = some (some p)) : Visited m madt p ∧
      p < (length m madt).toNat ∧ entryType m madt p = madtTypeIoApic := by
  induction fuel generalizing ptr with
  | zero => cases result
  | succ fuel ih =>
      by_cases inside : ptr < (length m madt).toNat
      · by_cases ioApic : entryType m madt ptr = madtTypeIoApic
        · rw [madtWalk_ioApic inside ioApic] at result
          cases result
          exact ⟨visited, inside, ioApic⟩
        · rw [madtWalk_next inside ioApic] at result
          exact ih (visited.next inside ioApic) result
      · rw [madtWalk_end inside] at result
        cases result

/-! ## Entries behind an I/O APIC -/

theorem Visited.begins (visited : Visited m madt ptr) : Begins m madt ptr := by
  induction visited with
  | first => exact .first
  | next _ inside _ ih => exact ih.next inside

/-- An entry is visited, or comes behind the first I/O APIC. -/
theorem Begins.visited_or (begins : Begins m madt ptr) : Visited m madt ptr ∨
    ∃ p, Visited m madt p ∧ p < (length m madt).toNat ∧
      entryType m madt p = madtTypeIoApic ∧ p + (entryLength m madt p).toNat ≤ ptr := by
  induction begins with
  | first => exact .inl .first
  | @next ptr _ inside ih =>
      rcases ih with visited | ⟨p, visited, hp, ioApic, behind⟩
      · by_cases ioApic : entryType m madt ptr = madtTypeIoApic
        · exact .inr ⟨ptr, visited, inside, ioApic, le_rfl⟩
        · exact .inl (visited.next inside ioApic)
      · exact .inr ⟨p, visited, hp, ioApic, Nat.le_add_right_of_le behind⟩

end Coolos.Acpi
