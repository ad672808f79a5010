import Mathlib.Logic.Function.Basic

/-!
# Rings with phase tags

A queue of unbounded length written into `n` slots, entry `k` into slot `k % n`.
With each entry goes a tag that is inverted on every pass, so that a reader who
knows how many entries it has consumed can tell a new entry from the one left in
the slot by the pass before.
-/

namespace Lib.PhaseRing

/-- The tag of entry `k`: set on the first pass, inverted on every later one. -/
def tag (n k : Nat) : Bool := k / n % 2 == 0

/-- The next pass is tagged the other way. -/
theorem tag_next_pass {n k p : Nat} (next : p / n = k / n + 1) : tag n p = !tag n k := by
  unfold tag
  rw [next]
  rcases Nat.mod_two_eq_zero_or_one (k / n) with even | odd
  · have : (k / n + 1) % 2 = 1 := by omega
    simp [even, this]
  · have : (k / n + 1) % 2 = 0 := by omega
    simp [odd, this]

section Index

variable {n : Nat} (pos : 0 < n) (k : Nat)
include pos

/-- The slot of the next entry. -/
theorem succ_mod : (k + 1) % n = if n ≤ k % n + 1 then 0 else k % n + 1 := by
  have lt := Nat.mod_lt k pos
  split
  · have last : k % n + 1 = n := by omega
    have split := Nat.div_add_mod k n
    have next : k + 1 = n * (k / n + 1) := by
      rw [Nat.mul_succ]
      omega
    rw [next, Nat.mul_mod_right]
  · rw [Nat.add_mod, Nat.mod_eq_of_lt (a := k % n + 1 % n)]
    · rw [Nat.mod_eq_of_lt (show 1 < n by omega)]
    · rw [Nat.mod_eq_of_lt (show 1 < n by omega)]
      omega

/-- The pass of the next entry. -/
theorem succ_div : (k + 1) / n = if n ≤ k % n + 1 then k / n + 1 else k / n := by
  have lt := Nat.mod_lt k pos
  have split := Nat.div_add_mod k n
  split
  · have next : k + 1 = n * (k / n + 1) := by
      rw [Nat.mul_succ]
      omega
    rw [next, Nat.mul_div_cancel_left _ pos]
  · have next : k + 1 = k % n + 1 + n * (k / n) := by omega
    rw [next, Nat.add_mul_div_left _ _ pos, Nat.div_eq_of_lt (by omega), Nat.zero_add]

/-- Entries are tagged alike until the ring wraps. -/
theorem tag_succ : tag n (k + 1) = if n ≤ k % n + 1 then !tag n k else tag n k := by
  have next := succ_div pos k
  split
  · rename_i wraps
    exact tag_next_pass (next.trans (if_pos wraps))
  · rename_i stays
    rw [tag, tag, next, if_neg stays]

end Index

variable {n p : Nat} {tags : Nat → Bool}

/-- The tags in the slots when `p` entries have been written: those of the current
pass below the next slot, above it those the pass before left. -/
def Tagged (n : Nat) (tags : Nat → Bool) (p : Nat) : Prop :=
  ∀ i < n, tags i = if i < p % n then tag n p else !tag n p

/-- Cleared slots hold no entry of the first pass. -/
theorem Tagged.init (clear : ∀ i < n, tags i = false) : Tagged n tags 0 := by
  intro i hi
  rw [clear i hi, Nat.zero_mod, if_neg (Nat.not_lt_zero i)]
  simp [tag]

/-- The next entry goes into the next slot. -/
theorem Tagged.write (pos : 0 < n) (h : Tagged n tags p) :
    Tagged n (Function.update tags (p % n) (tag n p)) (p + 1) := by
  intro i hi
  have lt := Nat.mod_lt p pos
  rw [succ_mod pos, tag_succ pos]
  by_cases wraps : n ≤ p % n + 1
  · -- the last slot: the next pass starts
    rw [if_pos wraps, if_pos wraps, if_neg (Nat.not_lt_zero i), Bool.not_not]
    by_cases last : i = p % n
    · rw [last, Function.update_self]
    · rw [Function.update_of_ne last, h i hi, if_pos (by omega)]
  · rw [if_neg wraps, if_neg wraps]
    by_cases here : i = p % n
    · rw [here, Function.update_self, if_pos (Nat.lt_succ_self _)]
    · rw [Function.update_of_ne here, h i hi]
      by_cases below : i < p % n
      · rw [if_pos below, if_pos (by omega)]
      · rw [if_neg below, if_neg (by omega)]

/-- A reader that has consumed `k` entries and is less than a pass behind finds its tag
at its slot exactly when entry `k` has been written. -/
theorem Tagged.new_iff (pos : 0 < n) (h : Tagged n tags p) {k : Nat} (behind : k ≤ p)
    (close : p < k + n) : tags (k % n) = tag n k ↔ k < p := by
  have splitK := Nat.div_add_mod k n
  have splitP := Nat.div_add_mod p n
  have ltK := Nat.mod_lt k pos
  have ltP := Nat.mod_lt p pos
  rw [h (k % n) ltK]
  -- the writer is on the pass of the reader, or on the next
  by_cases same : p / n = k / n
  · have tags : tag n p = tag n k := by rw [tag, tag, same]
    rw [same] at splitP
    by_cases below : k % n < p % n
    · rw [if_pos below, tags]
      exact iff_of_true rfl (by omega)
    · rw [if_neg below, tags]
      exact iff_of_false (by cases tag n k <;> decide) (by omega)
  · have le : k / n ≤ p / n := Nat.div_le_div_right behind
    have next : p / n = k / n + 1 := by
      have lt : p / n < k / n + 1 + 1 := by
        apply (Nat.div_lt_iff_lt_mul pos).mpr
        rw [Nat.mul_comm, Nat.mul_succ, Nat.mul_succ]
        omega
      omega
    have below : ¬ k % n < p % n := by
      rw [next, Nat.mul_succ] at splitP
      omega
    rw [if_neg below, tag_next_pass next, Bool.not_not]
    refine iff_of_true rfl ?_
    rw [next, Nat.mul_succ] at splitP
    omega

end Lib.PhaseRing
