import Mathlib.Logic.Function.Basic

/-!
# Bits packed into words

A set of naturals kept as a bit table, `w` bits to a word. `testBit` reads one
bit; setting and clearing change that bit only, and two tables with the same
bits are equal.
-/

namespace Lib

/-- A table of words. -/
abbrev BitTable (w : Nat) := Nat → BitVec w

namespace BitTable

variable {w : Nat}

/-- Bit `p` of the table. -/
def testBit (t : BitTable w) (p : Nat) : Bool := (t (p / w)).getLsbD (p % w)

/-- `t[p / w] |= 1 << (p % w)`. -/
def setBit (t : BitTable w) (p : Nat) : BitTable w :=
  Function.update t (p / w) (t (p / w) ||| 1#w <<< (p % w))

/-- `t[p / w] &= ~(1 << (p % w))`. -/
def clearBit (t : BitTable w) (p : Nat) : BitTable w :=
  Function.update t (p / w) (t (p / w) &&& ~~~(1#w <<< (p % w)))

/-- Word and position determine the bit. -/
theorem index_eq_iff {p q : Nat} (same : q / w = p / w) : q % w = p % w ↔ q = p := by
  constructor
  · intro h
    rw [← Nat.div_add_mod q w, ← Nat.div_add_mod p w, same, h]
  · rintro rfl; rfl

theorem getLsbD_one_shiftLeft {i k : Nat} (hk : k < w) (hi : i < w) :
    (1#w <<< k).getLsbD i = decide (i = k) := by
  rw [BitVec.getLsbD_shiftLeft, BitVec.getLsbD_one]
  by_cases h : i = k
  · subst h; simp; omega
  · simp only [h, decide_false]
    by_cases lt : i < k
    · simp [lt]
    · have : i - k ≠ 0 := by omega
      simp [this]

theorem testBit_setBit (hw : 0 < w) (t : BitTable w) (p q : Nat) :
    (t.setBit p).testBit q = (decide (q = p) || t.testBit q) := by
  unfold setBit testBit
  by_cases same : q / w = p / w
  · rw [same, Function.update_self, BitVec.getLsbD_or,
      getLsbD_one_shiftLeft (Nat.mod_lt p hw) (Nat.mod_lt q hw), Bool.or_comm]
    simp only [index_eq_iff same]
  · have other : q ≠ p := by rintro rfl; exact same rfl
    rw [Function.update_of_ne same]
    simp [other]

theorem testBit_clearBit (hw : 0 < w) (t : BitTable w) (p q : Nat) :
    (t.clearBit p).testBit q = (!decide (q = p) && t.testBit q) := by
  unfold clearBit testBit
  by_cases same : q / w = p / w
  · have inside := Nat.mod_lt q hw
    rw [same, Function.update_self, BitVec.getLsbD_and, BitVec.getLsbD_not,
      getLsbD_one_shiftLeft (Nat.mod_lt p hw) inside, Bool.and_comm]
    simp only [index_eq_iff same, inside, decide_true, Bool.true_and]
  · have other : q ≠ p := by rintro rfl; exact same rfl
    rw [Function.update_of_ne same]
    simp [other]

theorem ext_testBit (hw : 0 < w) {t t' : BitTable w}
    (h : ∀ p, t.testBit p = t'.testBit p) : t = t' := by
  funext i
  refine BitVec.eq_of_getLsbD_eq fun k hk => ?_
  have := h (w * i + k)
  simpa only [testBit, Nat.mul_add_div hw, Nat.div_eq_of_lt hk, Nat.add_zero, Nat.mul_add_mod,
    Nat.mod_eq_of_lt hk] using this

end BitTable
end Lib
