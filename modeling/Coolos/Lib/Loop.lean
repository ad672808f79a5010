import Mathlib.Data.List.Basic

/-!
# Counted loops

A loop over a range of naturals is a fold. Its invariant says what holds with `i` turns to
come from, and so holds of the bound when the loop ends. Loops nest: the invariant of an
inner loop is the outer one's, between two turns of the outer counter.
-/

namespace Lib

variable {σ : Type*} {P : Nat → σ → Prop} {f : σ → Nat → σ}

/-- `for (i = a; i < a + n; i++)`. -/
theorem foldl_range'_inv {a n : Nat} {s : σ} (start : P a s)
    (turn : ∀ i s, a ≤ i → i < a + n → P i s → P (i + 1) (f s i)) :
    P (a + n) ((List.range' a n).foldl f s) := by
  induction n generalizing a s with
  | zero => exact start
  | succ n ih =>
      have bound : a + (n + 1) = a + 1 + n := by omega
      rw [List.range'_succ, List.foldl_cons, bound]
      have first : P (a + 1) (f s a) := turn a s (Nat.le_refl a) (by omega) start
      apply ih first
      intro i s lower upper h
      exact turn i s (by omega) (by omega) h

/-- `for (i = 0; i < n; i++)`. -/
theorem foldl_range_inv {n : Nat} {s : σ} (start : P 0 s)
    (turn : ∀ i s, i < n → P i s → P (i + 1) (f s i)) :
    P n ((List.range n).foldl f s) := by
  have whole := foldl_range'_inv (n := n) start (by
    intro i s _ upper h
    exact turn i s (by omega) h)
  rwa [Nat.zero_add, ← List.range_eq_range'] at whole

end Lib
