import Coolos.Lib.TSys

/-!
# Round robin over a growing table

A table of entries, some of them active, and a current one that moves to the
next active entry round the table. Entries are added behind the last one and
become inactive when they leave; an entry that left does not come back.

On the way from an entry round to itself every other entry that stays active is
reached exactly once (`arrivals_round`). The invariant is what has been passed
since the start (`Passed`): all entries between the start and the current one,
in the order of the table.
-/

namespace Lib.RoundRobin

structure Table where
  current : Nat
  total : Nat
  active : Nat → Prop

namespace Table

/-- How many places round the table `j` is ahead of the current entry. -/
def ahead (t : Table) (j : Nat) : Nat :=
  if t.current < j then j - t.current else j + t.total - t.current

/-- `k` is the next active entry round the table. -/
structure Next (t : Table) (k : Nat) : Prop where
  inside : k < t.total
  active : t.active k
  other : k ≠ t.current
  first : ∀ j < t.total, t.active j → j ≠ t.current → t.ahead k ≤ t.ahead j

/-- No entry beyond the last one is active, and the current one is there. -/
structure Ok (t : Table) : Prop where
  current : t.current < t.total
  beyond : ∀ i, t.total ≤ i → ¬ t.active i

/-- What can happen to a table. -/
inductive Step (t : Table) : Table → Prop
  | stay : Step t t
  /-- A new entry, active or not. -/
  | add {a : Nat → Prop} : (∀ i, i ≠ t.total → (a i ↔ t.active i)) →
      Step t ⟨t.current, t.total + 1, a⟩
  | move {k : Nat} : t.Next k → Step t { t with current := k }
  /-- The current entry leaves and the next one follows. -/
  | leave {k : Nat} {a : Nat → Prop} : t.Next k → ¬ a t.current →
      (∀ i, i ≠ t.current → (a i ↔ t.active i)) → Step t ⟨k, t.total, a⟩

variable {t t' : Table}

theorem Step.ok (ok : t.Ok) (step : t.Step t') : t'.Ok := by
  cases step with
  | stay => exact ok
  | add same =>
      refine ⟨Nat.lt_succ_of_lt ok.current, ?_⟩
      intro i hi
      have hi : t.total + 1 ≤ i := hi
      intro active
      exact ok.beyond i (by omega) ((same i (by omega)).mp active)
  | move next => exact ⟨next.inside, ok.beyond⟩
  | leave next _ same =>
      refine ⟨next.inside, ?_⟩
      intro i hi
      have := ok.current
      have hi : t.total ≤ i := hi
      intro active
      exact ok.beyond i hi ((same i (by omega)).mp active)

/-- An entry of the table that is active was active before. -/
theorem Step.active_before (step : t.Step t') {i : Nat} (inside : i < t.total)
    (active : t'.active i) : t.active i := by
  cases step with
  | stay => exact active
  | add same => exact (same i (Nat.ne_of_lt inside)).mp active
  | move _ => exact active
  | leave _ gone same =>
      by_cases here : i = t.current
      · subst here
        exact absurd active gone
      · exact (same i here).mp active

/-- The current entry stays, or the next one becomes current. -/
theorem Step.current_cases (step : t.Step t') : t'.current = t.current ∨ t.Next t'.current := by
  cases step with
  | stay => exact .inl rfl
  | add _ => exact .inl rfl
  | move next => exact .inr next
  | leave next _ _ => exact .inr next

theorem Step.total_le (step : t.Step t') : t.total ≤ t'.total := by
  cases step with
  | stay => exact Nat.le_refl _
  | add _ => exact Nat.le_succ _
  | move _ => exact Nat.le_refl _
  | leave _ _ _ => exact Nat.le_refl _

end Table

/-! ## Arrivals -/

/-- How often `y` becomes current after the first state of a trace. -/
def arrivals {σ : Type*} (current : σ → Nat) (y : Nat) (s : σ) : List σ → Nat
  | [] => 0
  | s' :: trace =>
      arrivals current y s trace +
        if current s' = y ∧ current (trace.headD s) ≠ y then 1 else 0

theorem arrivals_map {σ τ : Type*} (view : σ → τ) (current : τ → Nat) (y : Nat) (s : σ)
    (trace : List σ) :
    arrivals current y (view s) (trace.map view) = arrivals (current ∘ view) y s trace := by
  induction trace with
  | nil => rfl
  | cons s' trace ih =>
      cases trace with
      | nil => rfl
      | cons s'' trace =>
          rw [List.map_cons, arrivals, ih]
          rfl

/-- `y` lies between `x` and the current entry, which has not come back to `x`. -/
def Passed (x y current : Nat) : Prop :=
  if x ≤ current then x < y ∧ y ≤ current else x < y ∨ y ≤ current

instance (x y current : Nat) : Decidable (Passed x y current) :=
  inferInstanceAs (Decidable (ite _ _ _))

section Round

variable {x y k : Nat} {t t' : Table} {trace : List Table}

theorem not_passed_start : ¬ Passed x y x := by
  unfold Passed
  rw [if_pos (Nat.le_refl x)]
  omega

/-- Which entries are ahead of which. -/
theorem Table.Next.first_le (ok : t.Ok) (next : t.Next k) (hy : t.active y)
    (other : y ≠ t.current) :
    t.ahead k ≤ t.ahead y :=
  next.first y (Nat.lt_of_not_le fun h => ok.beyond y h hy) hy other

/-- The next entry passes no active one but itself, which had not been passed. -/
theorem passed_next (ok : t.Ok) (next : t.Next k) (hx : t.active x) (hy : t.active y)
    (away : k ≠ x) :
    (Passed x y k ↔ Passed x y t.current ∨ y = k) ∧ ¬ (Passed x y t.current ∧ y = k) := by
  have xin : x < t.total := Nat.lt_of_not_le fun h => ok.beyond x h hx
  have yin : y < t.total := Nat.lt_of_not_le fun h => ok.beyond y h hy
  have firstX := next.first_le ok hx
  have firstY := next.first_le ok hy
  have inside := next.inside
  have other := next.other
  have cur := ok.current
  simp only [Passed, Table.ahead] at firstX firstY ⊢
  -- whether the next entry, `x` and `y` come before the end of the table
  by_cases hk : t.current < k <;> by_cases hxc : t.current < x <;> by_cases hyc : t.current < y <;>
    simp only [hk, hxc, hyc, if_true, if_false] at firstX firstY <;>
      split <;> split <;> omega

/-- Back at `x`, every other active entry has been passed. -/
theorem passed_back (ok : t.Ok) (back : t.Next x) (hy : t.active y) (other : y ≠ x) :
    Passed x y t.current := by
  have yin : y < t.total := Nat.lt_of_not_le fun h => ok.beyond y h hy
  have firstY := back.first_le ok hy
  have inside := back.inside
  have away := back.other
  have cur := ok.current
  simp only [Passed, Table.ahead] at firstY ⊢
  by_cases hxc : t.current < x <;> by_cases hyc : t.current < y <;>
    simp only [hxc, hyc, if_true, if_false] at firstY <;> split <;> omega

/-- One more state: the entry that becomes current is counted. -/
theorem arrivals_cons {s s' : Table} (path : Path Table.Step t trace s) (y : Nat) :
    arrivals Table.current y t (s' :: trace) =
      arrivals Table.current y t trace + if s'.current = y ∧ s.current ≠ y then 1 else 0 := by
  have last : trace.headD t = s := path.headD
  rw [arrivals, last]

theorem path_ok (ok : t.Ok) (path : Path Table.Step t trace t') : t'.Ok ∧ t.total ≤ t'.total := by
  induction path with
  | nil => exact ⟨ok, Nat.le_refl _⟩
  | step _ next ih => exact ⟨next.ok ih.1, Nat.le_trans ih.2 next.total_le⟩

/-- What stays active along a path was so before its last state. -/
theorem active_earlier {s' : Table} (stays : ∀ s ∈ t :: s' :: trace, s.active y) :
    ∀ s ∈ t :: trace, s.active y := by
  simp only [List.forall_mem_cons] at stays ⊢
  exact ⟨stays.1, stays.2.2⟩

/-- Along a path from `x` that has not come back, the entries passed are those reached
once, and the others have not been reached. -/
theorem arrivals_passed (ok : t.Ok) (start : t.current = x) (path : Path Table.Step t trace t')
    (away : arrivals Table.current x t trace = 0) (stays : ∀ s ∈ t :: trace, s.active y)
    (here : t'.active x) :
    arrivals Table.current y t trace = if Passed x y t'.current then 1 else 0 := by
  -- on the path: each move passes one active entry, its own goal
  induction path with
  | nil =>
      rw [start, if_neg not_passed_start]
      rfl
  | @step s s' trace path next ih =>
      obtain ⟨ok', grown⟩ := path_ok ok path
      have inside : x < s.total := Nat.lt_of_lt_of_le (start ▸ ok.current) grown
      have earlier := active_earlier stays
      have hx : s.active x := next.active_before inside here
      have hy : s.active y := earlier s path.last_mem
      rw [arrivals_cons path] at away ⊢
      rw [ih (by omega) earlier hx]
      cases next.current_cases with
      | inl same =>
          have quiet : ¬ (s.current = y ∧ s.current ≠ y) := fun h => h.2 h.1
          rw [same, if_neg quiet, Nat.add_zero]
      | inr moved =>
          have away : s'.current ≠ x := by
            intro back
            rw [if_pos ⟨back, fun h => moved.other (back.trans h.symm)⟩] at away
            omega
          obtain ⟨passed, once⟩ := passed_next ok' moved hx hy away
          by_cases reached : s'.current = y
          · -- `y` is counted, and had not been passed
            have fresh : ¬ Passed x y s.current := fun h => once ⟨h, reached.symm⟩
            rw [if_neg fresh, if_pos ⟨reached, fun h => moved.other (reached.trans h.symm)⟩,
              if_pos (passed.mpr (.inr reached.symm))]
          · have same : Passed x y s'.current ↔ Passed x y s.current := by
              rw [passed, or_iff_left (Ne.symm reached)]
            have quiet : ¬ (s'.current = y ∧ s.current ≠ y) := fun h => reached h.1
            rw [if_neg quiet, Nat.add_zero, if_congr same rfl rfl]

/-- From `x` round to `x`, every other entry that stays active is reached exactly
once. -/
theorem arrivals_round (ok : t.Ok) (start : t.current = x) (path : Path Table.Step t trace t')
    {t'' : Table} (step : t'.Step t'') (away : arrivals Table.current x t trace = 0)
    (back : t''.current = x ∧ t'.current ≠ x) (other : y ≠ x)
    (stays : ∀ s ∈ t :: t'' :: trace, s.active y) :
    arrivals Table.current y t (t'' :: trace) = 1 := by
  obtain ⟨ok', -⟩ := path_ok ok path
  have earlier := active_earlier stays
  have next : t'.Next x := by
    cases step.current_cases with
    | inl same => exact absurd (same.symm.trans back.1) back.2
    | inr next => exact back.1 ▸ next
  rw [arrivals_cons path, arrivals_passed ok start path away earlier next.active,
    if_pos (passed_back ok' next (earlier t' path.last_mem) other),
    if_neg fun h => other (h.1.symm.trans back.1)]

end Round
end Lib.RoundRobin
