import Mathlib.Logic.Basic

/-!
# Labelled transition systems

Runs of a component under requests from its clients: initial states and a
labelled step relation. Safety of every run is an inductive invariant;
`guard` keeps only the steps a condition allows, for results that hold of the
runs whose steps all meet it. A `Path` is a stretch of a run between two states,
for results about what happens in between.
-/

namespace Lib

/-- Initial states and labelled steps. -/
structure TSys (σ ε : Type*) where
  init : σ → Prop
  next : σ → ε → σ → Prop

namespace TSys

variable {σ ε : Type*} (T : TSys σ ε)

/-- The states some run reaches. -/
inductive Reachable : σ → Prop
  | init {s : σ} : T.init s → Reachable s
  | step {s s' : σ} {e : ε} : Reachable s → T.next s e s' → Reachable s'

/-- A run: its steps, the last one first, each with the state before it. -/
inductive Run : List (σ × ε) → σ → Prop
  | init {s : σ} : T.init s → Run [] s
  | step {steps : List (σ × ε)} {s s' : σ} {e : ε} :
      Run steps s → T.next s e s' → Run ((s, e) :: steps) s'

/-- `P` holds in every state of every run. -/
def Invariant (P : σ → Prop) : Prop := ∀ s, T.Reachable s → P s

/-- `P` holds initially and each step preserves it. -/
structure Inductive (P : σ → Prop) : Prop where
  base : ∀ s, T.init s → P s
  step : ∀ s e s', P s → T.next s e s' → P s'

variable {T}

theorem Inductive.invariant {P : σ → Prop} (ind : T.Inductive P) : T.Invariant P := by
  intro s hs
  induction hs with
  | init h => exact ind.base _ h
  | step _ hnext ih => exact ind.step _ _ _ ih hnext

theorem Run.reachable {steps : List (σ × ε)} {s : σ} (run : T.Run steps s) : T.Reachable s := by
  induction run with
  | init h => exact .init h
  | step _ hnext ih => exact .step ih hnext

/-- Keep the steps that meet `G`. -/
def guard (T : TSys σ ε) (G : σ → ε → Prop) : TSys σ ε where
  init := T.init
  next s e s' := G s e ∧ T.next s e s'

/-- One step, whatever its label. -/
def Steps (T : TSys σ ε) (s s' : σ) : Prop := ∃ e, T.next s e s'

end TSys

/-! ## Paths -/

/-- A path of `R` from a state to a state: the states after the first, the last
one first. -/
inductive Path {σ : Type*} (R : σ → σ → Prop) : σ → List σ → σ → Prop
  | nil {s : σ} : Path R s [] s
  | step {s s' s'' : σ} {trace : List σ} :
      Path R s trace s' → R s' s'' → Path R s (s'' :: trace) s''

namespace Path

variable {σ τ : Type*} {R : σ → σ → Prop}

/-- The last state of a path heads its trace. -/
theorem headD {s s' : σ} {trace : List σ} (path : Path R s trace s') : trace.headD s = s' := by
  cases path with
  | nil => rfl
  | step _ _ => rfl

theorem last_mem {s s' : σ} {trace : List σ} (path : Path R s trace s') : s' ∈ s :: trace := by
  cases path with
  | nil => exact List.mem_cons_self
  | step _ _ => exact List.mem_cons_of_mem _ List.mem_cons_self

/-- A simulation carries paths over. -/
theorem map {Q : τ → τ → Prop} (view : σ → τ) {P : σ → Prop}
    (keep : ∀ s s', P s → R s s' → P s' ∧ Q (view s) (view s')) {s s' : σ} {trace : List σ}
    (start : P s) (path : Path R s trace s') :
    P s' ∧ Path Q (view s) (trace.map view) (view s') := by
  induction path with
  | nil => exact ⟨start, .nil⟩
  | step _ next ih =>
      obtain ⟨here, before⟩ := ih
      obtain ⟨there, simulated⟩ := keep _ _ here next
      exact ⟨there, .step before simulated⟩

end Path
end Lib
