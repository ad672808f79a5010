import Mathlib.Logic.Basic

/-!
# Drivers and the devices they drive

A driver as what it does to its device, event by event, and what it returns, nothing as long as
it waits. A device is an automaton on these events that says which it allows; `Allows` is the
triple for a driver that starts in a given state of the device, with its rules for sequencing.
-/

namespace Lib

/-- The events of a driver, and its result if it has returned. -/
structure Driver (ε α : Type) where
  events : List ε
  result : Option α

namespace Driver

variable {ε α β : Type}

/-- One event. -/
def emit (e : ε) : Driver ε Unit := ⟨[e], some ()⟩

/-- It goes on waiting. -/
def waits : Driver ε α := ⟨[], none⟩

instance : Monad (Driver ε) where
  pure a := ⟨[], some a⟩
  bind x f :=
    match x.result with
    | none => ⟨x.events, none⟩
    | some a => ⟨x.events ++ (f a).events, (f a).result⟩

@[simp] theorem pure_result (a : α) : (pure a : Driver ε α).result = some a := rfl

@[simp] theorem emit_result (e : ε) : (emit e).result = some () := rfl

@[simp] theorem waits_result : (waits : Driver ε α).result = none := rfl

theorem bind_none {x : Driver ε α} (h : x.result = none) (f : α → Driver ε β) :
    x >>= f = ⟨x.events, none⟩ := by
  show (match x.result with
    | none => (⟨x.events, none⟩ : Driver ε β)
    | some a => ⟨x.events ++ (f a).events, (f a).result⟩) = _
  rw [h]

theorem bind_some {x : Driver ε α} {a : α} (h : x.result = some a) (f : α → Driver ε β) :
    x >>= f = ⟨x.events ++ (f a).events, (f a).result⟩ := by
  show (match x.result with
    | none => (⟨x.events, none⟩ : Driver ε β)
    | some a => ⟨x.events ++ (f a).events, (f a).result⟩) = _
  rw [h]

/-- A sequence returns what its second part returns for the first one's result. -/
@[simp] theorem bind_result (x : Driver ε α) (f : α → Driver ε β) :
    (x >>= f).result = x.result.bind fun a => (f a).result := by
  cases h : x.result with
  | none => rw [bind_none h, Option.bind_none]
  | some a => rw [bind_some h, Option.bind_some]

/-! ## What a device allows -/

variable {σ : Type} {step : σ → ε → Option σ} {c : σ} {Q R : α → σ → Prop}

/-- From state `c` the device allows all events of the driver; if it returns `a`, the device is
in a state with `Q a`. -/
def Allows (step : σ → ε → Option σ) (c : σ) (x : Driver ε α) (Q : α → σ → Prop) : Prop :=
  ∃ c', x.events.foldlM step c = some c' ∧ ∀ a, x.result = some a → Q a c'

namespace Allows

theorem pure {a : α} (h : Q a c) : Allows step c (Pure.pure a) Q := by
  refine ⟨c, rfl, fun b hb => ?_⟩
  obtain rfl := Option.some.inj hb
  exact h

theorem emit {e : ε} {c' : σ} {Q : Unit → σ → Prop} (h : step c e = some c') (post : Q () c') :
    Allows step c (Driver.emit e) Q := by
  refine ⟨c', ?_, fun _ _ => post⟩
  simp [Driver.emit, h]

theorem waits : Allows step c (Driver.waits : Driver ε α) Q := ⟨c, rfl, fun _ h => nomatch h⟩

/-- The rule of sequencing. -/
theorem bind {x : Driver ε α} {f : α → Driver ε β} {P : β → σ → Prop} (h : Allows step c x Q)
    (next : ∀ a c', Q a c' → Allows step c' (f a) P) : Allows step c (x >>= f) P := by
  obtain ⟨c', run, post⟩ := h
  cases result : x.result with
  | none =>
      rw [bind_none result]
      exact ⟨c', run, fun _ h => nomatch h⟩
  | some a =>
      obtain ⟨c'', run', post'⟩ := next a c' (post a result)
      rw [bind_some result]
      refine ⟨c'', ?_, post'⟩
      rw [List.foldlM_append, run]
      exact run'

/-- An event, then the rest. -/
theorem emit_bind {e : ε} {c' : σ} {f : Unit → Driver ε α} (h : step c e = some c')
    (next : Allows step c' (f ()) Q) : Allows step c (Driver.emit e >>= f) Q := by
  refine bind (Q := fun _ d => d = c') (emit h rfl) fun _ d same => ?_
  rw [same]
  exact next

theorem mono {x : Driver ε α} (h : Allows step c x Q) (weaker : ∀ a d, Q a d → R a d) :
    Allows step c x R := by
  obtain ⟨c', run, post⟩ := h
  exact ⟨c', run, fun a ha => weaker a c' (post a ha)⟩

/-- What is returned is the driver's result. -/
theorem and_result {x : Driver ε α} (h : Allows step c x Q) :
    Allows step c x fun a d => Q a d ∧ x.result = some a := by
  obtain ⟨c', run, post⟩ := h
  exact ⟨c', run, fun a ha => ⟨post a ha, ha⟩⟩

end Allows

/-- From state `c` the device allows all events of the driver. -/
def Permits (step : σ → ε → Option σ) (c : σ) (x : Driver ε α) : Prop :=
  ∃ c', x.events.foldlM step c = some c'

theorem Allows.permits {x : Driver ε α} (h : Allows step c x Q) : Permits step c x := by
  obtain ⟨c', run, -⟩ := h
  exact ⟨c', run⟩

/-- Behind a part that is allowed it depends on the rest. -/
theorem permits_bind {x : Driver ε α} {a : α} {f : α → Driver ε β} {c' : σ}
    (run : x.events.foldlM step c = some c') (result : x.result = some a) :
    Permits step c (x >>= f) ↔ Permits step c' (f a) := by
  rw [bind_some result, Permits, List.foldlM_append, run]
  exact Iff.rfl

/-- What is not allowed behind a part that is and returns. -/
theorem Allows.not_permits_bind {x : Driver ε α} {a : α} {f : α → Driver ε β}
    (h : Allows step c x Q) (result : x.result = some a)
    (next : ∀ c', Q a c' → ¬ Permits step c' (f a)) : ¬ Permits step c (x >>= f) := by
  obtain ⟨c', run, post⟩ := h
  rw [Driver.permits_bind run result]
  exact next c' (post a result)

theorem permits_of_bind {x : Driver ε α} {f : α → Driver ε β} (h : Permits step c (x >>= f)) :
    Permits step c x := by
  cases result : x.result with
  | none =>
      rw [bind_none result] at h
      exact h
  | some a =>
      rw [bind_some result] at h
      obtain ⟨c', run⟩ := h
      rw [List.foldlM_append] at run
      obtain ⟨d, front, -⟩ := Option.bind_eq_some_iff.mp run
      exact ⟨d, front⟩

theorem permits_emit {e : ε} {f : Unit → Driver ε α} {c' : σ} (h : step c e = some c') :
    Permits step c (emit e >>= f) ↔ Permits step c' (f ()) := by
  refine permits_bind ?_ rfl
  simp [emit, h]

theorem not_permits_emit {e : ε} {f : Unit → Driver ε α} (h : step c e = none) :
    ¬ Permits step c (emit e >>= f) := by
  rintro ⟨c', run⟩
  have front : (emit e >>= f).events = [e] ++ (f ()).events := rfl
  rw [front, List.foldlM_append, List.foldlM_cons, h] at run
  cases run

/-- A result that is computed adds nothing. -/
theorem permits_bind_pure {x : Driver ε α} {g : α → β} :
    Permits step c (x >>= fun a => pure (g a)) ↔ Permits step c x := by
  have same : (x >>= fun a => pure (g a)).events = x.events := by
    cases result : x.result with
    | none => rw [bind_none result]
    | some a =>
        rw [bind_some result]
        exact List.append_nil _
  rw [Permits, Permits, same]

end Driver
end Lib
