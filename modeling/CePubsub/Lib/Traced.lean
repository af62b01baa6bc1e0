import Mathlib.Data.List.Basic

/-!
# Computations that note what they do

A `Traced` computation notes events as it goes and returns something or fails; what it noted is kept
when it fails. `Meets P Q` is what such a computation is shown to do: every event it notes is allowed by
`P`, and it returns something `Q` holds of. The rules put that together along the computation
(`Meets.bind`), from what its single events are shown to do (`meets_attempt`).
-/

/-- A computation that notes events. It fails if it has no outcome. -/
structure Traced (ε α : Type) where
  log : List ε
  outcome : Option α
deriving DecidableEq

namespace Traced

variable {ε α β : Type}

/-- To return, and note nothing. -/
def done (a : α) : Traced ε α := { log := [], outcome := some a }

/-- To go on with what was returned, if something was. -/
def andThen (m : Traced ε α) (next : α → Traced ε β) : Traced ε β :=
  match m.outcome with
  | some a => { log := m.log ++ (next a).log, outcome := (next a).outcome }
  | none => { log := m.log, outcome := none }

instance : Monad (Traced ε) where
  pure := done
  bind := andThen

/-- To note an event, which may fail. -/
def attempt (e : ε) (outcome : Option α) : Traced ε α := { log := [e], outcome }

/-- An action that is logged and cannot fail. -/
def note (e : ε) : Traced ε Unit := attempt e (some ())

/-- The run that stops here. -/
def abort : Traced ε α := { log := [], outcome := none }

/-- After a run that returned, the next one goes on and its log follows. -/
theorem bind_of_outcome {m : Traced ε α} {a : α} (returned : m.outcome = some a)
    (next : α → Traced ε β) :
    m >>= next = { log := m.log ++ (next a).log, outcome := (next a).outcome } := by
  show andThen m next = _
  rw [andThen, returned]

/-- What a computation notes is allowed, and what it returns is right. -/
structure Meets (P : ε → Prop) (Q : α → Prop) (m : Traced ε α) : Prop where
  allowed : ∀ e ∈ m.log, P e
  returns : ∃ a, m.outcome = some a ∧ Q a

variable {P : ε → Prop} {Q : α → Prop} {R : β → Prop}

/-- A pure result does nothing, so only the result has to be right. -/
theorem meets_pure {a : α} (right : Q a) : Meets P Q (pure a : Traced ε α) :=
  ⟨List.forall_mem_nil P, a, rfl, right⟩

/-- One allowed action that returns. -/
theorem meets_attempt {e : ε} {outcome : Option α} {a : α} (allowed : P e)
    (returned : outcome = some a) : Meets P (· = a) (attempt e outcome) :=
  ⟨List.forall_mem_singleton.mpr allowed, a, returned, rfl⟩

/-- Two runs that meet their bounds do so one after the other. -/
theorem Meets.bind {m : Traced ε α} {next : α → Traced ε β} (h : Meets P Q m)
    (after : ∀ a, Q a → Meets P R (next a)) : Meets P R (m >>= next) := by
  obtain ⟨allowed, a, returned, right⟩ := h
  obtain ⟨allowed', b, returned', right'⟩ := after a right
  rw [bind_of_outcome returned]
  exact ⟨List.forall_mem_append.mpr ⟨allowed, allowed'⟩, b, returned', right'⟩

/-- The rule for what comes after a computation that returns one thing. -/
theorem Meets.bind_eq {m : Traced ε α} {a : α} {next : α → Traced ε β} (h : Meets P (· = a) m)
    (after : Meets P R (next a)) : Meets P R (m >>= next) :=
  h.bind fun _ same => same ▸ after

end Traced
