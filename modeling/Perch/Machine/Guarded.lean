/-
Sequences of guarded operations.

An operation changes a state.  A sequence is safe when every state it goes
through satisfies an invariant, the first and the last included, and every
operation is allowed where it is issued.  Phases of a sequence are checked one
by one, each by an induction of its own.
-/

namespace Perch.Machine

structure Guarded (σ α : Type) where
  step : σ → α → σ
  /-- What must hold of every state. -/
  holds : σ → Prop
  allowed : σ → α → Prop

namespace Guarded

variable {σ α : Type} (machine : Guarded σ α)

def run (state : σ) (operations : List α) : σ := operations.foldl machine.step state

def Safe : σ → List α → Prop
  | state, [] => machine.holds state
  | state, operation :: rest =>
      machine.holds state ∧ machine.allowed state operation ∧
        Safe (machine.step state operation) rest

variable {machine}

@[simp] theorem run_nil (state : σ) : machine.run state [] = state := rfl

@[simp] theorem run_cons (state : σ) (operation : α) (rest : List α) :
    machine.run state (operation :: rest) = machine.run (machine.step state operation) rest := rfl

theorem run_append (state : σ) (first second : List α) :
    machine.run state (first ++ second) = machine.run (machine.run state first) second :=
  List.foldl_append

theorem Safe.holds {state : σ} {operations : List α} (safe : machine.Safe state operations) :
    machine.holds state := by
  cases operations with
  | nil => exact safe
  | cons operation rest => exact safe.1

theorem Safe.append {state : σ} {first second : List α} (safe : machine.Safe state first)
    (then_ : machine.Safe (machine.run state first) second) :
    machine.Safe state (first ++ second) := by
  induction first generalizing state with
  | nil => exact then_
  | cons operation rest ih => exact ⟨safe.1, safe.2.1, ih safe.2.2 then_⟩

theorem Safe.at_prefix {state : σ} {before after : List α}
    (safe : machine.Safe state (before ++ after)) :
    machine.Safe (machine.run state before) after := by
  induction before generalizing state with
  | nil => exact safe
  | cons operation rest ih => exact ih safe.2.2

/-- A phase is safe by what holds of the state and of what is still to come. -/
theorem safe_of_phase (phase : σ → List α → Prop)
    (done : ∀ {state}, phase state [] → machine.holds state)
    (next : ∀ {state operation rest}, phase state (operation :: rest) →
      machine.holds state ∧ machine.allowed state operation ∧
        phase (machine.step state operation) rest)
    {state : σ} {operations : List α} (starts : phase state operations) :
    machine.Safe state operations := by
  induction operations generalizing state with
  | nil => exact done starts
  | cons operation rest ih =>
      obtain ⟨held, allowed, after⟩ := next starts
      exact ⟨held, allowed, ih after⟩

end Guarded

end Perch.Machine
