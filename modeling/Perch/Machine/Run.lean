/-
Executions of a clocked system that answers every action.

A system answers an action with a reply and a next state.  A refused action
is one whose reply says so and whose next state is the old one, so rollback
needs no rule of its own.  Time only moves forward, and it moves separately
from the actions: an invariant therefore has to survive waiting as well as
acting.
-/

import Mathlib.Order.Basic

namespace Perch.Machine

structure System (τ σ α ρ : Type) where
  /-- The time an action happens at. -/
  clock : α → τ
  respond : σ → α → ρ × σ

structure Step (σ α ρ : Type) where
  before : σ
  action : α
  reply : ρ
  after : σ

variable {τ σ α ρ : Type}

def System.step (system : System τ σ α ρ) (state : σ) (action : α) : Step σ α ρ :=
  { before := state
    action := action
    reply := (system.respond state action).1
    after := (system.respond state action).2 }

@[simp] theorem System.step_before (system : System τ σ α ρ) (state : σ) (action : α) :
    (system.step state action).before = state := rfl

@[simp] theorem System.step_action (system : System τ σ α ρ) (state : σ) (action : α) :
    (system.step state action).action = action := rfl

/-- Play actions from a state, with the steps taken, newest first. -/
def System.play (system : System τ σ α ρ) (history : List (Step σ α ρ)) (state : σ) :
    List α → List (Step σ α ρ) × σ
  | [] => (history, state)
  | action :: rest =>
      system.play (system.step state action :: history) (system.step state action).after rest

theorem System.play_actions (system : System τ σ α ρ) (history : List (Step σ α ρ)) (state : σ)
    (actions : List α) :
    (system.play history state actions).1.map (·.action) =
      actions.reverse ++ history.map (·.action) := by
  induction actions generalizing history state with
  | nil => rfl
  | cons action rest ih => simp [System.play, ih]

theorem System.play_append (system : System τ σ α ρ) (history : List (Step σ α ρ)) (state : σ)
    (first second : List α) :
    system.play history state (first ++ second) =
      system.play (system.play history state first).1 (system.play history state first).2
        second := by
  induction first generalizing history state with
  | nil => rfl
  | cons action rest ih => exact ih _ _

/-- Executions from a fixed start, with the steps taken so far, newest first. -/
inductive Execution [LE τ] (system : System τ σ α ρ) (start : τ) (origin : σ) :
    List (Step σ α ρ) → τ → σ → Prop where
  | refl : Execution system start origin [] start origin
  | wait {history : List (Step σ α ρ)} {now later : τ} {state : σ} :
      Execution system start origin history now state → now ≤ later →
      Execution system start origin history later state
  | call {history : List (Step σ α ρ)} {now : τ} {state : σ} (action : α) :
      Execution system start origin history now state → system.clock action = now →
      Execution system start origin (system.step state action :: history) now
        (system.step state action).after

namespace Execution

variable [Preorder τ] {system : System τ σ α ρ} {start : τ} {origin : σ}

theorem trans {history later : List (Step σ α ρ)} {middle now : τ} {state final : σ}
    (first : Execution system start origin history middle state)
    (second : Execution system middle state later now final) :
    Execution system start origin (later ++ history) now final := by
  induction second with
  | refl => exact first
  | wait _ forward ih => exact ih.wait forward
  | call action _ atNow ih => exact ih.call action atNow

/-- Induction over executions, with the clock read off the action. -/
theorem invariant (holds : List (Step σ α ρ) → τ → σ → Prop)
    (initial : holds [] start origin)
    (waiting : ∀ {history now later state}, holds history now state → now ≤ later →
      holds history later state)
    (acting : ∀ {history state} (action : α), holds history (system.clock action) state →
      holds (system.step state action :: history) (system.clock action)
        (system.step state action).after)
    {history : List (Step σ α ρ)} {now : τ} {state : σ}
    (execution : Execution system start origin history now state) : holds history now state := by
  induction execution with
  | refl => exact initial
  | wait _ forward ih => exact waiting ih forward
  | call action _ atNow ih =>
      subst atNow
      exact acting action ih

/-- A relation every step respects relates the two ends of an execution. -/
theorem related (relation : σ → σ → Prop)
    (reflexive : ∀ state, relation state state)
    (transitive : ∀ {first second third}, relation first second → relation second third →
      relation first third)
    (stepwise : ∀ state action, relation state (system.step state action).after)
    {history : List (Step σ α ρ)} {now : τ} {state : σ}
    (execution : Execution system start origin history now state) : relation origin state := by
  induction execution with
  | refl => exact reflexive origin
  | wait _ _ ih => exact ih
  | call action _ _ ih => exact transitive ih (stepwise _ action)

theorem split (later : List (Step σ α ρ)) {earlier : List (Step σ α ρ)} {taken : Step σ α ρ}
    {now : τ} {state : σ}
    (execution : Execution system start origin (later ++ taken :: earlier) now state) :
    taken = system.step taken.before taken.action ∧
      Execution system start origin earlier (system.clock taken.action) taken.before ∧
      Execution system (system.clock taken.action) taken.after later now state := by
  generalize steps : later ++ taken :: earlier = history at execution
  induction execution generalizing later with
  | refl => simp at steps
  | wait _ forward ih =>
      obtain ⟨executed, before, after⟩ := ih later steps
      exact ⟨executed, before, after.wait forward⟩
  | @call history now state action execution atNow ih =>
      cases later with
      | nil =>
          simp only [List.nil_append, List.cons.injEq] at steps
          obtain ⟨rfl, rfl⟩ := steps
          refine ⟨rfl, ?_, ?_⟩
          · simpa only [System.step_before, System.step_action, atNow] using execution
          · simpa only [System.step_action, atNow] using Execution.refl
      | cons newest later =>
          simp only [List.cons_append, List.cons.injEq] at steps
          obtain ⟨rfl, steps⟩ := steps
          obtain ⟨executed, before, after⟩ := ih later steps
          exact ⟨executed, before, after.call action atNow⟩

/-- Every recorded step was executed from a state the execution went through. -/
theorem executed {history : List (Step σ α ρ)} {taken : Step σ α ρ} {now : τ} {state : σ}
    (execution : Execution system start origin history now state) (member : taken ∈ history) :
    taken = system.step taken.before taken.action := by
  obtain ⟨later, earlier, rfl⟩ := List.append_of_mem member
  exact (Execution.split later execution).1

/-- Actions in the order of their clocks make an execution. -/
theorem play {history : List (Step σ α ρ)} {now : τ} {state : σ} {actions : List α} {final : τ}
    (execution : Execution system start origin history now state)
    (forward : (now :: actions.map system.clock ++ [final]).Pairwise (· ≤ ·)) :
    Execution system start origin (system.play history state actions).1 final
      (system.play history state actions).2 := by
  induction actions generalizing history now state with
  | nil =>
      simp only [List.map_nil, List.cons_append, List.nil_append, List.pairwise_cons,
        List.mem_singleton, forall_eq] at forward
      exact execution.wait forward.1
  | cons action rest ih =>
      simp only [List.map_cons, List.cons_append, List.pairwise_cons] at forward
      have waited := execution.wait (forward.1 (system.clock action) (by simp))
      refine ih (waited.call action rfl) ?_
      simpa only [List.cons_append, List.pairwise_cons] using forward.2

end Execution

end Perch.Machine
