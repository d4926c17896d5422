/-
Computations that ask as they go.

A computation returns, fails, or puts a question and goes on with its answer.
Who answers, and what happens before an answer arrives, is not its concern: it
is run against a source of answers, with a record of what it asked.
-/

import Perch.Machine.Fallible

namespace Perch.Machine

/-- A computation that asks questions in `κ` and is answered in `β`. -/
inductive Asking (κ β ε α : Type) where
  | done (value : α)
  | failed (failure : ε)
  | ask (question : κ) (next : β → Asking κ β ε α)

namespace Asking

variable {κ β ε α γ : Type}

def bind (first : Asking κ β ε α) (next : α → Asking κ β ε γ) : Asking κ β ε γ :=
  match first with
  | done value => next value
  | failed failure => failed failure
  | ask question answered => ask question fun answer => (answered answer).bind next

instance instMonad : Monad (Asking κ β ε) where
  pure := done
  bind := bind

theorem bind_done (first : Asking κ β ε α) : first.bind done = first := by
  induction first with
  | done value => rfl
  | failed failure => rfl
  | ask question next ih => exact congrArg (ask question) (funext ih)

theorem bind_assoc {δ : Type} (first : Asking κ β ε α) (second : α → Asking κ β ε γ)
    (third : γ → Asking κ β ε δ) :
    (first.bind second).bind third = first.bind fun value => (second value).bind third := by
  induction first with
  | done value => rfl
  | failed failure => rfl
  | ask question next ih => exact congrArg (ask question) (funext ih)

instance instLawfulMonad : LawfulMonad (Asking κ β ε) :=
  LawfulMonad.mk' _ bind_done (fun _ _ => rfl) bind_assoc

def question (question : κ) : Asking κ β ε β := ask question done

def lift : Except ε α → Asking κ β ε α
  | .ok value => done value
  | .error failure => failed failure

/-- The outcome, with every question answered by `answer`. -/
def run (answer : κ → β) : Asking κ β ε α → Except ε α
  | done value => .ok value
  | failed failure => .error failure
  | ask question next => (next (answer question)).run answer

def asked (answer : κ → β) : Asking κ β ε α → List κ
  | done _ => []
  | failed _ => []
  | ask question next => question :: (next (answer question)).asked answer

/-- Answered by `answer`, a computation returns a value and asks allowed questions only. -/
structure Gives (answer : κ → β) (allowed : κ → Prop) (computed : Asking κ β ε α)
    (value : α) : Prop where
  returns : computed.run answer = .ok value
  asks : ∀ question ∈ computed.asked answer, allowed question

namespace Gives

variable {answer : κ → β} {allowed : κ → Prop}

theorem pure (value : α) :
    Gives answer allowed (Pure.pure value : Asking κ β ε α) value := by
  constructor
  · rfl
  · intro question member
    cases member

theorem ask {question : κ} {next : β → Asking κ β ε α} {value : α} (may : allowed question)
    (rest : Gives answer allowed (next (answer question)) value) :
    Gives answer allowed (.ask question next) value := by
  constructor
  · exact rest.returns
  · intro other member
    rcases List.mem_cons.mp member with same | later
    · exact same ▸ may
    · exact rest.asks other later

theorem question {question : κ} (may : allowed question) :
    Gives answer allowed (Asking.question question : Asking κ β ε β) (answer question) :=
  ask may (pure _)

theorem lift {value : α} {computed : Except ε α} (returns : computed = .ok value) :
    Gives answer allowed (Asking.lift computed : Asking κ β ε α) value := by
  rw [returns]
  exact pure value

theorem bind {first : Asking κ β ε α} {next : α → Asking κ β ε γ} {value : α} {result : γ}
    (head : Gives answer allowed first value) (tail : Gives answer allowed (next value) result) :
    Gives answer allowed (first >>= next) result := by
  induction first with
  | done returned =>
      have same := Except.ok.inj head.returns
      subst same
      exact tail
  | failed failure => cases head.returns
  | ask question answered ih =>
      apply ask
      · exact head.asks question List.mem_cons_self
      · apply ih
        constructor
        · exact head.returns
        · intro other member
          exact head.asks other (List.mem_cons_of_mem _ member)

theorem mapM {δ : Type} {action : δ → Asking κ β ε α} {result : δ → α} {items : List δ}
    (each : ∀ item ∈ items, Gives answer allowed (action item) (result item)) :
    Gives answer allowed (items.mapM action) (items.map result) := by
  induction items with
  | nil =>
      rw [List.mapM_nil]
      exact pure []
  | cons item rest ih =>
      obtain ⟨now, later⟩ := List.forall_mem_cons.mp each
      rw [List.mapM_cons]
      exact now.bind ((ih later).bind (pure _))

end Gives

end Asking

end Perch.Machine
