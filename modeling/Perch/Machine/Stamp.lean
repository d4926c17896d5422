/-
A slot stamped with a counter.

What is written to the slot carries the counter's value.  The counter only
grows, so finding it where the stamp says means that it has not moved since the
content was written, and whatever would have moved it has not happened.
-/

import Perch.Machine.Run

namespace Perch.Machine

/-- A slot of a state, a counter, and the stamp on what the slot holds. -/
structure Stamp (σ β γ : Type) where
  slot : σ → Option β
  counter : σ → γ
  stamp : β → γ

section Discipline

variable {τ σ α ρ β γ : Type} [PartialOrder γ]

/-- What a step may do to the slot: write it with the present stamp, leave it, or
clear it; and the counter stays only in a step that is still. -/
inductive Stamp.Obeys (mark : Stamp σ β γ) (writes : Step σ α ρ → β → Prop)
    (untouched still : Step σ α ρ → Prop) (taken : Step σ α ρ) : Prop where
  | wrote {content : β} (write : writes taken content)
      (holds : mark.slot taken.after = some content)
      (stamped : mark.stamp content = mark.counter taken.after)
  | left (untouches : untouched taken) (same : mark.slot taken.after = mark.slot taken.before)
      (grows : mark.counter taken.before ≤ mark.counter taken.after)
      (quiet : mark.counter taken.after = mark.counter taken.before → still taken)
  | cleared (empty : mark.slot taken.after = none)

/-- The write a content comes from, and what has happened since. -/
structure Stamp.Since (mark : Stamp σ β γ) (writes : Step σ α ρ → β → Prop)
    (untouched still : Step σ α ρ → Prop) (history : List (Step σ α ρ)) (state : σ) (content : β)
    (later : List (Step σ α ρ)) (taken : Step σ α ρ) (earlier : List (Step σ α ρ)) : Prop where
  cut : history = later ++ taken :: earlier
  write : writes taken content
  untouched : ∀ step ∈ later, untouched step
  reached : mark.stamp content ≤ mark.counter state
  still : mark.counter state = mark.stamp content → ∀ step ∈ later, still step

variable {mark : Stamp σ β γ} {writes : Step σ α ρ → β → Prop}
  {untouched still : Step σ α ρ → Prop}

theorem Stamp.Since.step {history later earlier : List (Step σ α ρ)} {taken next : Step σ α ρ}
    {content : β}
    (since : mark.Since writes untouched still history next.before content later taken earlier)
    (untouches : untouched next) (grows : mark.counter next.before ≤ mark.counter next.after)
    (quiet : mark.counter next.after = mark.counter next.before → still next) :
    mark.Since writes untouched still (next :: history) next.after content (next :: later) taken
      earlier where
  cut := by rw [since.cut, List.cons_append]
  write := since.write
  untouched := by
    intro step member
    rcases List.mem_cons.mp member with rfl | member
    · exact untouches
    · exact since.untouched step member
  reached := le_trans since.reached grows
  still := by
    intro unmoved step member
    -- the counter was at the stamp before the step too, being between the two
    have before : mark.counter next.before = mark.stamp content :=
      le_antisymm (unmoved ▸ grows) since.reached
    rcases List.mem_cons.mp member with rfl | member
    · exact quiet (unmoved.trans before.symm)
    · exact since.still before step member

/-- What a run finds in the slot was written by one of its steps, and untouched
since; and if the stamp is current, every step since was still. -/
theorem Stamp.since [LE τ] {system : System τ σ α ρ} {start now : τ} {origin state : σ}
    {history : List (Step σ α ρ)}
    (execution : Execution system start origin history now state) (empty : mark.slot origin = none)
    (obeys : ∀ taken ∈ history, mark.Obeys writes untouched still taken) {content : β}
    (held : mark.slot state = some content) :
    ∃ later taken earlier,
      mark.Since writes untouched still history state content later taken earlier := by
  induction execution generalizing content with
  | refl =>
      rw [empty] at held
      cases held
  | wait _ _ ih => exact ih obeys held
  | @call history now state action _ _ ih =>
      have obeyed := obeys _ List.mem_cons_self
      cases obeyed with
      | @wrote content' write holds stamped =>
          obtain rfl := Option.some.inj (holds.symm.trans held)
          exact ⟨[], _, history, rfl, write, by simp, le_of_eq stamped, by simp⟩
      | left untouches same grows quiet =>
          rw [same] at held
          obtain ⟨later, taken, earlier, since⟩ :=
            ih (fun taken member => obeys taken (List.mem_cons_of_mem _ member)) held
          exact ⟨_, taken, earlier, since.step untouches grows quiet⟩
      | cleared empty =>
          rw [empty] at held
          cases held

theorem Execution.kept [LE τ] {system : System τ σ α ρ} {start now : τ} {origin state : σ}
    {history : List (Step σ α ρ)} (observe : σ → β)
    (execution : Execution system start origin history now state)
    (keeps : ∀ taken ∈ history, observe taken.after = observe taken.before) :
    observe state = observe origin := by
  induction execution with
  | refl => rfl
  | wait _ _ ih => exact ih keeps
  | call action _ _ ih =>
      rw [keeps _ List.mem_cons_self]
      exact ih fun taken member => keeps taken (List.mem_cons_of_mem _ member)

end Discipline

end Perch.Machine
