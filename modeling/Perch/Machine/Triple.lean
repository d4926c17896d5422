/-
Partial and total correctness of a fallible computation in one judgement.

A computation meets a postcondition when every value it returns satisfies it,
and when it does return once its caller is ready for it.  The two halves are
proved together, so that a loop is walked once and not once for each half.
-/

import Perch.Machine.Fallible

namespace Perch.Machine

variable {ε α β σ : Type}

/-- Whatever `computed` returns satisfies `ends`, and it returns when `ready`
holds. -/
structure Meets (ready : Prop) (computed : Except ε α) (ends : α → Prop) : Prop where
  sound : ∀ value, computed = .ok value → ends value
  total : ready → ∃ value, computed = .ok value

namespace Meets

variable {ready : Prop}

theorem pure {ends : α → Prop} {value : α} (reached : ends value) :
    Meets ready (Pure.pure value : Except ε α) ends := by
  constructor
  · intro returned same
    rw [pure_eq_ok] at same
    exact same ▸ reached
  · intro _
    exact ⟨value, rfl⟩

theorem bind {first : Except ε α} {next : α → Except ε β} {middle : α → Prop}
    {ends : β → Prop} (head : Meets ready first middle)
    (tail : ∀ value, middle value → Meets ready (next value) ends) :
    Meets ready (first >>= next) ends := by
  constructor
  · intro result returned
    obtain ⟨value, reached, returned⟩ := bind_eq_ok.mp returned
    exact (tail value (head.sound value reached)).sound result returned
  · intro prepared
    obtain ⟨value, reached⟩ := head.total prepared
    obtain ⟨result, returned⟩ := (tail value (head.sound value reached)).total prepared
    exact ⟨result, bind_eq_ok.mpr ⟨value, reached, returned⟩⟩

/-- A first part known only by its equation. -/
theorem andThen {first : Except ε α} {next : α → Except ε β} {ends : β → Prop}
    (returns : ready → ∃ value, first = .ok value)
    (tail : ∀ value, first = .ok value → Meets ready (next value) ends) :
    Meets ready (first >>= next) ends :=
  bind ⟨fun _ returned => returned, returns⟩ tail

theorem imp {computed : Except ε α} {ends weaker : α → Prop} (met : Meets ready computed ends)
    (implies : ∀ value, ends value → weaker value) : Meets ready computed weaker := by
  constructor
  · intro value returned
    exact implies value (met.sound value returned)
  · exact met.total

theorem strengthen {stronger : Prop} {computed : Except ε α} {ends : α → Prop}
    (met : Meets ready computed ends) (implies : stronger → ready) :
    Meets stronger computed ends := by
  constructor
  · exact met.sound
  · intro prepared
    exact met.total (implies prepared)

theorem orFail {value : Option α} {failure : ε} {ends : α → Prop}
    (found : ∃ present, value = some present ∧ ends present) :
    Meets ready (Machine.orFail value failure) ends := by
  obtain ⟨present, rfl, reached⟩ := found
  exact Meets.pure reached

/-! ### State passing -/

variable {first : StateT σ (Except ε) α} {state : σ}

theorem bindState (middle : α × σ → Prop) {next : α → StateT σ (Except ε) β}
    {ends : β × σ → Prop} (head : Meets ready (first.run state) middle)
    (tail : ∀ value after, middle (value, after) → Meets ready ((next value).run after) ends) :
    Meets ready ((first >>= next).run state) ends := by
  rw [StateT.run_bind]
  apply head.bind
  intro reached holds
  exact tail reached.1 reached.2 holds

/-- A loop that runs an action for each item of a list.  The invariant speaks
of the items still to come. -/
theorem loop {action : β → StateT σ (Except ε) PUnit} (holds : List β → σ → Prop)
    {items : List β}
    (body : ∀ item rest state, holds (item :: rest) state →
      Meets ready ((action item).run state) fun reached => holds rest reached.2)
    (initially : holds items state) :
    Meets ready ((forM items action).run state) fun reached => holds [] reached.2 := by
  induction items generalizing state with
  | nil =>
      rw [List.forM_nil, StateT.run_pure]
      exact Meets.pure initially
  | cons item rest ih =>
      rw [List.forM_cons]
      apply bindState fun reached => holds rest reached.2
      · exact body item rest state initially
      · intro _ after holdsAfter
        exact ih holdsAfter

end Meets

end Perch.Machine
