/-
Whether a program could ever authorize.

The check runs the program over intervals of verdicts, each leaf free but for
the two that are constant.  A verdict on the evaluator's stack lies in the
interval at its place, so what the check calls dead never authorizes.
-/

import Mathlib.Data.List.Forall2
import Mathlib.Order.MinMax
import Perch.Program.Tree

namespace Perch.Compile

open Machine Program

abbrev Interval := Verdict × Verdict

/-- The interval of verdicts a leaf op can take, over all inputs. -/
def leafInterval : Op → Interval
  | .minSigners n => if n = 0 then (.true, .true) else (.false, .true)
  | .ledgerBefore n => if n = 0 then (.false, .false) else (.false, .true)
  | _ => (.false, .true)

/-- One op over the intervals, whose top is the list's head. -/
def intervalStep (stack : List Interval) (op : Op) : Option (List Interval) :=
  match op with
  | .all n =>
      if n = 0 ∨ stack.length < n.toNat then none
      else some ((stack.take n.toNat).foldl (fun bounds popped =>
        (min bounds.1 popped.1, min bounds.2 popped.2)) (.true, .true) :: stack.drop n.toNat)
  | .any n =>
      if n = 0 ∨ stack.length < n.toNat then none
      else some ((stack.take n.toNat).foldl (fun bounds popped =>
        (max bounds.1 popped.1, max bounds.2 popped.2)) (.false, .false) :: stack.drop n.toNat)
  | .not =>
      match stack with
      | [] => none
      | (lo, hi) :: rest => some ((hi.not, lo.not) :: rest)
  | leaf => some (leafInterval leaf :: stack)

/-- The best root verdict, unknown for a malformed program. -/
def maxVerdict (program : RpnProgram) : Verdict :=
  match program.ops.foldlM intervalStep [] with
  | some [(_, hi)] => hi
  | _ => .unknown

def canEverAuthorize (program : RpnProgram) : Bool := maxVerdict program = .true

/-! ### Soundness -/

def Within (verdict : Verdict) (bounds : Interval) : Prop :=
  bounds.1 ≤ verdict ∧ verdict ≤ bounds.2

section Soundness

variable {env : EvalEnv} {inputs : EvalInputs}

theorem within_full (verdict : Verdict) : Within verdict (.false, .true) :=
  ⟨verdict.false_le, verdict.le_true⟩

theorem Within.not {verdict : Verdict} {bounds : Interval} (inside : Within verdict bounds) :
    Within verdict.not (bounds.2.not, bounds.1.not) :=
  ⟨Verdict.not_le_not.mpr inside.2, Verdict.not_le_not.mpr inside.1⟩

theorem within_foldl {combine : Verdict → Verdict → Verdict}
    {join : Interval → Interval → Interval}
    (monotone : ∀ {first second : Verdict} {left right : Interval}, Within first left →
      Within second right → Within (combine first second) (join left right))
    {verdicts : List Verdict} {intervals : List Interval}
    (inside : List.Forall₂ Within verdicts intervals) {start : Verdict} {bounds : Interval}
    (started : Within start bounds) :
    Within (verdicts.foldl combine start) (intervals.foldl join bounds) := by
  induction inside generalizing start bounds with
  | nil => exact started
  | cons head _ ih => exact ih (monotone started head)

theorem within_and {first second : Verdict} {left right : Interval} (inside : Within first left)
    (inside' : Within second right) :
    Within (first.and second) (min left.1 right.1, min left.2 right.2) := by
  rw [Verdict.and_eq_min]
  exact ⟨min_le_min inside.1 inside'.1, min_le_min inside.2 inside'.2⟩

theorem within_or {first second : Verdict} {left right : Interval} (inside : Within first left)
    (inside' : Within second right) :
    Within (first.or second) (max left.1 right.1, max left.2 right.2) := by
  rw [Verdict.or_eq_max]
  exact ⟨max_le_max inside.1 inside'.1, max_le_max inside.2 inside'.2⟩

theorem within_minSigners (inputs : EvalInputs) (n : UInt32) :
    Within (minSigners inputs n) (leafInterval (.minSigners n)) := by
  change Within _ (if n = 0 then _ else _)
  split
  next always =>
    subst always
    have holds : minSigners inputs 0 = .true := by simp [minSigners]
    rw [holds]
    exact ⟨le_refl _, le_refl _⟩
  · exact within_full _

theorem within_ledgerBefore (env : EvalEnv) (n : UInt32) :
    Within (ledgerBefore env n) (leafInterval (.ledgerBefore n)) := by
  change Within _ (if n = 0 then _ else _)
  split
  next never =>
    subst never
    have fails : ledgerBefore env 0 = .false := by simp [ledgerBefore, Verdict.ofBool]
    rw [fails]
    exact ⟨le_refl _, le_refl _⟩
  · exact within_full _

/-- What an op pops and pushes stays within the intervals. -/
theorem verdictOf_within {stack rest : List Verdict} {intervals : List Interval} {op : Op}
    {verdict : Verdict} (inside : List.Forall₂ Within stack intervals)
    (found : verdictOf env inputs stack op = some (verdict, rest)) :
    ∃ bounds intervals', intervalStep intervals op = some (bounds :: intervals') ∧
      Within verdict bounds ∧ List.Forall₂ Within rest intervals' := by
  have size := inside.length_eq
  cases op with
  | all n =>
      simp only [verdictOf] at found
      split at found
      · cases found
      next enough =>
        cases found
        rw [size] at enough
        refine ⟨_, _, if_neg enough, ?_, List.forall₂_drop _ inside⟩
        exact within_foldl within_and (List.forall₂_take _ inside) ⟨le_refl _, le_refl _⟩
  | any n =>
      simp only [verdictOf] at found
      split at found
      · cases found
      next enough =>
        cases found
        rw [size] at enough
        refine ⟨_, _, if_neg enough, ?_, List.forall₂_drop _ inside⟩
        exact within_foldl within_or (List.forall₂_take _ inside) ⟨le_refl _, le_refl _⟩
  | not =>
      cases inside with
      | nil => cases found
      | cons head below =>
          cases found
          exact ⟨_, _, rfl, head.not, below⟩
  | minSigners n =>
      cases found
      exact ⟨_, _, rfl, within_minSigners inputs n, inside⟩
  | ledgerBefore n =>
      cases found
      exact ⟨_, _, rfl, within_ledgerBefore env n, inside⟩
  | _ =>
      cases found
      exact ⟨_, _, rfl, within_full _, inside⟩

theorem run_within {ops : List Op} {stack after : List Verdict} {intervals : List Interval}
    (inside : List.Forall₂ Within stack intervals)
    (ran : ops.foldlM (push env inputs) stack = some after) :
    ∃ intervals', ops.foldlM intervalStep intervals = some intervals' ∧
      List.Forall₂ Within after intervals' := by
  induction ops generalizing stack intervals with
  | nil =>
      cases ran
      exact ⟨intervals, rfl, inside⟩
  | cons op rest ih =>
      rw [List.foldlM_cons, Option.bind_eq_bind, Option.bind_eq_some_iff] at ran
      obtain ⟨between, pushed, ran⟩ := ran
      unfold push at pushed
      split at pushed
      · cases pushed
      next verdict left found =>
        obtain ⟨bounds, intervals', stepped, head, tail⟩ := verdictOf_within inside found
        split at pushed
        · cases pushed
        · cases pushed
          obtain ⟨final, walked, inside'⟩ := ih (.cons head tail) ran
          refine ⟨final, ?_, inside'⟩
          rw [List.foldlM_cons, stepped]
          exact walked

end Soundness

/-- A program the check calls dead never authorizes. -/
theorem dead_never_authorizes {program : RpnProgram} (dead : canEverAuthorize program = false)
    (env : EvalEnv) (inputs : EvalInputs) : evalStack env inputs program ≠ .ok .true := by
  rw [evalStack_eq]
  intro authorized
  have isTrue : eval env inputs program = .true := Except.ok.inj authorized
  unfold eval at isTrue
  split at isTrue
  next root ran =>
    subst isTrue
    obtain ⟨intervals, walked, inside⟩ := run_within .nil ran
    cases inside with
    | @cons _ bounds _ _ head tail =>
        cases tail
        obtain ⟨lo, hi⟩ := bounds
        have best : hi = .true := le_antisymm hi.le_true head.2
        have alive : canEverAuthorize program = true := by
          rw [canEverAuthorize, maxVerdict, walked, best]
          rfl
        rw [alive] at dead
        cases dead
  · cases isTrue

/-- A rule past a ledger that never comes, under any number of signers. -/
def deadProgram : RpnProgram where
  version := 1
  ops := [.minSigners 0, .ledgerBefore 0, .argCount 1, .all 3]

theorem dead_never_authorizes_sample :
    evalStack ⟨⟨fun _ => none, fun _ => none, fun _ => none, fun _ => none, fun _ => none⟩, 7⟩
      ⟨.createContract (BytesN.fill 0), 2, .contract (BytesN.fill 1)⟩ deadProgram ≠ .ok .true :=
  dead_never_authorizes (by decide) _ _

end Perch.Compile
