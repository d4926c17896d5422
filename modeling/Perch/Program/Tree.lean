/-
What a constraint program means.

A postfix program spells an expression tree, and its verdict is the tree's
strong-Kleene value.  Validation counts the stack the way the evaluator does,
so a valid program is evaluated without an early return, and one whose shape is
refused is unknown whatever is left on the stack.
-/

import Mathlib.Order.Basic
import Mathlib.Order.Lattice
import Mathlib.Order.Nat
import Perch.Machine.Terms
import Perch.Program.Stack

namespace Perch.Program

open Machine

/-! ### The lattice of verdicts -/

/-- `False < Unknown < True`. -/
def Verdict.rank : Verdict → Nat
  | .false => 0
  | .unknown => 1
  | .true => 2

theorem Verdict.rank_injective : Function.Injective Verdict.rank := by
  intro first second same
  cases first <;> cases second <;> first | rfl | cases same

instance : LinearOrder Verdict := LinearOrder.lift' Verdict.rank Verdict.rank_injective

theorem Verdict.and_eq_min (first second : Verdict) : first.and second = min first second := by
  cases first <;> cases second <;> decide

theorem Verdict.or_eq_max (first second : Verdict) : first.or second = max first second := by
  cases first <;> cases second <;> decide

@[simp] theorem Verdict.not_not (verdict : Verdict) : verdict.not.not = verdict := by
  cases verdict <;> rfl

theorem Verdict.not_le_not {first second : Verdict} : second.not ≤ first.not ↔ first ≤ second := by
  cases first <;> cases second <;> decide

theorem Verdict.le_true (verdict : Verdict) : verdict ≤ .true := by
  cases verdict <;> decide

theorem Verdict.false_le (verdict : Verdict) : .false ≤ verdict := by
  cases verdict <;> decide

/-! ### Expression trees -/

def arity : Op → Nat
  | .all n => n.toNat
  | .any n => n.toNat
  | .not => 1
  | _ => 0

section Kleene

variable (env : EvalEnv) (inputs : EvalInputs)

def leafValue : Op → Verdict
  | .minSigners n => minSigners inputs n
  | .fnIn names => fnIn inputs names
  | .argAddrEq index address => argAddrEq env inputs index address
  | .argAddrIsSelf index => argAddrIsSelf env inputs index
  | .argSymEq index symbol => argSymEq env inputs index symbol
  | .argStrIn index values => argStrIn env inputs index values
  | .argStrPrefix index initial => argStrPrefix env inputs index initial
  | .argBytesEq index value => argBytesEq inputs index value
  | .argI128Eq index value => argI128Eq env inputs index value
  | .argU32Eq index value => argU32Eq env inputs index value
  | .argCount n => argCount inputs n
  | .ledgerBefore ledger => ledgerBefore env ledger
  | .ledgerAtOrAfter ledger => ledgerAtOrAfter env ledger
  | .all _ | .any _ | .not => .unknown

/-- The strong-Kleene value of an op over its operands' values. -/
def kleene : Op → List Verdict → Verdict
  | .all _, operands => operands.foldr min .true
  | .any _, operands => operands.foldr max .false
  | .not, operands => (operands.headD .unknown).not
  | op, _ => leafValue env inputs op

variable {env inputs}

theorem foldl_and_eq (verdicts : List Verdict) :
    verdicts.foldl Verdict.and .true = verdicts.reverse.foldr min .true := by
  rw [List.foldr_reverse]
  congr 1
  funext first second
  rw [Verdict.and_eq_min, min_comm]

theorem foldl_or_eq (verdicts : List Verdict) :
    verdicts.foldl Verdict.or .false = verdicts.reverse.foldr max .false := by
  rw [List.foldr_reverse]
  congr 1
  funext first second
  rw [Verdict.or_eq_max, max_comm]

/-- What an op does to the stack is what it means. -/
theorem verdictOf_kleene {stack rest : List Verdict} {op : Op} {verdict : Verdict}
    (found : verdictOf env inputs stack op = some (verdict, rest)) :
    Term.reduce arity (kleene env inputs) stack op = some (verdict :: rest) := by
  unfold Term.reduce
  cases op with
  | all n =>
      simp only [verdictOf] at found
      split at found
      · cases found
      next enough =>
        cases found
        change (if stack.length < n.toNat then none
          else some ((stack.take n.toNat).reverse.foldr min .true :: stack.drop n.toNat)) = _
        rw [if_neg (fun short => enough (.inr short)), foldl_and_eq]
  | any n =>
      simp only [verdictOf] at found
      split at found
      · cases found
      next enough =>
        cases found
        change (if stack.length < n.toNat then none
          else some ((stack.take n.toNat).reverse.foldr max .false :: stack.drop n.toNat)) = _
        rw [if_neg (fun short => enough (.inr short)), foldl_or_eq]
  | not =>
      cases stack with
      | nil => cases found
      | cons top below =>
          cases found
          rfl
  | _ =>
      cases found
      rfl

theorem push_kleene {stack after : List Verdict} {op : Op}
    (pushed : push env inputs stack op = some after) :
    Term.reduce arity (kleene env inputs) stack op = some after := by
  unfold push at pushed
  split at pushed
  · cases pushed
  next verdict rest found =>
    split at pushed
    · cases pushed
    · rw [verdictOf_kleene found]
      exact pushed

theorem run_kleene {ops : List Op} {stack after : List Verdict}
    (ran : ops.foldlM (push env inputs) stack = some after) :
    ops.foldlM (Term.reduce arity (kleene env inputs)) stack = some after := by
  induction ops generalizing stack with
  | nil => exact ran
  | cons op rest ih =>
      rw [List.foldlM_cons, Option.bind_eq_bind, Option.bind_eq_some_iff] at ran ⊢
      obtain ⟨between, pushed, ran⟩ := ran
      exact ⟨between, push_kleene pushed, ih ran⟩

/-! ### Valid programs -/

theorem pops_arity {op : Op} {popped : Nat} (pop : pops op = .ok popped) : popped = arity op := by
  cases op with
  | all n =>
      rw [pops_all] at pop
      split at pop
      · cases pop
      · exact (Except.ok.inj pop).symm
  | any n =>
      rw [pops_any] at pop
      split at pop
      · cases pop
      · exact (Except.ok.inj pop).symm
  | not => exact (Except.ok.inj pop).symm
  | _ => exact (Except.ok.inj pop).symm

theorem reduce_of_stackEffect {α : Type} (apply : Op → List α → α) {stack : List α} {op : Op}
    {depth : Nat} (effect : stackEffect stack.length op = .ok depth) :
    ∃ after, Term.reduce arity apply stack op = some after ∧ after.length = depth := by
  simp only [stackEffect, bind_eq_ok] at effect
  obtain ⟨popped, pop, effect⟩ := effect
  rw [pops_arity pop] at effect
  split at effect
  · cases effect
  next enough =>
    split at effect
    · cases effect
    · cases effect
      refine ⟨_, if_neg enough, ?_⟩
      rw [List.length_cons, List.length_drop]

theorem reduce_of_simulation {α : Type} (apply : Op → List α → α) {ops : List Op} {stack : List α}
    {depth : Nat} (simulated : ops.foldlM stackEffect stack.length = .ok depth) :
    ∃ after, ops.foldlM (Term.reduce arity apply) stack = some after ∧ after.length = depth := by
  induction ops generalizing stack with
  | nil =>
      cases simulated
      exact ⟨stack, rfl, rfl⟩
  | cons op rest ih =>
      rw [List.foldlM_cons, bind_eq_ok] at simulated
      obtain ⟨between, effect, simulated⟩ := simulated
      obtain ⟨after, reduced, rfl⟩ := reduce_of_stackEffect apply effect
      obtain ⟨final, ran, size⟩ := ih simulated
      refine ⟨final, ?_, size⟩
      rw [List.foldlM_cons, reduced]
      exact ran

theorem RpnProgram.validate_simulates {program : RpnProgram} {done : Unit}
    (valid : program.validate = .ok done) : program.ops.foldlM stackEffect 0 = .ok 1 := by
  unfold RpnProgram.validate at valid
  split at valid
  · cases valid
  split at valid
  · cases valid
  split at valid
  · cases valid
  rw [bind_eq_ok] at valid
  obtain ⟨depth, simulated, single⟩ := valid
  split at single
  next one => rw [simulated, one]
  · cases single

theorem exists_tree {program : RpnProgram} {done : Unit} (valid : program.validate = .ok done) :
    ∃ tree : Term Op, tree.Fits arity ∧ tree.code = program.ops := by
  have simulated : program.ops.foldlM stackEffect ([] : List (Term Op)).length = .ok 1 :=
    RpnProgram.validate_simulates valid
  obtain ⟨after, ran, single⟩ := reduce_of_simulation Term.node simulated
  obtain ⟨root, rfl⟩ := List.length_eq_one_iff.mp single
  obtain ⟨tree, fits, spelled, -⟩ := Term.exists_term ran
  exact ⟨tree, fits, spelled⟩

/-! ### Refused programs -/

/-- What the evaluator does, validation's simulation does. -/
theorem stackEffect_of_push {stack after : List Verdict} {op : Op}
    (pushed : push env inputs stack op = some after) :
    stackEffect stack.length op = .ok after.length := by
  have popping : ∀ {verdict : Verdict} {rest : List Verdict},
      verdictOf env inputs stack op = some (verdict, rest) →
        ∃ popped, pops op = .ok popped ∧ popped ≤ stack.length ∧
          rest.length = stack.length - popped := by
    intro verdict rest found
    cases op with
    | all n =>
        simp only [verdictOf] at found
        split at found
        · cases found
        next enough =>
          cases found
          obtain ⟨positive, enough⟩ := not_or.mp enough
          exact ⟨n.toNat, by rw [pops_all, if_neg positive], Nat.le_of_not_lt enough,
            List.length_drop⟩
    | any n =>
        simp only [verdictOf] at found
        split at found
        · cases found
        next enough =>
          cases found
          obtain ⟨positive, enough⟩ := not_or.mp enough
          exact ⟨n.toNat, by rw [pops_any, if_neg positive], Nat.le_of_not_lt enough,
            List.length_drop⟩
    | not =>
        cases stack with
        | nil => cases found
        | cons top below =>
            cases found
            exact ⟨1, rfl, Nat.le_add_left 1 _, rfl⟩
    | _ =>
        cases found
        exact ⟨0, rfl, Nat.zero_le _, rfl⟩
  unfold push at pushed
  split at pushed
  · cases pushed
  next verdict rest found =>
    split at pushed
    · cases pushed
    next room =>
      cases pushed
      obtain ⟨popped, arity, enough, left⟩ := popping found
      unfold stackEffect
      rw [arity, ok_bind, if_neg (Nat.not_lt.mpr enough), if_neg (by omega), List.length_cons, left]

theorem simulation_of_run {ops : List Op} {stack after : List Verdict}
    (ran : ops.foldlM (push env inputs) stack = some after) :
    ops.foldlM stackEffect stack.length = .ok after.length := by
  induction ops generalizing stack with
  | nil =>
      cases ran
      rfl
  | cons op rest ih =>
      rw [List.foldlM_cons, Option.bind_eq_bind, Option.bind_eq_some_iff] at ran
      obtain ⟨between, pushed, ran⟩ := ran
      rw [List.foldlM_cons, stackEffect_of_push pushed, ok_bind]
      exact ih ran

/-- A shape validation refuses never leaves exactly one verdict. -/
theorem eval_of_refused {program : RpnProgram} {failure : ProgramError}
    (refused : program.validate = .error failure) (version : failure ≠ .unknownVersion)
    (size : failure ≠ .tooLarge) : eval env inputs program = .unknown := by
  unfold eval
  split
  next root ran =>
    have simulated := simulation_of_run ran
    exfalso
    unfold RpnProgram.validate at refused
    split at refused
    · exact version (Except.error.inj refused).symm
    split at refused
    next none =>
      rw [none] at ran
      cases ran
    split at refused
    · exact size (Except.error.inj refused).symm
    change program.ops.foldlM stackEffect 0 = .ok 1 at simulated
    rw [simulated] at refused
    cases refused
  · rfl

end Kleene

/-- A validated program is evaluated without an early return to the Kleene
value of the one tree it spells; no program faults; and a program whose shape
is refused is unknown. -/
theorem evaluation_exact (program : RpnProgram) :
    (∀ first second : Verdict, first.and second = min first second ∧
      first.or second = max first second ∧ first.not.not = first ∧
      (second.not ≤ first.not ↔ first ≤ second)) ∧
    (∀ done, program.validate = .ok done →
      ∃ tree : Term Op, (tree.Fits arity ∧ tree.code = program.ops) ∧
        (∀ other : Term Op, other.Fits arity → other.code = program.ops → other = tree) ∧
        ∀ env inputs,
          (∃ f, program.ops.foldlM (evalStep env inputs) Frame.start = .ok f ∧ f.sp = 1) ∧
            evalStack env inputs program = .ok (tree.value (kleene env inputs))) ∧
    (∀ env inputs, ∃ verdict, evalStack env inputs program = .ok verdict) ∧
    ∀ failure, program.validate = .error failure → failure ≠ .unknownVersion →
      failure ≠ .tooLarge → ∀ env inputs, evalStack env inputs program = .ok .unknown := by
  refine ⟨fun first second => ⟨Verdict.and_eq_min first second, Verdict.or_eq_max first second,
    Verdict.not_not first, Verdict.not_le_not⟩, ?_,
    fun env inputs => ⟨_, evalStack_eq env inputs program⟩, ?_⟩
  · intro done valid
    obtain ⟨tree, fits, spelled⟩ := exists_tree valid
    refine ⟨tree, ⟨fits, spelled⟩, ?_, fun env inputs => ?_⟩
    · intro other fits' spelled'
      exact Term.code_injective fits' fits (spelled'.trans spelled.symm)
    · obtain ⟨root, ran, value⟩ := run_of_validate env inputs valid
      have reduced := run_kleene ran
      rw [← spelled, Term.run_code fits []] at reduced
      have isRoot : tree.value (kleene env inputs) = root :=
        (List.cons.inj (Option.some.inj reduced)).1
      have whole := run_holds env inputs program.ops Frame.start_holds
      rw [ran] at whole
      obtain ⟨f, completed, holds⟩ := whole
      exact ⟨⟨f, completed, holds.root.1⟩, by rw [evalStack_eq, value, isRoot]⟩
  · intro failure refused version size env inputs
    rw [evalStack_eq, eval_of_refused refused version size]

end Perch.Program
