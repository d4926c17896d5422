/-
The evaluator's own stack: a fixed array and a pointer into it.

Entries above the pointer are stale.  Reading or writing outside the array and
moving the pointer below zero are faults of the machine, told apart from its
early returns, so that their absence is a theorem.
-/

import Perch.Program.Eval

namespace Perch.Program

open Machine

inductive Fault
  | underflow
  | outOfBounds
deriving DecidableEq

inductive Exit
  | returned (verdict : Verdict)
  | faulted (fault : Fault)
deriving DecidableEq

structure Frame where
  stack : Vector Verdict maxStackDepth
  sp : Nat

namespace Frame

def start : Frame := { stack := Vector.replicate maxStackDepth .unknown, sp := 0 }

/-- `sp -= 1`, then `stack[sp]`. -/
def pop (f : Frame) : Except Exit (Verdict × Frame) :=
  if f.sp = 0 then .error (.faulted .underflow)
  else if inside : f.sp - 1 < maxStackDepth then
    .ok (f.stack[f.sp - 1], { f with sp := f.sp - 1 })
  else .error (.faulted .outOfBounds)

def popAll (combine : Verdict → Verdict → Verdict) :
    Nat → Verdict → Frame → Except Exit (Verdict × Frame)
  | 0, v, f => .ok (v, f)
  | k + 1, v, f => do
      let (top, f) ← f.pop
      popAll combine k (combine v top) f

/-- `stack[sp] = v`, then `sp += 1`. -/
def store (f : Frame) (v : Verdict) : Except Exit Frame :=
  if inside : f.sp < maxStackDepth then .ok { stack := f.stack.set f.sp v, sp := f.sp + 1 }
  else .error (.faulted .outOfBounds)

end Frame

section Machine

variable (env : EvalEnv) (inputs : EvalInputs)

def opVerdict (f : Frame) : Op → Except Exit (Verdict × Frame)
  | .all n =>
      if n = 0 ∨ f.sp < n.toNat then .error (.returned .unknown)
      else f.popAll Verdict.and n.toNat .true
  | .any n =>
      if n = 0 ∨ f.sp < n.toNat then .error (.returned .unknown)
      else f.popAll Verdict.or n.toNat .false
  | .not =>
      if f.sp = 0 then .error (.returned .unknown)
      else do
        let (top, f) ← f.pop
        .ok (top.not, f)
  | .minSigners n => .ok (minSigners inputs n, f)
  | .fnIn names => .ok (fnIn inputs names, f)
  | .argAddrEq index address => .ok (argAddrEq env inputs index address, f)
  | .argAddrIsSelf index => .ok (argAddrIsSelf env inputs index, f)
  | .argSymEq index symbol => .ok (argSymEq env inputs index symbol, f)
  | .argStrIn index values => .ok (argStrIn env inputs index values, f)
  | .argStrPrefix index initial => .ok (argStrPrefix env inputs index initial, f)
  | .argBytesEq index value => .ok (argBytesEq inputs index value, f)
  | .argI128Eq index value => .ok (argI128Eq env inputs index value, f)
  | .argU32Eq index value => .ok (argU32Eq env inputs index value, f)
  | .argCount n => .ok (argCount inputs n, f)
  | .ledgerBefore ledger => .ok (ledgerBefore env ledger, f)
  | .ledgerAtOrAfter ledger => .ok (ledgerAtOrAfter env ledger, f)

theorem opVerdict_all (f : Frame) (n : UInt32) :
    opVerdict env inputs f (.all n) =
      if n = 0 ∨ f.sp < n.toNat then .error (.returned .unknown)
      else f.popAll Verdict.and n.toNat .true :=
  rfl

theorem opVerdict_any (f : Frame) (n : UInt32) :
    opVerdict env inputs f (.any n) =
      if n = 0 ∨ f.sp < n.toNat then .error (.returned .unknown)
      else f.popAll Verdict.or n.toNat .false :=
  rfl

theorem opVerdict_not (f : Frame) :
    opVerdict env inputs f .not =
      if f.sp = 0 then .error (.returned .unknown)
      else f.pop >>= fun (top, f) => .ok (top.not, f) :=
  rfl

def evalStep (f : Frame) (op : Op) : Except Exit Frame :=
  if maxStackDepth < f.sp then .error (.returned .unknown)
  else do
    let (v, f) ← opVerdict env inputs f op
    if maxStackDepth ≤ f.sp then .error (.returned .unknown)
    else f.store v

def evalStack (program : RpnProgram) : Except Fault Verdict :=
  match program.ops.foldlM (evalStep env inputs) Frame.start with
  | .ok f => .ok (if f.sp = 1 then f.stack[0] else .unknown)
  | .error (.returned verdict) => .ok verdict
  | .error (.faulted fault) => .error fault

end Machine

/-! ### The list below the pointer -/

structure Frame.Holds (f : Frame) (verdicts : List Verdict) : Prop where
  inside : f.sp ≤ maxStackDepth
  cells : (f.stack.toList.take f.sp).reverse = verdicts

theorem Frame.start_holds : Frame.start.Holds [] := ⟨Nat.zero_le _, rfl⟩

theorem Frame.Holds.sp_eq {f : Frame} {verdicts : List Verdict} (holds : f.Holds verdicts) :
    f.sp = verdicts.length := by
  have inside := holds.inside
  rw [← holds.cells, List.length_reverse, List.length_take, Vector.length_toList]
  omega

theorem Frame.Holds.pop {f : Frame} {top : Verdict} {rest : List Verdict}
    (holds : f.Holds (top :: rest)) :
    ∃ f', f.pop = .ok (top, f') ∧ f'.Holds rest := by
  have inside := holds.inside
  have size := holds.sp_eq
  rw [List.length_cons] at size
  have below : f.sp - 1 < maxStackDepth := by omega
  have cells := congrArg List.reverse holds.cells
  rw [List.reverse_reverse, List.reverse_cons] at cells
  have room : f.sp - 1 < f.stack.toList.length := by
    rw [Vector.length_toList]
    exact below
  have split : f.stack.toList.take f.sp =
      f.stack.toList.take (f.sp - 1) ++ [f.stack.toList[f.sp - 1]] := by
    rw [← List.take_succ_eq_append_getElem room]
    congr 1
    omega
  rw [split] at cells
  obtain ⟨lower, last⟩ := List.append_inj' cells rfl
  have value : f.stack[f.sp - 1] = top := by
    rw [← Vector.getElem_toList room]
    exact (List.cons.inj last).1
  refine ⟨{ f with sp := f.sp - 1 }, ?_, ?_, ?_⟩
  · unfold Frame.pop
    rw [if_neg (by omega), dif_pos below, value]
  · change f.sp - 1 ≤ maxStackDepth
    omega
  · change (f.stack.toList.take (f.sp - 1)).reverse = rest
    rw [lower, List.reverse_reverse]

theorem Frame.Holds.store {f : Frame} {verdicts : List Verdict} (holds : f.Holds verdicts)
    (room : verdicts.length < maxStackDepth) (v : Verdict) :
    ∃ f', f.store v = .ok f' ∧ f'.Holds (v :: verdicts) := by
  have inside : f.sp < maxStackDepth := holds.sp_eq ▸ room
  refine ⟨{ stack := f.stack.set f.sp v, sp := f.sp + 1 }, dif_pos inside, inside, ?_⟩
  change ((f.stack.set f.sp v).toList.take (f.sp + 1)).reverse = v :: verdicts
  have within : f.sp < (f.stack.toList.set f.sp v).length := by
    rw [List.length_set, Vector.length_toList]
    exact inside
  rw [Vector.toList_set, List.take_succ_eq_append_getElem within, List.getElem_set_self,
    List.take_set_of_le (Nat.le_refl _), List.reverse_append, holds.cells]
  rfl

theorem Frame.Holds.popAll {f : Frame} {verdicts : List Verdict} (holds : f.Holds verdicts)
    (combine : Verdict → Verdict → Verdict) {k : Nat} (enough : k ≤ verdicts.length)
    (v : Verdict) :
    ∃ f', f.popAll combine k v = .ok ((verdicts.take k).foldl combine v, f') ∧
      f'.Holds (verdicts.drop k) := by
  induction k generalizing f verdicts v with
  | zero => exact ⟨f, rfl, holds⟩
  | succ k ih =>
      cases verdicts with
      | nil => exact absurd enough (Nat.not_succ_le_zero k)
      | cons top rest =>
          obtain ⟨f', popped, holds'⟩ := holds.pop
          obtain ⟨f'', rested, holds''⟩ := ih holds' (Nat.le_of_succ_le_succ enough) (combine v top)
          refine ⟨f'', ?_, holds''⟩
          rw [Frame.popAll, popped, ok_bind]
          exact rested

theorem Frame.Holds.root {f : Frame} {root : Verdict} (holds : f.Holds [root]) :
    f.sp = 1 ∧ f.stack[0] = root := by
  have one : f.sp = 1 := holds.sp_eq
  refine ⟨one, ?_⟩
  have room : 0 < f.stack.toList.length := by
    rw [Vector.length_toList]
    decide
  have cells := holds.cells
  rw [one, List.take_succ_eq_append_getElem room] at cells
  rw [← Vector.getElem_toList room]
  exact (List.cons.inj cells).1

/-! ### Refinement -/

section Refinement

variable (env : EvalEnv) (inputs : EvalInputs)

theorem opVerdict_holds {f : Frame} {stack : List Verdict} (holds : f.Holds stack) (op : Op) :
    match verdictOf env inputs stack op with
    | none => opVerdict env inputs f op = .error (.returned .unknown)
    | some (v, rest) => ∃ f', opVerdict env inputs f op = .ok (v, f') ∧ f'.Holds rest := by
  have size := holds.sp_eq
  cases op with
  | all n =>
      rw [opVerdict_all, size]
      by_cases short : n = 0 ∨ stack.length < n.toNat
      · simp only [verdictOf, if_pos short]
      · simp only [verdictOf, if_neg short]
        exact holds.popAll _ (by omega) _
  | any n =>
      rw [opVerdict_any, size]
      by_cases short : n = 0 ∨ stack.length < n.toNat
      · simp only [verdictOf, if_pos short]
      · simp only [verdictOf, if_neg short]
        exact holds.popAll _ (by omega) _
  | not =>
      cases stack with
      | nil =>
          change opVerdict env inputs f .not = _
          rw [opVerdict_not, if_pos (show f.sp = 0 from size)]
      | cons top rest =>
          obtain ⟨f', popped, holds'⟩ := holds.pop
          refine ⟨f', ?_, holds'⟩
          have nonempty : f.sp ≠ 0 := by
            rw [size, List.length_cons]
            omega
          rw [opVerdict_not, if_neg nonempty, popped, ok_bind]
  | _ => exact ⟨f, rfl, holds⟩

theorem evalStep_holds {f : Frame} {stack : List Verdict} (holds : f.Holds stack) (op : Op) :
    match push env inputs stack op with
    | none => evalStep env inputs f op = .error (.returned .unknown)
    | some after => ∃ f', evalStep env inputs f op = .ok f' ∧ f'.Holds after := by
  have popped := opVerdict_holds env inputs holds op
  unfold push evalStep
  rw [if_neg (Nat.not_lt.mpr holds.inside)]
  cases found : verdictOf env inputs stack op with
  | none =>
      rw [found] at popped
      simp only [popped]
      rfl
  | some result =>
      obtain ⟨v, rest⟩ := result
      rw [found] at popped
      obtain ⟨f', computed, holds'⟩ := popped
      simp only [computed, ok_bind, holds'.sp_eq]
      by_cases full : maxStackDepth ≤ rest.length
      · simp only [if_pos full]
      · simp only [if_neg full]
        exact holds'.store (Nat.lt_of_not_le full) v

theorem run_holds (ops : List Op) {f : Frame} {stack : List Verdict} (holds : f.Holds stack) :
    match ops.foldlM (push env inputs) stack with
    | none => ops.foldlM (evalStep env inputs) f = .error (.returned .unknown)
    | some after => ∃ f', ops.foldlM (evalStep env inputs) f = .ok f' ∧ f'.Holds after := by
  induction ops generalizing f stack with
  | nil => exact ⟨f, rfl, holds⟩
  | cons op rest ih =>
      have stepped := evalStep_holds env inputs holds op
      rw [List.foldlM_cons, List.foldlM_cons]
      cases pushed : push env inputs stack op with
      | none =>
          rw [pushed] at stepped
          simp only [stepped]
          rfl
      | some after =>
          rw [pushed] at stepped
          obtain ⟨f', computed, holds'⟩ := stepped
          rw [computed, ok_bind]
          exact ih holds'

/-- The array machine never faults, and returns what the list machine does. -/
theorem evalStack_eq (program : RpnProgram) :
    evalStack env inputs program = .ok (eval env inputs program) := by
  have ran := run_holds env inputs program.ops Frame.start_holds
  unfold evalStack eval
  cases whole : program.ops.foldlM (push env inputs) [] with
  | none =>
      rw [whole] at ran
      simp only [ran]
  | some after =>
      rw [whole] at ran
      obtain ⟨f, computed, holds⟩ := ran
      simp only [computed]
      match after, holds with
      | [root], holds =>
          obtain ⟨one, value⟩ := holds.root
          rw [if_pos one, value]
      | [], holds => rw [if_neg (by rw [holds.sp_eq]; decide)]
      | first :: second :: rest, holds =>
          rw [if_neg (by rw [holds.sp_eq, List.length_cons, List.length_cons]; omega)]

end Refinement

end Perch.Program
