/-
Evaluating a constraint program.

A program runs once, left to right, over a stack of three-valued verdicts.
Whatever cannot be decoded is unknown, and only a root verdict of true
authorizes, so that a failure to decode denies also under a negation.  Reading a
host value at a type is the host's, and stays a parameter.
-/

import Perch.Machine.Fallible
import Perch.Program.Rpn

namespace Perch.Program

/-! ### Verdicts -/

/-- Three-valued verdicts, `false` below `unknown` below `true`. -/
inductive Verdict
  | false
  | unknown
  | true
deriving DecidableEq

def Verdict.ofBool (holds : Bool) : Verdict := if holds then .true else .false

def Verdict.and : Verdict → Verdict → Verdict
  | .false, _ => .false
  | _, .false => .false
  | .true, second => second
  | first, .true => first
  | .unknown, .unknown => .unknown

def Verdict.or : Verdict → Verdict → Verdict
  | .true, _ => .true
  | _, .true => .true
  | .false, second => second
  | first, .false => first
  | .unknown, .unknown => .unknown

def Verdict.not : Verdict → Verdict
  | .false => .true
  | .unknown => .unknown
  | .true => .false

@[simp] theorem Verdict.ofBool_eq_true {holds : Bool} :
    Verdict.ofBool holds = .true ↔ holds = Bool.true := by
  cases holds <;> simp [Verdict.ofBool]

@[simp] theorem Verdict.and_eq_true {first second : Verdict} :
    first.and second = .true ↔ first = .true ∧ second = .true := by
  cases first <;> cases second <;> simp [Verdict.and]

theorem Verdict.foldl_and_eq_true {verdicts : List Verdict} {start : Verdict} :
    verdicts.foldl Verdict.and start = .true ↔
      start = .true ∧ ∀ verdict ∈ verdicts, verdict = .true := by
  induction verdicts generalizing start with
  | nil => simp
  | cons verdict rest ih =>
      rw [List.foldl_cons, ih, Verdict.and_eq_true, List.forall_mem_cons, and_assoc]

/-! ### Inputs -/

/-- The host's reading of a value at each type, `T::try_from_val`. -/
structure TryFromVal where
  address : Val → Option Address
  symbol : Val → Option Symbol
  string : Val → Option SString
  i128 : Val → Option Int
  u32 : Val → Option UInt32

structure EvalEnv where
  vals : TryFromVal
  ledger : UInt32

structure EvalInputs where
  context : Context
  /-- The authenticated signers, not the configured ones. -/
  signerCount : UInt32
  selfAddr : Address

/-! ### Leaves -/

def maxStrArgLen : Nat := 256

def arg {α : Type} (read : Val → Option α) (context : Context) (index : UInt32) : Option α :=
  match context with
  | .contract call => call.args[index.toNat]?.bind read
  | .createContract _ => none

/-- A leaf over one argument: unknown unless the argument can be read. -/
def argLeaf {α : Type} (read : Val → Option α) (context : Context) (index : UInt32)
    (verdict : α → Verdict) : Verdict :=
  match arg read context index with
  | some value => verdict value
  | none => .unknown

def strBytes (string : SString) : Option Bytes :=
  if maxStrArgLen < string.length then none else some string

/-- A string too long for the buffer is unknown; a candidate too long for it
never matches. -/
def strIn (set : List SString) (string : SString) : Verdict :=
  match strBytes string with
  | none => .unknown
  | some given => .ofBool (set.any fun want => strBytes want = some given)

/-- Only the string's head is copied, so that its own length is unbounded. -/
def strPrefix (initial string : SString) : Verdict :=
  match strBytes initial with
  | none => .unknown
  | some want =>
      if string.length < want.length then .false
      else .ofBool (string.take want.length = want)

section Leaves

variable (env : EvalEnv) (inputs : EvalInputs)

def minSigners (n : UInt32) : Verdict := .ofBool (n ≤ inputs.signerCount)

def fnIn (names : List Symbol) : Verdict :=
  match inputs.context with
  | .contract call => .ofBool (names.any fun name => name = call.fnName)
  | .createContract _ => .unknown

def argAddrEq (index : UInt32) (want : Address) : Verdict :=
  argLeaf env.vals.address inputs.context index fun address => .ofBool (address = want)

def argAddrIsSelf (index : UInt32) : Verdict :=
  argLeaf env.vals.address inputs.context index fun address => .ofBool (address = inputs.selfAddr)

def argSymEq (index : UInt32) (want : Symbol) : Verdict :=
  argLeaf env.vals.symbol inputs.context index fun symbol => .ofBool (symbol = want)

def argU32Eq (index : UInt32) (want : UInt32) : Verdict :=
  argLeaf env.vals.u32 inputs.context index fun value => .ofBool (value = want)

def argI128Eq (index : UInt32) (want : Int) : Verdict :=
  argLeaf env.vals.i128 inputs.context index fun value => .ofBool (value = want)

def argBytesEq (index : UInt32) (want : Bytes) : Verdict :=
  argLeaf Val.toBytes? inputs.context index fun value => .ofBool (value = want)

def argStrIn (index : UInt32) (set : List SString) : Verdict :=
  argLeaf env.vals.string inputs.context index (strIn set)

def argStrPrefix (index : UInt32) (initial : SString) : Verdict :=
  argLeaf env.vals.string inputs.context index (strPrefix initial)

def argCount (n : UInt32) : Verdict :=
  match inputs.context with
  | .contract call => .ofBool (call.args.length = n.toNat)
  | .createContract _ => .unknown

def ledgerBefore (n : UInt32) : Verdict := .ofBool (env.ledger < n)

def ledgerAtOrAfter (n : UInt32) : Verdict := .ofBool (n ≤ env.ledger)

/-! ### The stack machine -/

/-- An op's verdict and the stack it leaves below it, or nothing when the stack
does not hold what the op pops.  The stack's top is the list's head. -/
def verdictOf (stack : List Verdict) : Op → Option (Verdict × List Verdict)
  | .all n =>
      if n = 0 ∨ stack.length < n.toNat then none
      else some ((stack.take n.toNat).foldl Verdict.and .true, stack.drop n.toNat)
  | .any n =>
      if n = 0 ∨ stack.length < n.toNat then none
      else some ((stack.take n.toNat).foldl Verdict.or .false, stack.drop n.toNat)
  | .not =>
      match stack with
      | [] => none
      | top :: rest => some (top.not, rest)
  | .minSigners n => some (minSigners inputs n, stack)
  | .fnIn names => some (fnIn inputs names, stack)
  | .argAddrEq index address => some (argAddrEq env inputs index address, stack)
  | .argAddrIsSelf index => some (argAddrIsSelf env inputs index, stack)
  | .argSymEq index symbol => some (argSymEq env inputs index symbol, stack)
  | .argStrIn index values => some (argStrIn env inputs index values, stack)
  | .argStrPrefix index initial => some (argStrPrefix env inputs index initial, stack)
  | .argBytesEq index value => some (argBytesEq inputs index value, stack)
  | .argI128Eq index value => some (argI128Eq env inputs index value, stack)
  | .argU32Eq index value => some (argU32Eq env inputs index value, stack)
  | .argCount n => some (argCount inputs n, stack)
  | .ledgerBefore ledger => some (ledgerBefore env ledger, stack)
  | .ledgerAtOrAfter ledger => some (ledgerAtOrAfter env ledger, stack)

def push (stack : List Verdict) (op : Op) : Option (List Verdict) :=
  match verdictOf env inputs stack op with
  | none => none
  | some (verdict, rest) =>
      if maxStackDepth ≤ rest.length then none else some (verdict :: rest)

def eval (program : RpnProgram) : Verdict :=
  match program.ops.foldlM (push env inputs) [] with
  | some [root] => root
  | _ => .unknown

end Leaves

/-! ### Validated programs -/

section Validated

variable (env : EvalEnv) (inputs : EvalInputs)

theorem pops_verdictOf {stack : List Verdict} {op : Op} {popped : Nat}
    (arity : pops op = .ok popped) (enough : popped ≤ stack.length) :
    ∃ verdict, verdictOf env inputs stack op = some (verdict, stack.drop popped) := by
  cases op with
  | all n =>
      rw [pops_all] at arity
      split at arity
      · cases arity
      next positive =>
        cases arity
        simp [verdictOf, positive, Nat.not_lt.mpr enough]
  | any n =>
      rw [pops_any] at arity
      split at arity
      · cases arity
      next positive =>
        cases arity
        simp [verdictOf, positive, Nat.not_lt.mpr enough]
  | not =>
      cases arity
      cases stack with
      | nil => simp at enough
      | cons top rest => simp [verdictOf]
  | _ =>
      cases arity
      simp [verdictOf]

/-- One op moves the real stack as validation's simulation says. -/
theorem push_of_stackEffect {stack : List Verdict} {op : Op} {depth : Nat}
    (effect : stackEffect stack.length op = .ok depth) :
    ∃ after, push env inputs stack op = some after ∧ after.length = depth := by
  unfold stackEffect at effect
  cases arity : pops op with
  | error failure =>
      rw [arity] at effect
      cases effect
  | ok popped =>
      rw [arity, Machine.ok_bind] at effect
      split at effect
      · cases effect
      next enough =>
        split at effect
        · cases effect
        next room =>
          cases effect
          obtain ⟨verdict, popping⟩ :=
            pops_verdictOf env inputs arity (Nat.not_lt.mp enough)
          refine ⟨verdict :: stack.drop popped, ?_, ?_⟩
          · have below : ¬maxStackDepth ≤ stack.length - popped := by omega
            simp [push, popping, below]
          · simp

/-- A program whose simulation runs, runs, to a stack of the simulated depth. -/
theorem run_of_simulation {ops : List Op} {stack : List Verdict} {depth : Nat}
    (simulated : ops.foldlM stackEffect stack.length = .ok depth) :
    ∃ after, ops.foldlM (push env inputs) stack = some after ∧ after.length = depth := by
  induction ops generalizing stack with
  | nil =>
      cases simulated
      exact ⟨stack, rfl, rfl⟩
  | cons op rest ih =>
      rw [List.foldlM_cons, Machine.bind_eq_ok] at simulated
      obtain ⟨between, effect, simulated⟩ := simulated
      obtain ⟨after, pushed, rfl⟩ := push_of_stackEffect env inputs effect
      obtain ⟨final, ran, depth⟩ := ih simulated
      refine ⟨final, ?_, depth⟩
      rw [List.foldlM_cons, pushed]
      exact ran

/-- A validated program never trips the evaluator's defensive cases: it leaves
one verdict, which is its value. -/
theorem run_of_validate {program : RpnProgram} {done : Unit}
    (valid : program.validate = .ok done) :
    ∃ root, program.ops.foldlM (push env inputs) [] = some [root] ∧
      eval env inputs program = root := by
  unfold RpnProgram.validate at valid
  split at valid
  · cases valid
  split at valid
  · cases valid
  split at valid
  · cases valid
  rw [Machine.bind_eq_ok] at valid
  obtain ⟨depth, simulated, single⟩ := valid
  split at single
  next one =>
    have run : ∃ after, program.ops.foldlM (push env inputs) [] = some after ∧
        after.length = depth := run_of_simulation env inputs simulated
    obtain ⟨after, ran, length⟩ := run
    rw [one] at length
    obtain ⟨root, rfl⟩ := List.length_eq_one_iff.mp length
    exact ⟨root, ran, by simp [eval, ran]⟩
  · cases single

end Validated

end Perch.Program
