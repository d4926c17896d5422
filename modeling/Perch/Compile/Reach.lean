/-
The calls a plan can authorize, read off its programs.

The report collects the names of every allowlist in a program, wherever the
allowlist stands.  It bounds what the rule authorizes exactly when no call gets
past the allowlists: a program that authorizes something with all of them
emptied authorizes functions that none of them names.
-/

import Mathlib.Data.Fintype.EquivFin
import Perch.Compile.Meaning

namespace Perch.Compile

open Machine Ir Program Document

/-! ### The report -/

inductive FnSet
  | any
  | only (names : List Symbol)
deriving DecidableEq

structure ReachableScope where
  rule : String
  scope : ScopeSpec
  functions : FnSet
deriving DecidableEq

/-- The names of an allowlist, those already collected left out. -/
def collectNames (collected : List Symbol) : Op → List Symbol
  | .fnIn names =>
      names.foldl (fun collected name =>
        if name ∈ collected then collected else collected ++ [name]) collected
  | _ => collected

def isFnIn : Op → Bool
  | .fnIn _ => true
  | _ => false

def ruleFunctions (rule : LoweredRule) : FnSet :=
  match rule.install with
  | none => .any
  | some install =>
      if install.program.ops.any isFnIn then .only (install.program.ops.foldl collectNames [])
      else .any

def reachableCalls (plan : Plan) : List ReachableScope :=
  plan.rules.map fun rule =>
    { rule := rule.name, scope := rule.scope, functions := ruleFunctions rule }

def FnSet.Holds : FnSet → Symbol → Prop
  | .any, _ => True
  | .only names, function => function ∈ names

/-! ### Allowlists emptied -/

/-- An op with the names of its allowlist left out. -/
def emptyAllowlist : Op → Op
  | .fnIn _ => .fnIn []
  | op => op

def LoweredRule.emptied (rule : LoweredRule) : LoweredRule :=
  { rule with
    install := rule.install.map fun install =>
      { install with
        program := { install.program with ops := install.program.ops.map emptyAllowlist } } }

def LoweredRule.listsFunctions (rule : LoweredRule) : Bool :=
  rule.install.any fun install => install.program.ops.any isFnIn

theorem foldl_fresh_names (names collected : List Symbol) (function : Symbol) :
    function ∈ names.foldl (fun collected name =>
        if name ∈ collected then collected else collected ++ [name]) collected ↔
      function ∈ collected ∨ function ∈ names := by
  induction names generalizing collected with
  | nil => simp
  | cons name rest ih =>
      rw [List.foldl_cons, ih, List.mem_cons]
      split
      next known =>
        constructor
        · tauto
        · rintro (earlier | rfl | later)
          · exact Or.inl earlier
          · exact Or.inl known
          · exact Or.inr later
      · simp only [List.mem_append, List.mem_singleton, or_assoc]

theorem mem_collectNames (ops : List Op) (collected : List Symbol) (function : Symbol) :
    function ∈ ops.foldl collectNames collected ↔
      function ∈ collected ∨ ∃ names, Op.fnIn names ∈ ops ∧ function ∈ names := by
  induction ops generalizing collected with
  | nil => simp
  | cons op rest ih =>
      rw [List.foldl_cons, ih]
      cases op with
      | fnIn names =>
          rw [collectNames, foldl_fresh_names, or_assoc]
          simp [or_and_right, exists_or]
      | _ => simp [collectNames]

section Emptied

variable {host : LowerHost} {vals : TryFromVal}

def Question.calling (asked : Question) (function : Symbol) : Question :=
  { asked with call := { asked.call with fnName := function } }

/-- An emptied op decides a call as the op decides the same call of a function
that it does not name. -/
theorem verdictOf_emptied (env : EvalEnv) (call : ContractContext) (count : UInt32)
    (self : Address) (function : Symbol) (stack : List Verdict) {op : Op}
    (unnamed : ∀ names, op = .fnIn names → function ∉ names) :
    verdictOf env ⟨.contract call, count, self⟩ stack (emptyAllowlist op) =
      verdictOf env ⟨.contract { call with fnName := function }, count, self⟩ stack op := by
  cases op with
  | fnIn names =>
      have missing := unnamed names rfl
      have never : (names.any fun name => decide (name = function)) = false := by
        rw [List.any_eq_false]
        intro name member
        rw [decide_eq_true_iff]
        rintro rfl
        exact missing member
      simp only [emptyAllowlist, verdictOf, fnIn, List.any_nil, never]
  | _ => rfl

theorem eval_emptied (env : EvalEnv) (call : ContractContext) (count : UInt32) (self : Address)
    (function : Symbol) (version : UInt32) {ops : List Op}
    (unnamed : ∀ names, Op.fnIn names ∈ ops → function ∉ names) :
    eval env ⟨.contract call, count, self⟩ ⟨version, ops.map emptyAllowlist⟩ =
      eval env ⟨.contract { call with fnName := function }, count, self⟩ ⟨version, ops⟩ := by
  have runs : ∀ stack, (ops.map emptyAllowlist).foldlM
        (push env ⟨.contract call, count, self⟩) stack =
      ops.foldlM (push env ⟨.contract { call with fnName := function }, count, self⟩) stack := by
    induction ops with
    | nil =>
        intro stack
        rfl
    | cons op rest ih =>
        intro stack
        have here := verdictOf_emptied env call count self function stack
          fun names same => unnamed names (same ▸ List.mem_cons_self)
        have later := ih fun names member => unnamed names (List.mem_cons_of_mem _ member)
        rw [List.map_cons, List.foldlM_cons, List.foldlM_cons, push, push, here]
        simp only [later]
  unfold eval
  rw [runs]

/-- Emptied, a rule authorizes what it authorizes of a function no allowlist of
its program names. -/
theorem LoweredRule.emptied_authorizes {rule : LoweredRule} {install : InstallParams}
    (attached : rule.install = some install) (asked : Question) {function : Symbol}
    (unnamed : function ∉ install.program.ops.foldl collectNames []) :
    rule.emptied.authorizes host vals asked =
      rule.authorizes host vals (asked.calling function) := by
  have unlisted : ∀ names, Op.fnIn names ∈ install.program.ops → function ∉ names := by
    intro names member listed
    exact unnamed ((mem_collectNames _ _ _).mpr (Or.inr ⟨names, member, listed⟩))
  have decides := eval_emptied ⟨vals, asked.ledger⟩ asked.call
    (UInt32.ofNat (rule.authenticated asked).length) asked.self function
    install.program.version unlisted
  have scope : rule.emptied.scope.covers host asked =
      rule.scope.covers host (asked.calling function) := by
    unfold ScopeSpec.covers LoweredRule.emptied Question.calling
    cases rule.scope <;> rfl
  unfold LoweredRule.authorizes
  rw [scope]
  congr 1
  simp only [LoweredRule.emptied, attached, Option.map_some, InstallParams.admits]
  congr 1
  exact congrArg (fun verdict => decide (verdict = Verdict.true)) decides

theorem exists_fresh (names : List Symbol) : ∃ function : Symbol, function ∉ names := by
  obtain ⟨function, fresh⟩ := Infinite.exists_notMem_finset names.toFinset
  exact ⟨function, fun member => fresh (List.mem_toFinset.mpr member)⟩

end Emptied

/-! ### When the report is a bound -/

/-- The report bounds what a rule authorizes, whatever the inputs. -/
def Bounds (host : LowerHost) (rule : LoweredRule) : Prop :=
  ∀ (vals : TryFromVal) (asked : Question), rule.authorizes host vals asked = true →
    (ruleFunctions rule).Holds asked.call.fnName

/-- No call gets past the allowlists: the rule has none, or authorizes nothing
with them emptied. -/
def ListsBind (host : LowerHost) (rule : LoweredRule) : Prop :=
  rule.listsFunctions = false ∨
    ∀ (vals : TryFromVal) (asked : Question), rule.emptied.authorizes host vals asked = false

theorem bounds_iff {host : LowerHost} {rule : LoweredRule} :
    Bounds host rule ↔ ListsBind host rule := by
  unfold ListsBind
  cases attached : rule.install with
  | none => simp [Bounds, ruleFunctions, FnSet.Holds, LoweredRule.listsFunctions, attached]
  | some install =>
      cases lists : install.program.ops.any isFnIn with
      | false =>
          simp [Bounds, ruleFunctions, FnSet.Holds, LoweredRule.listsFunctions, attached, lists]
      | true =>
          have reported :
              ruleFunctions rule = .only (install.program.ops.foldl collectNames []) := by
            simp only [ruleFunctions, attached, lists, if_true]
          have listing : rule.listsFunctions = true := by
            simp only [LoweredRule.listsFunctions, attached, Option.any_some, lists]
          simp only [Bounds, reported, FnSet.Holds, listing, Bool.true_eq_false, false_or]
          constructor
          · intro bounded vals asked
            obtain ⟨function, fresh⟩ :=
              exists_fresh (install.program.ops.foldl collectNames [])
            rw [LoweredRule.emptied_authorizes attached asked fresh, ← Bool.not_eq_true]
            intro authorized
            exact fresh (bounded vals (asked.calling function) authorized)
          · intro denies vals asked authorized
            by_contra unnamed
            have emptied : rule.emptied.authorizes host vals asked =
                rule.authorizes host vals (asked.calling asked.call.fnName) :=
              LoweredRule.emptied_authorizes attached asked unnamed
            rw [denies vals asked] at emptied
            have same : asked.calling asked.call.fnName = asked := rfl
            rw [same, authorized] at emptied
            cases emptied

/-! ### Compiled rules -/

section Compiled

variable {hexDecode : String → Option Bytes} {host : LowerHost} {doc : PolicyDoc} {rule : Rule}
  {lowered : LoweredRule}

theorem lowerArgPred_isFnIn {constraint : ArgConstraint} {op : Op}
    (lowers : lowerArgPred host constraint = .ok op) : isFnIn op = false := by
  unfold lowerArgPred at lowers
  split at lowers
  · cases lowers
    rfl
  · simp only [bind_eq_ok, Except.ok.injEq] at lowers
    obtain ⟨_, _, rfl⟩ := lowers
    rfl
  all_goals
    cases lowers
    rfl

theorem buildProgram_isFnIn {least : UInt32} {program : RpnProgram}
    (built : buildProgram host rule least = .ok program) :
    (rule.functions = none ∧ program.ops.any isFnIn = false) ∨
      ∃ names, rule.functions = some names ∧ program.ops.any isFnIn = true ∧
        ∀ function, function ∈ program.ops.foldl collectNames [] ↔ function ∈ names := by
  simp only [buildProgram_eq, bind_eq_ok, mapError_eq_ok, Except.ok.injEq] at built
  obtain ⟨functions, functionsLower, args, argsLower, _, _, rfl⟩ := built
  have other : ∀ op ∈ args, isFnIn op = false := by
    intro op member
    cases listed : rule.args with
    | none =>
        simp only [argLeaves, listed, Except.ok.injEq] at argsLower
        rw [← argsLower] at member
        cases member
    | some constraints =>
        simp only [argLeaves, listed] at argsLower
        obtain ⟨_, _, lowers⟩ := exists_of_mem_left (mapM_eq_ok argsLower).flip member
        exact lowerArgPred_isFnIn lowers
  cases listed : rule.functions with
  | none =>
      left
      simp only [functionLeaves, listed, Except.ok.injEq] at functionsLower
      rw [← functionsLower]
      refine ⟨rfl, ?_⟩
      rw [List.any_eq_false]
      intro op member
      simp only [List.nil_append, List.mem_append, List.mem_cons, List.not_mem_nil, or_false]
        at member
      rcases member with (rfl | member) | rfl
      · exact Bool.false_ne_true
      · rw [other op member]
        exact Bool.false_ne_true
      · exact Bool.false_ne_true
  | some names =>
      right
      simp only [functionLeaves, listed, bind_eq_ok, Except.ok.injEq] at functionsLower
      obtain ⟨symbols, made, rfl⟩ := functionsLower
      rw [symbols_eq made]
      refine ⟨names, rfl, rfl, ?_⟩
      intro function
      rw [mem_collectNames]
      constructor
      · rintro (none | ⟨names', member, named⟩)
        · cases none
        · simp only [List.cons_append, List.mem_cons, List.mem_append, List.not_mem_nil, or_false,
            reduceCtorEq, false_or, Op.fnIn.injEq, List.nil_append] at member
          rcases member with rfl | member
          · exact named
          · exact absurd (other _ member) (by simp [isFnIn])
      · intro named
        exact Or.inr ⟨names, by simp, named⟩

theorem lowerRule_bounds (valid : ValidRule hexDecode (doc.signers.map SignerDecl.id) rule)
    (lowers : lowerRule host doc rule = .ok lowered) : Bounds host lowered := by
  intro vals asked authorized
  obtain ⟨ids, least, parts⟩ := lowerRule_eq_ok lowers
  rcases parts.install with ⟨_, bare⟩ | ⟨program, built, attached⟩
  · rw [ruleFunctions, bare]
    trivial
  · rcases buildProgram_isFnIn built with ⟨_, free⟩ | ⟨names, listed, lists, collected⟩
    · simp only [ruleFunctions, attached, free]
      trivial
    · simp only [ruleFunctions, attached, lists, if_true, FnSet.Holds, collected]
      simp only [LoweredRule.authorizes, attached, InstallParams.admits, Bool.and_eq_true,
        decide_eq_true_iff] at authorized
      have means := buildProgram_means vals asked
        (UInt32.ofNat (lowered.authenticated asked).length) valid.preds built
      exact (means.mp authorized.2.2).2.1 names listed

/-- Every rule of a compiled plan keeps to its report. -/
theorem compile_bounds {interpreterWasmHash : Bytes32} {plan : Plan}
    (valid : validate hexDecode doc = .ok ())
    (compiles : compile host doc interpreterWasmHash = .ok plan) :
    ∀ rule ∈ plan.rules, Bounds host rule := by
  obtain ⟨_, _, rules, _⟩ := violations_eq_nil.mp (validate_eq_ok.mp valid)
  have each := (validateRules_eq_nil rules).2
  simp only [compile, bind_eq_ok, Except.ok.injEq] at compiles
  obtain ⟨lowered, mapped, rfl⟩ := compiles
  intro rule member
  obtain ⟨source, listed, lowers⟩ := exists_of_mem_left (mapM_eq_ok mapped).flip member
  exact lowerRule_bounds (validateRule_eq_nil (each source listed).2.2) lowers

end Compiled

/-- A reported set bounds its rule exactly when no call gets past the rule's
allowlists, as none does in a compiled plan. -/
theorem reachable_calls_bound_iff (host : LowerHost) :
    (∀ plan : Plan, List.Forall₂ (fun rule report => report.rule = rule.name ∧
        report.scope = rule.scope ∧
        ((∀ (vals : TryFromVal) (asked : Question), rule.authorizes host vals asked = true →
            report.functions.Holds asked.call.fnName) ↔ ListsBind host rule))
      plan.rules (reachableCalls plan)) ∧
    ∀ (hexDecode : String → Option Bytes) (doc : PolicyDoc) (interpreterWasmHash : Bytes32)
      (plan : Plan), validate hexDecode doc = .ok () →
      compile host doc interpreterWasmHash = .ok plan →
        ∀ rule ∈ plan.rules, ListsBind host rule := by
  constructor
  · intro plan
    rw [reachableCalls, List.forall₂_map_right_iff, List.forall₂_same]
    intro rule _
    exact ⟨rfl, rfl, bounds_iff⟩
  · intro hexDecode doc interpreterWasmHash plan valid compiles rule member
    exact bounds_iff.mp (compile_bounds valid compiles rule member)

section Sample

def eitherRule : LoweredRule where
  name := "ci"
  scope := .selfAdmin
  signers := [.delegated "GAAQCAIBAEAQCAIBAEAQCAIBAEAQCAIBAEAQCAIBAEAQCAIBAEAQDZ7H"]
  validUntil := none
  install := some
    { program := { version := 1, ops := [.minSigners 1, .fnIn ["publish"], .any 2] }
      docHash := BytesN.fill 0 }
  cap := none

/-- A call of another function, which the one signer signed. -/
def withdrawal : Question where
  call := { contract := .contract (BytesN.fill 1), fnName := "withdraw", args := [] }
  self := .contract (BytesN.fill 1)
  ledger := 1
  signed _ := true

/-- The rule's program validates, and the rule authorizes a function its report
leaves out. -/
theorem reachable_calls_missed :
    ¬∀ (host : LowerHost) (plan : Plan),
      (∀ rule ∈ plan.rules, ∀ install, rule.install = some install →
        install.program.validate = .ok ()) →
      List.Forall₂ (fun rule report => ∀ (vals : TryFromVal) (asked : Question),
        rule.authorizes host vals asked = true → report.functions.Holds asked.call.fnName)
        plan.rules (reachableCalls plan) := by
  intro bounded
  have installable : ∀ rule ∈ [eitherRule], ∀ install, rule.install = some install →
      install.program.validate = .ok () := by
    intro rule member install attached
    rw [List.mem_singleton.mp member] at attached
    rw [← Option.some.inj attached]
    decide
  have reported := bounded { sha256 := fun _ => BytesN.fill 0, addressFromStr := fun _ => none }
    { rules := [eitherRule], interpreterWasmHash := none } installable
  cases reported with
  | cons bounds _ =>
      have listed : "withdraw" ∈ ["publish"] :=
        bounds ⟨fun _ => none, fun _ => none, fun _ => none, fun _ => none, fun _ => none⟩
          withdrawal (by decide)
      revert listed
      decide

end Sample

end Perch.Compile
