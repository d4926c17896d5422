/-
What a document rule means, and that lowering preserves it.

A rule's meaning is stated on the document alone: when it is in force, whose
signatures it needs, and what it says of the call.  The lowered rule is enforced
in one of two ways, by the store's own check of every signer or by a program, and
either way it authorizes exactly the calls the document rule permits.
-/

import Perch.Document.LocalHost
import Perch.Document.Valid
import Perch.Program.Interpreter
import Mathlib.Data.Finset.Dedup
import Mathlib.Data.Finset.Card

namespace Perch.Compile

open Machine Ir Program Document

/-! ### The question asked of a rule -/

structure Question where
  call : ContractContext
  self : Address
  ledger : UInt32
  /-- The signers whose signatures were verified. -/
  signed : SignerSpec → Bool

/-! ### Enforcement -/

section Enforcement

variable (host : LowerHost) (vals : TryFromVal) (asked : Question)

def ScopeSpec.covers : ScopeSpec → Bool
  | .contract address => host.addressFromStr address = some asked.call.contract
  | .selfAdmin => asked.call.contract = asked.self

/-- The rule's signers that signed, as the store hands them to a policy. -/
def LoweredRule.authenticated (rule : LoweredRule) : List SignerSpec :=
  rule.signers.filter asked.signed

/-- How an installed rule is enforced.  The store refuses a rule past its last
ledger, and asks for every signer when no policy is attached. -/
def LoweredRule.authorizes (rule : LoweredRule) : Bool :=
  rule.scope.covers host asked &&
    rule.validUntil.all (fun last => asked.ledger ≤ last) &&
    match rule.install with
    | none => rule.signers.all asked.signed
    | some params =>
        params.admits ⟨vals, asked.ledger⟩ (.contract asked.call) (rule.authenticated asked)
          asked.self

end Enforcement

/-! ### Meaning -/

def signerSpec : SignerMethod → SignerSpec
  | .external verifier key => .external verifier key
  | .delegated address => .delegated address

section Meaning

variable (host : LowerHost) (vals : TryFromVal) (doc : PolicyDoc) (asked : Question)

def Signs (id : String) : Prop :=
  ∃ decl ∈ doc.signers, decl.id = id ∧ asked.signed (signerSpec decl.method) = true

def ScopeMeans : Scope → Prop
  | .contract address => host.addressFromStr address = some asked.call.contract
  | .selfAdmin => asked.call.contract = asked.self

open Classical in
/-- Every listed signer signed, or at least `m` of them.  A self-authenticating
rule is not one of signers. -/
def PrincipalsMean : Principals → Prop
  | .all signers => ∀ id ∈ signers, Signs doc asked id
  | .threshold signers m => m.toNat ≤ {id ∈ signers.toFinset | Signs doc asked id}.card
  | .selfAuthenticating _ _ _ => False

def PredTyped (value : Val) : ArgPred → Prop
  | .isSelf => vals.address value ≠ none
  | .addressEq _ => vals.address value ≠ none
  | .stringIn _ => vals.string value ≠ none
  | .stringPrefix _ => vals.string value ≠ none
  | .u32Eq _ => vals.u32 value ≠ none

def ArgPredMeans (value : Val) : ArgPred → Prop
  | .isSelf => vals.address value = some asked.self
  | .addressEq address =>
      ∃ want, host.addressFromStr address = some want ∧ vals.address value = some want
  | .stringIn values =>
      ∃ given, vals.string value = some given ∧ given.length ≤ 256 ∧
        ∃ want ∈ values, given = utf8 want
  | .stringPrefix initial => ∃ given, vals.string value = some given ∧ utf8 initial <+: given
  | .u32Eq want => vals.u32 value = some want

def ArgMeans (constraint : ArgConstraint) : Prop :=
  ∃ value, asked.call.args[constraint.index.toNat]? = some value ∧
    ArgPredMeans host vals asked value constraint.pred

structure Permits (rule : Rule) : Prop where
  scope : ScopeMeans host asked rule.scope
  /-- `not_after_ledger` is the first ledger at which the rule is dead. -/
  live : ∀ first, rule.notAfterLedger = some first → asked.ledger < first
  principals : PrincipalsMean doc asked rule.principals
  functions : ∀ names, rule.functions = some names → asked.call.fnName ∈ names
  args : ∀ constraints, rule.args = some constraints →
    ∀ constraint ∈ constraints, ArgMeans host vals asked constraint

end Meaning

/-! ### Signers -/

section Signers

variable {doc : PolicyDoc} {asked : Question}

theorem validateSigners_eq_nil {hexDecode : String → Option Bytes} {position : Nat}
    {seen : SeenSigners} {signers : List SignerDecl}
    (silent : validateSigners hexDecode position seen signers = []) :
    (signers.map SignerDecl.id).Nodup ∧ ∀ decl ∈ signers, decl.id ∉ seen.ids := by
  induction signers generalizing position seen with
  | nil => simp
  | cons signer rest ih =>
      simp only [validateSigners, List.append_eq_nil_iff] at silent
      obtain ⟨⟨named, _⟩, more⟩ := silent
      have nonempty : signer.id ≠ "" := by
        intro empty
        simp [empty] at named
      rw [if_neg nonempty, reportIf_eq_nil] at named
      have remembered : (seen.insert hexDecode signer).ids = signer.id :: seen.ids := by
        unfold SeenSigners.insert
        cases signer.method with
        | external verifier key =>
            dsimp only
            split <;> rfl
        | delegated address => rfl
      obtain ⟨distinct, fresh⟩ := ih more
      rw [remembered] at fresh
      constructor
      · rw [List.map_cons, List.nodup_cons]
        refine ⟨?_, distinct⟩
        intro later
        obtain ⟨other, member, same⟩ := List.mem_map.mp later
        exact fresh other member (same ▸ List.mem_cons_self)
      · intro decl member
        rcases List.mem_cons.mp member with rfl | later
        · exact named
        · exact fun earlier => fresh decl later (List.mem_cons_of_mem _ earlier)

theorem validatePrincipalSigners_eq_nil {rule : String} {signers declared : List String}
    (silent : validatePrincipalSigners rule signers declared = []) :
    signers ≠ [] ∧ signers.Nodup ∧ ∀ id ∈ signers, id ∈ declared := by
  rw [validatePrincipalSigners, List.append_eq_nil_iff, reportIf_eq_nil] at silent
  obtain ⟨nonempty, each⟩ := silent
  obtain ⟨distinct, known⟩ := eachSeen_eq_nil (by simp [reportIf]) each
  refine ⟨nonempty, by simpa using distinct, ?_⟩
  intro id member
  have quiet := (known id member).2
  rw [List.append_eq_nil_iff, reportIf_eq_nil, reportIf_eq_nil] at quiet
  exact not_not.mp quiet.2

theorem resolveSigner_eq_ok {rule id : String} {spec : SignerSpec}
    (resolves : resolveSigner doc rule id = .ok spec) :
    ∃ decl ∈ doc.signers, decl.id = id ∧ spec = signerSpec decl.method := by
  unfold resolveSigner at resolves
  cases found : doc.signers.find? (fun decl => decl.id = id) with
  | none =>
      rw [found] at resolves
      cases resolves
  | some decl =>
      rw [found] at resolves
      have named : decl.id = id := by simpa using List.find?_some found
      refine ⟨decl, List.mem_of_find?_eq_some found, named, ?_⟩
      cases method : decl.method <;> simp only [method] at resolves <;> cases resolves <;> rfl

/-- A resolved signer signed exactly when the id it was resolved from did. -/
theorem resolveSigner_signs (distinct : (doc.signers.map SignerDecl.id).Nodup) {rule id : String}
    {spec : SignerSpec} (resolves : resolveSigner doc rule id = .ok spec) :
    asked.signed spec = true ↔ Signs doc asked id := by
  obtain ⟨decl, declared, named, rfl⟩ := resolveSigner_eq_ok resolves
  constructor
  · intro signed
    exact ⟨decl, declared, named, signed⟩
  · rintro ⟨other, member, same, signed⟩
    have one : other = decl :=
      List.inj_on_of_nodup_map distinct member declared (same.trans named.symm)
    rwa [one] at signed

theorem authenticated_length {signs : String → Bool} {ids : List String}
    {specs : List SignerSpec}
    (aligned : List.Forall₂ (fun id spec => asked.signed spec = signs id) ids specs) :
    (specs.filter asked.signed).length = (ids.filter signs).length ∧
      specs.all asked.signed = ids.all signs := by
  induction aligned with
  | nil => simp
  | cons same _ ih =>
      simp only [List.filter_cons, List.all_cons, same, ih.2]
      split <;> simp [ih.1]

end Signers

/-! ### Programs -/

section Programs

variable {host : LowerHost} {env : EvalEnv} {inputs : EvalInputs}

def leafVerdict (env : EvalEnv) (inputs : EvalInputs) (op : Op) : Verdict :=
  ((verdictOf env inputs [] op).map Prod.fst).getD .unknown

theorem push_leaf {stack after : List Verdict} {op : Op} (leaf : pops op = .ok 0)
    (pushed : push env inputs stack op = some after) :
    after = leafVerdict env inputs op :: stack := by
  have same : verdictOf env inputs stack op = some (leafVerdict env inputs op, stack) := by
    cases op with
    | all n =>
        rw [pops_all] at leaf
        split at leaf
        · cases leaf
        next positive => exact absurd (UInt32.toNat_inj.mp (Except.ok.inj leaf)) positive
    | any n =>
        rw [pops_any] at leaf
        split at leaf
        · cases leaf
        next positive => exact absurd (UInt32.toNat_inj.mp (Except.ok.inj leaf)) positive
    | not => cases leaf
    | _ => rfl
  simp only [push, same] at pushed
  split at pushed
  · cases pushed
  · exact (Option.some.inj pushed).symm

/-- Leaves stack up their verdicts, the last on top. -/
theorem push_leaves {leaves : List Op} {stack after : List Verdict}
    (leaf : ∀ op ∈ leaves, pops op = .ok 0)
    (ran : leaves.foldlM (push env inputs) stack = some after) :
    after = (leaves.map (leafVerdict env inputs)).reverse ++ stack := by
  induction leaves generalizing stack with
  | nil =>
      cases ran
      rfl
  | cons op rest ih =>
      rw [List.foldlM_cons, Option.bind_eq_bind, Option.bind_eq_some_iff] at ran
      obtain ⟨between, pushed, ran⟩ := ran
      have top := push_leaf (leaf op List.mem_cons_self) pushed
      have whole := ih (fun op member => leaf op (List.mem_cons_of_mem _ member)) ran
      rw [whole, top, List.map_cons, List.reverse_cons, List.append_assoc]
      rfl

/-- A validated conjunction of leaves is true exactly when every leaf is. -/
theorem eval_all_eq_true {version : UInt32} {leaves : List Op} {done : Unit}
    (leaf : ∀ op ∈ leaves, pops op = .ok 0)
    (valid : RpnProgram.validate ⟨version, leaves ++ [.all (UInt32.ofNat leaves.length)]⟩ =
      .ok done) :
    eval env inputs ⟨version, leaves ++ [.all (UInt32.ofNat leaves.length)]⟩ = .true ↔
      ∀ op ∈ leaves, leafVerdict env inputs op = .true := by
  have short : (leaves ++ [Op.all (UInt32.ofNat leaves.length)]).length ≤ 256 := by
    unfold RpnProgram.validate at valid
    split at valid
    · cases valid
    split at valid
    · cases valid
    split at valid
    · cases valid
    next fits => exact Nat.not_lt.mp fits
  have counted : (UInt32.ofNat leaves.length).toNat = leaves.length := by
    rw [List.length_append, List.length_singleton] at short
    have below : leaves.length < 4294967296 := by omega
    exact UInt32.toNat_ofNat_of_lt' below
  obtain ⟨root, ran, value⟩ := run_of_validate env inputs valid
  rw [List.foldlM_append, Option.bind_eq_bind, Option.bind_eq_some_iff] at ran
  obtain ⟨between, leavesRan, last⟩ := ran
  have stacked := push_leaves leaf leavesRan
  rw [List.append_nil] at stacked
  have length : between.length = leaves.length := by simp [stacked]
  have folded : root = between.foldl Verdict.and .true := by
    simp only [List.foldlM_cons, List.foldlM_nil, push, verdictOf, counted, length] at last
    split at last
    · cases last
    next verdict rest popped =>
      split at popped
      · cases popped
      · rw [← length, List.take_length, List.drop_length] at popped
        cases popped
        split at last
        · cases last
        · cases last
          rfl
  rw [value, folded, Verdict.foldl_and_eq_true, stacked]
  simp

/-! ### Leaves -/

theorem argLeaf_eq_true {α : Type} {read : Val → Option α} {call : ContractContext}
    {index : UInt32} {verdict : α → Verdict} :
    argLeaf read (.contract call) index verdict = .true ↔
      ∃ value, call.args[index.toNat]? = some value ∧
        ∃ given, read value = some given ∧ verdict given = .true := by
  simp only [argLeaf, arg]
  cases call.args[index.toNat]? with
  | none => simp
  | some value =>
      rw [Option.bind_some]
      cases given : read value <;> simp [given]

theorem strBytes_eq_some {string given : Bytes} :
    strBytes string = some given ↔ string.length ≤ 256 ∧ string = given := by
  unfold strBytes maxStrArgLen
  split <;> simp <;> omega

theorem strIn_eq_true {set : List SString} {string : SString} :
    strIn set string = .true ↔ string.length ≤ 256 ∧ string ∈ set := by
  unfold strIn
  cases copied : strBytes string with
  | none =>
      have long : ¬string.length ≤ 256 := by
        intro fits
        rw [strBytes_eq_some.mpr ⟨fits, rfl⟩] at copied
        cases copied
      simp [long]
  | some given =>
      obtain ⟨fits, rfl⟩ := strBytes_eq_some.mp copied
      simp only [Verdict.ofBool_eq_true, List.any_eq_true, decide_eq_true_iff, strBytes_eq_some]
      constructor
      · rintro ⟨want, member, _, rfl⟩
        exact ⟨fits, member⟩
      · rintro ⟨_, member⟩
        exact ⟨string, member, fits, rfl⟩

theorem strPrefix_eq_true {initial string : SString} (short : initial.length ≤ 256) :
    strPrefix initial string = .true ↔ initial <+: string := by
  simp only [strPrefix, strBytes_eq_some.mpr ⟨short, rfl⟩]
  split
  next less =>
    simp only [reduceCtorEq, false_iff]
    intro initially
    have fits := initially.length_le
    omega
  · rw [Verdict.ofBool_eq_true, decide_eq_true_iff, List.prefix_iff_eq_take]
    exact eq_comm

theorem lowerArgPred_means (vals : TryFromVal) (asked : Question) (count : UInt32)
    {constraint : ArgConstraint} {op : Op} {rule : String}
    (silent : validatePred rule constraint.index constraint.pred = [])
    (lowers : lowerArgPred host constraint = .ok op) :
    pops op = .ok 0 ∧
      (leafVerdict ⟨vals, asked.ledger⟩ ⟨.contract asked.call, count, asked.self⟩ op = .true ↔
        ArgMeans host vals asked constraint) := by
  unfold lowerArgPred at lowers
  unfold ArgMeans
  cases pred : constraint.pred with
  | isSelf =>
      rw [pred] at lowers
      cases lowers
      refine ⟨rfl, argLeaf_eq_true.trans ?_⟩
      simp [ArgPredMeans]
  | addressEq address =>
      simp only [pred, addressOf, bind_eq_ok, orFail_eq_ok, Except.ok.injEq] at lowers
      obtain ⟨want, resolved, rfl⟩ := lowers
      refine ⟨rfl, argLeaf_eq_true.trans ?_⟩
      simp [ArgPredMeans, resolved]
  | stringIn values =>
      rw [pred] at lowers
      cases lowers
      refine ⟨rfl, argLeaf_eq_true.trans ?_⟩
      have listed : ∀ given, given ∈ values.map utf8 ↔ ∃ want ∈ values, given = utf8 want := by
        intro given
        simp only [List.mem_map, eq_comm]
      simp only [strIn_eq_true, ArgPredMeans, listed]
  | stringPrefix initial =>
      rw [pred] at lowers silent
      cases lowers
      have short : (utf8 initial).length ≤ 256 := Nat.not_lt.mp (reportIf_eq_nil.mp silent)
      refine ⟨rfl, argLeaf_eq_true.trans ?_⟩
      simp only [strPrefix_eq_true short, ArgPredMeans]
  | u32Eq want =>
      rw [pred] at lowers
      cases lowers
      refine ⟨rfl, argLeaf_eq_true.trans ?_⟩
      simp [ArgPredMeans]

theorem symbolNew_eq_ok {name : String} {symbol : Symbol} (made : symbolNew name = .ok symbol) :
    symbol = name := by
  unfold symbolNew at made
  split at made
  · exact (Except.ok.inj made).symm
  · cases made

theorem symbols_eq {names : List String} {symbols : List Symbol}
    (made : names.mapM symbolNew = .ok symbols) : symbols = names := by
  have aligned : List.Forall₂ (fun name symbol => name = symbol) names symbols :=
    (mapM_eq_ok made).imp fun _ _ made => (symbolNew_eq_ok made).symm
  exact (List.forall₂_eq_eq_eq ▸ aligned : names = symbols).symm

/-- The leaf of a rule's function allowlist, if it has one. -/
def functionLeaves (rule : Rule) : Except LowerError (List Op) :=
  match rule.functions with
  | none => .ok []
  | some names => do .ok [Op.fnIn (← names.mapM symbolNew)]

def argLeaves (host : LowerHost) (rule : Rule) : Except LowerError (List Op) :=
  match rule.args with
  | none => .ok []
  | some constraints => constraints.mapM (lowerArgPred host)

theorem buildProgram_eq {rule : Rule} {least : UInt32} :
    buildProgram host rule least = (do
      let functions ← functionLeaves rule
      let args ← argLeaves host rule
      let leaves := Op.minSigners (max least 1) :: (functions ++ args)
      let program : RpnProgram :=
        { version := programVersion
          ops := leaves ++ [.all (UInt32.ofNat leaves.length)] }
      program.validate.mapError (LowerError.invalidProgram rule.name)
      .ok program) := by
  unfold buildProgram functionLeaves argLeaves
  cases rule.functions <;> cases rule.args <;> simp only [bind_assoc, ok_bind]

theorem functions_mean (env : EvalEnv) (asked : Question) (count : UInt32) {rule : Rule}
    {leaves : List Op}
    (lowers : functionLeaves rule = .ok leaves) :
    (∀ op ∈ leaves, pops op = .ok 0) ∧
      ((∀ op ∈ leaves, leafVerdict env ⟨.contract asked.call, count, asked.self⟩ op = .true) ↔
        ∀ names, rule.functions = some names → asked.call.fnName ∈ names) := by
  cases listed : rule.functions with
  | none =>
      simp only [functionLeaves, listed, Except.ok.injEq] at lowers
      simp [← lowers]
  | some names =>
      simp only [functionLeaves, listed, bind_eq_ok, Except.ok.injEq] at lowers
      obtain ⟨symbols, made, rfl⟩ := lowers
      rw [symbols_eq made]
      have leaf : pops (.fnIn names) = .ok 0 := rfl
      have allowed : leafVerdict env ⟨.contract asked.call, count, asked.self⟩ (.fnIn names) =
          Verdict.ofBool (names.any fun name => name = asked.call.fnName) := rfl
      simp [allowed, leaf]

theorem args_mean (vals : TryFromVal) (asked : Question) (count : UInt32) {rule : Rule}
    {leaves : List Op}
    (silent : ∀ constraints, rule.args = some constraints → ∀ constraint ∈ constraints,
      validatePred rule.name constraint.index constraint.pred = [])
    (lowers : argLeaves host rule = .ok leaves) :
    (∀ op ∈ leaves, pops op = .ok 0) ∧
      ((∀ op ∈ leaves,
          leafVerdict ⟨vals, asked.ledger⟩ ⟨.contract asked.call, count, asked.self⟩ op = .true) ↔
        ∀ constraints, rule.args = some constraints →
          ∀ constraint ∈ constraints, ArgMeans host vals asked constraint) := by
  cases listed : rule.args with
  | none =>
      simp only [argLeaves, listed, Except.ok.injEq] at lowers
      simp [← lowers]
  | some constraints =>
      simp only [argLeaves, listed] at lowers
      have quiet := silent constraints listed
      have aligned := mapM_eq_ok lowers
      clear lowers silent listed
      simp only [Option.some.injEq, forall_eq']
      induction aligned with
      | nil => simp
      | cons lowers _ ih =>
          have here := lowerArgPred_means vals asked count
            (quiet _ List.mem_cons_self) lowers
          have there := ih fun constraint member => quiet constraint (List.mem_cons_of_mem _ member)
          simp only [List.forall_mem_cons]
          exact ⟨⟨here.1, there.1⟩, and_congr here.2 there.2⟩

/-- A rule's program is true exactly when enough signers authenticated and the
rule's functions and arguments admit the call. -/
theorem buildProgram_means (vals : TryFromVal) (asked : Question) (count : UInt32)
    {least : UInt32} {rule : Rule} {program : RpnProgram}
    (silent : ∀ constraints, rule.args = some constraints → ∀ constraint ∈ constraints,
      validatePred rule.name constraint.index constraint.pred = [])
    (built : buildProgram host rule least = .ok program) :
    eval ⟨vals, asked.ledger⟩ ⟨.contract asked.call, count, asked.self⟩ program = .true ↔
      max least 1 ≤ count ∧
        (∀ names, rule.functions = some names → asked.call.fnName ∈ names) ∧
        ∀ constraints, rule.args = some constraints →
          ∀ constraint ∈ constraints, ArgMeans host vals asked constraint := by
  simp only [buildProgram_eq, bind_eq_ok, mapError_eq_ok, Except.ok.injEq] at built
  obtain ⟨functions, functionsLower, args, argsLower, _, valid, rfl⟩ := built
  have functionsMean := functions_mean ⟨vals, asked.ledger⟩ asked count functionsLower
  have argsMean := args_mean vals asked count silent argsLower
  have leaves : ∀ op ∈ Op.minSigners (max least 1) :: (functions ++ args), pops op = .ok 0 := by
    simp only [List.forall_mem_cons, List.forall_mem_append]
    exact ⟨rfl, functionsMean.1, argsMean.1⟩
  rw [eval_all_eq_true leaves valid, List.forall_mem_cons, List.forall_mem_append,
    functionsMean.2, argsMean.2]
  have quorum : leafVerdict ⟨vals, asked.ledger⟩ ⟨.contract asked.call, count, asked.self⟩
      (.minSigners (max least 1)) = Verdict.ofBool (max least 1 ≤ count) := rfl
  rw [quorum, Verdict.ofBool_eq_true, decide_eq_true_iff]

end Programs

/-! ### Rules -/

section Rules

variable {hexDecode : String → Option Bytes} {host : LowerHost} {doc : PolicyDoc}
  {asked : Question} {rule : Rule}

structure ValidRule (hexDecode : String → Option Bytes) (declared : List String) (rule : Rule) :
    Prop where
  principals : validatePrincipals hexDecode rule.name declared rule.principals = []
  preds : ∀ constraints, rule.args = some constraints → ∀ constraint ∈ constraints,
    validatePred rule.name constraint.index constraint.pred = []
  live : rule.notAfterLedger ≠ some 0

theorem validateRule_eq_nil {declared : List String}
    (silent : validateRule hexDecode declared rule = []) : ValidRule hexDecode declared rule := by
  simp only [validateRule, List.append_eq_nil_iff, reportIf_eq_nil] at silent
  obtain ⟨⟨⟨⟨⟨_, principals⟩, _⟩, args⟩, live⟩, _⟩ := silent
  refine ⟨principals, ?_, live⟩
  intro constraints listed constraint member
  rw [listed, Option.map_some, Option.getD_some, validateArgs, List.append_eq_nil_iff] at args
  obtain ⟨_, each⟩ := eachSeen_eq_nil (by simp [reportIf]) args.2
  exact (List.append_eq_nil_iff.mp (each constraint member).2).2

theorem lastLedger_means {last : Option UInt32} (ledger : UInt32)
    (lowers : lastLedger rule.notAfterLedger = .ok last) :
    last.all (fun last => decide (ledger ≤ last)) = true ↔
      ∀ first, rule.notAfterLedger = some first → ledger < first := by
  cases bound : rule.notAfterLedger with
  | none =>
      simp only [bound, lastLedger, Except.ok.injEq] at lowers
      simp [← lowers]
  | some first =>
      simp only [bound, lastLedger] at lowers
      split at lowers
      · cases lowers
      next positive =>
        cases lowers
        have large : 1 ≤ first := by
          have nonzero : first.toNat ≠ 0 := fun zero => positive (UInt32.toNat_inj.mp zero)
          rw [UInt32.le_iff_toNat_le]
          exact Nat.one_le_iff_ne_zero.mpr nonzero
        have step : (first - 1).toNat = first.toNat - 1 := UInt32.toNat_sub_of_le _ _ large
        simp only [Option.all_some, decide_eq_true_iff, Option.some.injEq, forall_eq',
          UInt32.le_iff_toNat_le, UInt32.lt_iff_toNat_lt] at large ⊢
        have one : (1 : UInt32).toNat = 1 := rfl
        omega

theorem floor_le_iff {least count : UInt32} :
    max least 1 ≤ count ↔ least.toNat ≤ count.toNat ∧ 1 ≤ count.toNat := by
  have one : (1 : UInt32).toNat = 1 := rfl
  have larger : max least 1 = if least ≤ 1 then 1 else least := rfl
  rw [larger]
  split <;> simp only [UInt32.le_iff_toNat_le, one] at * <;> omega

/-- How many distinct listed signers signed. -/
theorem signed_card {ids : List String} (distinct : ids.Nodup) (signs : String → Prop)
    [DecidablePred signs] :
    {id ∈ ids.toFinset | signs id}.card = (ids.filter fun id => decide (signs id)).length := by
  rw [← List.toFinset_card_of_nodup (distinct.filter _), List.toFinset_filter]
  simp only [decide_eq_true_iff]

theorem quorum_nonempty {declared ids : List String} {least : UInt32}
    (valid : validatePrincipals hexDecode rule.name declared rule.principals = [])
    (asks : quorum rule = .ok (ids, least)) : ids ≠ [] := by
  cases kind : rule.principals with
  | all signers =>
      simp only [quorum, kind, Except.ok.injEq, Prod.mk.injEq] at asks
      rw [kind] at valid
      rw [← asks.1]
      exact (validatePrincipalSigners_eq_nil valid).1
  | threshold signers m =>
      simp only [quorum, kind, Except.ok.injEq, Prod.mk.injEq] at asks
      rw [kind, validatePrincipals, List.append_eq_nil_iff] at valid
      rw [← asks.1]
      exact (validatePrincipalSigners_eq_nil valid.1).1
  | selfAuthenticating policy params ack =>
      simp [quorum, kind] at asks

open Classical in
/-- A program's signer floor is met exactly when the rule's principals signed. -/
theorem quorum_means {declared ids : List String} {least : UInt32} {specs : List SignerSpec}
    (valid : validatePrincipals hexDecode rule.name declared rule.principals = [])
    (bounded : declared.length < 4294967296) (asks : quorum rule = .ok (ids, least))
    (aligned : List.Forall₂ (fun id spec => asked.signed spec = decide (Signs doc asked id))
      ids specs) :
    max least 1 ≤ UInt32.ofNat (specs.filter asked.signed).length ↔
      PrincipalsMean doc asked rule.principals := by
  obtain ⟨signedCount, _⟩ := authenticated_length aligned
  have size : ∀ {listed : List String}, listed.Nodup → (∀ id ∈ listed, id ∈ declared) →
      listed.length < 4294967296 := by
    intro listed distinct known
    have fits := (List.subperm_of_subset distinct known).length_le
    omega
  have fewer := List.length_filter_le (fun id => decide (Signs doc asked id)) ids
  cases kind : rule.principals with
  | all signers =>
      simp only [quorum, kind, Except.ok.injEq, Prod.mk.injEq] at asks
      obtain ⟨rfl, rfl⟩ := asks
      rw [kind] at valid
      obtain ⟨nonempty, distinct, known⟩ := validatePrincipalSigners_eq_nil valid
      have short := size distinct known
      have some : 0 < signers.length := List.length_pos_iff.mpr nonempty
      have floor : max (UInt32.ofNat signers.length) 1 ≤
          UInt32.ofNat (specs.filter asked.signed).length ↔
          (signers.filter fun id => decide (Signs doc asked id)).length = signers.length := by
        rw [signedCount, floor_le_iff, UInt32.toNat_ofNat_of_lt' short,
          UInt32.toNat_ofNat_of_lt' (fewer.trans_lt short)]
        omega
      rw [floor, List.length_filter_eq_length_iff]
      simp [PrincipalsMean]
  | threshold signers m =>
      simp only [quorum, kind, Except.ok.injEq, Prod.mk.injEq] at asks
      obtain ⟨rfl, rfl⟩ := asks
      rw [kind] at valid
      simp only [validatePrincipals, List.append_eq_nil_iff, reportIf_eq_nil, not_or] at valid
      obtain ⟨listed, positive, _⟩ := valid
      obtain ⟨_, distinct, known⟩ := validatePrincipalSigners_eq_nil listed
      have short := size distinct known
      have nonzero : m.toNat ≠ 0 := fun zero => positive (UInt32.toNat_inj.mp zero)
      rw [signedCount, floor_le_iff, UInt32.toNat_ofNat_of_lt' (fewer.trans_lt short),
        PrincipalsMean, signed_card distinct]
      omega
  | selfAuthenticating policy params ack =>
      simp [quorum, kind] at asks

structure Lowers (host : LowerHost) (doc : PolicyDoc) (rule : Rule) (lowered : LoweredRule)
    (ids : List String) (least : UInt32) : Prop where
  asks : quorum rule = .ok (ids, least)
  signers : ids.mapM (resolveSigner doc rule.name) = .ok lowered.signers
  scope : lowered.scope = lowerScope rule.scope
  validUntil : lastLedger rule.notAfterLedger = .ok lowered.validUntil
  /-- Only a bare `all` rule attaches no policy. -/
  install : (constraintFree rule = true ∧ lowered.install = none) ∨
    ∃ program, buildProgram host rule least = .ok program ∧
      lowered.install = some ⟨program, ruleHashOnchain host rule⟩

theorem lowerRule_eq_ok {lowered : LoweredRule} (lowers : lowerRule host doc rule = .ok lowered) :
    ∃ ids least, Lowers host doc rule lowered ids least := by
  simp only [lowerRule, bind_eq_ok, Except.ok.injEq, Prod.exists] at lowers
  obtain ⟨ids, least, asks, signers, resolved, cap, _, install, attached, last, bound, rfl⟩ :=
      lowers
  refine ⟨ids, least, asks, resolved, rfl, bound, ?_⟩
  split at attached
  next free =>
    cases attached
    exact Or.inl ⟨free, rfl⟩
  · simp only [bind_eq_ok, Except.ok.injEq] at attached
    obtain ⟨program, built, rfl⟩ := attached
    exact Or.inr ⟨program, built, rfl⟩

theorem constraintFree_eq_true :
    constraintFree rule = true ↔ (∃ signers, rule.principals = .all signers) ∧
      rule.functions = none ∧ rule.args = none ∧ rule.cap = none := by
  unfold constraintFree
  cases rule.principals <;> simp [and_assoc]

open Classical in
theorem Lowers.aligned (asked : Question) {ids : List String} {least : UInt32}
    {lowered : LoweredRule} (parts : Lowers host doc rule lowered ids least)
    (distinct : (doc.signers.map SignerDecl.id).Nodup) :
    List.Forall₂ (fun id spec => asked.signed spec = decide (Signs doc asked id))
      ids lowered.signers := by
  refine (mapM_eq_ok parts.signers).imp ?_
  intro id spec resolves
  have means : asked.signed spec = true ↔ Signs doc asked id :=
    resolveSigner_signs distinct resolves
  rw [Bool.eq_iff_iff, means, decide_eq_true_iff]

theorem quorum_authenticated (asked : Question) {ids : List String} {least : UInt32}
    {lowered : LoweredRule} (distinct : (doc.signers.map SignerDecl.id).Nodup)
    (valid : validatePrincipals hexDecode rule.name (doc.signers.map SignerDecl.id)
      rule.principals = [])
    (bounded : (doc.signers.map SignerDecl.id).length < 4294967296)
    (parts : Lowers host doc rule lowered ids least) :
    max least 1 ≤ UInt32.ofNat (lowered.authenticated asked).length ↔
      PrincipalsMean doc asked rule.principals :=
  quorum_means valid bounded parts.asks (parts.aligned asked distinct)

theorem authorizes_iff_unexpired {lowered : LoweredRule} {vals : TryFromVal} :
    lowered.authorizes host vals asked = true ↔
      lowered.validUntil.all (fun last => asked.ledger ≤ last) = true ∧
        { lowered with validUntil := none }.authorizes host vals asked = true := by
  simp only [LoweredRule.authorizes, LoweredRule.authenticated, Bool.and_eq_true, Option.all_none]
  tauto

open Classical in
theorem unexpired_iff {lowered : LoweredRule} (vals : TryFromVal) (asked : Question)
    (distinct : (doc.signers.map SignerDecl.id).Nodup)
    (bounded : doc.signers.length < 4294967296)
    (valid : ValidRule hexDecode (doc.signers.map SignerDecl.id) rule)
    (lowers : lowerRule host doc rule = .ok lowered) :
    { lowered with validUntil := none }.authorizes host vals asked = true ↔
      ScopeMeans host asked rule.scope ∧ PrincipalsMean doc asked rule.principals ∧
        (∀ names, rule.functions = some names → asked.call.fnName ∈ names) ∧
        ∀ constraints, rule.args = some constraints →
          ∀ constraint ∈ constraints, ArgMeans host vals asked constraint := by
  obtain ⟨ids, least, parts⟩ := lowerRule_eq_ok lowers
  have aligned := parts.aligned asked distinct
  have bounded' : (doc.signers.map SignerDecl.id).length < 4294967296 := by
    rwa [List.length_map]
  have floor := quorum_authenticated asked distinct valid.principals bounded' parts
  rw [LoweredRule.authenticated] at floor
  have scope : lowered.scope.covers host asked = true ↔ ScopeMeans host asked rule.scope := by
    rw [parts.scope]
    cases rule.scope <;> simp [lowerScope, ScopeSpec.covers, ScopeMeans]
  simp only [LoweredRule.authorizes, Bool.and_eq_true, scope, Option.all_none, and_true]
  apply and_congr_right
  intro _
  rcases parts.install with ⟨free, bare⟩ | ⟨program, built, attached⟩
  · -- The store asks for every signer.
    obtain ⟨⟨signers, kind⟩, functions, args, _⟩ := constraintFree_eq_true.mp free
    have listed : ids = signers := by
      have asks := parts.asks
      simp only [quorum, kind, Except.ok.injEq, Prod.mk.injEq] at asks
      exact asks.1.symm
    have every : lowered.signers.all asked.signed = true ↔
        PrincipalsMean doc asked rule.principals := by
      rw [(authenticated_length aligned).2, kind, listed]
      simp [PrincipalsMean]
    rw [bare]
    simp [every, functions, args]
  · -- The program asks for the signers, the function, and the arguments.
    rw [attached]
    have means := buildProgram_means vals asked
      (UInt32.ofNat (lowered.signers.filter asked.signed).length) valid.preds built
    rw [floor] at means
    simp only [LoweredRule.authenticated]
    rw [InstallParams.admits, Bool.and_eq_true, decide_eq_true_iff, means, Bool.not_eq_true',
      List.isEmpty_eq_false_iff]
    constructor
    · exact fun both => both.2
    · intro holds
      refine ⟨?_, holds⟩
      intro none
      have atLeast := (floor_le_iff.mp (floor.mpr holds.1)).2
      rw [none] at atLeast
      simp at atLeast

/-- A lowered rule authorizes exactly the calls its document rule permits. -/
theorem authorizes_iff_permits {lowered : LoweredRule} (vals : TryFromVal) (asked : Question)
    (distinct : (doc.signers.map SignerDecl.id).Nodup)
    (bounded : doc.signers.length < 4294967296)
    (valid : ValidRule hexDecode (doc.signers.map SignerDecl.id) rule)
    (lowers : lowerRule host doc rule = .ok lowered) :
    lowered.authorizes host vals asked = true ↔ Permits host vals doc asked rule := by
  obtain ⟨ids, least, parts⟩ := lowerRule_eq_ok lowers
  rw [authorizes_iff_unexpired, unexpired_iff vals asked distinct bounded valid lowers,
    lastLedger_means asked.ledger parts.validUntil]
  constructor
  · rintro ⟨live, scope, principals, functions, args⟩
    exact ⟨scope, live, principals, functions, args⟩
  · intro permits
    exact ⟨permits.live, permits.scope, permits.principals, permits.functions, permits.args⟩

theorem authorizes_signed {ids : List String} {least : UInt32} {lowered : LoweredRule}
    {vals : TryFromVal} {asked : Question}
    (parts : Lowers host doc rule lowered ids least) (nonempty : ids ≠ [])
    (authorized : lowered.authorizes host vals asked = true) :
    lowered.authenticated asked ≠ [] := by
  simp only [LoweredRule.authorizes, Bool.and_eq_true] at authorized
  rcases parts.install with ⟨_, bare⟩ | ⟨program, _, attached⟩
  · rw [bare] at authorized
    have some : lowered.signers ≠ [] := by
      intro none
      have same := (mapM_eq_ok parts.signers).length_eq
      rw [none, List.length_nil, List.length_eq_zero_iff] at same
      exact nonempty same
    rw [LoweredRule.authenticated, List.filter_eq_self.mpr (List.all_eq_true.mp authorized.2)]
    exact some
  · rw [attached] at authorized
    have signed := authorized.2
    simp only [InstallParams.admits, Bool.and_eq_true, Bool.not_eq_true',
      List.isEmpty_eq_false_iff] at signed
    exact signed.1

theorem ArgPredMeans.typed {vals : TryFromVal} {value : Val} {pred : ArgPred}
    (holds : ArgPredMeans host vals asked value pred) : PredTyped vals value pred := by
  cases pred with
  | isSelf =>
      intro none
      simp [ArgPredMeans, none] at holds
  | addressEq address =>
      obtain ⟨want, _, read⟩ := holds
      simp [PredTyped, read]
  | stringIn values =>
      obtain ⟨given, read, _⟩ := holds
      simp [PredTyped, read]
  | stringPrefix initial =>
      obtain ⟨given, read, _⟩ := holds
      simp [PredTyped, read]
  | u32Eq want =>
      intro none
      simp [ArgPredMeans, none] at holds

end Rules

/-! ### Documents -/

/-- Lowering preserves meaning: each rule of a valid document that compiles is
enforced exactly as the document says.  In particular nothing is authorized
without a signature, by a missing or mistyped argument, or at the first ledger at
which the rule is dead.

A vector's length is a 32-bit word where the compiler runs, which is what
`addressable` says of the signers. -/
theorem lowering_preserves_meaning {hexDecode : String → Option Bytes} {host : LowerHost}
    {doc : PolicyDoc} {interpreterWasmHash : Bytes32} {plan : Plan} {done : Unit}
    (vals : TryFromVal) (addressable : doc.signers.length < 4294967296)
    (valid : validate hexDecode doc = .ok done)
    (compiles : compile host doc interpreterWasmHash = .ok plan) :
    List.Forall₂ (fun rule lowered => ∀ asked : Question,
      (lowered.authorizes host vals asked = true ↔ Permits host vals doc asked rule) ∧
        (lowered.authorizes host vals asked = true →
          lowered.authenticated asked ≠ [] ∧
            (∀ constraints, rule.args = some constraints → ∀ constraint ∈ constraints,
              ∃ value, asked.call.args[constraint.index.toNat]? = some value ∧
                PredTyped vals value constraint.pred) ∧
            rule.notAfterLedger ≠ some asked.ledger)) doc.rules plan.rules := by
  obtain ⟨_, signers, rules, _⟩ := violations_eq_nil.mp (validate_eq_ok.mp valid)
  have distinct := (validateSigners_eq_nil signers).1
  have each := (validateRules_eq_nil rules).2
  simp only [compile, bind_eq_ok, Except.ok.injEq] at compiles
  obtain ⟨lowered, mapped, rfl⟩ := compiles
  have aligned := (List.forall₂_and_left _ _).mpr
    ⟨fun rule member => validateRule_eq_nil (each rule member).2.2, mapM_eq_ok mapped⟩
  refine aligned.imp ?_
  rintro rule lowered ⟨ruleValid, lowers⟩ asked
  have means := authorizes_iff_permits vals asked distinct addressable ruleValid lowers
  refine ⟨means, ?_⟩
  intro authorized
  have permits := means.mp authorized
  refine ⟨?_, ?_, ?_⟩
  · obtain ⟨ids, least, parts⟩ := lowerRule_eq_ok lowers
    have listed : ids ≠ [] := quorum_nonempty ruleValid.principals parts.asks
    exact authorizes_signed parts listed authorized
  · intro constraints listed constraint member
    obtain ⟨value, given, holds⟩ := permits.args constraints listed constraint member
    exact ⟨value, given, holds.typed⟩
  · intro boundary
    exact UInt32.lt_irrefl _ (permits.live _ boundary)

section Sample

/-- One of two signers may call one function with one argument, for a while. -/
def sampleLimited : PolicyDoc where
  version := 1
  network := some "T"
  signers :=
    [{ id := "a"
       method := .delegated "GAAQCAIBAEAQCAIBAEAQCAIBAEAQCAIBAEAQCAIBAEAQCAIBAEAQDZ7H" },
     { id := "b"
       method := .delegated "CADQOBYHA4DQOBYHA4DQOBYHA4DQOBYHA4DQOBYHA4DQOBYHA4DQP5KR" }]
  rules :=
    [{ name := "pay", scope := .selfAdmin, principals := .threshold ["a", "b"] 1
       functions := some ["pay"], args := some [⟨0, .u32Eq 5⟩, ⟨1, .stringPrefix "ok"⟩]
       notAfterLedger := some 100, cap := none }]
  recovery := none

/-- The host's reading of a value's XDR, at the types the sample's values have. -/
def sampleVals : TryFromVal where
  address _ := none
  symbol _ := none
  string
    | .other (0 :: 0 :: 0 :: 14 :: 0 :: 0 :: 0 :: length :: text) => some (text.take length.toNat)
    | _ => none
  i128 _ := none
  u32
    | .other [0, 0, 0, 3, 0, 0, 0, value] => some value.toUInt32
    | _ => none

def sampleQuestion (ledger : UInt32) : Question where
  call :=
    { contract := .contract (BytesN.fill 1)
      fnName := "pay"
      args := [.other [0, 0, 0, 3, 0, 0, 0, 5],
        .other [0, 0, 0, 14, 0, 0, 0, 3, 111, 107, 33, 0]] }
  self := .contract (BytesN.fill 1)
  ledger := ledger
  signed signer :=
    signer = .delegated "CADQOBYHA4DQOBYHA4DQOBYHA4DQOBYHA4DQOBYHA4DQOBYHA4DQP5KR"

def samplePlan : Except LowerError Plan :=
  compile (localHost "T").lowerHost sampleLimited (BytesN.fill 0)

set_option maxRecDepth 16384 in
theorem samplePlan_authorizes : samplePlan.toOption.any (fun plan =>
    plan.rules.all fun rule =>
      rule.authorizes (localHost "T").lowerHost sampleVals (sampleQuestion 99)) = true := by
  decide

set_option maxRecDepth 16384 in
theorem sampleLimited_valid : validate (localHost "T").hexDecode sampleLimited = .ok () := by
  decide

/-- The last live ledger authorizes, the first dead one does not. -/
theorem lowering_preserves_meaning_sample :
    ∃ plan, samplePlan = .ok plan ∧ List.Forall₂ (fun rule lowered =>
      Permits (localHost "T").lowerHost sampleVals sampleLimited (sampleQuestion 99) rule ∧
        lowered.authorizes (localHost "T").lowerHost sampleVals (sampleQuestion 100) = false)
      sampleLimited.rules plan.rules := by
  obtain ⟨plan, compiled, authorized⟩ := (Option.any_eq_true _ _).mp samplePlan_authorizes
  have lowered := toOption_eq_some.mp compiled
  refine ⟨plan, lowered, ?_⟩
  have means := lowering_preserves_meaning sampleVals (by decide) sampleLimited_valid lowered
  have flipped := (List.forall₂_and_left _ _).mpr
    ⟨fun rule member => List.all_eq_true.mp authorized rule member, means.flip⟩
  have dated := (List.forall₂_and_left _ _).mpr
    ⟨(by decide : ∀ rule ∈ sampleLimited.rules, rule.notAfterLedger = some 100), flipped.flip⟩
  refine dated.imp ?_
  rintro rule lowered ⟨expiry, live, enforced⟩
  refine ⟨(enforced (sampleQuestion 99)).1.mp live, ?_⟩
  rw [← Bool.not_eq_true]
  intro late
  exact ((enforced (sampleQuestion 100)).2 late).2.2 expiry

end Sample

end Perch.Compile
