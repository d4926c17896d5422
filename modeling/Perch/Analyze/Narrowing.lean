/-
When a silent narrowing check can be trusted.

The check compares how many signers two rules ask for, never which; and a
string constant reaches the solver as a literal whose escapes are read.  A
document the check finds nothing against narrows its parent exactly when
neither matters: the child's quorums carry the parent's, and no constant of the
child looks like one of the parent's only once its escapes are read.
-/

import Perch.Analyze.Containment
import Perch.Analyze.Credentials

namespace Perch.Analyze

open Machine Ir Compile Document Program

/-! ### Narrowing -/

/-- A document's rule lowers to one that authorizes a call. -/
def Authorizes (host : LowerHost) (vals : TryFromVal) (doc : PolicyDoc) (rule : Rule)
    (asked : Question) : Prop :=
  ∃ lowered, lowerRule host doc rule = .ok lowered ∧ lowered.authorizes host vals asked = true

/-- A call at a ledger, with the credentials that authenticated. -/
structure Invocation where
  call : ContractContext
  self : Address
  ledger : UInt32
  held : SigningKey → Bool

def Invocation.question (hexDecode : String → Option Bytes) (asked : Invocation) : Question where
  call := asked.call
  self := asked.self
  ledger := asked.ledger
  signed := signedWith hexDecode asked.held

/-- Whatever a rule of the child authorizes, the parent's rule of its name does. -/
def Narrower (hexDecode : String → Option Bytes) (host : LowerHost) (vals : TryFromVal)
    (parent child : PolicyDoc) : Prop :=
  ∀ (asked : Invocation), ∀ rule ∈ child.rules,
    Authorizes host vals child rule (asked.question hexDecode) →
      ∃ rule' ∈ parent.rules, rule'.name = rule.name ∧
        Authorizes host vals parent rule' (asked.question hexDecode)

/-- Of the child's quorum, the parent's is left even without the child's
signers that the parent does not count. -/
def Covered (hexDecode : String → Option Bytes) (parent : PolicyDoc) (rule' : Rule)
    (child : PolicyDoc) (rule : Rule) : Prop :=
  ∃ ids least ids' least', quorum rule = .ok (ids, least) ∧ quorum rule' = .ok (ids', least') ∧
    least'.toNat + ((keysOf hexDecode child ids).filter fun key =>
      key ∉ keysOf hexDecode parent ids').length ≤ least.toNat

/-- Reading the escapes of string constants makes none of the child's look like
one of the parent's that it is not. -/
def Unconfused (rule' rule : Rule) : Prop :=
  ∀ constraints constraints', rule.args = some constraints → rule'.args = some constraints' →
    ∀ constraint ∈ constraints, ∀ constraint' ∈ constraints', constraint.index = constraint'.index →
      ∀ string ∈ constants constraint.pred,
        Meets denoted string constraint'.pred → Meets utf8 string constraint'.pred

/-- Every string up to the limit on string arguments is some host value. -/
def HasStrings (vals : TryFromVal) : Prop :=
  ∀ string, string.length ≤ maxStrArgLen → ∃ value, vals.string value = some string

section Narrowing

variable {hexDecode : String → Option Bytes} {host : LowerHost} {vals : TryFromVal}
  {parent child doc : PolicyDoc} {rule rule' : Rule}

theorem SoundRule.distinctArgs (sound : SoundRule hexDecode doc rule) : DistinctArgs rule := by
  intro constraints listed
  have valid := sound.valid
  simp only [validateRule, List.append_eq_nil_iff] at valid
  obtain ⟨⟨⟨_, args⟩, _⟩, _⟩ := valid
  rw [listed, Option.map_some, Option.getD_some, validateArgs, List.append_eq_nil_iff] at args
  exact (eachSeen_eq_nil (by simp [reportIf]) args.2).1

theorem SoundRule.functions_nonempty (sound : SoundRule hexDecode doc rule) :
    ∀ names, rule.functions = some names → names ≠ [] := by
  intro names listed
  have valid := sound.valid
  simp only [validateRule, List.append_eq_nil_iff] at valid
  obtain ⟨⟨⟨⟨_, functions⟩, _⟩, _⟩, _⟩ := valid
  rw [listed, Option.map_some, Option.getD_some, validateFunctions, List.append_eq_nil_iff,
    reportIf_eq_nil] at functions
  exact functions.1

theorem SoundRule.prefix_short (sound : SoundRule hexDecode doc rule)
    {constraints : List ArgConstraint} (listed : rule.args = some constraints)
    {constraint : ArgConstraint} (member : constraint ∈ constraints) {initial : String}
    (kind : constraint.pred = .stringPrefix initial) : Short initial := by
  have silent := (validateRule_eq_nil sound.valid).preds constraints listed constraint member
  rw [kind, validatePred, reportIf_eq_nil] at silent
  exact Nat.not_lt.mp silent

theorem SoundRule.authorizes_iff (sound : SoundRule hexDecode doc rule)
    (addressable : doc.signers.length < 4294967296) {lowered : LoweredRule}
    (lowers : lowerRule host doc rule = .ok lowered) (asked : Question) :
    lowered.authorizes host vals asked = true ↔ Permits host vals doc asked rule :=
  authorizes_iff_permits vals asked sound.known.ids addressable (validateRule_eq_nil sound.valid)
    lowers

theorem SoundRule.permits (sound : SoundRule hexDecode doc rule)
    (addressable : doc.signers.length < 4294967296) {asked : Question}
    (authorized : Authorizes host vals doc rule asked) : Permits host vals doc asked rule := by
  obtain ⟨lowered, lowers, authorizes⟩ := authorized
  exact (sound.authorizes_iff addressable lowers asked).mp authorizes

/-- A rule that authorizes something authorizes all it permits. -/
theorem SoundRule.authorizes (sound : SoundRule hexDecode doc rule)
    (addressable : doc.signers.length < 4294967296) {other asked : Question}
    (authorized : Authorizes host vals doc rule other)
    (permits : Permits host vals doc asked rule) :
    Authorizes host vals doc rule asked := by
  obtain ⟨lowered, lowers, _⟩ := authorized
  exact ⟨lowered, lowers, (sound.authorizes_iff addressable lowers asked).mpr permits⟩

/-- A call that is permitted shows that some invocation fits. -/
theorem SoundRule.satisfiable (sound : SoundRule hexDecode doc rule) {asked : Question}
    (permits : Permits host vals doc asked rule) : Satisfiable rule := by
  refine ⟨sound.functions_nonempty, ?_⟩
  intro constraints listed constraint member
  obtain ⟨value, _, means⟩ := permits.args constraints listed constraint member
  cases kind : constraint.pred with
  | stringIn values =>
      rw [kind] at means
      obtain ⟨given, _, small, want, wanted, rfl⟩ := means
      exact ⟨denoted want, want, wanted, small, rfl⟩
  | stringPrefix initial =>
      exact ⟨denoted initial, sound.prefix_short listed member kind, List.prefix_refl _⟩
  | _ => exact ⟨[], trivial⟩

/-! ### A silent check -/

structure Matched (runZ3 : Script → Smt.Verdict) (parent : PolicyDoc) (rule' rule : Rule) :
    Prop where
  listed : rule' ∈ parent.rules
  name : rule'.name = rule.name
  scope : rule'.scope = rule.scope
  unsat : runZ3 (wideningScript rule' rule) = .unsat
  expiry : expiryExtended rule'.notAfterLedger rule.notAfterLedger = false

theorem ruleFindings_eq_nil {runZ3 : Script → Smt.Verdict}
    (silent : ruleFindings runZ3 parent rule = []) : ∃ rule', Matched runZ3 parent rule' rule := by
  unfold ruleFindings at silent
  cases found : parent.rules.find? fun r => r.name = rule.name with
  | none => simp [found] at silent
  | some rule' =>
      rw [found] at silent
      dsimp only at silent
      have name : rule'.name = rule.name := by simpa using List.find?_some found
      by_cases scope : rule'.scope = rule.scope
      · rw [if_neg (not_not.mpr scope), List.append_eq_nil_iff, List.append_eq_nil_iff] at silent
        obtain ⟨⟨semantic, expiry⟩, _⟩ := silent
        refine ⟨rule', List.mem_of_find?_eq_some found, name, scope, ?_, ?_⟩
        · unfold semanticFindings at semantic
          split at semantic
          · assumption
          · cases semantic
          · cases semantic
        · by_contra extended
          rw [Bool.not_eq_false] at extended
          rw [if_pos extended] at expiry
          cases expiry
      · rw [if_pos scope] at silent
        cases silent

theorem Matched.live {runZ3 : Script → Smt.Verdict} (found : Matched runZ3 parent rule' rule)
    {ledger : UInt32}
    (live : ∀ first, rule.notAfterLedger = some first → ledger < first) :
    ∀ first, rule'.notAfterLedger = some first → ledger < first := by
  intro first bound
  have expiry := found.expiry
  rw [bound] at expiry
  cases bound' : rule.notAfterLedger with
  | none =>
      rw [bound'] at expiry
      cases expiry
  | some earlier =>
      rw [bound'] at expiry
      simp only [expiryExtended, decide_eq_false_iff_not, UInt32.not_lt] at expiry
      exact UInt32.lt_of_lt_of_le (live earlier bound') expiry

/-! ### Quorums -/

theorem missing_card {keys keys' : List SigningKey} (distinct : keys.Nodup) :
    (keys.toFinset \ keys'.toFinset).card = (keys.filter fun key => key ∉ keys').length := by
  rw [← List.toFinset_card_of_nodup (distinct.filter _)]
  congr 1
  ext key
  simp

theorem Covered.principals (sound : SoundRule hexDecode child rule)
    (sound' : SoundRule hexDecode parent rule')
    (addressable : child.signers.length < 4294967296)
    (addressable' : parent.signers.length < 4294967296)
    (covered : Covered hexDecode parent rule' child rule) (asked : Invocation)
    (means : PrincipalsMean child (asked.question hexDecode) rule.principals) :
    PrincipalsMean parent (asked.question hexDecode) rule'.principals := by
  obtain ⟨ids, least, ids', least', asks, asks', surplus⟩ := covered
  have valid := (validateRule_eq_nil sound.valid).principals
  have valid' := (validateRule_eq_nil sound'.valid).principals
  rw [principals_iff sound.known addressable valid asks rfl] at means
  rw [principals_iff sound'.known addressable' valid' asks' rfl]
  have distinct := (quorum_valid valid (by rwa [List.length_map]) asks).1
  rw [← missing_card (sound.known.keysOf_nodup distinct)] at surplus
  exact quorum_of_surplus surplus means

/-- If whatever meets the child's principals meets the parent's, the parent's
quorum is covered. -/
theorem covered_of_principals (sound : SoundRule hexDecode child rule)
    (sound' : SoundRule hexDecode parent rule')
    (addressable : child.signers.length < 4294967296)
    (addressable' : parent.signers.length < 4294967296) {ids ids' : List String}
    {least least' : UInt32} (asks : quorum rule = .ok (ids, least))
    (asks' : quorum rule' = .ok (ids', least')) (first : Invocation)
    (met : PrincipalsMean child (first.question hexDecode) rule.principals)
    (means : ∀ held : SigningKey → Bool,
      PrincipalsMean child ({ first with held := held }.question hexDecode) rule.principals →
        PrincipalsMean parent ({ first with held := held }.question hexDecode) rule'.principals) :
    Covered hexDecode parent rule' child rule := by
  have valid := (validateRule_eq_nil sound.valid).principals
  have valid' := (validateRule_eq_nil sound'.valid).principals
  have distinct := (quorum_valid valid (by rwa [List.length_map]) asks).1
  have positive := (quorum_valid valid' (by rwa [List.length_map]) asks').2.2.1
  refine ⟨ids, least, ids', least', asks, asks', ?_⟩
  rw [← missing_card (sound.known.keysOf_nodup distinct)]
  by_contra short
  rw [principals_iff sound.known addressable valid asks rfl] at met
  have possible : least.toNat ≤ (keysOf hexDecode child ids).toFinset.card :=
    met.trans (Finset.card_filter_le _ _)
  obtain ⟨held, within, size, fewer⟩ :=
    exists_quorum_without possible positive (Nat.not_le.mp short)
  have carried := means fun key => decide (key ∈ held)
  rw [principals_iff sound.known addressable valid asks rfl,
    principals_iff sound'.known addressable' valid' asks' rfl] at carried
  simp only [decide_eq_true_eq] at carried
  have all : (keysOf hexDecode child ids).toFinset.filter (· ∈ held) = held := by
    rw [Finset.filter_mem_eq_inter]
    exact Finset.inter_eq_right.mpr within
  rw [all, size] at carried
  exact Nat.not_lt.mpr (carried (Nat.le_refl _)) fewer

/-! ### Arguments -/

theorem argPred_carries {asked : Question} {value : Val} {pred pred' : ArgPred}
    (compatible : Compatible pred pred')
    (met : ∀ string ∈ constants pred, Meets utf8 string pred')
    (means : ArgPredMeans host vals asked value pred) :
    ArgPredMeans host vals asked value pred' := by
  cases pred with
  | isSelf =>
      cases pred' with
      | isSelf => exact means
      | _ => cases compatible
  | addressEq address =>
      cases pred' with
      | addressEq other =>
          cases compatible
          exact means
      | _ => cases compatible
  | u32Eq want =>
      cases pred' with
      | u32Eq other =>
          cases compatible
          exact means
      | _ => cases compatible
  | stringIn values =>
      obtain ⟨given, read, small, want, wanted, rfl⟩ := means
      have named : want ∈ constants (.stringIn values) :=
        List.mem_filter.mpr ⟨wanted, decide_eq_true small⟩
      cases pred' with
      | stringIn others =>
          obtain ⟨other, listed, _, same⟩ := met want named
          exact ⟨_, read, small, other, listed, same.symm⟩
      | stringPrefix initial => exact ⟨_, read, met want named⟩
      | _ => cases compatible
  | stringPrefix initial =>
      obtain ⟨given, read, starts⟩ := means
      cases pred' with
      | stringPrefix other =>
          have shorter : utf8 other <+: utf8 initial := met initial List.mem_cons_self
          exact ⟨given, read, shorter.trans starts⟩
      | _ => cases compatible

theorem argPred_of_constant {asked : Question} {value : Val} {pred : ArgPred} {string : String}
    (named : string ∈ constants pred) (read : vals.string value = some (utf8 string)) :
    ArgPredMeans host vals asked value pred := by
  cases pred with
  | stringIn values =>
      obtain ⟨listed, short⟩ := List.mem_filter.mp named
      exact ⟨_, read, of_decide_eq_true short, string, listed, rfl⟩
  | stringPrefix initial =>
      obtain rfl := List.mem_singleton.mp named
      exact ⟨_, read, List.prefix_refl _⟩
  | _ => cases named

theorem meets_of_argPred {asked : Question} {value : Val} {pred : ArgPred} {string : String}
    (read : vals.string value = some (utf8 string))
    (means : ArgPredMeans host vals asked value pred) : Meets utf8 string pred := by
  cases pred with
  | stringIn values =>
      obtain ⟨given, read', small, want, listed, rfl⟩ := means
      rw [read, Option.some.injEq] at read'
      exact ⟨want, listed, small, read'.symm⟩
  | stringPrefix initial =>
      obtain ⟨given, read', starts⟩ := means
      rw [read, Option.some.injEq] at read'
      rw [← read'] at starts
      exact starts
  | _ => trivial

/-- The parent's program has no more leaves than the child's. -/
theorem Contained.leafCount_le (contained : Contained rule' rule) (distinct : DistinctArgs rule') :
    leafCount rule' ≤ leafCount rule := by
  have functions : rule'.functions.toList.length ≤ rule.functions.toList.length := by
    cases listed : rule'.functions with
    | none => exact Nat.zero_le _
    | some names =>
        obtain ⟨_, listed', _⟩ := contained.functions names listed
        rw [listed']
        exact Nat.le_refl _
  have args : (rule'.args.getD []).length ≤ (rule.args.getD []).length := by
    cases listed : rule'.args with
    | none => exact Nat.zero_le _
    | some constraints =>
        have within : ∀ index ∈ constraints.map ArgConstraint.index,
            index ∈ (rule.args.getD []).map ArgConstraint.index := by
          intro index numbered
          obtain ⟨constraint, member, rfl⟩ := List.mem_map.mp numbered
          obtain ⟨others, listed', other, member', same, _⟩ :=
            contained.args constraints listed constraint member
          rw [listed', Option.getD_some, ← same]
          exact List.mem_map_of_mem member'
        have fewer := (List.subperm_of_subset (distinct constraints listed) within).length_le
        rwa [List.length_map, List.length_map] at fewer
  unfold leafCount
  omega

theorem Contained.lowers (contained : Contained rule' rule)
    (sound : SoundRule hexDecode parent rule') {ids : List String} {least : UInt32}
    (asks : quorum rule' = .ok (ids, least)) (addressable : parent.signers.length < 4294967296)
    {asked : Question} {lowered : LoweredRule} (lowers : lowerRule host child rule = .ok lowered)
    (permits : Permits host vals child asked rule) :
    ∃ lowered', lowerRule host parent rule' = .ok lowered' := by
  have valid := (validateRule_eq_nil sound.valid).principals
  have declared := (quorum_valid valid (by rwa [List.length_map]) asks).2.1
  refine lowerRule_total sound.valid asks declared ?_ ?_
  · intro constraints listed constraint member address kind
    obtain ⟨others, listed', other, member', _, compatible, _⟩ :=
      contained.args constraints listed constraint member
    obtain ⟨value, _, means⟩ := permits.args others listed' other member'
    rw [kind] at compatible
    cases kind' : other.pred with
    | addressEq address' =>
        rw [kind'] at compatible means
        cases compatible
        obtain ⟨want, resolves, _⟩ := means
        rw [resolves]
        exact Option.some_ne_none _
    | _ =>
        rw [kind'] at compatible
        cases compatible
  · refine (contained.leafCount_le sound.distinctArgs).trans ?_
    obtain ⟨ids, least, parts⟩ := lowerRule_eq_ok lowers
    rcases parts.install with ⟨bare, _⟩ | ⟨program, built, _⟩
    · obtain ⟨_, functions, args, _⟩ := constraintFree_eq_true.mp bare
      simp only [leafCount, functions, args]
      decide
    · exact (buildProgram_ok_iff.mp ⟨program, built⟩).2.2

theorem Contained.permits (contained : Contained rule' rule) (unconfused : Unconfused rule' rule)
    {runZ3 : Script → Smt.Verdict} (found : Matched runZ3 parent rule' rule) {asked : Question}
    (permits : Permits host vals child asked rule)
    (principals : PrincipalsMean parent asked rule'.principals) :
    Permits host vals parent asked rule' := by
  constructor
  · rw [found.scope]
    exact permits.scope
  · exact found.live permits.live
  · exact principals
  · intro names listed
    obtain ⟨others, listed', within⟩ := contained.functions names listed
    exact within _ (permits.functions others listed')
  · intro constraints listed constraint member
    obtain ⟨others, listed', other, member', same, compatible, met⟩ :=
      contained.args constraints listed constraint member
    obtain ⟨value, present, means⟩ := permits.args others listed' other member'
    refine ⟨value, same ▸ present, argPred_carries compatible ?_ means⟩
    intro string named
    exact unconfused others constraints listed' listed other member' constraint member same string
      named (met string named)

/-- If the parent's rule permits whatever the child's does, no constant is
mistaken. -/
theorem unconfused_of_permits (strings : HasStrings vals) (sound : SoundRule hexDecode child rule)
    {asked : Invocation} (permits : Permits host vals child (asked.question hexDecode) rule)
    (carries : ∀ call : ContractContext,
      Permits host vals child ({ asked with call := call }.question hexDecode) rule →
        Permits host vals parent ({ asked with call := call }.question hexDecode) rule') :
    Unconfused rule' rule := by
  intro constraints constraints' listed listed' constraint member constraint' member' same string
    named _
  have distinct := sound.distinctArgs
  have short : Short string := by
    cases kind : constraint.pred with
    | stringIn values =>
        rw [kind] at named
        exact of_decide_eq_true (List.mem_filter.mp named).2
    | stringPrefix initial =>
        rw [kind] at named
        obtain rfl := List.mem_singleton.mp named
        exact sound.prefix_short listed member kind
    | _ =>
        rw [kind] at named
        cases named
  obtain ⟨value, read⟩ := strings (utf8 string) short
  let call : ContractContext :=
    { asked.call with args := asked.call.args.set constraint.index.toNat value }
  have changed : Permits host vals child ({ asked with call := call }.question hexDecode) rule := by
    refine ⟨permits.scope, permits.live, permits.principals, permits.functions, ?_⟩
    intro others listed'' other member''
    obtain rfl : constraints = others := Option.some.inj (listed.symm.trans listed'')
    obtain ⟨given, present, means⟩ := permits.args constraints listed other member''
    by_cases here : other.index = constraint.index
    · obtain rfl := List.inj_on_of_nodup_map (distinct constraints listed) member'' member here
      refine ⟨value, ?_, argPred_of_constant named read⟩
      have within := (List.getElem?_eq_some_iff.mp present).1
      change (asked.call.args.set other.index.toNat value)[other.index.toNat]? = some value
      exact List.getElem?_set_self within
    · refine ⟨given, ?_, means⟩
      have apart : constraint.index.toNat ≠ other.index.toNat :=
        fun equal => here (UInt32.toNat_inj.mp equal).symm
      change (asked.call.args.set constraint.index.toNat value)[other.index.toNat]? = some given
      rw [List.getElem?_set_ne apart]
      exact present
  obtain ⟨given, present, means⟩ :=
    (carries call changed).args constraints' listed' constraint' member'
  obtain ⟨old, present', _⟩ := permits.args constraints listed constraint member
  have within : constraint.index.toNat < asked.call.args.length :=
    (List.getElem?_eq_some_iff.mp present').1
  change (asked.call.args.set constraint.index.toNat value)[constraint'.index.toNat]? = _ at present
  rw [← same, List.getElem?_set_self within, Option.some.injEq] at present
  subst present
  exact meets_of_argPred read means

/-- A child the check finds nothing against narrows its parent exactly when, for
every rule that authorizes something and the parent's rule of its name, the
child's quorum covers the parent's and no string constant of the child looks
like one of the parent's only once its escapes are read. -/
theorem silent_narrows_iff {runZ3 : Script → Smt.Verdict} (sound : Smt.Sound runZ3)
    (strings : HasStrings vals) (validParent : validate hexDecode parent = .ok ())
    (validChild : validate hexDecode child = .ok ())
    (addressableParent : parent.signers.length < 4294967296)
    (addressableChild : child.signers.length < 4294967296)
    (silent : narrows runZ3 parent child = []) :
    Narrower hexDecode host vals parent child ↔
      ∀ rule ∈ child.rules, ∀ rule' ∈ parent.rules, rule'.name = rule.name →
        (∃ asked : Invocation, Authorizes host vals child rule (asked.question hexDecode)) →
          Covered hexDecode parent rule' child rule ∧ Unconfused rule' rule := by
  constructor
  · intro narrower rule member rule' member' name live
    have soundChild := soundRule_of_valid validChild member
    have soundParent := soundRule_of_valid validParent member'
    obtain ⟨asked, authorized⟩ := live
    have permits := soundChild.permits addressableChild authorized
    have carries : ∀ asked : Invocation,
        Permits host vals child (asked.question hexDecode) rule →
          Authorizes host vals parent rule' (asked.question hexDecode) := by
      intro asked permits
      obtain ⟨other, member'', name', authorizes⟩ := narrower asked rule member
        (soundChild.authorizes addressableChild authorized permits)
      obtain ⟨_, _, rules, _⟩ := violations_eq_nil.mp (validate_eq_ok.mp validParent)
      rwa [List.inj_on_of_nodup_map (validateRules_eq_nil rules).1 member' member''
        (name.trans name'.symm)]
    constructor
    · obtain ⟨_, lowers, _⟩ := authorized
      obtain ⟨_, lowers', _⟩ := carries asked permits
      obtain ⟨ids, least, parts⟩ := lowerRule_eq_ok lowers
      obtain ⟨ids', least', parts'⟩ := lowerRule_eq_ok lowers'
      refine covered_of_principals soundChild soundParent addressableChild addressableParent
        parts.asks parts'.asks asked permits.principals ?_
      intro held means
      have held' : Permits host vals child ({ asked with held := held }.question hexDecode) rule :=
        ⟨permits.scope, permits.live, means, permits.functions, permits.args⟩
      exact (soundParent.permits addressableParent (carries _ held')).principals
    · exact unconfused_of_permits strings soundChild permits fun call changed =>
        soundParent.permits addressableParent (carries { asked with call := call } changed)
  · intro condition asked rule member authorized
    obtain ⟨rule', found⟩ := ruleFindings_eq_nil (List.flatMap_eq_nil_iff.mp silent rule member)
    have soundChild := soundRule_of_valid validChild member
    have soundParent := soundRule_of_valid validParent found.listed
    obtain ⟨covered, unconfused⟩ :=
      condition rule member rule' found.listed found.name ⟨asked, authorized⟩
    have permits := soundChild.permits addressableChild authorized
    have contained := contained_of_unsat sound soundChild.distinctArgs
      (soundChild.satisfiable permits) (validateRule_functions soundChild.valid)
      (validateRule_functions soundParent.valid) found.unsat
    have principals := covered.principals soundChild soundParent addressableChild
      addressableParent asked permits.principals
    obtain ⟨_, lowers, _⟩ := authorized
    obtain ⟨_, _, ids', least', _, asks', _⟩ := covered
    obtain ⟨lowered', lowers'⟩ :=
      contained.lowers soundParent asks' addressableParent lowers permits
    refine ⟨rule', found.listed, found.name, lowered', lowers', ?_⟩
    exact (soundParent.authorizes_iff addressableParent lowers' _).mpr
      (contained.permits unconfused found permits principals)

end Narrowing

section Sample

open Classical in
noncomputable def exactSolver (script : Script) : Smt.Verdict :=
  if Smt.Satisfiable script then .sat "" else .unsat

theorem exactSolver_sound : Smt.Sound exactSolver := by
  intro script unsat satisfiable
  rw [exactSolver, if_pos satisfiable] at unsat
  cases unsat

/-- A rule over the account itself, which every listed signer must sign. -/
def adminOf (signers : List String) : Rule where
  name := "admin"
  scope := .selfAdmin
  principals := .all signers
  functions := none
  args := none
  notAfterLedger := none
  cap := none

def adminDoc (signers : List String) : PolicyDoc where
  version := 1
  network := some "T"
  signers :=
    [{ id := "a"
       method := .delegated "GAAQCAIBAEAQCAIBAEAQCAIBAEAQCAIBAEAQCAIBAEAQCAIBAEAQDZ7H" },
     { id := "b"
       method := .delegated "CADQOBYHA4DQOBYHA4DQOBYHA4DQOBYHA4DQOBYHA4DQOBYHA4DQP5KR" }]
  rules := [adminOf signers]
  recovery := none

/-- Of who signs, the check compares only how many. -/
theorem narrows_adminDoc {signers signers' : List String}
    (fewer : signers'.length ≤ signers.length) :
    narrows exactSolver (adminDoc signers') (adminDoc signers) = [] := by
  have unsat : exactSolver (wideningScript (adminOf signers') (adminOf signers)) = .unsat := by
    rw [exactSolver, if_neg]
    rintro ⟨m, holds⟩
    have allowed := holds (.le (.num (max signers.length 1 : Nat)) (.var .signerCount))
      (List.mem_append_right _ List.mem_cons_self)
    have refused := holds (.not (.le (.num (max signers'.length 1 : Nat)) (.var .signerCount)))
      (List.mem_append_right _ (List.mem_cons_of_mem _ List.mem_cons_self))
    simp only [Smt.Formula.Holds, Smt.IntTerm.value] at allowed refused
    omega
  have findings : narrows exactSolver (adminDoc signers') (adminDoc signers) =
      semanticFindings exactSolver (adminOf signers') (adminOf signers) := by
    simp [narrows, adminDoc, ruleFindings, adminOf, expiryExtended, capLoosened]
  rw [findings, semanticFindings, unsat]

/-- Strings read from their XDR: a tag, the length in four bytes, and the text. -/
def xdrVals : TryFromVal where
  address _ := none
  symbol _ := none
  string
    | .other (0 :: 0 :: 0 :: 14 :: rest) => some ((rest.drop 4).take (beValue (rest.take 4)))
    | _ => none
  i128 _ := none
  u32 _ := none

theorem xdrVals_strings : HasStrings xdrVals := by
  intro string short
  refine ⟨.other (0 :: 0 :: 0 :: 14 :: (beBytes 4 string.length ++ string)), ?_⟩
  have size : beValue (beBytes 4 string.length) = string.length := by
    rw [beValue_beBytes]
    apply Nat.mod_eq_of_lt
    simp only [maxStrArgLen] at short
    omega
  have four : (beBytes 4 string.length).length = 4 := beBytes_length 4 string.length
  simp only [xdrVals, List.take_left' four, List.drop_left' four, size, List.take_length]

def signedAlone (address : String) : Invocation where
  call := { contract := .contract (BytesN.fill 1), fnName := "apply_doc", args := [] }
  self := .contract (BytesN.fill 1)
  ledger := 5
  held := fun key => key = .delegated address

/-- A child that asks another signer for one signature widens its parent, and
nothing is found against it. -/
theorem swapped_signer_widens :
    Smt.Sound exactSolver ∧
    validate (localHost "T").hexDecode (adminDoc ["a"]) = .ok () ∧
    validate (localHost "T").hexDecode (adminDoc ["b"]) = .ok () ∧
    narrows exactSolver (adminDoc ["a"]) (adminDoc ["b"]) = [] ∧
    ¬Narrower (localHost "T").hexDecode (localHost "T").lowerHost xdrVals (adminDoc ["a"])
      (adminDoc ["b"]) := by
  refine ⟨exactSolver_sound, by decide +kernel, by decide +kernel,
    narrows_adminDoc (Nat.le_refl _), ?_⟩
  intro narrower
  have authorized : Authorizes (localHost "T").lowerHost xdrVals (adminDoc ["b"]) (adminOf ["b"])
      ((signedAlone "CADQOBYHA4DQOBYHA4DQOBYHA4DQOBYHA4DQOBYHA4DQOBYHA4DQP5KR").question
        (localHost "T").hexDecode) := by
    exact ⟨_, rfl, by decide⟩
  obtain ⟨rule', member, _, lowered, lowers, refused⟩ :=
    narrower _ _ List.mem_cons_self authorized
  obtain rfl := List.mem_singleton.mp member
  cases lowers
  revert refused
  decide

/-- Asking one more signer narrows. -/
theorem silent_narrows_iff_second_signer :
    narrows exactSolver (adminDoc ["a"]) (adminDoc ["a", "b"]) = [] ∧
    Narrower (localHost "T").hexDecode (localHost "T").lowerHost xdrVals (adminDoc ["a"])
      (adminDoc ["a", "b"]) := by
  have silent : narrows exactSolver (adminDoc ["a"]) (adminDoc ["a", "b"]) = [] :=
    narrows_adminDoc (by decide)
  refine ⟨silent, (silent_narrows_iff exactSolver_sound xdrVals_strings (by decide +kernel)
    (by decide +kernel) (by decide) (by decide) silent).mpr ?_⟩
  intro rule member rule' member' _ _
  obtain rfl := List.mem_singleton.mp member
  obtain rfl := List.mem_singleton.mp member'
  refine ⟨⟨["a", "b"], 2, ["a"], 1, rfl, rfl, by decide⟩, ?_⟩
  intro _ _ listed
  cases listed

end Sample

end Perch.Analyze
