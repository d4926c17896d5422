/-
The addresses a document names, and what becomes of them.

Validation checks every one of them, and compiling decodes them with a
conversion of the host that traps on what is not a contract's or an account's
strkey.  The check and the conversion agree on every text but the stray ones.
-/

import Perch.Compile.Meaning
import Perch.Document.Strkey

namespace Perch.Document

open Machine

/-! ### Address fields -/

structure AddressField where
  kind : AddressKind
  text : String
deriving DecidableEq

def methodAddresses : Ir.SignerMethod → List AddressField
  | .external verifier _ => [⟨.contract, verifier⟩]
  | .delegated address => [⟨.any, address⟩]

def scopeAddresses : Ir.Scope → List AddressField
  | .contract address => [⟨.contract, address⟩]
  | .selfAdmin => []

def principalsAddresses : Ir.Principals → List AddressField
  | .selfAuthenticating policy _ _ => [⟨.contract, policy⟩]
  | _ => []

def predAddresses : Ir.ArgPred → List AddressField
  | .addressEq address => [⟨.any, address⟩]
  | _ => []

def ruleAddresses (rule : Ir.Rule) : List AddressField :=
  scopeAddresses rule.scope ++ principalsAddresses rule.principals ++
    (rule.args.getD []).flatMap (fun constraint => predAddresses constraint.pred) ++
    (rule.cap.bind Ir.CapConstraint.token).toList.map fun token => ⟨.contract, token⟩

def guardianAddresses (set : Ir.GuardianSet) : List AddressField :=
  set.guardians.map fun address => ⟨.any, address⟩

def zkAddresses (zk : Ir.ZkFactor) : List AddressField :=
  [⟨.contract, zk.adapter⟩, ⟨.contract, zk.pool⟩]

def modeAddresses : Ir.RecoveryMode → List AddressField
  | .guardianOnly guardians => guardianAddresses guardians
  | .zkOnly zk => zkAddresses zk
  | .combined guardians zk => guardianAddresses guardians ++ zkAddresses zk

def recoveryAddresses (config : Ir.RecoveryConfig) : List AddressField :=
  ⟨.contract, config.controller⟩ :: modeAddresses config.mode

/-- Every address of a document: signers, rules, and recovery. -/
def docAddresses (doc : Ir.PolicyDoc) : List AddressField :=
  doc.signers.flatMap (fun decl => methodAddresses decl.method) ++
    doc.rules.flatMap ruleAddresses ++ doc.recovery.toList.flatMap recoveryAddresses

/-! ### Validation checks them all -/

section Validated

open Ir Compile

/-- Each of the addresses passes the check of its field. -/
def Shaped (fields : List AddressField) : Prop :=
  ∀ field ∈ fields, field.kind.shape field.text = true

theorem Shaped.append {first second : List AddressField} (left : Shaped first)
    (right : Shaped second) : Shaped (first ++ second) := by
  intro field member
  rcases List.mem_append.mp member with member | member
  · exact left field member
  · exact right field member

theorem shaped_singleton (kind : AddressKind) {text : String} {error : ValidationError}
    (silent : reportIf (kind.shape text = false) error = []) : Shaped [⟨kind, text⟩] := by
  rw [reportIf_eq_nil] at silent
  intro field member
  rw [List.mem_singleton] at member
  subst member
  simpa using silent

theorem validateMethod_shaped {hexDecode : String → Option Bytes} {seen : SeenSigners}
    {id : String} {method : SignerMethod} (silent : validateMethod hexDecode seen id method = []) :
    Shaped (methodAddresses method) := by
  cases method with
  | external verifier key =>
      rw [validateMethod, List.append_eq_nil_iff] at silent
      exact shaped_singleton .contract silent.2
  | delegated address =>
      rw [validateMethod, List.append_eq_nil_iff] at silent
      exact shaped_singleton .any silent.1

theorem validateSigners_shaped {hexDecode : String → Option Bytes} {position : Nat}
    {seen : SeenSigners} {signers : List SignerDecl}
    (silent : validateSigners hexDecode position seen signers = []) :
    Shaped (signers.flatMap fun decl => methodAddresses decl.method) := by
  induction signers generalizing position seen with
  | nil => simp [Shaped]
  | cons signer rest ih =>
      simp only [validateSigners, List.append_eq_nil_iff] at silent
      rw [List.flatMap_cons]
      exact (validateMethod_shaped silent.1.2).append (ih silent.2)

theorem validateRule_shaped {hexDecode : String → Option Bytes} {declared : List String}
    {rule : Rule} (silent : validateRule hexDecode declared rule = []) :
    Shaped (ruleAddresses rule) := by
  have preds := (validateRule_eq_nil silent).preds
  simp only [validateRule, List.append_eq_nil_iff] at silent
  obtain ⟨⟨⟨⟨⟨scope, principals⟩, _⟩, _⟩, _⟩, cap⟩ := silent
  have scopes : Shaped (scopeAddresses rule.scope) := by
    cases held : rule.scope with
    | contract address =>
        rw [held, validateScope] at scope
        exact shaped_singleton .contract scope
    | selfAdmin => simp [Shaped, scopeAddresses]
  have authenticated : Shaped (principalsAddresses rule.principals) := by
    cases held : rule.principals with
    | all signers => simp [Shaped, principalsAddresses]
    | threshold signers m => simp [Shaped, principalsAddresses]
    | selfAuthenticating policy params ack =>
        simp only [held, validatePrincipals, List.append_eq_nil_iff] at principals
        exact shaped_singleton .contract principals.1.2
  have argued : Shaped ((rule.args.getD []).flatMap fun constraint =>
      predAddresses constraint.pred) := by
    intro field member
    obtain ⟨constraint, listed, named⟩ := List.mem_flatMap.mp member
    cases held : rule.args with
    | none => simp [held] at listed
    | some constraints =>
        rw [held, Option.getD_some] at listed
        have silent := preds constraints held constraint listed
        cases pred : constraint.pred with
        | addressEq address =>
            rw [pred, validatePred] at silent
            rw [pred] at named
            exact shaped_singleton .any silent field named
        | isSelf => simp [pred, predAddresses] at named
        | stringIn values => simp [pred, predAddresses] at named
        | stringPrefix initial => simp [pred, predAddresses] at named
        | u32Eq value => simp [pred, predAddresses] at named
  have capped : Shaped ((rule.cap.bind CapConstraint.token).toList.map
      fun token => (⟨.contract, token⟩ : AddressField)) := by
    intro field member
    obtain ⟨token, listed, rfl⟩ := List.mem_map.mp member
    obtain ⟨bound, held, named⟩ := Option.bind_eq_some_iff.mp (Option.mem_toList.mp listed)
    rw [held, Option.map_some, Option.getD_some, validateCap, List.append_eq_nil_iff, named] at cap
    cases scope : rule.scope with
    | selfAdmin => simp [scope, validateCapScope] at cap
    | contract address =>
        rw [scope, validateCapScope] at cap
        change isContractAddressShape token = true
        by_contra malformed
        rw [Bool.not_eq_true] at malformed
        simp [malformed] at cap
  exact ((scopes.append authenticated).append argued).append capped

theorem validateGuardianSet_shaped {set : GuardianSet} (silent : validateGuardianSet set = []) :
    Shaped (guardianAddresses set) := by
  simp only [validateGuardianSet, List.append_eq_nil_iff] at silent
  obtain ⟨_, each⟩ := eachSeen_eq_nil (by simp [reportIf]) silent.1.2
  intro field member
  obtain ⟨address, listed, rfl⟩ := List.mem_map.mp member
  have quiet := List.append_eq_nil_iff.mp (each address listed).2
  exact shaped_singleton .any quiet.2 _ List.mem_cons_self

theorem validateZkFactor_shaped {zk : ZkFactor} (silent : validateZkFactor zk = []) :
    Shaped (zkAddresses zk) := by
  simp only [validateZkFactor, List.append_eq_nil_iff] at silent
  obtain ⟨⟨⟨⟨adapter, _⟩, pool⟩, _⟩, _⟩ := silent
  exact (shaped_singleton .contract adapter).append (shaped_singleton .contract pool)

theorem validateRecovery_shaped {declared : List String} {config : RecoveryConfig}
    (silent : validateRecovery declared config = []) : Shaped (recoveryAddresses config) := by
  simp only [validateRecovery, List.append_eq_nil_iff] at silent
  obtain ⟨⟨⟨_, controller⟩, _⟩, mode⟩ := silent
  apply Shaped.append (shaped_singleton .contract controller)
  cases held : config.mode with
  | guardianOnly guardians =>
      rw [held, validateMode] at mode
      exact validateGuardianSet_shaped mode
  | zkOnly zk =>
      rw [held, validateMode] at mode
      exact validateZkFactor_shaped mode
  | combined guardians zk =>
      rw [held, validateMode, List.append_eq_nil_iff] at mode
      exact (validateGuardianSet_shaped mode.1).append (validateZkFactor_shaped mode.2)

/-- Every address of a document that passes validation passed its check. -/
theorem violations_shaped {hexDecode : String → Option Bytes} {doc : PolicyDoc}
    (valid : violations hexDecode doc = []) : Shaped (docAddresses doc) := by
  obtain ⟨_, signers, rules, recovery⟩ := violations_eq_nil.mp valid
  have ruled : Shaped (doc.rules.flatMap ruleAddresses) := by
    intro field member
    obtain ⟨rule, listed, named⟩ := List.mem_flatMap.mp member
    exact validateRule_shaped ((validateRules_eq_nil rules).2 rule listed).2.2 field named
  have recovered : Shaped (doc.recovery.toList.flatMap recoveryAddresses) := by
    intro field member
    obtain ⟨config, listed, named⟩ := List.mem_flatMap.mp member
    exact validateRecovery_shaped (recovery config (Option.mem_toList.mp listed)).1 field named
  exact ((validateSigners_shaped signers).append ruled).append recovered

end Validated

/-! ### Lowering does not trap -/

section Lowered

open Ir Compile

def Decoded (addressFromStr : String → Option Address) (fields : List AddressField) : Prop :=
  ∀ field ∈ fields, addressFromStr field.text ≠ none

variable {host : LowerHost} {doc : PolicyDoc}

theorem symbolNew_avoids {name : String} (valid : isValidSymbol name = true) :
    Avoids (· = LowerError.trapped) (symbolNew name) := by
  simp only [isValidSymbol, Bool.and_eq_true, decide_eq_true_eq] at valid
  rw [symbolNew, if_pos ⟨valid.1.2, valid.2⟩]
  exact Avoids.ok name

theorem lowerArgPred_avoids {constraint : ArgConstraint}
    (decoded : Decoded host.addressFromStr (predAddresses constraint.pred)) :
    Avoids (· = LowerError.trapped) (lowerArgPred host constraint) := by
  unfold lowerArgPred
  cases held : constraint.pred with
  | addressEq address =>
      apply Avoids.bind
      · apply Avoids.orFail
        intro missing
        rw [held] at decoded
        exact absurd missing (decoded _ List.mem_cons_self)
      · intro value _
        exact Avoids.ok _
  | isSelf => exact Avoids.ok _
  | stringIn values => exact Avoids.ok _
  | stringPrefix initial => exact Avoids.ok _
  | u32Eq value => exact Avoids.ok _

theorem buildProgram_avoids {rule : Rule} {least : UInt32}
    (functions : ∀ names, rule.functions = some names → ∀ name ∈ names, isValidSymbol name = true)
    (decoded : Decoded host.addressFromStr (ruleAddresses rule)) :
    Avoids (· = LowerError.trapped) (buildProgram host rule least) := by
  rw [buildProgram_eq]
  apply Avoids.bind
  · unfold functionLeaves
    cases held : rule.functions with
    | none => exact Avoids.ok _
    | some names =>
        apply Avoids.bind
        · exact Avoids.mapM fun name member => symbolNew_avoids (functions names held name member)
        · intro symbols _
          exact Avoids.ok _
  · intro leaves _
    apply Avoids.bind
    · unfold argLeaves
      cases held : rule.args with
      | none => exact Avoids.ok _
      | some constraints =>
          apply Avoids.mapM
          intro constraint member
          apply lowerArgPred_avoids
          intro field named
          apply decoded
          simp only [ruleAddresses, held, Option.getD_some, List.mem_append, List.mem_flatMap]
          exact Or.inl (Or.inr ⟨constraint, member, named⟩)
    · intro args _
      apply Avoids.bind
      · exact Avoids.mapError fun _ raised => by cases raised
      · intro _ _
        exact Avoids.ok _

theorem validateRule_functions {hexDecode : String → Option Bytes} {declared : List String}
    {rule : Rule} (silent : validateRule hexDecode declared rule = []) :
    ∀ names, rule.functions = some names → ∀ name ∈ names, isValidSymbol name = true := by
  simp only [validateRule, List.append_eq_nil_iff] at silent
  obtain ⟨⟨⟨⟨_, functions⟩, _⟩, _⟩, _⟩ := silent
  intro names held name member
  rw [held, Option.map_some, Option.getD_some, validateFunctions, List.append_eq_nil_iff]
    at functions
  obtain ⟨_, each⟩ := eachSeen_eq_nil (by simp [reportIf]) functions.2
  have quiet := (List.append_eq_nil_iff.mp (each name member).2).1
  split at quiet
  · cases quiet
  · rw [reportIf_eq_nil] at quiet
    simpa using quiet

theorem lowerCap_avoids {rule : String} (cap : Option CapConstraint) :
    Avoids (· = LowerError.trapped) (cap.mapM (lowerCap rule)) := by
  cases cap with
  | none => exact Avoids.pure none
  | some cap =>
      rw [Option.mapM_some, lowerCap]
      cases parseI128 cap.limit with
      | none =>
          intro failure raised trapped
          cases raised
          cases trapped
      | some limit => exact Avoids.ok _

theorem lowerRule_avoids {hexDecode : String → Option Bytes} {declared : List String} {rule : Rule}
    (valid : validateRule hexDecode declared rule = [])
    (decoded : Decoded host.addressFromStr (ruleAddresses rule)) :
    Avoids (· = LowerError.trapped) (lowerRule host doc rule) := by
  have live := (validateRule_eq_nil valid).live
  unfold lowerRule
  apply Avoids.bind
  · unfold quorum
    cases rule.principals with
    | all signers => exact Avoids.ok _
    | threshold signers m => exact Avoids.ok _
    | selfAuthenticating policy params ack =>
        intro failure raised trapped
        cases raised
        cases trapped
  · rintro ⟨ids, least⟩ _
    apply Avoids.bind
    · apply Avoids.mapM
      intro id _
      unfold resolveSigner
      intro failure raised trapped
      split at raised
      · cases raised
        cases trapped
      · split at raised <;> cases raised
    · intro signers _
      apply Avoids.bind
      · exact lowerCap_avoids rule.cap
      · intro cap _
        apply Avoids.bind
        · apply Avoids.ite
          · intro _
            exact Avoids.ok _
          · intro _
            apply Avoids.bind (buildProgram_avoids (validateRule_functions valid) decoded)
            intro program _
            exact Avoids.ok _
        · intro install _
          apply Avoids.bind
          · unfold lastLedger
            split
            · exact Avoids.ok _
            next first held =>
              apply Avoids.ite
              · intro zero
                exact absurd (zero ▸ held) live
              · intro _
                exact Avoids.ok _
          · intro last _
            exact Avoids.ok _

theorem compile_avoids (host : LowerHost) {hexDecode : String → Option Bytes}
    (valid : violations hexDecode doc = [])
    (decoded : Decoded host.addressFromStr (docAddresses doc)) (wasmHash : Bytes32) :
    Avoids (· = LowerError.trapped) (Compile.compile host doc wasmHash) := by
  obtain ⟨_, _, rules, _⟩ := violations_eq_nil.mp valid
  apply Avoids.bind
  · apply Avoids.mapM
    intro rule member
    apply lowerRule_avoids ((validateRules_eq_nil rules).2 rule member).2.2
    intro field named
    apply decoded
    simp only [docAddresses, List.mem_append, List.mem_flatMap]
    exact Or.inl (Or.inr ⟨rule, member, named⟩)
  · intro plan _
    exact Avoids.ok _

end Lowered

/-! ### Compiling does not trap -/

section Compiled

variable {host : CompilerHost} {doc : Ir.PolicyDoc}

theorem addressFromStr_avoids {text : String} (decoded : host.addressFromStr text ≠ none) :
    Avoids (· = DocFailure.trapped) (addressFromStr host text) :=
  Avoids.orFail fun missing => absurd missing decoded

theorem hexBytes_avoids (text : String) : Avoids (· = DocFailure.trapped) (hexBytes text) :=
  Avoids.orFail fun _ raised => by cases raised

theorem hexBytes32_avoids (text : String) : Avoids (· = DocFailure.trapped) (hexBytes32 text) := by
  apply Avoids.bind
  · exact Avoids.require fun _ raised => by cases raised
  · intro _ _
    apply Avoids.bind (hexBytes_avoids text)
    intro bytes _
    split
    · exact Avoids.ok _
    · intro failure raised trapped
      cases raised
      cases trapped

theorem toSigner_avoids {method : Ir.SignerMethod}
    (decoded : Decoded host.addressFromStr (methodAddresses method)) :
    Avoids (· = DocFailure.trapped) (toSigner host (Compile.signerSpec method)) := by
  cases method with
  | external verifier key =>
      apply Avoids.bind (addressFromStr_avoids (decoded _ List.mem_cons_self))
      intro _ _
      apply Avoids.bind (hexBytes_avoids key)
      intro _ _
      exact Avoids.pure _
  | delegated address =>
      apply Avoids.bind (addressFromStr_avoids (decoded _ List.mem_cons_self))
      intro _ _
      exact Avoids.pure _

theorem toRuleScope_avoids {scope : Ir.Scope}
    (decoded : Decoded host.addressFromStr (scopeAddresses scope)) :
    Avoids (· = DocFailure.trapped) (toRuleScope host (Compile.lowerScope scope)) := by
  cases scope with
  | selfAdmin => exact Avoids.pure _
  | contract address =>
      apply Avoids.bind (addressFromStr_avoids (decoded _ List.mem_cons_self))
      intro _ _
      exact Avoids.pure _

theorem toCompiled_avoids {rule : Ir.Rule} {lowered : Compile.LoweredRule}
    (member : rule ∈ doc.rules)
    (lowers : Compile.lowerRule host.lowerHost doc rule = .ok lowered)
    (decoded : Decoded host.addressFromStr (docAddresses doc)) :
    Avoids (· = DocFailure.trapped) (toCompiled host lowered) := by
  obtain ⟨ids, least, parts⟩ := Compile.lowerRule_eq_ok lowers
  apply Avoids.bind
  · rw [parts.scope]
    apply toRuleScope_avoids
    intro field named
    apply decoded
    simp only [docAddresses, ruleAddresses, List.mem_append, List.mem_flatMap]
    exact Or.inl (Or.inr ⟨rule, member, Or.inl (Or.inl (Or.inl named))⟩)
  · intro scope _
    apply Avoids.bind
    · apply Avoids.mapM
      intro spec listed
      obtain ⟨id, _, resolves⟩ := exists_of_mem_left (mapM_eq_ok parts.signers).flip listed
      obtain ⟨decl, declared, _, rfl⟩ := Compile.resolveSigner_eq_ok resolves
      apply toSigner_avoids
      intro field named
      apply decoded
      simp only [docAddresses, List.mem_append, List.mem_flatMap]
      exact Or.inl (Or.inl ⟨decl, declared, named⟩)
    · intro signers _
      exact Avoids.pure _

theorem toCompiledGuardianSet_avoids {set : Ir.GuardianSet}
    (decoded : Decoded host.addressFromStr (guardianAddresses set)) :
    Avoids (· = DocFailure.trapped) (toCompiledGuardianSet host set) := by
  apply Avoids.bind
  · apply Avoids.mapM
    intro address member
    exact addressFromStr_avoids (decoded ⟨.any, address⟩ (List.mem_map_of_mem member))
  · intro _ _
    exact Avoids.pure _

theorem toCompiledZk_avoids {zk : Ir.ZkFactor}
    (decoded : Decoded host.addressFromStr (zkAddresses zk)) :
    Avoids (· = DocFailure.trapped) (toCompiledZk host zk) := by
  apply Avoids.bind
    (addressFromStr_avoids (decoded ⟨.contract, zk.adapter⟩ (by simp [zkAddresses])))
  intro _ _
  apply Avoids.bind (hexBytes32_avoids _)
  intro _ _
  apply Avoids.bind (addressFromStr_avoids (decoded ⟨.contract, zk.pool⟩ (by simp [zkAddresses])))
  intro _ _
  apply Avoids.bind (hexBytes32_avoids _)
  intro _ _
  apply Avoids.bind (hexBytes32_avoids _)
  intro _ _
  exact Avoids.pure _

theorem toCompiledMode_avoids {mode : Ir.RecoveryMode}
    (decoded : Decoded host.addressFromStr (modeAddresses mode)) :
    Avoids (· = DocFailure.trapped) (toCompiledMode host mode) := by
  cases mode with
  | guardianOnly guardians =>
      apply Avoids.bind (toCompiledGuardianSet_avoids decoded)
      intro _ _
      exact Avoids.pure _
  | zkOnly zk =>
      apply Avoids.bind (toCompiledZk_avoids decoded)
      intro _ _
      exact Avoids.pure _
  | combined guardians zk =>
      apply Avoids.bind (toCompiledGuardianSet_avoids fun field member =>
        decoded field (List.mem_append_left _ member))
      intro _ _
      apply Avoids.bind (toCompiledZk_avoids fun field member =>
        decoded field (List.mem_append_right _ member))
      intro _ _
      exact Avoids.pure _

theorem toCompiledRecovery_avoids {config : Ir.RecoveryConfig}
    (decoded : Decoded host.addressFromStr (recoveryAddresses config)) :
    Avoids (· = DocFailure.trapped) (toCompiledRecovery host config) := by
  apply Avoids.bind (toCompiledMode_avoids fun field member =>
    decoded field (List.mem_cons_of_mem _ member))
  intro _ _
  apply Avoids.bind
  · cases config.baseline with
    | none => exact Avoids.pure none
    | some baseline =>
        rw [Option.mapM_some]
        apply Avoids.bind (hexBytes32_avoids _)
        intro _ _
        exact Avoids.pure _
  · intro _ _
    apply Avoids.bind (addressFromStr_avoids (decoded ⟨.contract, config.controller⟩
      List.mem_cons_self))
    intro _ _
    exact Avoids.pure _

theorem canonicalCredentials_avoids {signers : List Ir.SignerDecl}
    (decoded : Decoded host.addressFromStr
      (signers.flatMap fun decl => methodAddresses decl.method)) :
    Avoids (· = DocFailure.trapped) (canonicalCredentials host signers) := by
  apply Avoids.bind
  · apply Avoids.foldlM
    intro batches decl member
    have named (field : AddressField) (held : field ∈ methodAddresses decl.method) :=
      decoded field (List.mem_flatMap.mpr ⟨decl, member, held⟩)
    unfold Batches.add
    split
    next address method =>
      rw [method] at named
      apply Avoids.bind (addressFromStr_avoids (named _ List.mem_cons_self))
      intro _ _
      exact Avoids.pure _
    next verifier key method =>
      rw [method] at named
      apply Avoids.bind (addressFromStr_avoids (named _ List.mem_cons_self))
      intro _ _
      apply Avoids.bind (hexBytes_avoids key)
      intro _ _
      exact Avoids.pure _
  · intro batches _
    apply Avoids.bind
    · apply Avoids.forM
      intro verifier _
      apply Avoids.bind
      · exact Avoids.orFail fun _ raised => by cases raised
      · intro _ _
        exact Avoids.require fun _ raised => by cases raised
    · intro _ _
      apply Avoids.mapM
      rintro ⟨verifier, position⟩ _
      cases position with
      | none => exact Avoids.pure _
      | some position =>
          apply Avoids.bind
          · exact Avoids.orFail fun _ raised => by cases raised
          · intro _ _
            exact Avoids.pure _

/-- A valid document whose addresses decode compiles or is refused. -/
theorem compileParsed_avoids (valid : Ir.violations host.hexDecode doc = [])
    (decoded : Decoded host.addressFromStr (docAddresses doc)) :
    Avoids (· = DocFailure.trapped) (compileParsed host doc) := by
  unfold compileParsed
  apply Avoids.bind
  · exact Avoids.mapError fun _ raised => by cases raised
  intro _ _
  apply Avoids.bind
  · exact Avoids.orFail fun _ raised => by cases raised
  intro network _
  apply Avoids.bind
  · exact Avoids.require fun _ raised => by cases raised
  intro _ _
  apply Avoids.bind
  · exact Avoids.require fun _ raised => by cases raised
  intro _ _
  apply Avoids.bind
  · apply Avoids.renamed
    intro failure raised trapped
    apply compile_avoids host.lowerHost valid decoded unpinned failure raised
    cases failure <;> first | rfl | cases trapped
  intro plan compiled
  apply Avoids.bind
  · apply Avoids.mapM
    intro lowered member
    simp only [Compile.compile, mapError_eq_ok, bind_eq_ok, Except.ok.injEq] at compiled
    obtain ⟨rules, mapped, rfl⟩ := compiled
    obtain ⟨rule, listed, lowers⟩ := exists_of_mem_left (mapM_eq_ok mapped).flip member
    exact toCompiled_avoids listed lowers decoded
  intro rules _
  apply Avoids.bind
  · exact Avoids.require fun _ raised => by cases raised
  intro _ _
  apply Avoids.bind
  · apply Avoids.mapM
    intro config listed
    apply toCompiledRecovery_avoids
    intro field named
    apply decoded
    simp only [docAddresses, List.mem_append, List.mem_flatMap]
    exact Or.inr ⟨config, listed, named⟩
  intro recovery _
  apply Avoids.bind
  · apply canonicalCredentials_avoids
    intro field named
    apply decoded
    exact List.mem_append_left _ (List.mem_append_left _ named)
  intro credentials _
  apply Avoids.bind
  · apply Avoids.mapM
    intro credential _
    exact Avoids.mapError fun _ raised => by cases raised
  intro prints _
  exact Avoids.pure _

end Compiled

/-! ### The check and the conversion together -/

/-- What the checks promise about a document's addresses. -/
structure AddressesSettled (host : CompilerHost) (doc : Ir.PolicyDoc) : Prop where
  /-- Those of an accepted document decode, and compiling it never traps. -/
  accepted : Ir.validate host.hexDecode doc = .ok () →
    Decoded host.addressFromStr (docAddresses doc) ∧
      (∀ wasmHash, Compile.compile host.lowerHost doc wasmHash ≠ .error .trapped) ∧
      ∀ docJson, parse host docJson = .ok doc → compileDoc host docJson ≠ .error .trapped
  /-- One that is not a strkey its field may hold is a typed refusal. -/
  reported : ∀ field ∈ docAddresses doc, ¬field.kind.Strkey field.text →
    ∀ docJson, parse host docJson = .ok doc →
      compileDoc host docJson = .error (.refused .docInvalid)

theorem compileDoc_invalid {host : CompilerHost} {docJson : Bytes} {doc : Ir.PolicyDoc}
    (parsed : parse host docJson = .ok doc) (invalid : Ir.violations host.hexDecode doc ≠ []) :
    compileDoc host docJson = .error (.refused .docInvalid) := by
  rw [compileDoc, parsed, ok_bind, compileParsed, Ir.validate, if_neg invalid]
  rfl

theorem decoded_iff {host : CompilerHost} (decodes : DecodesStrkeys host.addressFromStr)
    {field : AddressField} (shaped : field.kind.shape field.text = true) :
    host.addressFromStr field.text ≠ none ↔ ¬field.kind.Stray field.text := by
  rw [decodes field.text, ← AddressKind.shape_exact_iff]
  constructor
  · rintro ⟨version, listed, spelled⟩
    refine ⟨fun _ => ⟨version, ?_, spelled⟩, fun _ => shaped⟩
    obtain ⟨other, lead, spelled'⟩ := AddressKind.shape_iff.mp shaped
    rw [← spelled.version_unique spelled'] at lead
    cases kind : field.kind with
    | any => exact listed
    | contract =>
        rw [kind] at lead
        simp only [AddressKind.versions, List.mem_cons, List.not_mem_nil, or_false] at listed ⊢
        rcases listed with rfl | rfl
        · rfl
        · exact absurd lead (by decide)
  · intro right
    obtain ⟨version, listed, spelled⟩ := right.mp shaped
    refine ⟨version, ?_, spelled⟩
    cases kind : field.kind with
    | any => exact kind ▸ listed
    | contract =>
        rw [kind] at listed
        exact List.mem_cons.mpr (Or.inl (List.mem_singleton.mp listed))

/-- The address checks are exact, and every document's addresses are settled,
but for texts whose checksummed version byte is 17 to 23 or 49 to 55. -/
theorem validated_addresses_decode (host : CompilerHost)
    (decodes : DecodesStrkeys host.addressFromStr) :
    (∀ text, (Ir.isContractAddressShape text = true ↔ IsStrkey contractVersion text) ↔
      ¬∃ version, (16 < version ∧ version < 24) ∧ IsStrkey version text) ∧
    (∀ text, (Ir.isAddressShape text = true ↔
        IsStrkey contractVersion text ∨ IsStrkey accountVersion text) ↔
      ¬∃ version, ((16 < version ∧ version < 24) ∨ (48 < version ∧ version < 56)) ∧
        IsStrkey version text) ∧
    ∀ doc, AddressesSettled host doc ↔
      (Ir.validate host.hexDecode doc = .ok () →
        ∀ field ∈ docAddresses doc, ¬field.kind.Stray field.text) := by
  refine ⟨?_, ?_, ?_⟩
  · intro text
    have strkey : AddressKind.contract.Strkey text ↔ IsStrkey contractVersion text := by
      simp [AddressKind.Strkey, AddressKind.versions]
    rw [← strkey]
    exact @AddressKind.shape_exact_iff .contract text
  · intro text
    have strkey : AddressKind.any.Strkey text ↔
        IsStrkey contractVersion text ∨ IsStrkey accountVersion text := by
      simp [AddressKind.Strkey, AddressKind.versions]
    rw [← strkey]
    exact @AddressKind.shape_exact_iff .any text
  · intro doc
    constructor
    · intro settled valid field member
      have shaped := violations_shaped (validate_eq_ok.mp valid) field member
      exact (decoded_iff decodes shaped).mp ((settled.accepted valid).1 field member)
    · intro clean
      have decoded (valid : Ir.violations host.hexDecode doc = []) :
          Decoded host.addressFromStr (docAddresses doc) := by
        intro field member
        apply (decoded_iff decodes (violations_shaped valid field member)).mpr
        exact clean (validate_eq_ok.mpr valid) field member
      constructor
      · intro valid
        have silent := validate_eq_ok.mp valid
        refine ⟨decoded silent, ?_, ?_⟩
        · intro wasmHash trapped
          have avoids := compile_avoids host.lowerHost silent (decoded silent) wasmHash
          exact avoids _ trapped rfl
        · intro docJson parsed trapped
          rw [compileDoc, parsed, ok_bind] at trapped
          exact compileParsed_avoids silent (decoded silent) _ trapped rfl
      · intro field member malformed docJson parsed
        apply compileDoc_invalid parsed
        intro silent
        apply malformed
        have shaped := violations_shaped silent field member
        exact (AddressKind.shape_exact_iff.mpr
          (clean (validate_eq_ok.mpr silent) field member)).mp shaped

/-! ### Two documents -/

def accountOne : String := "GAAQCAIBAEAQCAIBAEAQCAIBAEAQCAIBAEAQCAIBAEAQCAIBAEAQDZ7H"

def contractSeven : String := "CADQOBYHA4DQOBYHA4DQOBYHA4DQOBYHA4DQOBYHA4DQOBYHA4DQP5KR"

def strayContract : String := "CEDQOBYHA4DQOBYHA4DQOBYHA4DQOBYHA4DQOBYHA4DQOBYHA4DQOKO4"

def scopedDoc (contract : String) : Ir.PolicyDoc where
  version := 1
  network := some "T"
  signers := [{ id := "a", method := .delegated accountOne }]
  rules :=
    [{ name := "pay", scope := .contract contract, principals := .all ["a"]
       functions := none, args := none, notAfterLedger := none, cap := none }]
  recovery := none

set_option maxRecDepth 16384 in
theorem accountOne_isStrkey : IsStrkey accountVersion accountOne :=
  ⟨List.replicate 32 1, by decide, by decide⟩

set_option maxRecDepth 16384 in
theorem contractSeven_isStrkey : IsStrkey contractVersion contractSeven :=
  ⟨List.replicate 32 7, by decide, by decide⟩

set_option maxRecDepth 16384 in
theorem strayContract_isStrkey : IsStrkey 17 strayContract :=
  ⟨List.replicate 32 7, by decide, by decide⟩

theorem IsStrkey.not_stray {kind : AddressKind} {version : UInt8} {text : String}
    (spelled : IsStrkey version text) (proper : ¬kind.strayVersion version) :
    ¬kind.Stray text := by
  rintro ⟨other, stray, spelled'⟩
  exact proper (spelled.version_unique spelled' ▸ stray)

theorem validated_addresses_decode_scoped :
    AddressesSettled (localHost "T") (scopedDoc contractSeven) := by
  have exactly := (validated_addresses_decode (localHost "T") localAddressFromStr_decodes).2.2
    (scopedDoc contractSeven)
  apply exactly.mpr
  intro _ field member
  have two : field = ⟨.any, accountOne⟩ ∨ field = ⟨.contract, contractSeven⟩ := by
    simpa [docAddresses, scopedDoc, methodAddresses, ruleAddresses, scopeAddresses,
      principalsAddresses] using member
  rcases two with rfl | rfl
  · exact accountOne_isStrkey.not_stray (by simp [AddressKind.strayVersion, accountVersion])
  · exact contractSeven_isStrkey.not_stray (by simp [AddressKind.strayVersion, contractVersion])

set_option maxRecDepth 16384 in
/-- The check takes a text that is no contract's strkey, the document that
scopes a rule to it is valid, and compiling that document traps. -/
theorem stray_contract_traps :
    (Ir.isContractAddressShape strayContract = true ∧ ¬IsStrkey contractVersion strayContract) ∧
      Ir.validate (localHost "T").hexDecode (scopedDoc strayContract) = .ok () ∧
      compileDoc (localHost "T") (Ir.utf8 (Ir.canonicalJson (scopedDoc strayContract))) =
        .error .trapped := by
  refine ⟨⟨by decide, ?_⟩, by decide, ?_⟩
  · intro contract
    exact absurd (contract.version_unique strayContract_isStrkey) (by decide)
  · rw [compileDoc_of_doc Ir.jsonReader_conforms rfl]
    decide

end Perch.Document
