/-
Isolation of the accounts a controller serves.

A call reads and writes only the entries of the account it names: it commutes
with exchanging everybody else's entries.  That one fact says both that a call
leaves the other accounts alone and that what an account sees of a run depends
only on the calls that name it.
-/

import Perch.Recovery.Completion

namespace Perch.Recovery

open Machine Document

structure SameEntries (account : Address) (s s' : Storage) : Prop where
  config : s'.config account = s.config account
  epoch : s'.epoch account = s.epoch account
  nextAttempt : s'.nextAttempt account = s.nextAttempt account
  invalidateBelow : s'.invalidateBelow account = s.invalidateBelow account
  authorized : s'.authorized account = s.authorized account
  cancels : s'.cancels account = s.cancels account
  attempt : ∀ id, s'.attempt (account, id) = s.attempt (account, id)
  collecting : ∀ id, s'.collecting (account, id) = s.collecting (account, id)
  completing : s'.completing account = s.completing account
  nullifier : ∀ n, s'.nullifier (account, n) = s.nullifier (account, n)
  approval : ∀ digest, s'.approval (account, digest) = s.approval (account, digest)
  baseline : ∀ hash, s'.baseline (account, hash) = s.baseline (account, hash)

theorem SameEntries.refl (account : Address) (s : Storage) : SameEntries account s s := by
  constructor <;> intros <;> rfl

section Equivalence

variable {account : Address} {s s' s'' : Storage}

theorem SameEntries.symm (same : SameEntries account s s') : SameEntries account s' s where
  config := same.config.symm
  epoch := same.epoch.symm
  nextAttempt := same.nextAttempt.symm
  invalidateBelow := same.invalidateBelow.symm
  authorized := same.authorized.symm
  cancels := same.cancels.symm
  attempt id := (same.attempt id).symm
  collecting id := (same.collecting id).symm
  completing := same.completing.symm
  nullifier n := (same.nullifier n).symm
  approval digest := (same.approval digest).symm
  baseline hash := (same.baseline hash).symm

theorem SameEntries.trans (first : SameEntries account s s') (second : SameEntries account s' s'') :
    SameEntries account s s'' where
  config := second.config.trans first.config
  epoch := second.epoch.trans first.epoch
  nextAttempt := second.nextAttempt.trans first.nextAttempt
  invalidateBelow := second.invalidateBelow.trans first.invalidateBelow
  authorized := second.authorized.trans first.authorized
  cancels := second.cancels.trans first.cancels
  attempt id := (second.attempt id).trans (first.attempt id)
  collecting id := (second.collecting id).trans (first.collecting id)
  completing := second.completing.trans first.completing
  nullifier n := (second.nullifier n).trans (first.nullifier n)
  approval digest := (second.approval digest).trans (first.approval digest)
  baseline hash := (second.baseline hash).trans (first.baseline hash)

end Equivalence

/-! ### Exchanging the other accounts' entries -/

section Exchange

variable {β κ : Type} (account : Address)

/-- The account's entries of one map, and everybody else's of another. -/
def own (mine others : Address → β) (key : Address) : β :=
  if key = account then mine key else others key

def ownKeyed (mine others : Address × κ → β) (key : Address × κ) : β :=
  if key.1 = account then mine key else others key

@[simp] theorem own_self (mine others : Address → β) :
    own account mine others account = mine account := if_pos rfl

@[simp] theorem ownKeyed_self (mine others : Address × κ → β) (key : κ) :
    ownKeyed account mine others (account, key) = mine (account, key) := if_pos rfl

theorem update_own (mine others : Address → β) (value : β) :
    Function.update (own account mine others) account value =
      own account (Function.update mine account value) others := by
  funext key
  by_cases same : key = account <;> simp [own, same]

theorem update_ownKeyed [DecidableEq κ] (mine others : Address × κ → β) (key : κ) (value : β) :
    Function.update (ownKeyed account mine others) (account, key) value =
      ownKeyed account (Function.update mine (account, key) value) others := by
  funext ⟨named, other⟩
  by_cases same : named = account
  · by_cases hit : other = key <;> simp [ownKeyed, same, hit]
  · simp [ownKeyed, same]

end Exchange

/-- The account's entries of one storage, and everybody else's of another. -/
def Storage.among (s : Storage) (account : Address) (others : Storage) : Storage where
  config := own account s.config others.config
  epoch := own account s.epoch others.epoch
  nextAttempt := own account s.nextAttempt others.nextAttempt
  invalidateBelow := own account s.invalidateBelow others.invalidateBelow
  authorized := own account s.authorized others.authorized
  cancels := own account s.cancels others.cancels
  attempt := ownKeyed account s.attempt others.attempt
  collecting := ownKeyed account s.collecting others.collecting
  completing := own account s.completing others.completing
  nullifier := ownKeyed account s.nullifier others.nullifier
  approval := ownKeyed account s.approval others.approval
  baseline := ownKeyed account s.baseline others.baseline

theorem Storage.among_of_same {account : Address} {s s' : Storage}
    (same : SameEntries account s s') : s.among account s' = s' := by
  have one : ∀ {β : Type} {mine others : Address → β}, others account = mine account →
      own account mine others = others := by
    intro β mine others equal
    funext key
    by_cases hit : key = account <;> simp [own, hit, equal]
  have keyed : ∀ {β κ : Type} {mine others : Address × κ → β},
      (∀ key, others (account, key) = mine (account, key)) →
      ownKeyed account mine others = others := by
    rintro β κ mine others equal
    funext ⟨named, key⟩
    by_cases hit : named = account
    · subst hit
      simp [equal]
    · simp [ownKeyed, hit]
  simp only [Storage.among, one same.config, one same.epoch, one same.nextAttempt,
    one same.invalidateBelow, one same.authorized, one same.cancels, keyed same.attempt,
    keyed same.collecting, one same.completing, keyed same.nullifier, keyed same.approval,
    keyed same.baseline]

theorem Storage.among_self (account : Address) (s others : Storage) :
    SameEntries account s (s.among account others) := by
  constructor <;> simp [Storage.among]

theorem Storage.among_other {account other : Address} (s others : Storage)
    (distinct : other ≠ account) : SameEntries other others (s.among account others) := by
  constructor <;> simp [Storage.among, own, ownKeyed, distinct]

/-! ### Reads -/

section Local

variable (d : Deployment) (e : Env) (s others : Storage) (account : Address)

theorem epochOf_among : epochOf (s.among account others) account = epochOf s account := by
  simp [epochOf, Storage.among]

theorem nextAttemptOf_among :
    nextAttemptOf (s.among account others) account = nextAttemptOf s account := by
  simp [nextAttemptOf, Storage.among]

theorem requireConfig_among :
    requireConfig (s.among account others) account = requireConfig s account := by
  simp [requireConfig, Storage.among]

theorem load_among (now : UInt32) (id : UInt64) :
    load now (s.among account others) account id = load now s account id := by
  simp [load, Storage.among]

theorem isLive_among (now : UInt32) (a : Attempt) :
    isLive now (s.among account others) account a = isLive now s account a := by
  have below : invalidateBelowOf (s.among account others) account =
      invalidateBelowOf s account := by
    simp [invalidateBelowOf, Storage.among]
  have pointer : (s.among account others).authorized account = s.authorized account := by
    simp [Storage.among]
  simp only [isLive, epochOf_among, below, pointer]

theorem loadLive_among (now : UInt32) (id : UInt64) :
    loadLive now (s.among account others) account id = loadLive now s account id := by
  simp only [loadLive, load_among, isLive_among]

theorem authorizedLive_among (now : UInt32) :
    authorizedLive now (s.among account others) account = authorizedLive now s account := by
  have pointer : (s.among account others).authorized account = s.authorized account := by
    simp [Storage.among]
  have record : ∀ id, (s.among account others).attempt (account, id) = s.attempt (account, id) := by
    simp [Storage.among]
  simp only [authorizedLive, pointer, record, isLive_among]

theorem changeStatementFor_among (config : CompiledRecoveryConfig) (subject : StatementSubject)
    (validUntil : UInt32) :
    changeStatementFor d (s.among account others) account config subject validUntil =
      changeStatementFor d s account config subject validUntil := by
  simp only [changeStatementFor, epochOf_among]

theorem requireCondition_among (config : CompiledRecoveryConfig) (subject : StatementSubject)
    (validUntil : UInt32) :
    requireCondition d e (s.among account others) account config subject validUntil =
      requireCondition d e s account config subject validUntil := by
  have stored : ∀ digest, (s.among account others).approval (account, digest) =
      s.approval (account, digest) := by
    simp [Storage.among]
  simp only [requireCondition, changeStatementFor_among, stored]

theorem verifyZk_among (factor : CompiledZkFactor) (asked : RecoveryStatement)
    (evidence : ZkEvidence) :
    verifyZk e (s.among account others) account factor asked evidence =
      verifyZk e s account factor asked evidence := by
  simp [verifyZk, Storage.among]

theorem sourceOf_among (config : CompiledRecoveryConfig) (view : AccountView) (current : Bytes)
    (action : RecoveryAction) :
    sourceOf (s.among account others) account config view current action =
      sourceOf s account config view current action := by
  cases action <;> simp [sourceOf, Storage.among]

theorem changeEvidence_among (digest : Bytes32) :
    changeEvidence (s.among account others) account digest = changeEvidence s account digest := by
  simp [changeEvidence, Storage.among]

/-! ### Writes -/

theorem save_among (a : Attempt) :
    save e (s.among account others) account a = (save e s account a).among account others := by
  have place : savesPersistently e (s.among account others) account a =
      savesPersistently e s account a := by
    simp [savesPersistently, Storage.among]
  unfold save
  rw [place]
  by_cases persistent : savesPersistently e s account a = true
  · simp only [if_pos persistent, Storage.among, update_ownKeyed]
  · simp only [if_neg persistent, Storage.among, update_ownKeyed, ownKeyed_self]

theorem setAuthorized_among (pointer : Option UInt64) :
    ({ s.among account others with
      authorized := Function.update (s.among account others).authorized account pointer } :
        Storage) =
      ({ s with authorized := Function.update s.authorized account pointer } : Storage).among
        account others := by
  simp only [Storage.among, update_own]

theorem removeCompleting_among :
    removeCompleting (s.among account others) account =
      (removeCompleting s account).among account others := by
  simp only [removeCompleting, Storage.among, update_own]

theorem storeApproval_among (digest : Bytes32) (approval : ChangeApproval) :
    storeApproval (s.among account others) account digest approval =
      (storeApproval s account digest approval).among account others := by
  simp only [storeApproval, Storage.among, update_ownKeyed]

theorem bumpEpoch_among :
    bumpEpoch (s.among account others) account =
      (bumpEpoch s account).map fun r => (r.1, r.2.among account others) := by
  unfold bumpEpoch
  rw [epochOf_among]
  refine bind_eq_map fun next _ => ?_
  simp only [Storage.among, update_own]
  rfl

theorem storeConfig_among (config : CompiledRecoveryConfig) :
    storeConfig (s.among account others) account config =
      (storeConfig s account config).map (·.among account others) := by
  have wrote : ({ s.among account others with
      config := Function.update (s.among account others).config account (some config) } :
        Storage) =
      ({ s with config := Function.update s.config account (some config) } : Storage).among
        account others := by
    simp only [Storage.among, update_own]
  unfold storeConfig
  rw [wrote]
  exact bind_eq_map_of_head (bumpEpoch_among _ _ _) fun _ => rfl

theorem removeConfig_among :
    removeConfig (s.among account others) account =
      (removeConfig s account).map (·.among account others) := by
  have wrote : ({ s.among account others with
      config := Function.update (s.among account others).config account none
      authorized := Function.update (s.among account others).authorized account none } :
        Storage) =
      ({ s with
        config := Function.update s.config account none
        authorized := Function.update s.authorized account none } : Storage).among
        account others := by
    simp only [Storage.among, update_own]
  unfold removeConfig
  simp only [wrote]
  exact bind_eq_map_of_head (bumpEpoch_among _ _ _) fun _ => rfl

/-! ### Transitions -/

theorem beginAttempt_among (action : RecoveryAction) (replacements : ReplacementSet) :
    beginAttempt d e (s.among account others) account action replacements =
      (beginAttempt d e s account action replacements).map
        fun r => (r.1, r.2.among account others) := by
  have wrote : ∀ next : UInt64, ({ s.among account others with
      nextAttempt := Function.update (s.among account others).nextAttempt account (some next) } :
        Storage) =
      ({ s with nextAttempt := Function.update s.nextAttempt account (some next) } :
        Storage).among account others := by
    intro next
    simp only [Storage.among, update_own]
  simp only [beginAttempt, requireConfig_among, authorizedLive_among, sourceOf_among,
    nextAttemptOf_among, wrote, epochOf_among, save_among]
  refine bind_eq_map fun config _ => ?_
  refine bind_eq_map fun _ _ => ?_
  refine bind_eq_map fun replacementsHash _ => ?_
  refine bind_eq_map fun _ _ => ?_
  refine bind_eq_map fun _ _ => ?_
  refine bind_eq_map fun current _ => ?_
  refine bind_eq_map fun source _ => ?_
  refine bind_eq_map fun compiler _ => ?_
  refine bind_eq_map fun derived _ => ?_
  refine bind_eq_map fun _ _ => ?_
  refine bind_eq_map fun _ _ => ?_
  refine bind_eq_map fun replaced _ => ?_
  refine bind_eq_map fun _ _ => ?_
  refine bind_eq_map fun next _ => ?_
  refine bind_eq_map fun evidenceDeadline _ => ?_
  refine bind_eq_map fun delayed _ => ?_
  refine bind_eq_map fun cancelUntil _ => ?_
  rfl

theorem promote_among (config : CompiledRecoveryConfig) (a : Attempt) :
    promote e (s.among account others) account config a =
      (promote e s account config a).map fun r => (r.1, r.2.1.among account others, r.2.2) := by
  have wrote : ({ s.among account others with
      invalidateBelow :=
        Function.update (s.among account others).invalidateBelow account
          (some (nextAttemptOf s account))
      authorized := Function.update (s.among account others).authorized account (some a.id) } :
        Storage) =
      ({ s with
        invalidateBelow :=
          Function.update s.invalidateBelow account (some (nextAttemptOf s account))
        authorized := Function.update s.authorized account (some a.id) } : Storage).among
        account others := by
    simp only [Storage.among, update_own]
  simp only [promote, authorizedLive_among, nextAttemptOf_among, wrote]
  refine bind_eq_map fun _ _ => ?_
  refine bind_eq_map fun stale _ => ?_
  split
  · rfl
  · refine bind_eq_map fun executableAfter _ => ?_
    refine bind_eq_map fun expiresAt _ => ?_
    split
    · exact bind_eq_map fun _ _ => rfl
    · rfl

theorem countCancel_among (config : CompiledRecoveryConfig) :
    countCancel (s.among account others) account config =
      (countCancel s account config).map (·.among account others) := by
  have used : (s.among account others).cancels account = s.cancels account := by
    simp [Storage.among]
  simp only [countCancel, used]
  refine bind_eq_map fun _ _ => ?_
  refine bind_eq_map fun next _ => ?_
  simp only [Storage.among, update_own]
  rfl

theorem cancel_among (config : CompiledRecoveryConfig) (a : Attempt) (counted : Bool) :
    cancel e (s.among account others) account config a counted =
      (cancel e s account config a counted).map fun r => (r.1.among account others, r.2) := by
  have count : (if counted = true ∧ a.state = .authorized then
      countCancel (s.among account others) account config else pure (s.among account others)) =
      (if counted = true ∧ a.state = .authorized then countCancel s account config
        else pure s).map (·.among account others) := by
    split
    · exact countCancel_among s others account config
    · rfl
  refine bind_eq_map_of_head count fun s₁ => ?_
  simp only [save_among, setAuthorized_among]
  split
  · split
    · exact bind_eq_map fun _ _ => rfl
    · rfl
  · rfl

theorem afterEvidence_among (config : CompiledRecoveryConfig) (a : Attempt)
    (domain : EvidenceDomain) :
    afterEvidence e (s.among account others) account config a domain =
      (afterEvidence e s account config a domain).map
        fun r => (r.1.among account others, r.2) := by
  cases domain with
  | initiate =>
      simp only [afterEvidence]
      split
      · refine bind_eq_map_of_head (promote_among e s others account config a) fun r => ?_
        simp only [save_among]
        rfl
      · rw [save_among]
        rfl
  | cancel =>
      simp only [afterEvidence]
      split
      · exact cancel_among e s others account config a true
      · rw [save_among]
        rfl

theorem authorizeCompletion_among (context : Context) :
    authorizeCompletion d e (s.among account others) context account =
      (authorizeCompletion d e s context account).map (·.among account others) := by
  have marker : (s.among account others).completing account = s.completing account := by
    simp [Storage.among]
  cases context with
  | createContract wasmHash => rfl
  | contract call =>
      simp only [authorizeCompletion, requireConfig_among, authorizedLive_among, marker]
      refine bind_eq_map fun _ _ => ?_
      refine bind_eq_map fun target _ => ?_
      refine bind_eq_map fun config _ => ?_
      refine bind_eq_map fun attempt _ => ?_
      refine bind_eq_map fun _ _ => ?_
      refine bind_eq_map fun _ _ => ?_
      simp only [Storage.among, update_own]
      rfl

theorem spendNullifier_among (nullifier : Option Bytes32) :
    spendNullifier (s.among account others) account nullifier =
      (spendNullifier s account nullifier).map (·.among account others) := by
  cases nullifier with
  | none => rfl
  | some n =>
      have spent : (s.among account others).nullifier (account, n) = s.nullifier (account, n) := by
        simp [Storage.among]
      simp only [spendNullifier, spent]
      refine bind_eq_map fun _ _ => ?_
      simp only [Storage.among, update_ownKeyed]
      rfl

theorem complete_among (marker : CompletionMarker) (new : Option CompiledRecoveryConfig)
    (docHash : Bytes32) :
    complete d e (s.among account others) account marker new docHash =
      (complete d e s account marker new docHash).map
        fun r => (r.1, r.2.among account others) := by
  simp only [complete, authorizedLive_among]
  refine bind_eq_map fun attempt _ => ?_
  refine bind_eq_map fun _ _ => ?_
  refine bind_eq_map fun config _ => ?_
  refine bind_eq_map fun _ _ => ?_
  refine bind_eq_map_of_head (spendNullifier_among s others account _) fun s₁ => ?_
  simp only [save_among, setAuthorized_among]
  exact bind_eq_map_of_head (storeConfig_among _ others account config) fun _ => rfl

theorem classify_among (new : Option CompiledRecoveryConfig) (validUntil : UInt32) :
    classify d e (s.among account others) account new validUntil =
      (classify d e s account new validUntil).map fun r => (r.1, r.2.among account others) := by
  have stored : (s.among account others).config account = s.config account := by
    simp [Storage.among]
  simp only [classify, authorizedLive_among, requireCondition_among, stored]
  refine bind_eq_map fun _ _ => ?_
  split
  · rfl
  · refine bind_eq_map fun _ _ => ?_
    refine bind_eq_map fun _ _ => ?_
    refine bind_eq_map fun _ _ => ?_
    exact bind_eq_map_of_head (storeConfig_among s others account _) fun _ => rfl
  · refine bind_eq_map fun _ _ => ?_
    exact bind_eq_map_of_head (removeConfig_among s others account) fun _ => rfl
  · split
    · rfl
    · refine bind_eq_map fun _ _ => ?_
      split
      · refine bind_eq_map fun _ _ => ?_
        refine bind_eq_map fun _ _ => ?_
        exact bind_eq_map_of_head (storeConfig_among s others account _) fun _ => rfl
      · exact bind_eq_map_of_head (removeConfig_among s others account) fun _ => rfl

/-! ### Entry points -/

theorem rcvSync_among (docHash : Bytes32) (recovery : List CompiledRecoveryConfig)
    (validUntil : UInt32) :
    rcvSync d e (s.among account others) account docHash recovery validUntil =
      (rcvSync d e s account docHash recovery validUntil).map
        fun r => (r.1, r.2.among account others) := by
  have marker : (s.among account others).completing account = s.completing account := by
    simp [Storage.among]
  simp only [rcvSync, marker, removeCompleting_among, authorizedLive_among]
  refine bind_eq_map fun _ _ => ?_
  split
  · exact classify_among d e s others account _ validUntil
  · split
    · exact complete_among d e _ others account _ _ docHash
    · exact classify_among d e _ others account _ validUntil

theorem rcvCancel_among (id : UInt64) :
    rcvCancel e (s.among account others) account id =
      (rcvCancel e s account id).map fun r => (r.1.among account others, r.2) := by
  simp only [rcvCancel, requireConfig_among, loadLive_among]
  refine bind_eq_map fun _ _ => ?_
  refine bind_eq_map fun config _ => ?_
  refine bind_eq_map fun _ _ => ?_
  exact bind_eq_map fun attempt _ => cancel_among e s others account config attempt false

theorem rcvUpgrade_among (step : UpgradeStep) :
    rcvUpgrade d e (s.among account others) account step =
      (rcvUpgrade d e s account step).map fun r => (r.1, r.2.among account others) := by
  simp only [rcvUpgrade, requireConfig_among, authorizedLive_among, requireCondition_among,
    epochOf_among]
  refine bind_eq_map fun _ _ => ?_
  refine bind_eq_map fun config _ => ?_
  refine bind_eq_map fun _ _ => ?_
  cases step with
  | schedule subject validUntil => exact bind_eq_map fun _ _ => rfl
  | execute recorded => exact bind_eq_map fun _ _ => bumpEpoch_among s others account

theorem enforce_among (context : Context) (signers : List Signer) (rule : ContextRule) :
    enforce d e (s.among account others) context signers rule account =
      (enforce d e s context signers rule account).map (·.among account others) := by
  refine bind_eq_map fun _ _ => ?_
  refine bind_eq_map fun _ _ => ?_
  exact bind_eq_map fun _ _ => authorizeCompletion_among d e s others account context

theorem submitGuardian_among (id : UInt64) (domain : EvidenceDomain) (guardian : Address) :
    submitGuardian d e (s.among account others) account id domain guardian =
      (submitGuardian d e s account id domain guardian).map
        fun r => (r.1.among account others, r.2) := by
  simp only [submitGuardian, requireConfig_among, loadLive_among]
  refine bind_eq_map fun config _ => ?_
  refine bind_eq_map fun set _ => ?_
  refine bind_eq_map fun _ _ => ?_
  refine bind_eq_map fun attempt _ => ?_
  refine bind_eq_map fun _ _ => ?_
  refine bind_eq_map fun _ _ => ?_
  refine bind_eq_map fun asked _ => ?_
  refine bind_eq_map fun _ _ => ?_
  refine bind_eq_map fun digest _ => ?_
  exact bind_eq_map fun _ _ => afterEvidence_among e s others account config _ domain

theorem submitZk_among (id : UInt64) (domain : EvidenceDomain) (evidence : ZkEvidence) :
    submitZk d e (s.among account others) account id domain evidence =
      (submitZk d e s account id domain evidence).map
        fun r => (r.1.among account others, r.2) := by
  simp only [submitZk, requireConfig_among, loadLive_among, verifyZk_among]
  refine bind_eq_map fun config _ => ?_
  refine bind_eq_map fun factor _ => ?_
  refine bind_eq_map fun attempt _ => ?_
  refine bind_eq_map fun _ _ => ?_
  refine bind_eq_map fun _ _ => ?_
  refine bind_eq_map fun asked _ => ?_
  refine bind_eq_map fun _ _ => ?_
  exact bind_eq_map fun _ _ => afterEvidence_among e s others account config _ domain

theorem approveChange_among (subject : StatementSubject) (validUntil : UInt32)
    (guardian : Address) :
    approveChange d e (s.among account others) account subject validUntil guardian =
      (approveChange d e s account subject validUntil guardian).map
        (·.among account others) := by
  simp only [approveChange, requireConfig_among, refuseInWindow, authorizedLive_among,
    changeStatementFor_among, changeEvidence_among, storeApproval_among]
  refine bind_eq_map fun config _ => ?_
  refine bind_eq_map fun set _ => ?_
  refine bind_eq_map fun _ _ => ?_
  refine bind_eq_map fun _ _ => ?_
  refine bind_eq_map fun asked _ => ?_
  refine bind_eq_map fun _ _ => ?_
  refine bind_eq_map fun digest _ => ?_
  refine bind_eq_map fun _ _ => ?_
  exact bind_eq_map fun _ _ => rfl

theorem submitZkChange_among (subject : StatementSubject) (validUntil : UInt32)
    (evidence : ZkEvidence) :
    submitZkChange d e (s.among account others) account subject validUntil evidence =
      (submitZkChange d e s account subject validUntil evidence).map
        (·.among account others) := by
  simp only [submitZkChange, requireConfig_among, refuseInWindow, authorizedLive_among,
    changeStatementFor_among, changeEvidence_among, verifyZk_among, storeApproval_among]
  refine bind_eq_map fun config _ => ?_
  refine bind_eq_map fun factor _ => ?_
  refine bind_eq_map fun _ _ => ?_
  refine bind_eq_map fun asked _ => ?_
  refine bind_eq_map fun _ _ => ?_
  refine bind_eq_map fun digest _ => ?_
  refine bind_eq_map fun _ _ => ?_
  exact bind_eq_map fun _ _ => rfl

theorem publishBaseline_among (docJson : Bytes) :
    publishBaseline e (s.among account others) account docJson =
      (publishBaseline e s account docJson).map (·.among account others) := by
  simp only [publishBaseline, requireConfig_among]
  refine bind_eq_map fun config _ => ?_
  refine bind_eq_map fun baseline _ => ?_
  refine bind_eq_map fun compiler _ => ?_
  refine bind_eq_map fun compiled _ => ?_
  refine bind_eq_map fun _ _ => ?_
  simp only [Storage.among, update_ownKeyed]
  rfl

end Local

/-- An outcome with the other accounts' entries exchanged. -/
def Outcome.among (outcome : Outcome) (account : Address) (others : Storage) : Outcome :=
  { outcome with storage := outcome.storage.among account others }

/-- A call does not see the entries of the accounts it does not name, and
leaves them as they are. -/
theorem execute_among (d : Deployment) (e : Env) (s others : Storage) (call : Call) :
    execute d e (s.among call.account others) call =
      (execute d e s call).map (·.among call.account others) := by
  cases call with
  | rcvSync account docHash recovery validUntil =>
      exact bind_eq_map_of_head (rcvSync_among d e s others account docHash recovery validUntil)
        fun _ => rfl
  | rcvCancel account id =>
      exact bind_eq_map_of_head (rcvCancel_among e s others account id) fun _ => rfl
  | rcvUpgrade account step =>
      exact bind_eq_map_of_head (rcvUpgrade_among d e s others account step) fun _ => rfl
  | install params rule account =>
      simp only [execute, install, Call.account, requireConfig_among]
      exact bind_eq_map fun _ _ => rfl
  | enforce context signers rule account =>
      exact bind_eq_map_of_head (enforce_among d e s others account context signers rule)
        fun _ => rfl
  | uninstall rule account => exact bind_eq_map fun _ _ => rfl
  | beginLostKey account replacements | beginCompromise account replacements =>
      exact bind_eq_map_of_head (beginAttempt_among d e s others account _ replacements)
        fun _ => rfl
  | submitGuardian account id domain guardian =>
      exact bind_eq_map_of_head (submitGuardian_among d e s others account id domain guardian)
        fun _ => rfl
  | submitZk account id domain evidence =>
      exact bind_eq_map_of_head (submitZk_among d e s others account id domain evidence)
        fun _ => rfl
  | approveChange account subject validUntil guardian =>
      exact bind_eq_map_of_head
        (approveChange_among d e s others account subject validUntil guardian) fun _ => rfl
  | submitZkChange account subject validUntil evidence =>
      exact bind_eq_map_of_head
        (submitZkChange_among d e s others account subject validUntil evidence) fun _ => rfl
  | publishBaseline account docJson =>
      exact bind_eq_map_of_head (publishBaseline_among e s others account docJson) fun _ => rfl
  | renew account => rfl

/-! ### One step -/

/-- Two environments answer alike whatever a call for the account can ask:
the ledger and the host's settings, the account's own authorization and view,
the guardians' authorizations, and the compilers, adapters and pools. -/
structure AnswersAlike (account : Address) (e e' : Env) : Prop where
  sequence : e'.sequence = e.sequence
  maxTtl : e'.maxTtl = e.maxTtl
  minTemporaryTtl : e'.minTemporaryTtl = e.minTemporaryTtl
  requireAuth : e'.requireAuth account = e.requireAuth account
  requireAuthForArgs : e'.requireAuthForArgs = e.requireAuthForArgs
  view : e'.account account = e.account account
  docCompiler : e'.docCompiler = e.docCompiler
  zkAdapter : e'.zkAdapter = e.zkAdapter
  poolDepth : e'.poolDepth = e.poolDepth

def Env.seenBy (e : Env) (account : Address) : Env :=
  { e with
    requireAuth := fun _ => e.requireAuth account
    account := fun _ => e.account account }

theorem execute_seenBy (d : Deployment) (e : Env) (s : Storage) (call : Call) :
    execute d (e.seenBy call.account) s call = execute d e s call := by
  cases call <;> rfl

theorem AnswersAlike.seenBy_eq {account : Address} {e e' : Env}
    (alike : AnswersAlike account e e') : e'.seenBy account = e.seenBy account := by
  simp only [Env.seenBy, alike.sequence, alike.maxTtl, alike.minTemporaryTtl, alike.requireAuth,
    alike.requireAuthForArgs, alike.view, alike.docCompiler, alike.zkAdapter, alike.poolDepth]

/-- Two calls for an account that are the same call, answered alike. -/
structure SameInvocation (account : Address) (first second : Invocation) : Prop where
  call : second.call = first.call
  answers : AnswersAlike account first.env second.env

theorem SameInvocation.refl (account : Address) (invocation : Invocation) :
    SameInvocation account invocation invocation where
  call := rfl
  answers := by constructor <;> rfl

/-- A step leaves the entries of every account it does not name. -/
theorem step_elsewhere (d : Deployment) (s : Storage) (invocation : Invocation) {other : Address}
    (distinct : other ≠ invocation.call.account) :
    SameEntries other s ((controller d).step s invocation).after := by
  cases executed : execute d invocation.env s invocation.call with
  | error failure =>
      simp only [System.step, controller, executed]
      exact .refl other s
  | ok outcome =>
      simp only [System.step, controller, executed]
      have exchanged := execute_among d invocation.env s s invocation.call
      rw [Storage.among_of_same (.refl _ s), executed] at exchanged
      have kept := congrArg Outcome.storage (Except.ok.inj exchanged)
      rw [kept]
      exact Storage.among_other outcome.storage s distinct

/-- The same call for an account, on the same entries, has the same result and
leaves the same entries. -/
theorem step_same (d : Deployment) {s s' : Storage} {account : Address}
    {first second : Invocation} (named : first.call.account = account)
    (same : SameEntries account s s') (alike : SameInvocation account first second) :
    ((controller d).step s' second).reply = ((controller d).step s first).reply ∧
      SameEntries account ((controller d).step s first).after
        ((controller d).step s' second).after := by
  subst named
  have answered : execute d second.env s' second.call = execute d first.env s' first.call := by
    rw [alike.call, ← execute_seenBy d second.env, alike.answers.seenBy_eq, execute_seenBy]
  have exchanged := execute_among d first.env s s' first.call
  rw [Storage.among_of_same same] at exchanged
  simp only [System.step, controller, answered, exchanged]
  cases executed : execute d first.env s first.call with
  | error failure => exact ⟨rfl, same⟩
  | ok outcome => exact ⟨rfl, Storage.among_self _ _ _⟩

/-! ### Two runs -/

def names (account : Address) (taken : ControllerStep) : Bool :=
  taken.action.call.account = account

/-- What the account sees of a run: the calls that name it, newest first. -/
def ownSteps (account : Address) (history : History) : History :=
  history.filter (names account)

theorem ownSteps_actions (account : Address) (history : History) :
    (ownSteps account history).map (·.action) =
      (history.map (·.action)).filter (fun invocation => invocation.call.account = account) := by
  rw [List.filter_map]
  rfl

/-- Invocations played alone from a deployment, newest first: the replies and
the storage. -/
def alone (d : Deployment) : List Invocation → List Answer × Storage
  | [] => ([], .empty)
  | invocation :: earlier =>
      let taken := (controller d).step (alone d earlier).2 invocation
      (taken.reply :: (alone d earlier).1, taken.after)

/-- For an account a run is the run of the calls that name it. -/
theorem Run.alone {d : Deployment} {history : History} {now : UInt32} {s : Storage}
    (run : Run d history now s) (account : Address) :
    (ownSteps account history).map (·.reply) =
        (alone d ((ownSteps account history).map (·.action))).1 ∧
      SameEntries account (alone d ((ownSteps account history).map (·.action))).2 s := by
  induction run with
  | refl => exact ⟨rfl, .refl account _⟩
  | wait _ _ ih => exact ih
  | @call history now s invocation _ _ ih =>
      obtain ⟨replies, entries⟩ := ih
      by_cases named : invocation.call.account = account
      · have own : names account ((controller d).step s invocation) = true := by
          simp [names, named]
        obtain ⟨reply, after⟩ := step_same d named entries (.refl account invocation)
        simp only [ownSteps, List.filter_cons_of_pos own, List.map_cons, System.step_action]
        refine ⟨?_, after⟩
        rw [reply]
        exact congrArg _ replies
      · have other : ¬names account ((controller d).step s invocation) = true := by
          simp [names, named]
        simp only [ownSteps, List.filter_cons_of_neg other]
        refine ⟨replies, ?_⟩
        exact entries.trans (step_elsewhere d s invocation (Ne.symm named))

/-- The same calls, answered alike, have the same replies and leave the same
entries. -/
theorem alone_same (d : Deployment) {account : Address} {first second : List Invocation}
    (named : ∀ invocation ∈ first, invocation.call.account = account)
    (alike : List.Forall₂ (SameInvocation account) first second) :
    (alone d second).1 = (alone d first).1 ∧
      SameEntries account (alone d first).2 (alone d second).2 := by
  induction alike with
  | nil => exact ⟨rfl, .refl account _⟩
  | @cons invocation _ earlier _ same _ ih =>
      obtain ⟨replies, entries⟩ := ih fun past member => named past (List.mem_cons_of_mem _ member)
      obtain ⟨reply, after⟩ := step_same d (named invocation List.mem_cons_self) entries same
      refine ⟨?_, after⟩
      simp only [alone, reply, replies]

/-- A call leaves every storage entry of every account it does not name; and
two runs that make the same calls for an account, answered alike, answer them
with the same results and store the same entries for it, whatever they do for
other accounts in between. -/
theorem tenant_isolation (d : Deployment) (account : Address) :
    (∀ (s : Storage) (invocation : Invocation), invocation.call.account ≠ account →
      SameEntries account s ((controller d).step s invocation).after) ∧
    ∀ {first second : History} {now now' : UInt32} {s s' : Storage},
      Run d first now s → Run d second now' s' →
      List.Forall₂ (SameInvocation account) ((ownSteps account first).map (·.action))
        ((ownSteps account second).map (·.action)) →
      (ownSteps account second).map (·.reply) = (ownSteps account first).map (·.reply) ∧
        SameEntries account s s' := by
  refine ⟨fun s invocation other => step_elsewhere d s invocation (Ne.symm other), ?_⟩
  intro first second now now' s s' run run' alike
  obtain ⟨replies, entries⟩ := run.alone account
  obtain ⟨replies', entries'⟩ := run'.alone account
  have named : ∀ invocation ∈ (ownSteps account first).map (·.action),
      invocation.call.account = account := by
    intro invocation member
    obtain ⟨taken, own, rfl⟩ := List.mem_map.mp member
    simpa [names] using (List.mem_filter.mp own).2
  obtain ⟨same, kept⟩ := alone_same d named alike
  exact ⟨by rw [replies, replies', same], (entries.symm.trans kept).trans entries'⟩

namespace Sample

def neighbour : Address := .contract (.fill 21)

/-- Another account enrolls and recovers as the sample account does, each call
just before the sample account's. -/
def shared : List Invocation :=
  [invoke 100 (.rcvSync neighbour (sha256 source) [config] 0),
   invoke 100 (.rcvSync account (sha256 source) [config] 0),
   invoke 101 (.beginLostKey neighbour replacements),
   invoke 101 (.beginLostKey account replacements),
   invoke 102 (.submitGuardian neighbour 0 .initiate guardian),
   invoke 102 (.submitGuardian account 0 .initiate guardian),
   invoke 103 (.submitGuardian neighbour 0 .initiate otherGuardian),
   invoke 103 (.submitGuardian account 0 .initiate otherGuardian),
   invoke 104 (.submitZk neighbour 0 .initiate evidence),
   invoke 104 (.submitZk account 0 .initiate evidence)]

def sharing : History × Storage := (controller deployment).play [] .empty shared

theorem sharing_succeeds : ∀ taken ∈ ownSteps neighbour sharing.1, taken.reply.isOk = true := by
  decide +kernel

end Sample

/-- The other account's calls all succeed, and the sample account stores what it
would have stored alone. -/
theorem tenant_isolation_sample :
    (∀ taken ∈ ownSteps Sample.neighbour Sample.sharing.1, taken.reply.isOk = true) ∧
      SameEntries Sample.account Sample.reached Sample.sharing.2 := by
  have run : Run Sample.deployment Sample.sharing.1 104 Sample.sharing.2 :=
    Execution.refl.play (by decide)
  refine ⟨Sample.sharing_succeeds,
    ((tenant_isolation Sample.deployment Sample.account).2 Sample.run run ?_).2⟩
  have same : (ownSteps Sample.account Sample.sharing.1).map (·.action) =
      (ownSteps Sample.account ((controller Sample.deployment).play [] .empty
        Sample.calls).1).map (·.action) := by
    rw [Sample.sharing, ownSteps_actions, ownSteps_actions, System.play_actions,
      System.play_actions]
    rfl
  rw [same]
  exact List.forall₂_same.mpr fun _ _ => .refl _ _

end Perch.Recovery
