/-
Applying documents, one after another.

A successful apply is read back once, as the steps it went through; every
invariant over sequences of applies is derived from that.  Here: the records
mirror the store, their slots are distinct, and the recovery rule is the one
flagged record.
-/

import Perch.Account.Contract
import Perch.Account.Reconcile
import Perch.Document.Valid
import Perch.Machine.Run

namespace Perch.Account

open Machine Document Recovery

variable {σ ω : Type}

/-! ### What a document asks for -/

section Desired

variable {d : AccountDeployment} {host : CompilerHost} {doc : Ir.PolicyDoc}
  {compiled : CompiledDoc}

@[simp] theorem documentRule_slot (rule : CompiledRule) :
    (documentRule d rule).rule.slot =
      (some rule.name, RuleScope.contextType d rule.scope) := rfl

@[simp] theorem documentRule_recovery (rule : CompiledRule) :
    (documentRule d rule).rule.recovery = false := rfl

@[simp] theorem recoveryRule_slot (config : CompiledRecoveryConfig) :
    (recoveryRule d config).rule.slot = (none, .callContract d.address) := rfl

theorem mem_desired_iff {sequence : UInt32} {wanted : Wanted d} :
    wanted ∈ desired d sequence compiled ↔
      (∃ rule ∈ compiled.rules, expired sequence rule.validUntil = false ∧
        wanted = documentRule d rule) ∨
      ∃ config, compiled.recovery.head? = some config ∧ wanted = recoveryRule d config := by
  simp only [desired, List.mem_append, List.mem_filter, List.mem_map, Bool.not_eq_true',
    Option.mem_toList, Option.map_eq_some_iff, @eq_comm _ _ wanted]
  refine or_congr_left ⟨?_, ?_⟩
  · rintro ⟨⟨rule, listed, rfl⟩, live⟩
    exact ⟨rule, listed, live, rfl⟩
  · rintro ⟨rule, listed, live, rfl⟩
    exact ⟨⟨rule, listed, rfl⟩, live⟩

theorem mem_desired {sequence : UInt32} {wanted : Wanted d}
    (asked : wanted ∈ desired d sequence compiled) :
    (∃ rule ∈ compiled.rules, wanted = documentRule d rule) ∨
      ∃ config, compiled.recovery.head? = some config ∧ wanted = recoveryRule d config :=
  (mem_desired_iff.mp asked).imp_left fun ⟨rule, listed, _, same⟩ => ⟨rule, listed, same⟩

theorem length_desired (d : AccountDeployment) (compiled : CompiledDoc) (sequence : UInt32) :
    (desired d sequence compiled).length ≤ compiled.rules.length + 1 := by
  have rules := List.length_filter_le (fun wanted => !expired sequence wanted.rule.validUntil)
    (compiled.rules.map (documentRule d))
  have recovery := Option.length_toList_le (o := compiled.recovery.head?.map (recoveryRule d))
  rw [desired, List.length_append]
  rw [List.length_map] at rules
  omega

/-- Different names make different slots, and the recovery rule has its own. -/
theorem desired_slots_nodup (distinct : (compiled.rules.map CompiledRule.name).Nodup)
    (sequence : UInt32) :
    ((desired d sequence compiled).map fun wanted => wanted.rule.slot).Nodup := by
  have documents : ((compiled.rules.map (documentRule d)).map
      fun wanted => wanted.rule.slot).Nodup := by
    rw [List.map_map]
    apply List.Nodup.of_map Prod.fst
    have named := distinct.map (f := some) fun _ _ same => Option.some.inj same
    rw [List.map_map] at named ⊢
    exact named
  rw [desired, List.map_append]
  refine List.Nodup.append (documents.sublist (List.filter_sublist.map _)) ?_ ?_
  · cases compiled.recovery.head? <;> simp
  · intro slot fromRules fromRecovery
    obtain ⟨wanted, filtered, rfl⟩ := List.mem_map.mp fromRules
    obtain ⟨rule, _, rfl⟩ := List.mem_map.mp (List.mem_filter.mp filtered).1
    cases named : compiled.recovery.head? <;> simp [named] at fromRecovery

theorem documentRule_sound (pins : d.infra.interpreter ≠ d.infra.spendingLimit)
    (rule : CompiledRule) : (documentRule d rule).rule.Sound := by
  refine { policies := ?_, recovery := fun flagged => by cases flagged }
  cases installed : rule.install.head? <;> cases capped : rule.cap.head? <;>
    simp [documentRule, Wanted.of, installed, capped, pins]

theorem recoveryRule_sound (config : CompiledRecoveryConfig) :
    (recoveryRule d config).rule.Sound where
  policies := by simp [recoveryRule, Wanted.of]
  recovery _ := ⟨rfl, rfl⟩

theorem desired_sound (pins : d.infra.interpreter ≠ d.infra.spendingLimit) {sequence : UInt32}
    {wanted : Wanted d} (asked : wanted ∈ desired d sequence compiled) : wanted.rule.Sound := by
  rcases mem_desired asked with ⟨rule, _, rfl⟩ | ⟨config, _, rfl⟩
  · exact documentRule_sound pins rule
  · exact recoveryRule_sound config

theorem desired_flagged {sequence : UInt32} {wanted : Wanted d}
    (asked : wanted ∈ desired d sequence compiled) (flagged : wanted.rule.recovery = true) :
    wanted.rule.contextType = .callContract d.address := by
  rcases mem_desired asked with ⟨rule, _, rfl⟩ | ⟨config, _, rfl⟩
  · cases flagged
  · rfl

end Desired

/-! ### What each step leaves alone -/

section Frames

variable {code : AccountCode σ} {callees : Callees ω} {sequence : UInt32} {mode : Mode}
  {compiled : CompiledDoc} {storage storage' : AccountStorage} {world world' : ω}

theorem advanceGeneration_eq_ok :
    storage.advanceGeneration = .ok storage' ↔ ∃ next,
      checkedSucc storage.generationOf = some next ∧
        { storage with recoveryGeneration := some next } = storage' := by
  simp only [AccountStorage.advanceGeneration, bind_eq_ok, orFail_eq_ok, pure_eq_ok]

theorem advanceRevision_eq_ok :
    storage.advanceRevision = .ok storage' ↔ ∃ next,
      checkedSucc storage.revisionOf = some next ∧
        { storage with revision := some next } = storage' := by
  simp only [AccountStorage.advanceRevision, bind_eq_ok, orFail_eq_ok, pure_eq_ok]

def bumps (outcome : SyncOutcome) : Nat := if outcome.bumpsGeneration then 1 else 0

theorem noteOutcome_eq_ok {outcome : SyncOutcome}
    (noted : storage.noteOutcome outcome = .ok storage') :
    (∃ generation, storage' = { storage with recoveryGeneration := generation }) ∧
      storage'.generationOf.toNat = storage.generationOf.toNat + bumps outcome := by
  unfold AccountStorage.noteOutcome at noted
  unfold bumps
  split at noted
  next moves =>
    obtain ⟨next, advanced, rfl⟩ := advanceGeneration_eq_ok.mp noted
    rw [if_pos moves]
    exact ⟨⟨some next, rfl⟩, checkedSucc_eq_some.mp advanced⟩
  next quiet =>
    rw [pure_eq_ok] at noted
    subst noted
    rw [if_neg quiet]
    exact ⟨⟨storage.recoveryGeneration, rfl⟩, rfl⟩

theorem syncController_eq_ok {controller : Address} {validUntil : UInt32} {outcome : SyncOutcome}
    (synced : syncController callees controller compiled validUntil storage world =
      .ok (outcome, storage', world')) :
    callees.rcvSync world controller compiled.docHash compiled.recovery validUntil =
        .ok (outcome, world') ∧
      (∃ generation, storage' = { storage with recoveryGeneration := generation }) ∧
      storage'.generationOf.toNat = storage.generationOf.toNat + bumps outcome := by
  simp only [syncController, bind_eq_ok, mapError_eq_ok, pure_eq_ok, Prod.mk.injEq,
    Prod.exists] at synced
  obtain ⟨outcome, world', called, noted, wrote, rfl, rfl, rfl⟩ := synced
  exact ⟨called, noteOutcome_eq_ok wrote⟩

/-- How the controllers are synced: the old one, then a new one elsewhere. -/
inductive Synced (callees : Callees ω) (compiled : CompiledDoc) (validUntil : UInt32)
    (old : Option Address) (world : ω) : SyncOutcome → ω → Prop where
  | none (unenrolled : old = none) (unnamed : compiled.recovery.head? = none) :
      Synced callees compiled validUntil old world .unchanged world
  | enrolled {config : CompiledRecoveryConfig} {outcome : SyncOutcome} {world' : ω}
      (unenrolled : old = none) (named : compiled.recovery.head? = some config)
      (called : callees.rcvSync world config.controller compiled.docHash compiled.recovery
        validUntil = .ok (outcome, world')) :
      Synced callees compiled validUntil old world .unchanged world'
  | stays {controller : Address} {outcome : SyncOutcome} {world' : ω}
      (adopted : old = some controller)
      (same : ∀ config, compiled.recovery.head? = some config → config.controller = controller)
      (called : callees.rcvSync world controller compiled.docHash compiled.recovery validUntil =
        .ok (outcome, world')) :
      Synced callees compiled validUntil old world outcome world'
  | switched {controller : Address} {config : CompiledRecoveryConfig}
      {outcome outcome' : SyncOutcome} {middle world' : ω}
      (adopted : old = some controller) (named : compiled.recovery.head? = some config)
      (elsewhere : config.controller ≠ controller)
      (left : callees.rcvSync world controller compiled.docHash compiled.recovery validUntil =
        .ok (outcome, middle))
      (joined : callees.rcvSync middle config.controller compiled.docHash compiled.recovery
        validUntil = .ok (outcome', world')) :
      Synced callees compiled validUntil old world outcome world'

/-- The same, with what a new controller answered beside the old one's outcome. -/
inductive SyncedBoth (callees : Callees ω) (compiled : CompiledDoc) (validUntil : UInt32)
    (old : Option Address) (world : ω) : SyncOutcome → SyncOutcome → ω → Prop where
  | none (unenrolled : old = none) (unnamed : compiled.recovery.head? = none) :
      SyncedBoth callees compiled validUntil old world .unchanged .unchanged world
  | enrolled {config : CompiledRecoveryConfig} {joined : SyncOutcome} {world' : ω}
      (unenrolled : old = none) (named : compiled.recovery.head? = some config)
      (called : callees.rcvSync world config.controller compiled.docHash compiled.recovery
        validUntil = .ok (joined, world')) :
      SyncedBoth callees compiled validUntil old world .unchanged joined world'
  | stays {controller : Address} {outcome : SyncOutcome} {world' : ω}
      (adopted : old = some controller)
      (same : ∀ config, compiled.recovery.head? = some config → config.controller = controller)
      (called : callees.rcvSync world controller compiled.docHash compiled.recovery validUntil =
        .ok (outcome, world')) :
      SyncedBoth callees compiled validUntil old world outcome .unchanged world'
  | switched {controller : Address} {config : CompiledRecoveryConfig}
      {outcome joined : SyncOutcome} {middle world' : ω}
      (adopted : old = some controller) (named : compiled.recovery.head? = some config)
      (elsewhere : config.controller ≠ controller)
      (left : callees.rcvSync world controller compiled.docHash compiled.recovery validUntil =
        .ok (outcome, middle))
      (called : callees.rcvSync middle config.controller compiled.docHash compiled.recovery
        validUntil = .ok (joined, world')) :
      SyncedBoth callees compiled validUntil old world outcome joined world'

theorem SyncedBoth.synced {validUntil : UInt32} {old : Option Address}
    {outcome joined : SyncOutcome}
    (both : SyncedBoth callees compiled validUntil old world outcome joined world') :
    Synced callees compiled validUntil old world outcome world' := by
  cases both with
  | none unenrolled unnamed => exact .none unenrolled unnamed
  | enrolled unenrolled named called => exact .enrolled unenrolled named called
  | stays adopted same called => exact .stays adopted same called
  | switched adopted named elsewhere left called =>
      exact .switched adopted named elsewhere left called

theorem syncControllers_eq_ok {validUntil : UInt32} {outcome : SyncOutcome}
    (synced : syncControllers callees compiled validUntil storage world =
      .ok (outcome, storage', world')) :
    ∃ joined,
      SyncedBoth callees compiled validUntil storage.recoveryController world outcome joined
        world' ∧
      (∃ generation, storage' = { storage with recoveryGeneration := generation }) ∧
      storage'.generationOf.toNat =
        storage.generationOf.toNat + bumps outcome + bumps joined := by
  simp only [syncControllers, bind_eq_ok, Prod.exists] at synced
  obtain ⟨first, storage₁, world₁, left, joined⟩ := synced
  obtain ⟨old, held⟩ : ∃ old, storage.recoveryController = old := ⟨_, rfl⟩
  rw [held] at left
  rw [held] at joined
  cases old with
  | none =>
      simp only [pure_eq_ok, Prod.mk.injEq] at left
      obtain ⟨rfl, rfl, rfl⟩ := left
      cases named : compiled.recovery.head? with
      | none =>
          simp only [named, pure_eq_ok, Prod.mk.injEq] at joined
          obtain ⟨rfl, rfl, rfl⟩ := joined
          exact ⟨.unchanged, .none held named, ⟨_, rfl⟩, rfl⟩
      | some config =>
          rw [named] at joined
          simp only [ne_eq, reduceCtorEq, not_false_eq_true, if_true, bind_eq_ok, pure_eq_ok,
            Prod.mk.injEq, Prod.exists] at joined
          obtain ⟨second, storage₂, world₂, called, rfl, rfl, rfl⟩ := joined
          obtain ⟨called, wrote, noted⟩ := syncController_eq_ok called
          exact ⟨second, .enrolled held named called, wrote, noted⟩
  | some controller =>
      obtain ⟨called, ⟨generation, rfl⟩, noted⟩ := syncController_eq_ok left
      cases named : compiled.recovery.head? with
      | none =>
          simp only [named, pure_eq_ok, Prod.mk.injEq] at joined
          obtain ⟨rfl, rfl, rfl⟩ := joined
          exact ⟨.unchanged, .stays held (by simp [named]) called, ⟨generation, rfl⟩, noted⟩
      | some config =>
          rw [named] at joined
          by_cases here : config.controller = controller
          · simp only [here, ne_eq, not_true_eq_false, if_false, pure_eq_ok,
              Prod.mk.injEq] at joined
            obtain ⟨rfl, rfl, rfl⟩ := joined
            refine ⟨.unchanged, .stays held ?_ called, ⟨generation, rfl⟩, noted⟩
            intro other found
            rw [named, Option.some.injEq] at found
            exact found ▸ here
          · have elsewhere : ¬some controller = some config.controller := by
              intro same
              exact here (Option.some.inj same).symm
            simp only [ne_eq, elsewhere, not_false_eq_true, if_true, bind_eq_ok, pure_eq_ok,
              Prod.mk.injEq, Prod.exists] at joined
            obtain ⟨second, storage₂, world₂, called', rfl, rfl, rfl⟩ := joined
            obtain ⟨joins, ⟨generation', wrote⟩, noted'⟩ := syncController_eq_ok called'
            refine ⟨second, .switched held named here called joins, ⟨generation', wrote⟩, ?_⟩
            rw [noted', noted]

/-- What inserting a leaf does to the ids in use and to the pool. -/
def LeafInserted (callees : Callees ω) (leaf : Option CompiledZkFactor)
    (before after : Bytes32 → Bool) (world world' : ω) : Prop :=
  match leaf with
  | none => after = before ∧ world' = world
  | some factor => after = Function.update before factor.enrollmentId true ∧
      callees.rcvInsert world factor.pool factor.enrollmentId factor.commitment = .ok world'

theorem insertLeaf_eq_ok {leaf : Option CompiledZkFactor}
    (inserted : insertLeaf callees leaf storage world = .ok (storage', world')) :
    ∃ enrolledIds, storage' = { storage with enrolledIds := enrolledIds } ∧
      LeafInserted callees leaf storage.enrolledIds enrolledIds world world' := by
  cases leaf with
  | none =>
      simp only [insertLeaf, pure_eq_ok, Prod.mk.injEq] at inserted
      obtain ⟨rfl, rfl⟩ := inserted
      exact ⟨storage.enrolledIds, rfl, rfl, rfl⟩
  | some factor =>
      simp only [insertLeaf, bind_eq_ok, mapError_eq_ok, pure_eq_ok, Prod.mk.injEq] at inserted
      obtain ⟨_, called, rfl, rfl⟩ := inserted
      exact ⟨_, rfl, rfl, called⟩

/-- What the old controller's outcome does to the revocations and the freeze. -/
def Settled (sha256 : Sha256) (outcome : SyncOutcome) (fingerprints : List Bytes32)
    (before after : AccountStorage) : Prop :=
  match outcome with
  | .completed completion => ∃ replaced,
      List.Forall₂ (fun credential fingerprint => credential.fingerprint sha256 = .ok fingerprint)
        completion.replaced replaced ∧
      after.revoked = (fun fingerprint => fingerprint ∈ revocations replaced
        (before.appliedFingerprints.getD []) fingerprints || before.revoked fingerprint) ∧
      after.gate = none
  | _ => after.revoked = before.revoked ∧ after.gate = before.gate

theorem settleOutcome_eq_ok {outcome : SyncOutcome}
    (settled : settleOutcome code outcome compiled storage = .ok storage') :
    Settled code.deployment.sha256 outcome compiled.fingerprints storage storage' ∧
      ∃ revoked gate pendingUpgrade, storage' = { storage with
        revoked := revoked
        gate := gate
        pendingUpgrade := pendingUpgrade } := by
  cases outcome with
  | completed completion =>
      simp only [settleOutcome, AccountStorage.completeRecovery, bind_eq_ok, pure_eq_ok] at settled
      obtain ⟨replaced, fingerprinted, rfl⟩ := settled
      refine ⟨⟨replaced, ?_, rfl, rfl⟩, _, _, _, rfl⟩
      exact (mapM_eq_ok fingerprinted).imp fun _ _ => mapError_eq_ok.mp
  | _ =>
      simp only [settleOutcome, pure_eq_ok] at settled
      subst settled
      exact ⟨⟨rfl, rfl⟩, storage.revoked, storage.gate, storage.pendingUpgrade, rfl⟩

/-- The pending upgrade after an outcome: a completion drops it. -/
def pendingAfter (outcome : SyncOutcome) (pending : Option UpgradeRequest) :
    Option UpgradeRequest :=
  match outcome with
  | .completed _ => none
  | _ => pending

theorem settleOutcome_pending {outcome : SyncOutcome}
    (settled : settleOutcome code outcome compiled storage = .ok storage') :
    storage'.pendingUpgrade = pendingAfter outcome storage.pendingUpgrade := by
  cases outcome with
  | completed completion =>
      simp only [settleOutcome, AccountStorage.completeRecovery, bind_eq_ok, pure_eq_ok] at settled
      obtain ⟨_, _, rfl⟩ := settled
      rfl
  | _ =>
      simp only [settleOutcome, pure_eq_ok] at settled
      subst settled
      rfl

/-- The applied document's hash, canonical bytes and fingerprints. -/
def AccountStorage.document (s : AccountStorage) :
    Option Bytes32 × Option Bytes × Option (List Bytes32) :=
  (s.appliedDoc, s.appliedDocBytes, s.appliedFingerprints)

theorem recordDocument_eq (storage : AccountStorage) (compiled : CompiledDoc) :
    ∃ appliedDoc appliedDocBytes appliedFingerprints,
      storage.recordDocument compiled =
        { storage with
          appliedDoc := appliedDoc
          appliedDocBytes := appliedDocBytes
          appliedFingerprints := appliedFingerprints } ∧
      (appliedDoc, appliedDocBytes, appliedFingerprints) =
        if storage.appliedDoc = some compiled.docHash then storage.document
        else (some compiled.docHash, some compiled.canonical, some compiled.fingerprints) := by
  unfold AccountStorage.recordDocument
  by_cases same : storage.appliedDoc = some compiled.docHash
  · rw [if_neg (not_not.mpr same), if_pos same]
    exact ⟨storage.appliedDoc, storage.appliedDocBytes, storage.appliedFingerprints, rfl, rfl⟩
  · rw [if_pos same, if_neg same]
    exact ⟨_, _, _, rfl, rfl⟩

/-- Once the store is reconciled nothing refuses. -/
theorem applyRules_of_reconciled {account : AccountState σ} {records : List InstalledRule} {sum : DeltaSummary} {store : σ}
    (reconciled : reconcile code.oz (ozEnv callees sequence world) code.deployment.infra mode
      account.storage.rulesOf (desired code.deployment sequence compiled) account.store =
      .ok (records, sum, store)) :
    ∃ account', applyRules code callees sequence mode compiled account world = .ok account' ∧
      account'.store = store ∧ account'.storage.rulesOf = records := by
  have mapped := congrArg (Except.mapError AccountFailure.rules) reconciled
  refine ⟨_, bind_eq_ok.mpr ⟨_, mapped, rfl⟩, rfl, ?_⟩
  change Option.getD (if records ≠ account.storage.rulesOf then some records
    else account.storage.installedRules) [] = records
  split
  · rfl
  · rename_i same
    exact (not_not.mp same).symm

theorem applyRules_eq_ok {account account' : AccountState σ}
    (ruled : applyRules code callees sequence mode compiled account world = .ok account') :
    ∃ records sum installedRules,
      reconcile code.oz (ozEnv callees sequence world) code.deployment.infra mode
          account.storage.rulesOf (desired code.deployment sequence compiled) account.store =
        .ok (records, sum, account'.store) ∧
      installedRules.getD [] = records ∧
      account'.storage =
        { account.storage with
          installedRules := installedRules
          recoveryRule := (records.find? InstalledRule.recovery).map InstalledRule.id
          recoveryController :=
            compiled.recovery.head?.map CompiledRecoveryConfig.controller } := by
  simp only [applyRules, bind_eq_ok, mapError_eq_ok, pure_eq_ok, Prod.exists] at ruled
  obtain ⟨records, sum, store, reconciled, rfl⟩ := ruled
  refine ⟨records, sum, _, reconciled, ?_, rfl⟩
  split
  · rfl
  · rename_i same
    exact (not_not.mp same).symm

end Frames

/-! ### A successful apply -/

section Outcome

variable (code : AccountCode σ) (callees : Callees ω) (sequence : UInt32) (mode : Mode)
  (docJson : Bytes) (approvalValidUntil : UInt32) (account : AccountState σ) (world : ω)

/-- What a successful apply did: the document it compiled, the leaf it
inserted, what the old controller answered, and the state of the callees once
the controllers were synced. -/
structure ApplyEffect (compiled : CompiledDoc) (leaf : Option CompiledZkFactor)
    (outcome : SyncOutcome) (synced : ω) (account' : AccountState σ) (world' : ω) : Prop where
  compiles : compileDoc code.host docJson = .ok compiled
  checked : checkDocument account.storage compiled = .ok leaf
  syncs : Synced callees compiled approvalValidUntil account.storage.recoveryController world
    outcome synced
  reconciled : ∃ sum,
    reconcile code.oz (ozEnv callees sequence synced) code.deployment.infra mode
        account.storage.rulesOf (desired code.deployment sequence compiled) account.store =
      .ok (account'.storage.rulesOf, sum, account'.store)
  recoveryRule : account'.storage.recoveryRule =
    (account'.storage.rulesOf.find? InstalledRule.recovery).map InstalledRule.id
  recoveryController : account'.storage.recoveryController =
    compiled.recovery.head?.map CompiledRecoveryConfig.controller
  currentZk : account'.storage.currentZk = newZk compiled
  inserts : LeafInserted callees leaf account.storage.enrolledIds
      account'.storage.enrolledIds synced
    world'
  settles : Settled code.deployment.sha256 outcome compiled.fingerprints account.storage
    account'.storage
  document : account'.storage.document =
    if account.storage.appliedDoc = some compiled.docHash then account.storage.document
    else (some compiled.docHash, some compiled.canonical, some compiled.fingerprints)

/-- What a successful apply did to the counters and the pending upgrade. -/
structure ApplyCounters (compiled : CompiledDoc) (outcome joined : SyncOutcome) (synced : ω)
    (expectedRevision : Option UInt64) (account' : AccountState σ) : Prop where
  syncs : SyncedBoth callees compiled approvalValidUntil account.storage.recoveryController world
    outcome joined synced
  generation : account'.storage.generationOf.toNat =
    account.storage.generationOf.toNat + bumps outcome + bumps joined
  expected : ∀ expected ∈ expectedRevision, expected = account.storage.revisionOf
  revision : checkedSucc account.storage.revisionOf = some account'.storage.revisionOf
  pendingUpgrade : account'.storage.pendingUpgrade =
    pendingAfter outcome account.storage.pendingUpgrade
  nextUpgradeId : account'.storage.nextUpgradeId = account.storage.nextUpgradeId

variable {code callees sequence mode docJson approvalValidUntil account world}

theorem apply_cases {expectedRevision : Option UInt64} {hash : Bytes32}
    {account' : AccountState σ} {world' : ω}
    (applied : apply code callees sequence mode docJson approvalValidUntil expectedRevision account
      world = .ok (hash, account', world')) :
    ∃ compiled leaf outcome joined synced, hash = compiled.docHash ∧
      ApplyEffect code callees sequence mode docJson approvalValidUntil account world compiled leaf
        outcome synced account' world' ∧
      ApplyCounters callees approvalValidUntil account world compiled outcome joined synced
        expectedRevision account' := by
  simp only [apply, bind_eq_ok, mapError_eq_ok, require_eq_ok, pure_eq_ok, Prod.mk.injEq,
    Prod.exists] at applied
  obtain ⟨_, _, _, expected, compiled, compiles, leaf, checked, outcome, storage, synced, syncs, ruled,
    rules, inserted, afterInsert, inserts, settled, settles, final, advances, rfl, rfl, rfl⟩ :=
    applied
  obtain ⟨joined, controllers, ⟨_, rfl⟩, generation⟩ := syncControllers_eq_ok syncs
  obtain ⟨records, sum, installedRules, reconciled, rfl, wrote⟩ := applyRules_eq_ok rules
  obtain ⟨_, rfl, pool⟩ := insertLeaf_eq_ok inserts
  obtain ⟨_, advanced, rfl⟩ := advanceRevision_eq_ok.mp advances
  obtain ⟨_, _, _, recorded, document⟩ := recordDocument_eq settled compiled
  have pending := settleOutcome_pending settles
  obtain ⟨outcomeSettled, _, _, _, settled⟩ := settleOutcome_eq_ok settles
  refine ⟨compiled, leaf, outcome, joined, synced, rfl, ?_, ?_⟩
  · constructor
    · exact compiles
    · exact checked
    · exact controllers.synced
    · simp only [AccountStorage.rulesOf] at reconciled
      simp only [AccountStorage.rulesOf, recorded]
      simp only [settled, wrote]
      exact ⟨sum, reconciled⟩
    · simp only [AccountStorage.rulesOf, recorded]
      simp only [settled, wrote]
    · simp only [recorded]
      simp only [settled, wrote]
    · simp only [recorded]
      simp only [settled]
    · simp only [recorded]
      simp only [settled]
      simp only [wrote] at pool
      exact pool
    · cases outcome with
      | completed completion =>
          obtain ⟨replaced, fingerprinted, revoked, gate⟩ := outcomeSettled
          refine ⟨replaced, fingerprinted, ?_, ?_⟩
          · simp only [recorded]
            simpa only [wrote] using revoked
          · simp only [recorded]
            exact gate
      | _ =>
          simp only [Settled, recorded]
          simpa only [Settled, wrote] using outcomeSettled
    · simp only [AccountStorage.document, recorded, document]
      simp only [settled, wrote]
  · constructor
    · exact controllers
    · simp only [AccountStorage.generationOf, recorded]
      simp only [settled, wrote]
      exact generation
    · exact expected
    · simp only [AccountStorage.revisionOf, recorded] at advanced
      simp only [settled, wrote] at advanced
      exact advanced
    · simp only [recorded]
      rw [pending, wrote]
    · simp only [recorded]
      simp only [settled, wrote]

theorem apply_eq_ok {expectedRevision : Option UInt64} {hash : Bytes32}
    {account' : AccountState σ} {world' : ω}
    (applied : apply code callees sequence mode docJson approvalValidUntil expectedRevision account
      world = .ok (hash, account', world')) :
    ∃ compiled leaf outcome synced, hash = compiled.docHash ∧
      ApplyEffect code callees sequence mode docJson approvalValidUntil account world compiled leaf
        outcome synced account' world' := by
  obtain ⟨compiled, leaf, outcome, _, synced, hashed, effect, _⟩ := apply_cases applied
  exact ⟨compiled, leaf, outcome, synced, hashed, effect⟩

theorem apply_revision {expectedRevision : Option UInt64} {hash : Bytes32}
    {account' : AccountState σ} {world' : ω}
    (applied : apply code callees sequence mode docJson approvalValidUntil expectedRevision account
      world = .ok (hash, account', world')) :
    (∀ expected ∈ expectedRevision, expected = account.storage.revisionOf) ∧
      checkedSucc account.storage.revisionOf = some account'.storage.revisionOf := by
  obtain ⟨_, _, _, _, _, _, _, counters⟩ := apply_cases applied
  exact ⟨counters.expected, counters.revision⟩

end Outcome

end Perch.Account
