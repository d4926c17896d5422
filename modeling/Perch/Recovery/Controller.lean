/-
The recovery controller's entry points.

Each definition follows the contract function of its name: the checks stand in
the source's order, and a call either fails and leaves no state or returns the
next storage.  Calls of the account's `rcv_gate` are returned beside the
storage, since the account is another contract; its views, the compiler, the
adapters, and the pools answer through the environment.
-/

import Perch.Recovery.Storage

namespace Perch.Recovery

open Machine Document

/-! ### Conditions and statements -/

def initiationMet (config : CompiledRecoveryConfig) (a : Attempt) : Bool :=
  config.guardians.all (fun g => g.quorum.toNat ≤ a.guardians.length) &&
    config.zk.all (fun _ => a.zkNullifier.isSome)

def cancellationMet (config : CompiledRecoveryConfig) (a : Attempt) : Bool :=
  config.guardians.all (fun g => g.quorum.toNat ≤ a.cancelGuardians.length) &&
    config.zk.all (fun _ => a.cancelZk)

def statement (d : Deployment) (account : Address) (config : CompiledRecoveryConfig)
    (epoch : UInt64) (validUntilLedger : UInt32) (subject : StatementSubject) :
    RecoveryStatement where
  networkId := d.networkId
  account := account
  controller := d.address
  config := { epoch := epoch, configHash := config.configHash }
  timing :=
    { delayLedgers := config.delayLedgers
      expiryLedgers := config.expiryLedgers
      validUntilLedger := validUntilLedger }
  subject := subject

def statementError : StatementError → Failure
  | .evidenceExpired | .evidenceWindowTooLong => .refused .evidenceExpired
  | _ => .refused .invalidStatement

def digest (d : Deployment) (statement : RecoveryStatement) : Except Failure Bytes32 :=
  (statement.digest d.sha256).mapError statementError

def checkFresh (e : Env) (statement : RecoveryStatement) : Except Failure Unit :=
  (statement.checkFresh e.sequence).mapError statementError

def initiationStatement (d : Deployment) (account : Address) (config : CompiledRecoveryConfig)
    (a : Attempt) : RecoveryStatement :=
  let subject : AttemptSubject :=
    { attemptId := a.id
      sourceDocHash := a.sourceDocHash
      targetDocHash := a.targetDocHash
      replacementsHash := a.replacementsHash }
  statement d account config a.epoch a.evidenceDeadline
    (match a.action with
      | .compromise => .compromise subject
      | _ => .lostKey subject)

def attemptStatement (d : Deployment) (account : Address) (config : CompiledRecoveryConfig)
    (a : Attempt) (domain : EvidenceDomain) : Except Failure RecoveryStatement :=
  let initiation := initiationStatement d account config a
  match domain with
  | .initiate => pure initiation
  | .cancel => do
      let attemptStatement ← digest d initiation
      pure (statement d account config a.epoch a.cancelUntil
        (.cancel { attemptId := a.id, attemptStatement := attemptStatement }))

/-- Only a `Reconfigure` or `Upgrade` subject is a change. -/
def StatementSubject.isChange : StatementSubject → Bool
  | .reconfigure _ | .upgrade _ => true
  | _ => false

def changeStatementFor (d : Deployment) (s : Storage) (account : Address)
    (config : CompiledRecoveryConfig) (subject : StatementSubject) (validUntil : UInt32) :
    Except Failure RecoveryStatement := do
  require (subject.isChange = true) (.refused .invalidStatement)
  pure (statement d account config (epochOf s account) validUntil subject)

/-- The recorded evidence for `subject` must satisfy the enrolled condition. -/
def requireCondition (d : Deployment) (e : Env) (s : Storage) (account : Address)
    (config : CompiledRecoveryConfig) (subject : StatementSubject) (validUntil : UInt32) :
    Except Failure Unit := do
  let statement ← changeStatementFor d s account config subject validUntil
  checkFresh e statement
  let digest ← digest d statement
  let approval ← orFail (s.approval (account, digest)) (.refused .conditionNotMet)
  require (∀ set ∈ config.guardians,
      set.quorum.toNat ≤ (approval.guardians.filter (fun g => g ∈ set.guardians)).length)
    (.refused .conditionNotMet)
  require (config.zk.isSome → approval.zk = true) (.refused .conditionNotMet)

/-- The adapter must accept the proof for the enrolled binding, and its
nullifier must be unspent for this account. -/
def verifyZk (e : Env) (s : Storage) (account : Address) (factor : CompiledZkFactor)
    (statement : RecoveryStatement) (evidence : ZkEvidence) : Except Failure Unit := do
  require ((e.zkAdapter factor.adapter).verify statement factor.binding evidence = true)
    (.refused .zkEvidenceRejected)
  require (s.nullifier (account, evidence.nullifier) = none) (.refused .nullifierSpent)

def checkConfig (account : Address) (config : CompiledRecoveryConfig) : Except Failure Unit := do
  require (¬(config.delayLedgers = 0 ∨ config.expiryLedgers = 0 ∨ config.maxCancels = 0))
    (.refused .invalidConfiguration)
  require (∀ set ∈ config.guardians,
      ¬(account ∈ set.guardians ∨ set.quorum = 0 ∨ set.guardians.length < set.quorum.toNat))
    (.refused .invalidConfiguration)

/-- A new factor must be provable at all: its adapter verifies the named
circuit, at the named pool's depth. -/
def zkProvable (e : Env) (factor : CompiledZkFactor) : Bool :=
  let adapter := e.zkAdapter factor.adapter
  adapter.circuitId = some factor.circuitId && adapter.treeDepth.isSome &&
    adapter.treeDepth = e.poolDepth factor.pool

def checkZkWiring (e : Env) (old new : Option CompiledZkFactor) : Except Failure Unit := do
  require (zkFactorTransitionOk old new = true) (.refused .zkFactorChangedInPlace)
  require (∀ factor ∈ new, old = some factor ∨ zkProvable e factor = true)
    (.refused .zkWiringMismatch)

/-! ### Transitions -/

/-- The source document a recovery starts from, and its identity. -/
def sourceOf (s : Storage) (account : Address) (config : CompiledRecoveryConfig)
    (view : AccountView) (current : Bytes) : RecoveryAction → Except Failure (Bytes × Bytes32)
  | .compromise => do
      let hash ← orFail config.baseline (.refused .noBaseline)
      let source ← orFail (s.baseline (account, hash)) (.refused .baselineNotPublished)
      pure (source, hash)
  | _ => do
      let hash ← orTrap view.appliedDocHash
      let hash ← orFail hash (.refused .notEnrolled)
      pure (current, hash)

def noneRevoked (view : AccountView) : List Bytes32 → Except Failure Unit
  | [] => pure ()
  | fingerprint :: rest => do
      let revoked ← orTrap (view.isRevoked fingerprint)
      require (revoked = false) (.refused .credentialRevoked)
      noneRevoked view rest

/-- The declared enrollment id was never enrolled (rule 4). -/
def enrollmentFresh (view : AccountView) (replacements : ReplacementSet) :
    Except Failure Unit :=
  match replacements.zkEnrollment.head? with
  | none => pure ()
  | some z => do
      let enrolled ← orTrap (view.isEnrolledId z.id)
      require (enrolled = false) (.refused .enrollmentIdReused)

def collectingAttempt (id : UInt64) (action : RecoveryAction) (epoch : UInt64)
    (now evidenceDeadline cancelUntil : UInt32)
    (sourceDocHash replacementsHash targetBytesHash : Bytes32) (derived : DerivedTarget) :
    Attempt where
  id := id
  action := action
  epoch := epoch
  createdAt := now
  evidenceDeadline := evidenceDeadline
  cancelUntil := cancelUntil
  authorizedAt := 0
  executableAfter := 0
  expiresAt := 0
  sourceDocHash := sourceDocHash
  targetDocHash := derived.docHash
  targetBytesHash := targetBytesHash
  targetConfigHash := derived.configHash
  replacementsHash := replacementsHash
  replaced := derived.replaced
  state := .collecting
  guardians := []
  zkNullifier := none
  cancelGuardians := []
  cancelZk := false

/-- T1.  Opens an attempt on the target derived from the source document. -/
def beginAttempt (d : Deployment) (e : Env) (s : Storage) (account : Address)
    (action : RecoveryAction) (replacements : ReplacementSet) :
    Except Failure (UInt64 × Storage) := do
  let config ← requireConfig s account
  require (authorizedLive e.sequence s account = none) (.refused .attemptAuthorized)
  let replacementsHash ←
    (replacements.hash d.sha256).mapError fun _ => .refused .invalidReplacements
  require (config.zk.isSome = true ↔ replacements.zkEnrollment.length = 1)
    (.refused .invalidReplacements)
  let view := e.account account
  let current ← orTrap view.appliedDoc
  let current ← orFail current (.refused .notEnrolled)
  let (source, sourceDocHash) ← sourceOf s account config view current action
  let compiler ← orTrap view.docCompiler
  let derived ← orFail
    ((e.docCompiler compiler).deriveTarget source current action replacements)
    (.refused .invalidReplacements)
  enrollmentFresh view replacements
  noneRevoked view derived.fingerprints
  let replaced ← (derived.replaced.mapM (Credential.fingerprint d.sha256)).mapError
    fun _ => .refused .invalidReplacements
  require (replacedCredentialsLeave replaced derived.fingerprints = true)
    (.refused .replacedCredentialRetained)
  let id := nextAttemptOf s account
  let next ← orTrap (checkedSucc id)
  let s := { s with nextAttempt := Function.update s.nextAttempt account (some next) }
  let now := e.sequence
  let evidenceDeadline ← addLedgers now config.expiryLedgers
  let delayed ← addLedgers evidenceDeadline config.delayLedgers
  let cancelUntil ← addLedgers delayed config.expiryLedgers
  let attempt := collectingAttempt id action (epochOf s account) now evidenceDeadline cancelUntil
    sourceDocHash replacementsHash (d.sha256 derived.canonical) derived
  pure (id, save e s account attempt)

/-- Whether a lost-key attempt's source is no longer the applied document. -/
def staleSource (view : AccountView) (attempt : Attempt) : Except Failure Bool :=
  match attempt.action with
  | .lostKey => do
      let applied ← orTrap view.appliedDocHash
      pure (decide (applied ≠ some attempt.sourceDocHash))
  | _ => pure false

/-- T4.  Fixes the windows and invalidates every sibling; a lost-key attempt
whose source is no longer the applied document is recorded `invalidated`. -/
def promote (e : Env) (s : Storage) (account : Address) (config : CompiledRecoveryConfig)
    (attempt : Attempt) : Except Failure (Attempt × Storage × Option GateCall) := do
  require (authorizedLive e.sequence s account = none) (.refused .attemptAuthorized)
  let view := e.account account
  let stale ← staleSource view attempt
  if stale = true then
    pure ({ attempt with state := .invalidated }, s, none)
  else
    let now := e.sequence
    let executableAfter ← addLedgers now config.delayLedgers
    let expiresAt ← addLedgers executableAfter config.expiryLedgers
    let attempt :=
      { attempt with
        state := .authorized
        authorizedAt := now
        executableAfter := executableAfter
        expiresAt := expiresAt }
    let s :=
      { s with
        invalidateBelow :=
          Function.update s.invalidateBelow account (some (nextAttemptOf s account))
        authorized := Function.update s.authorized account (some attempt.id) }
    if config.profile = .protectedProfile then
      orTrap (view.rcvGate attempt.id attempt.expiresAt)
      pure (attempt, s, some { attemptId := attempt.id, frozenUntil := attempt.expiresAt })
    else
      pure (attempt, s, none)

/-- The cancellation count after one more, refused at the cap. -/
def countCancel (s : Storage) (account : Address) (config : CompiledRecoveryConfig) :
    Except Failure Storage := do
  let used := (s.cancels account).getD 0
  require (used < config.maxCancels) (.refused .maxCancelsReached)
  let next ← orTrap (checkedSucc32 used)
  pure { s with cancels := Function.update s.cancels account (some next) }

/-- T6 (`counted`) and T7.  Cancelling a collecting attempt never counts. -/
def cancel (e : Env) (s : Storage) (account : Address) (config : CompiledRecoveryConfig)
    (attempt : Attempt) (counted : Bool) : Except Failure (Storage × Option GateCall) := do
  let wasAuthorized := attempt.state = .authorized
  let s ← (if counted = true ∧ wasAuthorized then countCancel s account config else pure s)
  let s := save e s account { attempt with state := .cancelled }
  if wasAuthorized then
    let s := { s with authorized := Function.update s.authorized account none }
    if config.profile = .protectedProfile then
      orTrap ((e.account account).rcvGate attempt.id 0)
      pure (s, some { attemptId := attempt.id, frozenUntil := 0 })
    else
      pure (s, none)
  else
    pure (s, none)

/-- Record evidence, then promote (T4) or cancel (T6) if the domain's
condition is now satisfied. -/
def afterEvidence (e : Env) (s : Storage) (account : Address) (config : CompiledRecoveryConfig)
    (attempt : Attempt) (domain : EvidenceDomain) :
    Except Failure (Storage × Option GateCall) :=
  match domain with
  | .initiate =>
      if initiationMet config attempt = true then do
        let (attempt, s, gate) ← promote e s account config attempt
        pure (save e s account attempt, gate)
      else
        pure (save e s account attempt, none)
  | .cancel =>
      if cancellationMet config attempt = true then
        cancel e s account config attempt true
      else
        pure (save e s account attempt, none)

/-- The `enforce` half of T5: the context is this account's `apply_doc` of the
authorized attempt's exact target bytes. -/
def authorizeCompletion (d : Deployment) (e : Env) (s : Storage) (context : Context)
    (account : Address) : Except Failure Storage :=
  match context with
  | .createContract _ => throw (.refused .wrongTarget)
  | .contract call => do
      require (call.contract = account ∧ call.fnName = "apply_doc") (.refused .wrongTarget)
      let target ← orFail (call.args.head?.bind Val.toBytes?) (.refused .wrongTarget)
      let _ ← requireConfig s account
      let attempt ← orFail (authorizedLive e.sequence s account) (.refused .attemptNotLive)
      require (attempt.executableAfter ≤ e.sequence) (.refused .notExecutableYet)
      require (d.sha256 target = attempt.targetBytesHash) (.refused .wrongTarget)
      let marker : CompletionMarker :=
        { attemptId := attempt.id
          targetDocHash := attempt.targetDocHash
          ledger := e.sequence }
      let entry := Temporary.write e.sequence e.minTemporaryTtl (s.completing account) marker
      pure { s with completing := Function.update s.completing account (some entry) }

/-- A completion spends the attempt's recorded nullifier, once. -/
def spendNullifier (s : Storage) (account : Address) : Option Bytes32 → Except Failure Storage
  | none => pure s
  | some nullifier => do
      require (s.nullifier (account, nullifier) = none) (.refused .nullifierSpent)
      pure { s with
        nullifier := Function.update s.nullifier (account, nullifier) (some true) }

def complete (d : Deployment) (e : Env) (s : Storage) (account : Address)
    (marker : CompletionMarker) (new : Option CompiledRecoveryConfig) (docHash : Bytes32) :
    Except Failure (SyncOutcome × Storage) := do
  let attempt ← orFail (authorizedLive e.sequence s account) (.refused .attemptNotLive)
  require (¬(attempt.id ≠ marker.attemptId ∨ attempt.targetDocHash ≠ marker.targetDocHash ∨
      docHash ≠ attempt.targetDocHash)) (.refused .wrongTarget)
  let new ← orFail new (.refused .wrongTarget)
  require (¬(new.controller ≠ d.address ∨ new.configHash ≠ attempt.targetConfigHash))
    (.refused .wrongTarget)
  let s ← spendNullifier s account attempt.zkNullifier
  let s := save e s account { attempt with state := .completed }
  let s := { s with authorized := Function.update s.authorized account none }
  let s ← storeConfig s account new
  pure (.completed { attemptId := attempt.id, replaced := attempt.replaced }, s)

/-! ### Invoker-only hooks -/

def removeCompleting (s : Storage) (account : Address) : Storage :=
  { s with completing := Function.update s.completing account none }

def removeConfig (s : Storage) (account : Address) : Except Failure Storage := do
  let s :=
    { s with
      config := Function.update s.config account none
      authorized := Function.update s.authorized account none }
  let (_, s) ← bumpEpoch s account
  pure s

/-- The classification of an `apply_doc` that is not a completion. -/
def classify (d : Deployment) (e : Env) (s : Storage) (account : Address)
    (new : Option CompiledRecoveryConfig) (approvalValidUntil : UInt32) :
    Except Failure (SyncOutcome × Storage) := do
  require (authorizedLive e.sequence s account = none) (.refused .attemptAuthorized)
  match s.config account, new with
  | none, none => pure (.unchanged, s)
  | none, some new => do
      require (new.controller = d.address) (.refused .invalidConfiguration)
      checkConfig account new
      checkZkWiring e none new.zk
      let s ← storeConfig s account new
      pure (.enrolled, s)
  | some stored, none => do
      whenever (stored.profile = .protectedProfile)
        (requireCondition d e s account stored (.reconfigure .remove) approvalValidUntil)
      let s ← removeConfig s account
      pure (.removed, s)
  | some stored, some new =>
      if new.controller = d.address ∧ new.configHash = stored.configHash then
        pure (.unchanged, s)
      else do
        whenever (stored.profile = .protectedProfile)
          (requireCondition d e s account stored (.reconfigure (.set new.configHash))
            approvalValidUntil)
        if new.controller = d.address then
          checkConfig account new
          checkZkWiring e stored.zk new.zk
          let s ← storeConfig s account new
          pure (.reconfigured, s)
        else
          let s ← removeConfig s account
          pure (.removed, s)

/-- The recovery side of `apply_doc`.  A marker counts only for its own
document, in its own ledger, while its attempt is the authorized one; any
other marker is dropped and the call classified normally. -/
def rcvSync (d : Deployment) (e : Env) (s : Storage) (account : Address) (docHash : Bytes32)
    (recovery : List CompiledRecoveryConfig) (approvalValidUntil : UInt32) :
    Except Failure (SyncOutcome × Storage) := do
  require (e.requireAuth account = true) .trapped
  let new := recovery.head?
  match Temporary.read e.sequence (s.completing account) with
  | none => classify d e s account new approvalValidUntil
  | some marker =>
      let s := removeCompleting s account
      if marker.targetDocHash = docHash ∧ marker.ledger = e.sequence ∧
          (authorizedLive e.sequence s account).any (fun a => a.id = marker.attemptId) = true then
        complete d e s account marker new docHash
      else
        classify d e s account new approvalValidUntil

def rcvCancel (e : Env) (s : Storage) (account : Address) (attemptId : UInt64) :
    Except Failure (Storage × Option GateCall) := do
  require (e.requireAuth account = true) .trapped
  let config ← requireConfig s account
  require (config.profile = .loss) (.refused .ownerCancelRefused)
  let attempt ← loadLive e.sequence s account attemptId
  cancel e s account config attempt false

/-- The controller's half of the account's upgrade entry points. -/
def rcvUpgrade (d : Deployment) (e : Env) (s : Storage) (account : Address)
    (step : UpgradeStep) : Except Failure (UInt64 × Storage) := do
  require (e.requireAuth account = true) .trapped
  let config ← requireConfig s account
  require (authorizedLive e.sequence s account = none) (.refused .attemptAuthorized)
  match step with
  | .schedule subject approvalValidUntil => do
      whenever (config.profile = .protectedProfile)
        (requireCondition d e s account config (.upgrade subject) approvalValidUntil)
      pure (epochOf s account, s)
  | .execute recordedEpoch => do
      require (recordedEpoch = epochOf s account) (.refused .staleUpgrade)
      bumpEpoch s account

/-! ### The OZ policy hooks -/

/-- The recovery rule is a zero-signer rule scoped to the account itself. -/
def assertRecoveryRule (rule : ContextRule) (account : Address) : Except Failure Unit :=
  require (¬(rule.signers ≠ [] ∨ rule.contextType ≠ .callContract account))
    (.refused .malformedContextRule)

def install (e : Env) (s : Storage) (installParams : Bytes32) (rule : ContextRule)
    (account : Address) : Except Failure Unit := do
  require (e.requireAuth account = true) .trapped
  assertRecoveryRule rule account
  let config ← requireConfig s account
  require (config.configHash = installParams) (.refused .invalidConfiguration)

def enforce (d : Deployment) (e : Env) (s : Storage) (context : Context)
    (authenticatedSigners : List Signer) (rule : ContextRule) (account : Address) :
    Except Failure Storage := do
  require (e.requireAuth account = true) .trapped
  require (authenticatedSigners = []) (.refused .malformedContextRule)
  assertRecoveryRule rule account
  authorizeCompletion d e s context account

def uninstall (e : Env) (account : Address) : Except Failure Unit :=
  require (e.requireAuth account = true) .trapped

/-! ### Evidence -/

def Attempt.counted (a : Attempt) : EvidenceDomain → List Address
  | .initiate => a.guardians
  | .cancel => a.cancelGuardians

def Attempt.countGuardian (a : Attempt) (guardian : Address) : EvidenceDomain → Attempt
  | .initiate => { a with guardians := a.guardians ++ [guardian] }
  | .cancel => { a with cancelGuardians := a.cancelGuardians ++ [guardian] }

def Attempt.zkCounted (a : Attempt) : EvidenceDomain → Bool
  | .initiate => a.zkNullifier.isSome
  | .cancel => a.cancelZk

def Attempt.countZk (a : Attempt) (nullifier : Bytes32) : EvidenceDomain → Attempt
  | .initiate => { a with zkNullifier := some nullifier }
  | .cancel => { a with cancelZk := true }

/-- T2: one guardian's approval of an attempt's statement in `domain`. -/
def submitGuardian (d : Deployment) (e : Env) (s : Storage) (account : Address)
    (attemptId : UInt64) (domain : EvidenceDomain) (guardian : Address) :
    Except Failure (Storage × Option GateCall) := do
  let config ← requireConfig s account
  let set ← orFail config.guardians (.refused .modeHasNoGuardians)
  require (guardian ∈ set.guardians) (.refused .notAGuardian)
  let attempt ← loadLive e.sequence s account attemptId
  require (domain = .initiate → attempt.state = .collecting) (.refused .attemptNotCollecting)
  require (guardian ∉ attempt.counted domain) (.refused .alreadyCounted)
  let attempt := attempt.countGuardian guardian domain
  let statement ← attemptStatement d account config attempt domain
  checkFresh e statement
  let digest ← digest d statement
  require (e.requireAuthForArgs guardian digest = true) .trapped
  afterEvidence e s account config attempt domain

/-- T3: a ZK proof for an attempt's statement in `domain`. -/
def submitZk (d : Deployment) (e : Env) (s : Storage) (account : Address)
    (attemptId : UInt64) (domain : EvidenceDomain) (evidence : ZkEvidence) :
    Except Failure (Storage × Option GateCall) := do
  let config ← requireConfig s account
  let factor ← orFail config.zk (.refused .modeHasNoZk)
  let attempt ← loadLive e.sequence s account attemptId
  require (domain = .initiate → attempt.state = .collecting) (.refused .attemptNotCollecting)
  require (attempt.zkCounted domain = false) (.refused .alreadyCounted)
  let statement ← attemptStatement d account config attempt domain
  checkFresh e statement
  verifyZk e s account factor statement evidence
  afterEvidence e s account config (attempt.countZk evidence.nullifier domain) domain

/-- One guardian's approval of a `Reconfigure` or `Upgrade` statement. -/
def approveChange (d : Deployment) (e : Env) (s : Storage) (account : Address)
    (subject : StatementSubject) (validUntil : UInt32) (guardian : Address) :
    Except Failure Storage := do
  let config ← requireConfig s account
  let set ← orFail config.guardians (.refused .modeHasNoGuardians)
  require (guardian ∈ set.guardians) (.refused .notAGuardian)
  refuseInWindow e.sequence s account
  let statement ← changeStatementFor d s account config subject validUntil
  checkFresh e statement
  let digest ← digest d statement
  let approval := changeEvidence s account digest
  require (guardian ∉ approval.guardians) (.refused .alreadyCounted)
  require (e.requireAuthForArgs guardian digest = true) .trapped
  pure (storeApproval s account digest
    { approval with guardians := approval.guardians ++ [guardian] })

/-- A ZK proof for a `Reconfigure` or `Upgrade` statement.  Spends nothing. -/
def submitZkChange (d : Deployment) (e : Env) (s : Storage) (account : Address)
    (subject : StatementSubject) (validUntil : UInt32) (evidence : ZkEvidence) :
    Except Failure Storage := do
  let config ← requireConfig s account
  let factor ← orFail config.zk (.refused .modeHasNoZk)
  refuseInWindow e.sequence s account
  let statement ← changeStatementFor d s account config subject validUntil
  checkFresh e statement
  let digest ← digest d statement
  let approval := changeEvidence s account digest
  require (approval.zk = false) (.refused .alreadyCounted)
  verifyZk e s account factor statement evidence
  pure (storeApproval s account digest { approval with zk := true })

def publishBaseline (e : Env) (s : Storage) (account : Address) (docJson : Bytes) :
    Except Failure Storage := do
  let config ← requireConfig s account
  let baseline ← orFail config.baseline (.refused .noBaseline)
  let compiler ← orTrap (e.account account).docCompiler
  let compiled ← orFail ((e.docCompiler compiler).compileDoc docJson)
    (.refused .baselineMismatch)
  require (compiled.docHash = baseline ∧ adminSurvives compiled.rules = true)
    (.refused .baselineMismatch)
  pure { s with
    baseline := Function.update s.baseline (account, baseline) (some compiled.canonical) }

/-! ### Views -/

def attemptLive (now : UInt32) (s : Storage) (account : Address) (attemptId : UInt64) : Bool :=
  (load now s account attemptId).any (isLive now s account)

def activityGate (now : UInt32) (s : Storage) (account : Address) : ActivityGate :=
  match authorizedLive now s account with
  | some a =>
      { authorizedAttempt := some a.id
        frozen := (s.config account).any (fun c => c.profile = .protectedProfile)
        untilLedger := a.expiresAt }
  | none => { authorizedAttempt := none, frozen := false, untilLedger := 0 }

def nullifierSpent (s : Storage) (account : Address) (nullifier : Bytes32) : Bool :=
  (s.nullifier (account, nullifier)).isSome

/-! ### The contract as a system -/

/-- Every entry point that can write.  `renew` and `renew_nullifier` extend
lifetimes of persistent entries and are `renew` here. -/
inductive Call
  | rcvSync (account : Address) (docHash : Bytes32) (recovery : List CompiledRecoveryConfig)
      (approvalValidUntil : UInt32)
  | rcvCancel (account : Address) (attemptId : UInt64)
  | rcvUpgrade (account : Address) (step : UpgradeStep)
  | install (installParams : Bytes32) (rule : ContextRule) (account : Address)
  | enforce (context : Context) (authenticatedSigners : List Signer) (rule : ContextRule)
      (account : Address)
  | uninstall (rule : ContextRule) (account : Address)
  | beginLostKey (account : Address) (replacements : ReplacementSet)
  | beginCompromise (account : Address) (replacements : ReplacementSet)
  | submitGuardian (account : Address) (attemptId : UInt64) (domain : EvidenceDomain)
      (guardian : Address)
  | submitZk (account : Address) (attemptId : UInt64) (domain : EvidenceDomain)
      (evidence : ZkEvidence)
  | approveChange (account : Address) (subject : StatementSubject) (validUntil : UInt32)
      (guardian : Address)
  | submitZkChange (account : Address) (subject : StatementSubject) (validUntil : UInt32)
      (evidence : ZkEvidence)
  | publishBaseline (account : Address) (docJson : Bytes)
  | renew (account : Address)
deriving DecidableEq

def Call.account : Call → Address
  | .rcvSync account _ _ _ | .rcvCancel account _ | .rcvUpgrade account _
  | .install _ _ account | .enforce _ _ _ account | .uninstall _ account
  | .beginLostKey account _ | .beginCompromise account _ | .submitGuardian account _ _ _
  | .submitZk account _ _ _ | .approveChange account _ _ _ | .submitZkChange account _ _ _
  | .publishBaseline account _ | .renew account => account

inductive Reply
  | done
  | synced (outcome : SyncOutcome)
  | epoch (epoch : UInt64)
  | begun (attemptId : UInt64)
deriving DecidableEq

/-- What a successful call leaves: its reply, the next storage, and the gate
call it made. -/
structure Outcome where
  reply : Reply
  storage : Storage
  gate : Option GateCall

def execute (d : Deployment) (e : Env) (s : Storage) : Call → Except Failure Outcome
  | .rcvSync account docHash recovery approvalValidUntil => do
      let (outcome, s) ← rcvSync d e s account docHash recovery approvalValidUntil
      pure ⟨.synced outcome, s, none⟩
  | .rcvCancel account attemptId => do
      let (s, gate) ← rcvCancel e s account attemptId
      pure ⟨.done, s, gate⟩
  | .rcvUpgrade account step => do
      let (epoch, s) ← rcvUpgrade d e s account step
      pure ⟨.epoch epoch, s, none⟩
  | .install installParams rule account => do
      install e s installParams rule account
      pure ⟨.done, s, none⟩
  | .enforce context authenticatedSigners rule account => do
      let s ← enforce d e s context authenticatedSigners rule account
      pure ⟨.done, s, none⟩
  | .uninstall _ account => do
      uninstall e account
      pure ⟨.done, s, none⟩
  | .beginLostKey account replacements => do
      let (id, s) ← beginAttempt d e s account .lostKey replacements
      pure ⟨.begun id, s, none⟩
  | .beginCompromise account replacements => do
      let (id, s) ← beginAttempt d e s account .compromise replacements
      pure ⟨.begun id, s, none⟩
  | .submitGuardian account attemptId domain guardian => do
      let (s, gate) ← submitGuardian d e s account attemptId domain guardian
      pure ⟨.done, s, gate⟩
  | .submitZk account attemptId domain evidence => do
      let (s, gate) ← submitZk d e s account attemptId domain evidence
      pure ⟨.done, s, gate⟩
  | .approveChange account subject validUntil guardian => do
      let s ← approveChange d e s account subject validUntil guardian
      pure ⟨.done, s, none⟩
  | .submitZkChange account subject validUntil evidence => do
      let s ← submitZkChange d e s account subject validUntil evidence
      pure ⟨.done, s, none⟩
  | .publishBaseline account docJson => do
      let s ← publishBaseline e s account docJson
      pure ⟨.done, s, none⟩
  | .renew _ => pure ⟨.done, s, none⟩

end Perch.Recovery
