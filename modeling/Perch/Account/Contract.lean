/-
The account's entry points.

Each definition follows the contract function of its name.  The contracts the
account calls answer through `Callees`, over whatever state they keep; nothing
is assumed about them here.  A failed call leaves nothing.
-/

import Perch.Account.Storage

namespace Perch.Account

open Machine Document Recovery

/-! ### What an invocation meets -/

/-- What answers an account call: the contracts it can reach, over the state `ω`
they keep, and the host. -/
structure Callees (ω : Type) where
  rcvSync : ω → Address → Bytes32 → List CompiledRecoveryConfig → UInt32 →
    Except Failure (SyncOutcome × ω)
  rcvCancel : ω → Address → UInt64 → Except Failure ω
  rcvUpgrade : ω → Address → UpgradeStep → Except Failure (UInt64 × ω)
  rcvInsert : ω → Address → Bytes32 → Bytes32 → Except (Option PoolError) ω
  /-- A policy's `install` hook. -/
  install : ω → Address → Val → ContextRule → Except Failure Unit
  /-- Whether the account authorizes the call. -/
  authorized : Bool
  /-- Whether a wasm was uploaded. -/
  uploaded : Bytes32 → Bool

/-- An account: its storage and the rules the store holds for it. -/
structure AccountState (σ : Type) where
  storage : AccountStorage
  store : σ

/-- The account's fixed parameters: its deployment, what the compiler at its
pinned address runs with, and the rule store.  Both run on one chain. -/
structure AccountCode (σ : Type) where
  deployment : AccountDeployment
  host : CompilerHost
  oz : RuleStore σ
  sameHash : host.sha256 = deployment.sha256

section

variable {σ ω : Type} (code : AccountCode σ) (callees : Callees ω) (sequence : UInt32)

def ozEnv (world : ω) : OzEnv :=
  { sequence := sequence, install := callees.install world }

/-! ### Applying a document -/

/-- Sync a controller, and note what it did in the generation. -/
def syncController (controller : Address) (compiled : CompiledDoc) (approvalValidUntil : UInt32)
    (storage : AccountStorage) (world : ω) :
    Except AccountFailure (SyncOutcome × AccountStorage × ω) := do
  let (outcome, world) ← (callees.rcvSync world controller compiled.docHash compiled.recovery
    approvalValidUntil).mapError controllerFailure
  let storage ← storage.noteOutcome outcome
  pure (outcome, storage, world)

/-- The old controller is synced first, and a new one after it. -/
def syncControllers (compiled : CompiledDoc) (approvalValidUntil : UInt32)
    (storage : AccountStorage) (world : ω) :
    Except AccountFailure (SyncOutcome × AccountStorage × ω) := do
  let old := storage.recoveryController
  let (outcome, storage, world) ← (match old with
    | none => pure (.unchanged, storage, world)
    | some controller =>
        syncController callees controller compiled approvalValidUntil storage world)
  match compiled.recovery.head? with
  | none => pure (outcome, storage, world)
  | some next =>
      if old ≠ some next.controller then do
        let (_, storage, world) ← syncController callees next.controller compiled
          approvalValidUntil storage world
        pure (outcome, storage, world)
      else pure (outcome, storage, world)

/-- Bring the installed rules to the compiled document's, and record the
recovery rule and the adopted controller. -/
def applyRules (mode : Mode) (compiled : CompiledDoc) (account : AccountState σ) (world : ω) :
    Except AccountFailure (AccountState σ) := do
  let current := account.storage.rulesOf
  let (next, _, store) ← (reconcile code.oz (ozEnv callees sequence world) code.deployment.infra
    mode current (desired code.deployment sequence compiled) account.store).mapError
      AccountFailure.rules
  pure
    { storage :=
        { account.storage with
          installedRules :=
            if next ≠ current then some next else account.storage.installedRules
          recoveryRule := (next.find? InstalledRule.recovery).map InstalledRule.id
          recoveryController := compiled.recovery.head?.map CompiledRecoveryConfig.controller }
      store := store }

/-- Insert the new factor's leaf and remember its enrollment id. -/
def insertLeaf (leaf : Option CompiledZkFactor) (storage : AccountStorage) (world : ω) :
    Except AccountFailure (AccountStorage × ω) :=
  match leaf with
  | none => pure (storage, world)
  | some factor => do
      let world ← (callees.rcvInsert world factor.pool factor.enrollmentId
        factor.commitment).mapError fun
          | some error => .pool error
          | none => .trapped
      pure ({ storage with
        enrolledIds := Function.update storage.enrolledIds factor.enrollmentId true }, world)

def newZk (compiled : CompiledDoc) : Option CompiledZkFactor :=
  compiled.recovery.head?.bind CompiledRecoveryConfig.zk

/-- The checks before anything is changed; the leaf to insert. -/
def checkDocument (storage : AccountStorage) (compiled : CompiledDoc) :
    Except AccountFailure (Option CompiledZkFactor) := do
  require (adminSurvives compiled.rules = true) (.refused .adminLockout)
  require (∀ fingerprint ∈ compiled.fingerprints, storage.revoked fingerprint = false)
    (.refused .revokedCredential)
  require (zkFactorTransitionOk storage.currentZk (newZk compiled) = true)
    (.refused .zkFactorChangedInPlace)
  let insert := leafToInsert storage.currentZk (newZk compiled)
  require (∀ leaf ∈ insert, storage.enrolledIds leaf.enrollmentId = false)
    (.refused .enrollmentReused)
  pure insert

/-- What an outcome of the old controller does to the account. -/
def settleOutcome (outcome : SyncOutcome) (compiled : CompiledDoc) (storage : AccountStorage) :
    Except AccountFailure AccountStorage :=
  match outcome with
  | .completed completion =>
      storage.completeRecovery code.deployment.sha256 completion.replaced compiled.fingerprints
  | _ => pure storage

/-- `apply_doc`'s body. -/
def apply (mode : Mode) (docJson : Bytes) (approvalValidUntil : UInt32)
    (expectedRevision : Option UInt64) (account : AccountState σ) (world : ω) :
    Except AccountFailure (Bytes32 × AccountState σ × ω) := do
  require (callees.authorized = true) .trapped
  require (∀ expected ∈ expectedRevision, expected = account.storage.revisionOf)
    (.refused .staleRevision)
  let compiled ← (compileDoc code.host docJson).mapError compilerFailure
  let insert ← checkDocument account.storage compiled
  let (outcome, storage, world) ← syncControllers callees compiled approvalValidUntil
    account.storage world
  let account ← applyRules code callees sequence mode compiled { account with storage := storage }
    world
  let (storage, world) ← insertLeaf callees insert account.storage world
  let storage ← settleOutcome code outcome compiled { storage with currentZk := newZk compiled }
  let storage ← (storage.recordDocument compiled).advanceRevision
  pure (compiled.docHash, { account with storage := storage }, world)

def applyDoc (docJson : Bytes) (approvalValidUntil : UInt32) (expectedRevision : Option UInt64)
    (account : AccountState σ) (world : ω) : Except AccountFailure (Bytes32 × AccountState σ × ω) :=
  apply code callees sequence .cheapest docJson approvalValidUntil expectedRevision account world

/-! ### The constructor -/

/-- Install rule 0, "admin", a policy-free rule scoped to the account. -/
def installAdmin (adminSigners : List Signer) (store : σ) (world : ω) :
    Except AccountFailure (AccountState σ) := do
  let (id, store) ← (code.oz.addContextRule (ozEnv callees sequence world) store
    (.callContract code.deployment.address) adminName none adminSigners []).mapError
      AccountFailure.rules
  pure
    { storage :=
        { AccountStorage.empty with
          installedRules := some [adminRule code.deployment id adminSigners] }
      store := store }

/-! ### The freeze -/

def rcvGate (invoker : Address) (attemptId : UInt64) (frozenUntil : UInt32)
    (storage : AccountStorage) : Except AccountFailure AccountStorage := do
  let controller ← orFail storage.recoveryController (.refused .recoveryNotEnrolled)
  require (invoker = controller) .trapped
  if frozenUntil = 0 then
    pure (if storage.gate.any (fun gate => gate.attemptId = attemptId) = true then
      { storage with gate := none } else storage)
  else
    pure { storage with gate := some { attemptId := attemptId, untilLedger := frozenUntil } }

def isFrozen (now frozenUntil : UInt32) : Bool := now < frozenUntil

/-- Names only the account's own code may call. -/
def reservedInvokerOnlyFns : List Symbol :=
  ["install", "uninstall", "enforce", "rcv_sync", "rcv_cancel", "rcv_upgrade", "rcv_insert",
    "rcv_gate"]

def isReservedInvokerOnly (fnName : Symbol) : Bool := fnName ∈ reservedInvokerOnlyFns

/-- What an authorization is signed with: the rules it selects, one for each
context, and the signatures. -/
structure AuthPayload where
  contextRuleIds : List UInt32
  signatures : List (Signer × Bytes)
deriving DecidableEq

/-- One `apply_doc` context on this account, selecting the recovery rule. -/
def isCompletion (d : AccountDeployment) (storage : AccountStorage) (signatures : AuthPayload)
    (contexts : List Context) : Bool :=
  match storage.recoveryRule, contexts with
  | some rule, [.contract call] =>
      signatures.contextRuleIds = [rule] && call.contract = d.address && call.fnName = "apply_doc"
  | _, _ => false

def contextReserved : Context → Bool
  | .contract call => isReservedInvokerOnly call.fnName
  | .createContract _ => false

def authAddrDomain : Bytes := "perch/account/auth-addr-v1".toUTF8.data.toList

def bindPayload (d : AccountDeployment) (signaturePayload : Bytes32) : Bytes32 :=
  let id := ((addressPayload d.address).map Prod.snd).getD (BytesN.fill 0)
  d.sha256 (authAddrDomain ++ id.bytes ++ signaturePayload.bytes)

/-- The store's evaluation of the selected rules, with the effects of the
policies it enforces. -/
abbrev DoCheckAuth (σ ω : Type) :=
  Bytes32 → AuthPayload → List Context → σ → ω → Except Unit ω

/-- `__check_auth`: the reserved-name guard and the freeze come before any
rule is evaluated. -/
def checkAuth (doCheckAuth : DoCheckAuth σ ω) (signaturePayload : Bytes32)
    (signatures : AuthPayload) (contexts : List Context) (account : AccountState σ) (world : ω) :
    Except AccountFailure ω := do
  require (∀ context ∈ contexts, contextReserved context = false)
    (.unauthorized .reservedFunction)
  require (∀ gate ∈ account.storage.gate, isFrozen sequence gate.untilLedger = true →
      isCompletion code.deployment account.storage signatures contexts = true)
    (.unauthorized .accountFrozen)
  (doCheckAuth (bindPayload code.deployment signaturePayload) signatures contexts account.store
    world).mapError fun _ => .trapped

/-! ### Recovery cancellation and upgrades -/

def cancelRecovery (attemptId : UInt64) (account : AccountState σ) (world : ω) :
    Except AccountFailure ω := do
  require (callees.authorized = true) .trapped
  let controller ← orFail account.storage.recoveryController (.refused .recoveryNotEnrolled)
  (callees.rcvCancel world controller attemptId).mapError controllerFailure

/-- The adopted controller's half of scheduling; the epoch it answers. -/
def scheduleAtController (subject : UpgradeSubject) (approvalValidUntil : UInt32)
    (storage : AccountStorage) (world : ω) : Except AccountFailure (Option UInt64 × ω) :=
  match storage.recoveryController with
  | none => pure (none, world)
  | some controller => do
      let (epoch, world) ← (callees.rcvUpgrade world controller
        (.schedule subject approvalValidUntil)).mapError controllerFailure
      pure (some epoch, world)

def scheduleUpgrade (wasmHash : Bytes32) (approvalValidUntil : UInt32) (storage : AccountStorage)
    (world : ω) : Except AccountFailure (UInt64 × AccountStorage × ω) := do
  require (callees.authorized = true) .trapped
  let requestId := storage.nextUpgradeId.getD 0
  let next ← orFail (checkedSucc requestId) .trapped
  let (controllerEpoch, world) ← scheduleAtController callees
    { requestId := requestId, wasmHash := wasmHash } approvalValidUntil storage world
  let request ← orFail (UpgradeRequest.schedule requestId wasmHash storage.generationOf
    controllerEpoch sequence) (.refused .timingOverflow)
  pure (requestId, { storage with nextUpgradeId := some next, pendingUpgrade := some request },
    world)

def executeAtController (request : UpgradeRequest) (storage : AccountStorage) (world : ω) :
    Except AccountFailure ω :=
  match storage.recoveryController with
  | none => pure world
  | some controller => do
      let epoch ← orFail request.controllerEpoch (.refused .staleUpgrade)
      let (_, world) ← (callees.rcvUpgrade world controller (.execute epoch)).mapError
        controllerFailure
      pure world

/-- The new wasm is taken to run the same account code. -/
def executeUpgrade (requestId : UInt64) (storage : AccountStorage) (world : ω) :
    Except AccountFailure (AccountStorage × ω) := do
  require (callees.authorized = true) .trapped
  let request ← orFail storage.pendingUpgrade (.refused .noPendingUpgrade)
  require (request.requestId = requestId) (.refused .upgradeRequestMismatch)
  require (request.readiness sequence storage.generationOf ≠ .stale) (.refused .staleUpgrade)
  require (request.readiness sequence storage.generationOf ≠ .notYet) (.refused .upgradeNotReady)
  let world ← executeAtController callees request storage world
  let storage ← storage.dropPendingUpgrade.advanceGeneration
  let storage ← storage.advanceRevision
  -- The host installs no wasm it does not have.
  require (callees.uploaded request.wasmHash = true) .trapped
  pure (storage, world)

def cancelUpgrade (storage : AccountStorage) : Except AccountFailure AccountStorage := do
  require (callees.authorized = true) .trapped
  require (storage.pendingUpgrade.isSome = true) (.refused .noPendingUpgrade)
  pure storage.dropPendingUpgrade

end

end Perch.Account
