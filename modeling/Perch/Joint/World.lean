/-
An account together with the contracts it recovers through.

The account, any number of controllers, the compiler it pins and the pools it
enrolls in are one system here.  The host admits a controller's hooks only when
the account's own code is their direct invoker, and admits no call back into a
contract that is running.  Everything else may call anything at any time.

A document may name any contract for its controller, and the account adopts it.
A contract that is no recovery controller answers the account as it likes, and
may gate an account that adopted it; what else it calls is a step of its own.
-/

import Perch.Account.Revision
import Perch.Recovery.Isolation
import Perch.Zk.Pool

namespace Perch.Joint

open Machine Document Recovery Account

/-! ### The contracts around an account -/

structure World where
  controllers : Address → Recovery.Storage
  pools : Address → Zk.PoolStorage

def World.setController (world : World) (controller : Address) (s : Recovery.Storage) : World :=
  { world with controllers := Function.update world.controllers controller s }

def World.setPool (world : World) (pool : Address) (s : Zk.PoolStorage) : World :=
  { world with pools := Function.update world.pools pool s }

/-- What is fixed: the account's code, and which contract runs where.  The rule
store and the JSON lexer behave as documented, and different contracts have
different addresses. -/
structure Setting (σ : Type) where
  code : AccountCode σ
  /-- Where a recovery controller runs. -/
  deployed : Address → Bool
  /-- Where another contract answers in a controller's place. -/
  foreign : Address → Bool
  poseidon2 : Zk.Poseidon2
  /-- Where a pool runs, and how deep its trees are. -/
  depth : Address → Option Nat
  documented : code.oz.Documented
  conforms : code.host.lexer.Conforms
  pins : code.deployment.infra.interpreter ≠ code.deployment.infra.spendingLimit
  apart : ∀ controller, deployed controller = true →
    controller ≠ code.deployment.infra.interpreter ∧
      controller ≠ code.deployment.infra.spendingLimit

/-- What an invocation meets beside the modelled contracts: the ledger, the
signatures, the wasms uploaded, other accounts and compilers, adapters, and the
controllers, policies and pools that are not modelled.  Any of them may answer
anything. -/
structure Surroundings where
  env : Env
  uploaded : Bytes32 → Bool
  foreignSync : Address → Bytes32 → List CompiledRecoveryConfig → UInt32 →
    Except Failure SyncOutcome
  foreignCancel : Address → UInt64 → Except Failure Unit
  foreignUpgrade : Address → UpgradeStep → Except Failure UInt64
  policyInstall : Address → Val → ContextRule → Except Failure Unit
  poolInsert : Address → Bytes32 → Bytes32 → Except (Option PoolError) Unit

/-- The names a controller's entry points are called by. -/
def Call.name : Call → Symbol
  | .rcvSync _ _ _ _ => "rcv_sync"
  | .rcvCancel _ _ => "rcv_cancel"
  | .rcvUpgrade _ _ => "rcv_upgrade"
  | .install _ _ _ => "install"
  | .enforce _ _ _ _ => "enforce"
  | .uninstall _ _ => "uninstall"
  | .beginLostKey _ _ => "begin_lost_key"
  | .beginCompromise _ _ => "begin_compromise"
  | .submitGuardian _ _ _ _ => "submit_guardian"
  | .submitZk _ _ _ _ => "submit_zk"
  | .approveChange _ _ _ _ => "approve_change"
  | .submitZkChange _ _ _ _ => "submit_zk_change"
  | .publishBaseline _ _ => "publish_baseline"
  | .renew _ => "renew"

/-- The entry points that ask for the account's authorization. -/
def Call.isHook : Call → Bool
  | .rcvSync _ _ _ _ | .rcvCancel _ _ | .rcvUpgrade _ _ | .install _ _ _ | .enforce _ _ _ _
  | .uninstall _ _ => true
  | _ => false

theorem Call.reserved_of_isHook {call : Recovery.Call} (hook : Call.isHook call = true) :
    isReservedInvokerOnly (Call.name call) = true := by
  cases call <;> first | rfl | cases hook

/-- A call into a contract that is already running traps. -/
def reentered : AccountView where
  appliedDoc := none
  appliedDocHash := none
  docCompiler := none
  isRevoked _ := none
  isEnrolledId _ := none
  rcvGate _ _ := none

namespace Setting

variable {σ : Type} (S : Setting σ)

abbrev me : Address := S.code.deployment.address

abbrev sha256 : Sha256 := S.code.deployment.sha256

def controller (address : Address) : Deployment where
  sha256 := S.sha256
  networkId := S.code.host.networkId
  address := address

def compiler : DocCompiler where
  compileDoc docJson := (compileDoc S.code.host docJson).toOption
  deriveTarget source current action replacements :=
    (deriveTarget S.code.host source current action replacements).toOption

def view (storage : AccountStorage) (controller : Address) : AccountView where
  appliedDoc := some storage.appliedDocBytes
  appliedDocHash := some storage.appliedDoc
  docCompiler := some S.code.deployment.infra.docCompiler
  isRevoked fingerprint := some (storage.revoked fingerprint)
  isEnrolledId id := some (storage.enrolledIds id)
  rcvGate attemptId frozenUntil :=
    (rcvGate controller attemptId frozenUntil storage).toOption.map fun _ => ()

/-- What a controller meets, given whether the account authorizes the call and
what the account answers. -/
def envWith (around : Surroundings) (authorized : Bool) (view : AccountView) : Env :=
  { around.env with
    requireAuth := Function.update around.env.requireAuth S.me authorized
    account := Function.update around.env.account S.me view
    docCompiler := Function.update around.env.docCompiler S.code.deployment.infra.docCompiler
      S.compiler }

def inside (around : Surroundings) : Env := S.envWith around true reentered

/-- What a controller meets when anything else calls it.  Neither `__check_auth`
nor `execute` lets a reserved name through, so the account authorizes none. -/
def outside (around : Surroundings) (storage : AccountStorage) (controller : Address)
    (visible authorized : Bool) (call : Recovery.Call) : Env :=
  S.envWith around (authorized && !isReservedInvokerOnly (Call.name call))
    (if visible then S.view storage controller else reentered)

/-- Call a controller: a recovery controller runs on its own storage, and another
contract answers for itself. -/
def atController {α : Type} (world : World) (controller : Address)
    (run : Recovery.Storage → Except Failure (α × Recovery.Storage))
    (foreign : Except Failure α) : Except Failure (α × World) :=
  if S.deployed controller = true then do
    let (answer, s) ← run (world.controllers controller)
    pure (answer, world.setController controller s)
  else do
    require (S.foreign controller = true) .trapped
    let answer ← foreign
    pure (answer, world)

def rcvInsert (around : Surroundings) (world : World) (pool : Address)
    (enrollmentId commitment : Bytes32) : Except (Option PoolError) World :=
  match S.depth pool with
  | some depth => do
      let (_, s) ← Zk.rcvInsert S.poseidon2 depth (world.pools pool) S.me enrollmentId commitment
      pure (world.setPool pool s)
  | none => do
      around.poolInsert pool enrollmentId commitment
      pure world

/-- A controller's install parameter is a 32-byte string. -/
def installPolicy (around : Surroundings) (world : World) (policy : Address) (param : Val)
    (rule : ContextRule) : Except Failure Unit :=
  if S.deployed policy = true then
    match param with
    | .bytes value =>
        if size : value.length = 32 then
          Recovery.install (S.inside around) (world.controllers policy) ⟨value, size⟩ rule S.me
        else .error .trapped
    | .other _ => .error .trapped
  else around.policyInstall policy param rule

def callees (around : Surroundings) : Callees World where
  rcvSync world controller docHash recovery validUntil :=
    S.atController world controller
      (fun s => rcvSync (S.controller controller) (S.inside around) s S.me docHash recovery
        validUntil)
      (around.foreignSync controller docHash recovery validUntil)
  rcvCancel world controller attemptId := do
    -- Under `loss`, where the owner cancels, there is no freeze to gate.
    let (_, world) ← S.atController world controller
      (fun s => do
        let (s, _) ← rcvCancel (S.inside around) s S.me attemptId
        pure ((), s))
      (around.foreignCancel controller attemptId)
    pure world
  rcvUpgrade world controller step :=
    S.atController world controller
      (fun s => rcvUpgrade (S.controller controller) (S.inside around) s S.me step)
      (around.foreignUpgrade controller step)
  rcvInsert := S.rcvInsert around
  install := S.installPolicy around
  authorized := around.env.requireAuth S.me
  uploaded := around.uploaded

/-! ### Authorization -/

structure EnforceCall where
  policy : Address
  context : Context
  authenticated : List Signer
  rule : ContextRule

/-- A context with the stored rule that is to authorize it, and which of the
rule's signers authenticated. -/
structure Selection where
  context : Context
  id : UInt32
  rule : StoredRule
  authenticated : List Signer

def Selection.calls (selection : Selection) : List EnforceCall :=
  selection.rule.policies.map fun entry =>
    { policy := entry.policy
      context := selection.context
      authenticated := selection.authenticated
      rule :=
        { id := selection.id
          contextType := selection.rule.contextType
          name := selection.rule.name
          signers := selection.rule.signers
          policies := selection.rule.policies.map AttachedPolicy.policy
          validUntil := selection.rule.validUntil } }

/-- A policy that is not a controller keeps its state elsewhere. -/
def enforce (around : Surroundings) (world : World) (call : EnforceCall) : Except Failure World :=
  if S.deployed call.policy = true then do
    let s ← Recovery.enforce (S.controller call.policy) (S.inside around)
      (world.controllers call.policy) call.context call.authenticated call.rule S.me
    pure (world.setController call.policy s)
  else pure world

/-- The store's evaluation of an authorization.  As documented, it succeeds only
if every context has a stored rule selected for it and every policy of that rule
enforces it, the contexts in order. -/
structure CheckAuth where
  run : Surroundings → DoCheckAuth σ World
  enforces : ∀ {around digest payload contexts store world world'},
    run around digest payload contexts store world = .ok world' →
      ∃ selected : List Selection, selected.map Selection.context = contexts ∧
        selected.map Selection.id = payload.contextRuleIds ∧
        (∀ selection ∈ selected,
          S.code.oz.getContextRule store selection.id = some selection.rule ∧
            ∀ signer ∈ selection.authenticated, signer ∈ selection.rule.signers) ∧
        (selected.flatMap Selection.calls).foldlM (S.enforce around) world = .ok world'

end Setting

/-! ### The system -/

structure State (σ : Type) where
  account : AccountState σ
  world : World

variable {σ : Type}

/-- Everything that can happen: the account's entry points, an authorization of
the account, a call of a controller by anything but the account's own code, a
call of `rcv_gate` by a contract that is no recovery controller, and an
insertion by another account. -/
inductive Action (S : Setting σ)
  | applyDoc (docJson : Bytes) (approvalValidUntil : UInt32) (expectedRevision : Option UInt64)
  | cancelRecovery (attemptId : UInt64)
  | scheduleUpgrade (wasmHash : Bytes32) (approvalValidUntil : UInt32)
  | executeUpgrade (requestId : UInt64)
  | cancelUpgrade
  | checkAuth (auth : S.CheckAuth) (signaturePayload : Bytes32) (signatures : AuthPayload)
      (contexts : List Context)
  | call (controller : Address) (visible authorized : Bool) (call : Recovery.Call)
  | gate (controller : Address) (attemptId : UInt64) (frozenUntil : UInt32)
  | insert (pool account : Address) (enrollmentId commitment : Bytes32)

structure Invocation (S : Setting σ) where
  around : Surroundings
  action : Action S

inductive Reply
  | done
  | applied (docHash : Bytes32)
  | scheduled (requestId : UInt64)
  | called (reply : Recovery.Reply)
deriving DecidableEq

/-- A controller's call of `rcv_gate` reaches the account it acts for. -/
def deliver (S : Setting σ) (controller : Address) (call : Recovery.Call)
    (gate : Option GateCall) (storage : AccountStorage) : Except AccountFailure AccountStorage :=
  match gate with
  | some gate =>
      if call.account = S.me then
        rcvGate controller gate.attemptId gate.frozenUntil storage
      else pure storage
  | none => pure storage

section Run

variable (S : Setting σ) (around : Surroundings) (state : State σ)

def callController (controller : Address) (visible authorized : Bool) (call : Recovery.Call) :
    Except AccountFailure (Reply × State σ) := do
  require (S.deployed controller = true) .trapped
  let outcome ← (Recovery.execute (S.controller controller)
    (S.outside around state.account.storage controller visible authorized call)
    (state.world.controllers controller) call).mapError controllerFailure
  let storage ← deliver S controller call outcome.gate state.account.storage
  pure (.called outcome.reply,
    { account := { state.account with storage := storage }
      world := state.world.setController controller outcome.storage })

/-- `rcv_gate` asks that its caller is the controller the account adopted. -/
def gateElsewhere (controller : Address) (attemptId : UInt64) (frozenUntil : UInt32) :
    Except AccountFailure (Reply × State σ) := do
  require (S.deployed controller = false ∧ S.foreign controller = true) .trapped
  let storage ← rcvGate controller attemptId frozenUntil state.account.storage
  pure (.done, { state with account := { state.account with storage := storage } })

/-- Only the account itself inserts for the account. -/
def insertElsewhere (pool account : Address) (enrollmentId commitment : Bytes32) :
    Except AccountFailure (Reply × State σ) := do
  require (account ≠ S.me) .trapped
  let depth ← orFail (S.depth pool) .trapped
  let (_, s) ← (Zk.rcvInsert S.poseidon2 depth (state.world.pools pool) account enrollmentId
    commitment).mapError fun _ => .trapped
  pure (.done, { state with world := state.world.setPool pool s })

end Run

def Invocation.run (S : Setting σ) (invocation : Invocation S) (state : State σ) :
    Except AccountFailure (Reply × State σ) :=
  let callees := S.callees invocation.around
  let now := invocation.around.env.sequence
  match invocation.action with
  | .applyDoc docJson approvalValidUntil expectedRevision => do
      let (hash, account, world) ← applyDoc S.code callees now docJson approvalValidUntil
        expectedRevision state.account state.world
      pure (.applied hash, { account := account, world := world })
  | .cancelRecovery attemptId => do
      let world ← cancelRecovery callees attemptId state.account state.world
      pure (.done, { state with world := world })
  | .scheduleUpgrade wasmHash approvalValidUntil => do
      let (requestId, storage, world) ← scheduleUpgrade callees now wasmHash approvalValidUntil
        state.account.storage state.world
      pure (.scheduled requestId,
        { account := { state.account with storage := storage }, world := world })
  | .executeUpgrade requestId => do
      let (storage, world) ← executeUpgrade callees now requestId state.account.storage state.world
      pure (.done, { account := { state.account with storage := storage }, world := world })
  | .cancelUpgrade => do
      let storage ← cancelUpgrade callees state.account.storage
      pure (.done, { state with account := { state.account with storage := storage } })
  | .checkAuth auth signaturePayload signatures contexts => do
      let world ← checkAuth S.code now (auth.run invocation.around) signaturePayload signatures
        contexts state.account state.world
      pure (.done, { state with world := world })
  | .call controller visible authorized call =>
      callController S invocation.around state controller visible authorized call
  | .gate controller attemptId frozenUntil =>
      gateElsewhere S state controller attemptId frozenUntil
  | .insert pool account enrollmentId commitment =>
      insertElsewhere S state pool account enrollmentId commitment

abbrev JointStep (S : Setting σ) := Step (State σ) (Invocation S) (Except AccountFailure Reply)

def system (S : Setting σ) :
    System UInt32 (State σ) (Invocation S) (Except AccountFailure Reply) where
  clock invocation := invocation.around.env.sequence
  respond state invocation :=
    match invocation.run S state with
    | .ok (reply, after) => (.ok reply, after)
    | .error failure => (.error failure, state)

def World.slice (S : Setting σ) (world : World) (controller : Address) : Slice :=
  (world.controllers controller).slice S.me

abbrev State.slice (S : Setting σ) (state : State σ) (controller : Address) : Slice :=
  state.world.slice S controller

/-- The account just built: its store held no rule, and no other contract has
anything of it. -/
structure Origin (S : Setting σ) (state : State σ) : Prop where
  built : ∃ (around : Surroundings) (adminSigners : List Signer) (store : σ),
    (∀ id, S.code.oz.getContextRule store id = none) ∧
      installAdmin S.code (S.callees around) around.env.sequence adminSigners store state.world =
        .ok state.account
  unknown : ∀ controller, state.slice S controller = Storage.empty.slice S.me
  unenrolled : ∀ pool enrollmentId, (state.world.pools pool).enrollment (S.me, enrollmentId) = none

structure Lived (S : Setting σ) (history : List (JointStep S)) (now : UInt32) (state : State σ) :
    Prop where
  run : ∃ start origin, Origin S origin ∧
    Execution (system S) start origin history now state

/-- Only recovery controllers answer in a controller's place, so an account adopts
no other contract. -/
def Setting.Honest (S : Setting σ) : Prop := ∀ controller, S.foreign controller = false

structure Reached (S : Setting σ) (history : List (JointStep S)) (now : UInt32) (state : State σ) :
    Prop extends Lived S history now state where
  honest : S.Honest

end Perch.Joint
