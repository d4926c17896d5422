/-
What one step of the joint system does.

A step is read back once, as what it did to the account, to the account's slice
of each controller, and to the pools.  Everything proved about runs is proved
from that.
-/

import Perch.Joint.World

namespace Perch.Joint

open Machine Document Recovery Account

variable {σ : Type} {S : Setting σ}

/-! ### A controller acting for the account -/

/-- One controller acted for the account, and nothing else moved. -/
structure Acts (S : Setting σ) (e : Env) (controller : Address) (call : Recovery.Call)
    (reply : Recovery.Reply) (gate : Option GateCall) (world world' : World) : Prop where
  deployed : S.deployed controller = true
  transition : Transition (S.controller controller) e S.me (world.slice S controller) call reply
    gate (world'.slice S controller)
  elsewhere : ∀ other, other ≠ controller → world'.slice S other = world.slice S other
  pools : world'.pools = world.pools

@[simp] theorem slice_setController (world : World) (controller : Address)
    (s : Recovery.Storage) :
    (world.setController controller s).slice S controller = s.slice S.me := by
  simp [World.slice, World.setController]

theorem slice_setController_of_ne (world : World) {controller other : Address}
    (s : Recovery.Storage) (distinct : other ≠ controller) :
    (world.setController controller s).slice S other = world.slice S other := by
  simp [World.slice, World.setController, distinct]

theorem atController_eq_ok {α : Type} {world world' : World} {controller : Address}
    {run : Recovery.Storage → Except Failure (α × Recovery.Storage)} {foreign : Except Failure α}
    {answer : α} :
    S.atController world controller run foreign = .ok (answer, world') ↔
      (S.deployed controller = true ∧ ∃ s, run (world.controllers controller) = .ok (answer, s) ∧
        world.setController controller s = world') ∨
      (S.deployed controller = false ∧ S.foreign controller = true ∧ foreign = .ok answer ∧
        world = world') := by
  unfold Setting.atController
  cases deployed : S.deployed controller with
  | true =>
      simp only [if_true, bind_eq_ok, pure_eq_ok, Prod.mk.injEq, Prod.exists, true_and,
        Bool.true_eq_false, false_and, or_false]
      constructor
      · rintro ⟨_, s, ran, rfl, rfl⟩
        exact ⟨s, ran, rfl⟩
      · rintro ⟨s, ran, rfl⟩
        exact ⟨answer, s, ran, rfl, rfl⟩
  | false =>
      simp only [Bool.false_eq_true, if_false, bind_eq_ok, require_eq_ok, pure_eq_ok,
        Prod.mk.injEq, false_and, false_or, true_and]
      constructor
      · rintro ⟨_, here, _, answered, rfl, rfl⟩
        exact ⟨here, answered, rfl⟩
      · rintro ⟨here, answered, rfl⟩
        exact ⟨(), here, answer, answered, rfl, rfl⟩

/-- The account called a controller: a recovery controller acted, or another
contract answered and nothing here moved. -/
inductive Called (S : Setting σ) (around : Surroundings) (controller : Address)
    (call : Recovery.Call) (reply : Recovery.Reply) (world : World) : World → Prop where
  | acted {world' : World}
      (acts : Acts S (S.inside around) controller call reply none world world') :
      Called S around controller call reply world world'
  | answered (absent : S.deployed controller = false) (foreign : S.foreign controller = true) :
      Called S around controller call reply world world

theorem Acts.of_transition {e : Env} {controller : Address} {call : Recovery.Call}
    {reply : Recovery.Reply} {gate : Option GateCall} {world : World} {s : Recovery.Storage}
    (deployed : S.deployed controller = true)
    (transition : Transition (S.controller controller) e S.me (world.slice S controller) call reply
      gate (s.slice S.me)) :
    Acts S e controller call reply gate world (world.setController controller s) where
  deployed := deployed
  transition := by
    rw [slice_setController]
    exact transition
  elsewhere other distinct := slice_setController_of_ne world s distinct
  pools := rfl

section Callees

variable {around : Surroundings} {world world' : World} {controller : Address}

theorem rcvSync_called {docHash : Bytes32} {recovery : List CompiledRecoveryConfig}
    {validUntil : UInt32} {outcome : SyncOutcome}
    (called : (S.callees around).rcvSync world controller docHash recovery validUntil =
      .ok (outcome, world')) :
    Called S around controller (.rcvSync S.me docHash recovery validUntil) (.synced outcome) world
      world' := by
  simp only [Setting.callees, atController_eq_ok] at called
  rcases called with ⟨deployed, s, ran, rfl⟩ | ⟨absent, foreign, _, rfl⟩
  · exact .acted (.of_transition deployed (rcvSync_slice ran).2)
  · exact .answered absent foreign

theorem rcvUpgrade_called {step : UpgradeStep} {epoch : UInt64}
    (called : (S.callees around).rcvUpgrade world controller step = .ok (epoch, world')) :
    Called S around controller (.rcvUpgrade S.me step) (.epoch epoch) world world' := by
  simp only [Setting.callees, atController_eq_ok] at called
  rcases called with ⟨deployed, s, ran, rfl⟩ | ⟨absent, foreign, _, rfl⟩
  · exact .acted (.of_transition deployed (rcvUpgrade_slice ran).2)
  · exact .answered absent foreign

/-- The owner cancels under the `loss` profile only, which has no freeze. -/
theorem gate_of_rcvCancel {d : Deployment} {e : Env} {account : Address} {m m' : Slice}
    {call : Recovery.Call} {attemptId : UInt64} {reply : Recovery.Reply} {gate : Option GateCall}
    (transition : Transition d e account m call reply gate m')
    (named : call = .rcvCancel account attemptId) : gate = none := by
  cases transition with
  | cancelledAuthorized _ _ _ _ cause =>
      cases cause with
      | owner _ loss => simp [gateCall, loss]
      | evidence submitted =>
          rcases Submission.call_eq submitted with ⟨_, rfl⟩ | ⟨_, rfl⟩ <;> cases named
  | authorized _ _ _ _ submitted =>
      rcases Submission.call_eq submitted with ⟨_, rfl⟩ | ⟨_, rfl⟩ <;> cases named
  | _ => rfl

theorem rcvCancel_called {attemptId : UInt64} (keyed : (world.slice S controller).Keyed)
    (called : (S.callees around).rcvCancel world controller attemptId = .ok world') :
    Called S around controller (.rcvCancel S.me attemptId) .done world world' := by
  simp only [Setting.callees, atController_eq_ok, bind_eq_ok, pure_eq_ok, Prod.mk.injEq,
    Prod.exists] at called
  obtain ⟨_, _, ⟨deployed, s, ⟨_, _, ran, _, rfl⟩, rfl⟩ | ⟨absent, foreign, _, rfl⟩, rfl⟩ := called
  · have transition : Transition (S.controller controller) (S.inside around) S.me
        (world.slice S controller) (.rcvCancel S.me attemptId) .done _ _ :=
      (rcvCancel_slice keyed ran).2
    rw [gate_of_rcvCancel transition rfl] at transition
    exact .acted (.of_transition deployed transition)
  · exact .answered absent foreign

theorem enforce_acts {call : Setting.EnforceCall}
    (enforced : S.enforce around world call = .ok world') :
    (S.deployed call.policy = false ∧ world' = world) ∨
      Acts S (S.inside around) call.policy
        (.enforce call.context call.authenticated call.rule S.me) .done none world world' := by
  unfold Setting.enforce at enforced
  split at enforced
  next deployed =>
    right
    simp only [bind_eq_ok, pure_eq_ok] at enforced
    obtain ⟨s, ran, rfl⟩ := enforced
    exact .of_transition deployed (enforce_slice ran).2
  next absent =>
    left
    rw [pure_eq_ok] at enforced
    exact ⟨Bool.not_eq_true _ ▸ absent, enforced.symm⟩

end Callees

/-- Policies that enforce leave only completion markers behind. -/
structure Marked (S : Setting σ) (world world' : World) : Prop where
  slices : ∀ controller, ∃ completing,
    world'.slice S controller = { world.slice S controller with completing := completing }
  pools : world'.pools = world.pools

theorem Marked.refl (world : World) : Marked S world world :=
  ⟨fun controller => ⟨(world.slice S controller).completing, rfl⟩, rfl⟩

theorem Marked.trans {world world' world'' : World} (first : Marked S world world')
    (second : Marked S world' world'') : Marked S world world'' := by
  refine ⟨fun controller => ?_, second.pools.trans first.pools⟩
  obtain ⟨completing, marked⟩ := first.slices controller
  obtain ⟨completing', marked'⟩ := second.slices controller
  refine ⟨completing', ?_⟩
  rw [marked', marked]

theorem enforced_slice {d : Deployment} {e : Env} {account : Address} {m m' : Slice}
    {call : Recovery.Call} {context : Context} {signers : List Signer} {rule : ContextRule}
    {reply : Recovery.Reply} {gate : Option GateCall}
    (transition : Transition d e account m call reply gate m')
    (named : call = .enforce context signers rule account) :
    ∃ completing, m' = { m with completing := completing } := by
  cases transition with
  | enforced => exact ⟨_, rfl⟩
  | begun _ known => rcases known with rfl | rfl <;> cases named
  | cancelledCollecting _ _ _ _ cause =>
      cases cause with
      | owner => cases named
      | evidence submitted =>
          rcases Submission.call_eq submitted with ⟨_, rfl⟩ | ⟨_, rfl⟩ <;> cases named
  | cancelledAuthorized _ _ _ _ cause =>
      cases cause with
      | owner => cases named
      | evidence submitted =>
          rcases Submission.call_eq submitted with ⟨_, rfl⟩ | ⟨_, rfl⟩ <;> cases named
  | recorded _ _ _ _ submitted =>
      rcases Submission.call_eq submitted with ⟨_, rfl⟩ | ⟨_, rfl⟩ <;> cases named
  | invalidated _ _ _ _ submitted =>
      rcases Submission.call_eq submitted with ⟨_, rfl⟩ | ⟨_, rfl⟩ <;> cases named
  | authorized _ _ _ _ submitted =>
      rcases Submission.call_eq submitted with ⟨_, rfl⟩ | ⟨_, rfl⟩ <;> cases named
  | _ => cases named

theorem Acts.marked {e : Env} {controller : Address} {context : Context} {signers : List Signer}
    {rule : ContextRule} {reply : Recovery.Reply} {gate : Option GateCall} {world world' : World}
    (acts : Acts S e controller (.enforce context signers rule S.me) reply gate world world') :
    Marked S world world' := by
  refine ⟨fun other => ?_, acts.pools⟩
  by_cases here : other = controller
  · subst here
    exact enforced_slice acts.transition rfl
  · exact ⟨(world.slice S other).completing, acts.elsewhere other here⟩

theorem enforces_marked {around : Surroundings} {calls : List Setting.EnforceCall}
    {world world' : World}
    (enforced : calls.foldlM (S.enforce around) world = .ok world') : Marked S world world' := by
  induction calls generalizing world with
  | nil =>
      cases enforced
      exact .refl _
  | cons call rest ih =>
      rw [List.foldlM_cons, bind_eq_ok] at enforced
      obtain ⟨between, first, more⟩ := enforced
      rcases enforce_acts first with ⟨_, rfl⟩ | acts
      · exact ih more
      · exact acts.marked.trans (ih more)

/-! ### Hooks and outside calls -/

theorem Transition.authorized_of_isHook {d : Deployment} {e : Env} {account : Address}
    {m m' : Slice} {call : Recovery.Call} {reply : Recovery.Reply} {gate : Option GateCall}
    (transition : Transition d e account m call reply gate m') (hook : Call.isHook call = true) :
    e.requireAuth account = true := by
  cases transition with
  | completed invoked => exact invoked
  | classified invoked => exact invoked
  | scheduled invoked => exact invoked
  | upgraded invoked => exact invoked
  | installed invoked => exact invoked
  | uninstalled invoked => exact invoked
  | enforced invoked => exact invoked
  | cancelledCollecting _ _ _ _ cause =>
      cases cause with
      | owner invoked => exact invoked
      | evidence submitted =>
          rcases Submission.call_eq submitted with ⟨_, rfl⟩ | ⟨_, rfl⟩ <;> cases hook
  | cancelledAuthorized _ _ _ _ cause =>
      cases cause with
      | owner invoked => exact invoked
      | evidence submitted =>
          rcases Submission.call_eq submitted with ⟨_, rfl⟩ | ⟨_, rfl⟩ <;> cases hook
  | begun _ known => rcases known with rfl | rfl <;> cases hook
  | recorded _ _ _ _ submitted =>
      rcases Submission.call_eq submitted with ⟨_, rfl⟩ | ⟨_, rfl⟩ <;> cases hook
  | invalidated _ _ _ _ submitted =>
      rcases Submission.call_eq submitted with ⟨_, rfl⟩ | ⟨_, rfl⟩ <;> cases hook
  | authorized _ _ _ _ submitted =>
      rcases Submission.call_eq submitted with ⟨_, rfl⟩ | ⟨_, rfl⟩ <;> cases hook
  | renewed | approved | proved | published => cases hook

theorem Acts.not_hook {around : Surroundings} {storage : AccountStorage} {controller : Address}
    {visible authorized : Bool} {call : Recovery.Call} {reply : Recovery.Reply}
    {gate : Option GateCall} {world world' : World}
    (acts : Acts S (S.outside around storage controller visible authorized call) controller call
      reply gate world world') : Call.isHook call = false := by
  by_contra hook
  rw [Bool.not_eq_false] at hook
  have invoked := Transition.authorized_of_isHook acts.transition hook
  simp [Setting.outside, Setting.envWith, Call.reserved_of_isHook hook] at invoked

theorem execute_slice_of_ne {d : Deployment} {e : Env} {s : Recovery.Storage}
    {call : Recovery.Call} {outcome : Outcome} {account : Address}
    (executed : Recovery.execute d e s call = .ok outcome) (distinct : account ≠ call.account) :
    outcome.storage.slice account = s.slice account := by
  have exchanged := execute_among d e s s call
  rw [Storage.among_of_same (.refl _ s), executed] at exchanged
  have kept := congrArg Outcome.storage (Except.ok.inj exchanged)
  rw [kept]
  simp [Outcome.among, Storage.among, Storage.slice, own, ownKeyed, distinct, epochOf,
    nextAttemptOf, invalidateBelowOf]

/-! ### Steps -/

/-- The adopted controller's half of an upgrade step, with the epoch it
answered. -/
def UpgradeHalf (S : Setting σ) (around : Surroundings) (adopted : Option Address)
    (step : UpgradeStep) (epoch : Option UInt64) (world world' : World) : Prop :=
  match adopted with
  | none => epoch = none ∧ world' = world
  | some controller => ∃ answered, epoch = some answered ∧
      Called S around controller (.rcvUpgrade S.me step) (.epoch answered) world world'

inductive Happened (S : Setting σ) (invocation : Invocation S) (before : State σ) :
    Reply → State σ → Prop where
  | applied {docJson : Bytes} {validUntil : UInt32} {expected : Option UInt64}
      {compiled : CompiledDoc} {leaf : Option CompiledZkFactor} {outcome joined : SyncOutcome}
      {synced : World} {after : State σ}
      (asked : invocation.action = .applyDoc docJson validUntil expected)
      (effect : ApplyEffect S.code (S.callees invocation.around) invocation.around.env.sequence
        .cheapest docJson validUntil before.account before.world compiled leaf outcome synced
        after.account after.world)
      (counters : ApplyCounters (S.callees invocation.around) validUntil before.account
        before.world compiled outcome joined synced expected after.account) :
      Happened S invocation before (.applied compiled.docHash) after
  | recoveryCancelled {attemptId : UInt64} {controller : Address} {world' : World}
      (asked : invocation.action = .cancelRecovery attemptId)
      (adopted : before.account.storage.recoveryController = some controller)
      (called : Called S invocation.around controller (.rcvCancel S.me attemptId) .done
        before.world world') :
      Happened S invocation before .done { before with world := world' }
  | upgradeScheduled {wasmHash : Bytes32} {validUntil : UInt32} {next : UInt64}
      {epoch : Option UInt64} {request : UpgradeRequest} {world' : World}
      (asked : invocation.action = .scheduleUpgrade wasmHash validUntil)
      (counted : checkedSucc (before.account.storage.nextUpgradeId.getD 0) = some next)
      (half : UpgradeHalf S invocation.around before.account.storage.recoveryController
        (.schedule ⟨before.account.storage.nextUpgradeId.getD 0, wasmHash⟩ validUntil) epoch
        before.world world')
      (recorded : UpgradeRequest.schedule (before.account.storage.nextUpgradeId.getD 0) wasmHash
        before.account.storage.generationOf epoch invocation.around.env.sequence = some request) :
      Happened S invocation before (.scheduled (before.account.storage.nextUpgradeId.getD 0))
        { account :=
            { before.account with
              storage :=
                { before.account.storage with
                  nextUpgradeId := some next
                  pendingUpgrade := some request } }
          world := world' }
  | upgradeExecuted {request : UpgradeRequest} {generation revision : UInt64} {world' : World}
      (asked : invocation.action = .executeUpgrade request.requestId)
      (authorized : invocation.around.env.requireAuth S.me = true)
      (uploaded : invocation.around.uploaded request.wasmHash = true)
      (pending : before.account.storage.pendingUpgrade = some request)
      (ready : request.readiness invocation.around.env.sequence
        before.account.storage.generationOf = .ready)
      (half : before.account.storage.recoveryController = none ∧ world' = before.world ∨
        ∃ controller recorded answered,
          before.account.storage.recoveryController = some controller ∧
          request.controllerEpoch = some recorded ∧
          Called S invocation.around controller (.rcvUpgrade S.me (.execute recorded))
            (.epoch answered) before.world world')
      (advanced : checkedSucc before.account.storage.generationOf = some generation)
      (revised : checkedSucc before.account.storage.revisionOf = some revision) :
      Happened S invocation before .done
        { account :=
            { before.account with
              storage :=
                { before.account.storage with
                  pendingUpgrade := none
                  recoveryGeneration := some generation
                  revision := some revision } }
          world := world' }
  | upgradeDropped {request : UpgradeRequest} (asked : invocation.action = .cancelUpgrade)
      (pending : before.account.storage.pendingUpgrade = some request) :
      Happened S invocation before .done
        { before with
          account :=
            { before.account with
              storage := { before.account.storage with pendingUpgrade := none } } }
  | authorized {auth : S.CheckAuth} {signaturePayload : Bytes32} {signatures : AuthPayload}
      {contexts : List Context} {world' : World}
      (asked : invocation.action = .checkAuth auth signaturePayload signatures contexts)
      (marked : Marked S before.world world') :
      Happened S invocation before .done { before with world := world' }
  | called {controller : Address} {visible authorized : Bool} {call : Recovery.Call}
      {reply : Recovery.Reply} {gate : Option GateCall} {world' : World}
      {storage' : AccountStorage}
      (asked : invocation.action = .call controller visible authorized call)
      (own : call.account = S.me) (free : Call.isHook call = false)
      (acts : Acts S (S.outside invocation.around before.account.storage controller visible
        authorized call) controller call reply gate before.world world')
      (delivered : deliver S controller call gate before.account.storage = .ok storage') :
      Happened S invocation before (.called reply)
        { account := { before.account with storage := storage' }, world := world' }
  | gated {controller : Address} {attemptId : UInt64} {frozenUntil : UInt32}
      {storage' : AccountStorage}
      (asked : invocation.action = .gate controller attemptId frozenUntil)
      (absent : S.deployed controller = false) (foreign : S.foreign controller = true)
      (gated : rcvGate controller attemptId frozenUntil before.account.storage = .ok storage') :
      Happened S invocation before .done
        { before with account := { before.account with storage := storage' } }
  | elsewhere {reply : Reply} {world' : World}
      (asked : (∃ controller visible authorized call answer,
          invocation.action = .call controller visible authorized call ∧ reply = .called answer) ∨
        ∃ pool account enrollmentId commitment,
          invocation.action = .insert pool account enrollmentId commitment ∧ reply = .done)
      (slices : ∀ controller, world'.slice S controller = before.world.slice S controller)
      (pools : ∀ pool enrollmentId, (world'.pools pool).enrollment (S.me, enrollmentId) =
        (before.world.pools pool).enrollment (S.me, enrollmentId)) :
      Happened S invocation before reply { before with world := world' }

theorem scheduleAtController_half {around : Surroundings} {subject : UpgradeSubject}
    {validUntil : UInt32} {storage : AccountStorage} {world world' : World}
    {epoch : Option UInt64}
    (scheduled : scheduleAtController (S.callees around) subject validUntil storage world =
      .ok (epoch, world')) :
    UpgradeHalf S around storage.recoveryController (.schedule subject validUntil) epoch world
      world' := by
  unfold scheduleAtController at scheduled
  unfold UpgradeHalf
  cases adopted : storage.recoveryController with
  | none =>
      simp only [adopted, pure_eq_ok, Prod.mk.injEq] at scheduled
      exact ⟨scheduled.1.symm, scheduled.2.symm⟩
  | some controller =>
      simp only [adopted, bind_eq_ok, mapError_eq_ok, pure_eq_ok, Prod.mk.injEq,
        Prod.exists] at scheduled
      obtain ⟨answered, _, called, rfl, rfl⟩ := scheduled
      exact ⟨answered, rfl, rcvUpgrade_called called⟩

theorem executeAtController_half {around : Surroundings} {request : UpgradeRequest}
    {storage : AccountStorage} {world world' : World}
    (executed : executeAtController (S.callees around) request storage world = .ok world') :
    storage.recoveryController = none ∧ world' = world ∨
      ∃ controller recorded answered, storage.recoveryController = some controller ∧
        request.controllerEpoch = some recorded ∧
        Called S around controller (.rcvUpgrade S.me (.execute recorded)) (.epoch answered) world
          world' := by
  unfold executeAtController at executed
  cases adopted : storage.recoveryController with
  | none =>
      simp only [adopted, pure_eq_ok] at executed
      exact .inl ⟨rfl, executed.symm⟩
  | some controller =>
      simp only [adopted, bind_eq_ok, orFail_eq_ok, mapError_eq_ok, pure_eq_ok,
        Prod.exists] at executed
      obtain ⟨recorded, bound, answered, _, called, rfl⟩ := executed
      exact .inr ⟨controller, recorded, answered, rfl, bound, rcvUpgrade_called called⟩

theorem readiness_eq_ready {request : UpgradeRequest} {now : UInt32} {generation : UInt64}
    (fresh : request.readiness now generation ≠ .stale)
    (due : request.readiness now generation ≠ .notYet) :
    request.readiness now generation = .ready := by
  cases found : request.readiness now generation with
  | ready => rfl
  | notYet => exact absurd found due
  | stale => exact absurd found fresh

section Inversion

variable {invocation : Invocation S} {state after : State σ} {reply : Reply}

theorem callController_happened {controller : Address} {visible authorized : Bool}
    {call : Recovery.Call} (keyed : (state.slice S controller).Keyed)
    (asked : invocation.action = .call controller visible authorized call)
    (ran : callController S invocation.around state controller visible authorized call =
      .ok (reply, after)) : Happened S invocation state reply after := by
  simp only [callController, bind_eq_ok, require_eq_ok, mapError_eq_ok, pure_eq_ok,
    Prod.mk.injEq] at ran
  obtain ⟨_, deployed, outcome, executed, storage', delivered, rfl, rfl⟩ := ran
  by_cases own : call.account = S.me
  · have transition : Transition (S.controller controller)
        (S.outside invocation.around state.account.storage controller visible authorized call)
        S.me (state.world.slice S controller) call outcome.reply outcome.gate
        (outcome.storage.slice S.me) := by
      have moved := execute_transition (own ▸ keyed) executed
      rw [own] at moved
      exact moved.2
    have acts := Acts.of_transition deployed transition
    exact .called asked own acts.not_hook acts delivered
  · have kept : storage' = state.account.storage := by
      simp only [deliver, own, if_false] at delivered
      split at delivered <;> exact (pure_eq_ok.mp delivered).symm
    subst kept
    refine .elsewhere (.inl ⟨_, _, _, _, _, asked, rfl⟩) (fun other => ?_) fun _ _ => rfl
    by_cases here : other = controller
    · subst here
      rw [slice_setController]
      exact execute_slice_of_ne executed (Ne.symm own)
    · exact slice_setController_of_ne _ _ here

theorem gateElsewhere_happened {controller : Address} {attemptId : UInt64}
    {frozenUntil : UInt32} (asked : invocation.action = .gate controller attemptId frozenUntil)
    (ran : gateElsewhere S state controller attemptId frozenUntil = .ok (reply, after)) :
    Happened S invocation state reply after := by
  simp only [gateElsewhere, bind_eq_ok, require_eq_ok, pure_eq_ok, Prod.mk.injEq] at ran
  obtain ⟨_, ⟨absent, foreign⟩, storage', gated, rfl, rfl⟩ := ran
  exact .gated asked absent foreign gated

theorem insertElsewhere_happened {pool account : Address} {enrollmentId commitment : Bytes32}
    (asked : invocation.action = .insert pool account enrollmentId commitment)
    (ran : insertElsewhere S state pool account enrollmentId commitment = .ok (reply, after)) :
    Happened S invocation state reply after := by
  simp only [insertElsewhere, bind_eq_ok, require_eq_ok, orFail_eq_ok, mapError_eq_ok, pure_eq_ok,
    Prod.mk.injEq, Prod.exists] at ran
  obtain ⟨_, other, depth, _, insertion, s, inserted, rfl, rfl⟩ := ran
  obtain ⟨_, _, _, position, enrolled⟩ := Zk.rcvInsert_eq_ok inserted
  refine .elsewhere (.inr ⟨_, _, _, _, asked, rfl⟩) (fun _ => rfl) fun place id => ?_
  by_cases here : place = pool
  · subst here
    have apart : (S.me, id) ≠ (account, enrollmentId) := by
      intro same
      exact other (Prod.mk.inj same).1.symm
    simp only [World.setPool, Function.update_self]
    rw [enrolled, Function.update_of_ne apart]
  · simp [World.setPool, here]

/-- A successful step is one of the listed ones. -/
theorem run_happened (keyed : ∀ controller, (state.slice S controller).Keyed)
    (ran : invocation.run S state = .ok (reply, after)) :
    Happened S invocation state reply after := by
  unfold Invocation.run at ran
  cases asked : invocation.action with
  | applyDoc docJson validUntil expected =>
      simp only [asked, bind_eq_ok, pure_eq_ok, Prod.mk.injEq, Prod.exists] at ran
      obtain ⟨hash, account, world, applied, rfl, rfl⟩ := ran
      obtain ⟨compiled, leaf, outcome, joined, synced, rfl, effect, counters⟩ :=
        apply_cases applied
      exact .applied asked effect counters
  | cancelRecovery attemptId =>
      simp only [asked, cancelRecovery, bind_eq_ok, orFail_eq_ok, require_eq_ok, mapError_eq_ok,
        pure_eq_ok, Prod.mk.injEq] at ran
      obtain ⟨world, ⟨_, _, controller, adopted, called⟩, rfl, rfl⟩ := ran
      exact .recoveryCancelled asked adopted (rcvCancel_called (keyed controller) called)
  | scheduleUpgrade wasmHash validUntil =>
      simp only [asked, scheduleUpgrade, bind_eq_ok, orFail_eq_ok, require_eq_ok, pure_eq_ok,
        Prod.mk.injEq, Prod.exists] at ran
      obtain ⟨_, _, _, ⟨_, _, next, counted, epoch, _, half, request, recorded, rfl, rfl, rfl⟩, rfl,
        rfl⟩ := ran
      exact .upgradeScheduled asked counted (scheduleAtController_half half) recorded
  | executeUpgrade requestId =>
      simp only [asked, executeUpgrade, bind_eq_ok, orFail_eq_ok, require_eq_ok, pure_eq_ok,
        Prod.mk.injEq, Prod.exists, advanceGeneration_eq_ok, advanceRevision_eq_ok] at ran
      obtain ⟨_, _, ⟨_, authorized, request, pending, _, rfl, _, fresh, _, due, _, half, _,
        ⟨generation, advanced, rfl⟩, _, ⟨revision, revised, rfl⟩, _, uploaded, rfl, rfl⟩, rfl,
        rfl⟩ := ran
      exact .upgradeExecuted asked authorized uploaded pending (readiness_eq_ready fresh due)
        (executeAtController_half half) advanced revised
  | cancelUpgrade =>
      simp only [asked, cancelUpgrade, bind_eq_ok, require_eq_ok, pure_eq_ok, Prod.mk.injEq] at ran
      obtain ⟨_, ⟨_, _, _, present, rfl⟩, rfl, rfl⟩ := ran
      obtain ⟨request, pending⟩ := Option.isSome_iff_exists.mp present
      exact .upgradeDropped asked pending
  | checkAuth auth signaturePayload signatures contexts =>
      simp only [asked, checkAuth, bind_eq_ok, require_eq_ok, mapError_eq_ok, pure_eq_ok,
        Prod.mk.injEq] at ran
      obtain ⟨world, ⟨_, _, _, _, evaluated⟩, rfl, rfl⟩ := ran
      obtain ⟨selected, _, _, _, enforced⟩ := auth.enforces evaluated
      exact .authorized asked (enforces_marked enforced)
  | call controller visible authorized call =>
      rw [asked] at ran
      exact callController_happened (keyed controller) asked ran
  | gate controller attemptId frozenUntil =>
      rw [asked] at ran
      exact gateElsewhere_happened asked ran
  | insert pool account enrollmentId commitment =>
      rw [asked] at ran
      exact insertElsewhere_happened asked ran

end Inversion

/-! ### Steps that apply nothing -/

inductive SliceStep (S : Setting σ) (invocation : Invocation S) (storage : AccountStorage)
    (controller : Address) (m : Slice) : Slice → Prop where
  | marked (completing : Option (Temporary CompletionMarker)) :
      SliceStep S invocation storage controller m { m with completing := completing }
  | moved {e : Env} {call : Recovery.Call} {reply : Recovery.Reply} {gate : Option GateCall}
      {m' : Slice}
      (met : e = S.inside invocation.around ∨ ∃ visible authorized,
        invocation.action = .call controller visible authorized call ∧
          e = S.outside invocation.around storage controller visible authorized call)
      (transition : Transition (S.controller controller) e S.me m call reply gate m')
      (unsynced : ∀ outcome, reply ≠ .synced outcome) :
      SliceStep S invocation storage controller m m'

/-- A step that leaves the account's configuration, its revocations and the ids
it enrolled. -/
structure Unapplied (S : Setting σ) (invocation : Invocation S) (before after : State σ) :
    Prop where
  configuration : after.account.configuration = before.account.configuration
  revoked : after.account.storage.revoked = before.account.storage.revoked
  enrolledIds : after.account.storage.enrolledIds = before.account.storage.enrolledIds
  slices : ∀ controller, SliceStep S invocation before.account.storage controller
    (before.slice S controller) (after.slice S controller)
  pools : ∀ pool enrollmentId, (after.world.pools pool).enrollment (S.me, enrollmentId) =
    (before.world.pools pool).enrollment (S.me, enrollmentId)

theorem SliceStep.refl (S : Setting σ) (invocation : Invocation S) (storage : AccountStorage)
    (controller : Address) (m : Slice) : SliceStep S invocation storage controller m m :=
  .marked m.completing

@[simp] theorem inside_sequence (around : Surroundings) :
    (S.inside around).sequence = around.env.sequence := rfl

@[simp] theorem outside_sequence (around : Surroundings) (storage : AccountStorage)
    (controller : Address) (visible authorized : Bool) (call : Recovery.Call) :
    (S.outside around storage controller visible authorized call).sequence =
      around.env.sequence := rfl

theorem SliceStep.move {invocation : Invocation S} {storage : AccountStorage}
    {controller : Address} {m m' : Slice}
    (step : SliceStep S invocation storage controller m m') :
    ∃ e : Env, e.sequence = invocation.around.env.sequence ∧ Move e m m' := by
  cases step with
  | marked completing => exact ⟨invocation.around.env, rfl, .idle completing m.approval m.baseline⟩
  | moved met transition =>
      refine ⟨_, ?_, transition.move⟩
      rcases met with rfl | ⟨_, _, _, rfl⟩ <;> rfl

/-- A controller that acted, and the others, which did not. -/
theorem Acts.sliceSteps {invocation : Invocation S} {storage : AccountStorage} {e : Env}
    {controller : Address} {call : Recovery.Call} {reply : Recovery.Reply}
    {gate : Option GateCall} {world world' : World}
    (acts : Acts S e controller call reply gate world world')
    (met : e = S.inside invocation.around ∨ ∃ visible authorized,
      invocation.action = .call controller visible authorized call ∧
        e = S.outside invocation.around storage controller visible authorized call)
    (unsynced : ∀ outcome, reply ≠ .synced outcome) (other : Address) :
    SliceStep S invocation storage other (world.slice S other) (world'.slice S other) := by
  by_cases here : other = controller
  · subst here
    exact .moved met acts.transition unsynced
  · rw [acts.elsewhere other here]
    exact .refl S invocation storage other _

theorem Called.sliceSteps {invocation : Invocation S} {storage : AccountStorage}
    {controller : Address} {call : Recovery.Call} {reply : Recovery.Reply} {world world' : World}
    (called : Called S invocation.around controller call reply world world')
    (unsynced : ∀ outcome, reply ≠ .synced outcome) (other : Address) :
    SliceStep S invocation storage other (world.slice S other) (world'.slice S other) := by
  cases called with
  | acted acts => exact acts.sliceSteps (.inl rfl) unsynced other
  | answered => exact .refl S invocation storage other _

theorem Called.pools {around : Surroundings} {controller : Address} {call : Recovery.Call}
    {reply : Recovery.Reply} {world world' : World}
    (called : Called S around controller call reply world world') : world'.pools = world.pools := by
  cases called with
  | acted acts => exact acts.pools
  | answered => rfl

/-- Only `rcv_sync` answers with an outcome. -/
theorem Transition.unsynced_of_not_hook {d : Deployment} {e : Env} {account : Address}
    {m m' : Slice} {call : Recovery.Call} {reply : Recovery.Reply} {gate : Option GateCall}
    (transition : Transition d e account m call reply gate m') (free : Call.isHook call = false)
    (outcome : SyncOutcome) : reply ≠ .synced outcome := by
  rintro rfl
  cases transition with
  | completed => cases free
  | classified => cases free

theorem UpgradeHalf.sliceSteps {invocation : Invocation S} {storage : AccountStorage}
    {adopted : Option Address} {step : UpgradeStep} {epoch : Option UInt64} {world world' : World}
    (half : UpgradeHalf S invocation.around adopted step epoch world world') :
    (∀ controller, SliceStep S invocation storage controller (world.slice S controller)
      (world'.slice S controller)) ∧ world'.pools = world.pools := by
  unfold UpgradeHalf at half
  cases adopted with
  | none =>
      obtain ⟨_, rfl⟩ := half
      exact ⟨fun controller => .refl S invocation storage controller _, rfl⟩
  | some controller =>
      obtain ⟨answered, _, called⟩ := half
      exact ⟨called.sliceSteps (by simp), called.pools⟩

theorem deliver_frame {controller : Address} {call : Recovery.Call} {gate : Option GateCall}
    {storage storage' : AccountStorage}
    (delivered : deliver S controller call gate storage = .ok storage') :
    ∃ gate, storage' = { storage with gate := gate } := by
  unfold deliver at delivered
  cases gate with
  | none => exact ⟨storage.gate, (pure_eq_ok.mp delivered).symm⟩
  | some gate =>
      simp only at delivered
      split at delivered
      · exact rcvGate_configuration delivered
      · exact ⟨storage.gate, (pure_eq_ok.mp delivered).symm⟩

/-- A step applies a document or leaves the configuration alone. -/
theorem Happened.applied_or_unapplied {invocation : Invocation S} {before after : State σ}
    {reply : Reply} (happened : Happened S invocation before reply after) :
    (∃ docJson validUntil expected compiled leaf outcome joined synced,
      reply = .applied compiled.docHash ∧
      invocation.action = .applyDoc docJson validUntil expected ∧
      ApplyEffect S.code (S.callees invocation.around) invocation.around.env.sequence .cheapest
        docJson validUntil before.account before.world compiled leaf outcome synced after.account
        after.world ∧
      ApplyCounters (S.callees invocation.around) validUntil before.account before.world compiled
        outcome joined synced expected after.account) ∨
      Unapplied S invocation before after := by
  cases happened with
  | applied asked effect counters =>
      exact .inl ⟨_, _, _, _, _, _, _, _, rfl, asked, effect, counters⟩
  | recoveryCancelled asked adopted called =>
      exact .inr
        { configuration := rfl
          revoked := rfl
          enrolledIds := rfl
          slices := called.sliceSteps (by simp)
          pools := by simp [called.pools] }
  | upgradeScheduled asked counted half recorded =>
      obtain ⟨slices, pools⟩ := half.sliceSteps
      exact .inr
        { configuration := rfl
          revoked := rfl
          enrolledIds := rfl
          slices := slices
          pools := by simp [pools] }
  | upgradeExecuted asked authorized uploaded pending ready half =>
      right
      rcases half with ⟨_, rfl⟩ | ⟨controller, recorded, answered, _, _, called⟩
      · exact
          { configuration := rfl
            revoked := rfl
            enrolledIds := rfl
            slices := fun controller => .refl _ _ _ controller _
            pools := fun _ _ => rfl }
      · exact
          { configuration := rfl
            revoked := rfl
            enrolledIds := rfl
            slices := called.sliceSteps (by simp)
            pools := by simp [called.pools] }
  | upgradeDropped =>
      exact .inr
        { configuration := rfl
          revoked := rfl
          enrolledIds := rfl
          slices := fun controller => .refl _ _ _ controller _
          pools := fun _ _ => rfl }
  | authorized asked marked =>
      right
      refine
        { configuration := rfl
          revoked := rfl
          enrolledIds := rfl
          slices := fun controller => ?_
          pools := by simp [marked.pools] }
      obtain ⟨completing, after⟩ := marked.slices controller
      change SliceStep S _ _ controller _ (World.slice S _ controller)
      rw [after]
      exact .marked completing
  | called asked own free acts delivered =>
      obtain ⟨gate, rfl⟩ := deliver_frame delivered
      exact .inr
        { configuration := rfl
          revoked := rfl
          enrolledIds := rfl
          slices := acts.sliceSteps (.inr ⟨_, _, asked, rfl⟩)
            (Transition.unsynced_of_not_hook acts.transition free)
          pools := by simp [acts.pools] }
  | gated _ _ _ gated =>
      obtain ⟨gate, rfl⟩ := rcvGate_configuration gated
      exact .inr
        { configuration := rfl
          revoked := rfl
          enrolledIds := rfl
          slices := fun controller => .refl _ _ _ controller _
          pools := fun _ _ => rfl }
  | elsewhere _ slices pools =>
      right
      refine
        { configuration := rfl
          revoked := rfl
          enrolledIds := rfl
          slices := fun controller => ?_
          pools := pools }
      change SliceStep S _ _ controller _ (World.slice S _ controller)
      rw [slices controller]
      exact .refl _ _ _ controller _

/-! ### Syncing -/

/-- What an apply's syncing does to a slice: one `rcv_sync` of its controller at
most. -/
inductive SyncStep (S : Setting σ) (around : Surroundings) (controller : Address) (m : Slice) :
    Slice → Prop where
  | kept : SyncStep S around controller m m
  | synced {docHash : Bytes32} {recovery : List CompiledRecoveryConfig} {validUntil : UInt32}
      {outcome : SyncOutcome} {m' : Slice}
      (transition : Transition (S.controller controller) (S.inside around) S.me m
        (.rcvSync S.me docHash recovery validUntil) (.synced outcome) none m') :
      SyncStep S around controller m m'

theorem SyncStep.move {around : Surroundings} {controller : Address} {m m' : Slice}
    (step : SyncStep S around controller m m') : m' = m ∨ Move (S.inside around) m m' := by
  cases step with
  | kept => exact .inl rfl
  | synced transition => exact .inr transition.move

theorem Called.elsewhere {around : Surroundings} {controller other : Address}
    {call : Recovery.Call} {reply : Recovery.Reply} {world world' : World}
    (called : Called S around controller call reply world world') (distinct : other ≠ controller) :
    world'.slice S other = world.slice S other := by
  cases called with
  | acted acts => exact acts.elsewhere other distinct
  | answered => rfl

theorem Called.syncStep {around : Surroundings} {controller : Address} {docHash : Bytes32}
    {recovery : List CompiledRecoveryConfig} {validUntil : UInt32} {outcome : SyncOutcome}
    {world world' : World}
    (called : Called S around controller (.rcvSync S.me docHash recovery validUntil)
      (.synced outcome) world world') (other : Address) :
    SyncStep S around other (world.slice S other) (world'.slice S other) := by
  cases called with
  | answered => exact .kept
  | acted acts =>
      by_cases here : other = controller
      · subst here
        exact .synced acts.transition
      · rw [acts.elsewhere other here]
        exact .kept

section Syncs

variable {around : Surroundings} {compiled : CompiledDoc} {validUntil : UInt32}
  {adopted : Option Address} {outcome joined : SyncOutcome} {world synced : World}

theorem syncStep_of_syncedBoth
    (syncs : SyncedBoth (S.callees around) compiled validUntil adopted world outcome joined synced)
    (controller : Address) :
    SyncStep S around controller (world.slice S controller) (synced.slice S controller) := by
  cases syncs with
  | none => exact .kept
  | enrolled _ _ called => exact (rcvSync_called called).syncStep controller
  | stays _ _ called => exact (rcvSync_called called).syncStep controller
  | @switched old config _ _ _ _ _ _ elsewhere left called =>
      by_cases here : controller = config.controller
      · rw [← (rcvSync_called left).elsewhere (here ▸ elsewhere)]
        exact (rcvSync_called called).syncStep controller
      · rw [(rcvSync_called called).elsewhere here]
        exact (rcvSync_called left).syncStep controller

theorem pools_of_syncedBoth
    (syncs : SyncedBoth (S.callees around) compiled validUntil adopted world outcome joined
      synced) : synced.pools = world.pools := by
  cases syncs with
  | none => rfl
  | enrolled _ _ called => exact (rcvSync_called called).pools
  | stays _ _ called => exact (rcvSync_called called).pools
  | switched _ _ _ left called =>
      exact (rcvSync_called called).pools.trans (rcvSync_called left).pools

end Syncs

theorem controllers_of_leafInserted {around : Surroundings} {leaf : Option CompiledZkFactor}
    {before after : Bytes32 → Bool} {world world' : World}
    (inserted : LeafInserted (S.callees around) leaf before after world world') :
    world'.controllers = world.controllers := by
  unfold LeafInserted at inserted
  cases leaf with
  | none => rw [inserted.2]
  | some factor =>
      have called := inserted.2
      simp only [Setting.callees, Setting.rcvInsert] at called
      split at called
      · simp only [bind_eq_ok, pure_eq_ok, Prod.exists] at called
        obtain ⟨_, _, _, rfl⟩ := called
        rfl
      · simp only [bind_eq_ok, pure_eq_ok] at called
        obtain ⟨_, _, rfl⟩ := called
        rfl

theorem slices_of_controllers {world world' : World}
    (same : world'.controllers = world.controllers) : world'.slice S = world.slice S := by
  funext controller
  simp only [World.slice, same]

theorem syncStep_of_applied {around : Surroundings} {docJson : Bytes} {validUntil : UInt32}
    {expected : Option UInt64} {compiled : CompiledDoc} {leaf : Option CompiledZkFactor}
    {outcome joined : SyncOutcome} {synced : World} {state after : State σ}
    (effect : ApplyEffect S.code (S.callees around) around.env.sequence .cheapest docJson validUntil
      state.account state.world compiled leaf outcome synced after.account after.world)
    (counters : ApplyCounters (S.callees around) validUntil state.account state.world compiled
      outcome joined synced expected after.account) (controller : Address) :
    SyncStep S around controller (state.slice S controller) (after.slice S controller) := by
  have step := syncStep_of_syncedBoth counters.syncs controller
  rw [← slices_of_controllers (controllers_of_leafInserted effect.inserts)] at step
  exact step

/-! ### Every run -/

/-- Every controller keeps its own invariant, whatever else the account adopts. -/
def Sounds (S : Setting σ) (now : UInt32) (state : State σ) : Prop :=
  ∀ controller, (state.slice S controller).Sound now

namespace Sounds

variable {now : UInt32} {state after : State σ}

theorem later {later : UInt32} (sounds : Sounds S now state) (forward : now ≤ later) :
    Sounds S later state :=
  fun controller => (sounds controller).later forward

theorem origin (origin : Origin S state) : Sounds S 0 state := by
  intro controller
  rw [origin.unknown]
  exact Slice.sound_empty S.me

theorem applied {around : Surroundings} {docJson : Bytes} {validUntil : UInt32}
    {expected : Option UInt64} {compiled : CompiledDoc} {leaf : Option CompiledZkFactor}
    {outcome joined : SyncOutcome} {synced : World}
    (sounds : Sounds S around.env.sequence state)
    (effect : ApplyEffect S.code (S.callees around) around.env.sequence .cheapest docJson validUntil
      state.account state.world compiled leaf outcome synced after.account after.world)
    (counters : ApplyCounters (S.callees around) validUntil state.account state.world compiled
      outcome joined synced expected after.account) :
    Sounds S around.env.sequence after := by
  intro controller
  rcases (syncStep_of_applied effect counters controller).move with same | moved
  · rw [same]
    exact sounds controller
  · exact Slice.Sound.move (e := S.inside around) (sounds controller) moved

theorem unapplied {invocation : Invocation S}
    (sounds : Sounds S invocation.around.env.sequence state)
    (unapplied : Unapplied S invocation state after) :
    Sounds S invocation.around.env.sequence after := by
  intro controller
  obtain ⟨e, clock, moved⟩ := (unapplied.slices controller).move
  have sound := sounds controller
  rw [← clock] at sound ⊢
  exact sound.move moved

theorem happened {invocation : Invocation S} {reply : Reply}
    (sounds : Sounds S invocation.around.env.sequence state)
    (happened : Happened S invocation state reply after) :
    Sounds S invocation.around.env.sequence after := by
  rcases happened.applied_or_unapplied with
    ⟨_, _, _, _, _, _, _, _, _, _, effect, counters⟩ | unapplied
  · exact sounds.applied effect counters
  · exact sounds.unapplied unapplied

end Sounds

theorem step_of_ok {invocation : Invocation S} {state after : State σ} {reply : Reply}
    (ran : invocation.run S state = .ok (reply, after)) :
    (system S).step state invocation = ⟨state, invocation, .ok reply, after⟩ := by
  simp [System.step, system, ran]

/-- What a step came to: nothing, if it failed. -/
theorem step_happened {now : UInt32} {state : State σ} (invocation : Invocation S)
    (sounds : Sounds S now state) :
    (∃ failure, invocation.run S state = .error failure ∧
        (system S).step state invocation = ⟨state, invocation, .error failure, state⟩) ∨
      ∃ reply after, invocation.run S state = .ok (reply, after) ∧
        (system S).step state invocation = ⟨state, invocation, .ok reply, after⟩ ∧
        Happened S invocation state reply after := by
  cases ran : invocation.run S state with
  | error failure =>
      left
      exact ⟨failure, rfl, by simp [System.step, system, ran]⟩
  | ok result =>
      right
      obtain ⟨reply, after⟩ := result
      refine ⟨reply, after, rfl, step_of_ok ran, ?_⟩
      exact run_happened (fun controller => (sounds controller).keyed) ran

/-- Induction over the runs from one origin, by the steps that succeed. -/
theorem Origin.induct {start : UInt32} {first : State σ} (origin : Origin S first)
    (holds : List (JointStep S) → UInt32 → State σ → Prop) (initial : holds [] start first)
    (waiting : ∀ {history now later state}, Sounds S now state → holds history now state →
      now ≤ later → holds history later state)
    (failing : ∀ {history state} (invocation : Invocation S) (failure : AccountFailure),
      Sounds S invocation.around.env.sequence state →
      holds history invocation.around.env.sequence state →
      holds (⟨state, invocation, .error failure, state⟩ :: history)
        invocation.around.env.sequence state)
    (acting : ∀ {history state reply after} (invocation : Invocation S),
      Sounds S invocation.around.env.sequence state →
      holds history invocation.around.env.sequence state →
      invocation.run S state = .ok (reply, after) →
      Happened S invocation state reply after →
      holds (⟨state, invocation, .ok reply, after⟩ :: history)
        invocation.around.env.sequence after)
    {history : List (JointStep S)} {now : UInt32} {state : State σ}
    (execution : Execution (system S) start first history now state) :
    Sounds S now state ∧ holds history now state := by
  refine execution.invariant (fun history now state => Sounds S now state ∧
    holds history now state) ?_ ?_ ?_
  · exact ⟨(Sounds.origin origin).later UInt32.zero_le, initial⟩
  · rintro history now later state ⟨sounds, held⟩ forward
    exact ⟨sounds.later forward, waiting sounds held forward⟩
  · rintro history state invocation ⟨sounds, held⟩
    rcases step_happened invocation sounds with
      ⟨failure, _, stepped⟩ | ⟨reply, after, ran, stepped, happened⟩
    · rw [stepped]
      exact ⟨sounds, failing invocation failure sounds held⟩
    · rw [stepped]
      exact ⟨sounds.happened happened, acting invocation sounds held ran happened⟩

namespace Lived

variable {history : List (JointStep S)} {now : UInt32} {state : State σ}

theorem induct (holds : List (JointStep S) → UInt32 → State σ → Prop)
    (initial : ∀ {start state}, Origin S state → holds [] start state)
    (waiting : ∀ {history now later state}, Sounds S now state → holds history now state →
      now ≤ later → holds history later state)
    (failing : ∀ {history state} (invocation : Invocation S) (failure : AccountFailure),
      Sounds S invocation.around.env.sequence state →
      holds history invocation.around.env.sequence state →
      holds (⟨state, invocation, .error failure, state⟩ :: history)
        invocation.around.env.sequence state)
    (acting : ∀ {history state reply after} (invocation : Invocation S),
      Sounds S invocation.around.env.sequence state →
      holds history invocation.around.env.sequence state →
      invocation.run S state = .ok (reply, after) →
      Happened S invocation state reply after →
      holds (⟨state, invocation, .ok reply, after⟩ :: history)
        invocation.around.env.sequence after)
    (lived : Lived S history now state) : Sounds S now state ∧ holds history now state := by
  obtain ⟨start, first, origin, execution⟩ := lived.run
  exact origin.induct holds (initial origin) waiting failing acting execution

theorem sounds (lived : Lived S history now state) : Sounds S now state :=
  (lived.induct (fun _ _ _ => True) (fun _ => trivial) (fun _ _ _ => trivial)
    (fun _ _ _ _ => trivial) (fun _ _ _ _ _ => trivial)).1

theorem at_step (lived : Lived S history now state) {taken : JointStep S}
    (member : taken ∈ history) :
    taken = (system S).step taken.before taken.action ∧ ∃ earlier, taken :: earlier ⊆ history ∧
      Lived S earlier taken.action.around.env.sequence taken.before ∧
      Lived S (taken :: earlier) taken.action.around.env.sequence taken.after := by
  obtain ⟨start, first, origin, execution⟩ := lived.run
  obtain ⟨later, earlier, rfl⟩ := List.append_of_mem member
  obtain ⟨executed, before, _⟩ := Execution.split later execution
  refine ⟨executed, earlier, List.subset_append_right later _, ⟨start, first, origin, before⟩,
    ⟨start, first, origin, ?_⟩⟩
  have called := before.call taken.action rfl
  rw [← executed] at called
  exact called

theorem taken (lived : Lived S history now state) {taken : JointStep S}
    (member : taken ∈ history) :
    (∃ failure, taken.reply = .error failure ∧ taken.after = taken.before) ∨
      ∃ reply, taken.reply = .ok reply ∧
        Happened S taken.action taken.before reply taken.after := by
  obtain ⟨executed, _, _, before, _⟩ := lived.at_step member
  rcases step_happened taken.action before.sounds with
    ⟨failure, _, stepped⟩ | ⟨reply, after, _, stepped, happened⟩
  · left
    rw [executed, stepped]
    exact ⟨failure, rfl, rfl⟩
  · right
    rw [← executed] at stepped
    rw [stepped]
    exact ⟨reply, rfl, happened⟩

theorem happened (lived : Lived S history now state) {taken : JointStep S}
    (member : taken ∈ history) {reply : Reply} (replied : taken.reply = .ok reply) :
    Happened S taken.action taken.before reply taken.after := by
  rcases lived.taken member with ⟨failure, failed, _⟩ | ⟨answer, answered, happened⟩
  · rw [replied] at failed
    cases failed
  · rw [replied] at answered
    obtain rfl := Except.ok.inj answered
    exact happened

end Lived

end Perch.Joint
