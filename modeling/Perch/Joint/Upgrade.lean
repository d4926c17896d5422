/-
Delayed upgrades over whole runs.

The account stamps a request with its recovery generation, and a controller's
epoch is recorded beside it.  The two counters belong to two contracts; they are
tied here: while the generation stands still, so do the adopted controller, every
configuration and every epoch.
-/

import Perch.Joint.Agreement
import Perch.Machine.Stamp
import Perch.Recovery.Change

namespace Perch.Joint

open Machine Document Recovery Account

variable {σ : Type} {S : Setting σ}

/-! ### What a step does to the pending request -/

def touchesUpgrade : Action S → Bool
  | .scheduleUpgrade _ _ | .executeUpgrade _ | .cancelUpgrade => true
  | _ => false

def Untouched (taken : JointStep S) : Prop :=
  ∀ reply, taken.reply = .ok reply → touchesUpgrade taken.action.action = false

/-- Nothing was enrolled, reconfigured, removed, switched or completed, and no
epoch moved. -/
structure KeepsEnrollment (S : Setting σ) (before after : State σ) : Prop where
  adopted : after.account.storage.recoveryController = before.account.storage.recoveryController
  configs : ∀ controller, (after.slice S controller).config = (before.slice S controller).config
  epochs : ∀ controller, (after.slice S controller).epoch = (before.slice S controller).epoch

theorem KeepsEnrollment.of_slices {before after : State σ}
    (adopted : after.account.storage.recoveryController = before.account.storage.recoveryController)
    (slices : ∀ controller, after.slice S controller = before.slice S controller) :
    KeepsEnrollment S before after where
  adopted := adopted
  configs controller := by rw [slices controller]
  epochs controller := by rw [slices controller]

/-- The epoch a request is bound to: the adopted controller's. -/
def adoptedEpoch (S : Setting σ) (state : State σ) : Option UInt64 :=
  state.account.storage.recoveryController.map fun controller => (state.slice S controller).epoch

theorem KeepsEnrollment.adoptedEpoch_eq {before after : State σ}
    (kept : KeepsEnrollment S before after) : adoptedEpoch S after = adoptedEpoch S before := by
  simp only [adoptedEpoch, kept.adopted, kept.epochs]

structure Schedules (S : Setting σ) (taken : JointStep S) (request : UpgradeRequest) : Prop where
  /-- Under the protected profile the enrolled condition approved the request. -/
  asked : ∃ validUntil, taken.action.action = .scheduleUpgrade request.wasmHash validUntil ∧
    ∀ controller config, taken.before.account.storage.recoveryController = some controller →
      (taken.before.slice S controller).config = some config →
      config.profile = .protectedProfile →
      ConditionMet (S.controller controller) (S.inside taken.action.around) S.me
        (taken.before.slice S controller) config
        (.upgrade { requestId := request.requestId, wasmHash := request.wasmHash }) validUntil
  replied : taken.reply = .ok (.scheduled request.requestId)
  delayed : request.executableAt.toNat =
    taken.action.around.env.sequence.toNat + accountUpgradeDelayLedgers.toNat
  kept : KeepsEnrollment S taken.before taken.after
  bound : request.controllerEpoch = adoptedEpoch S taken.after

def upgradeStamp (σ : Type) : Stamp (State σ) UpgradeRequest Nat where
  slot state := state.account.storage.pendingUpgrade
  counter state := state.account.storage.generationOf.toNat
  stamp request := request.generation.toNat

theorem Transition.epoch_kept {d : Deployment} {e : Env} {account : Address} {m m' : Slice}
    {call : Recovery.Call} {reply : Recovery.Reply} {gate : Option GateCall}
    (transition : Transition d e account m call reply gate m')
    (unsynced : ∀ outcome, reply ≠ .synced outcome) (free : ∀ epoch, reply ≠ .epoch epoch) :
    m'.epoch = m.epoch := by
  cases transition with
  | completed => exact absurd rfl (unsynced _)
  | classified => exact absurd rfl (unsynced _)
  | upgraded => exact absurd rfl (free _)
  | _ => rfl

theorem Transition.no_epoch_of_not_hook {d : Deployment} {e : Env} {account : Address}
    {m m' : Slice} {call : Recovery.Call} {reply : Recovery.Reply} {gate : Option GateCall}
    (transition : Transition d e account m call reply gate m') (free : Call.isHook call = false)
    (epoch : UInt64) : reply ≠ .epoch epoch := by
  rintro rfl
  cases transition with
  | scheduled => cases free
  | upgraded => cases free

/-- Scheduling leaves the controller as it is, and answers its epoch. -/
theorem Transition.of_schedule {d : Deployment} {e : Env} {account : Address} {m m' : Slice}
    {call : Recovery.Call} {answered : UInt64} {gate : Option GateCall} {subject : UpgradeSubject}
    {validUntil : UInt32} (transition : Transition d e account m call (.epoch answered) gate m')
    (named : call = .rcvUpgrade account (.schedule subject validUntil)) :
    answered = m.epoch ∧ m' = m := by
  cases transition with
  | scheduled => exact ⟨rfl, rfl⟩
  | upgraded => cases named

section Effects

variable {before after : State σ} {invocation : Invocation S} {reply : Reply}

/-- A controller that neither syncs nor answers an epoch keeps the enrollment. -/
theorem Acts.keepsEnrollment {e : Env} {controller : Address} {call : Recovery.Call}
    {answer : Recovery.Reply} {gate : Option GateCall}
    (acts : Acts S e controller call answer gate before.world after.world)
    (unsynced : ∀ outcome, answer ≠ .synced outcome) (free : ∀ epoch, answer ≠ .epoch epoch)
    (adopted : after.account.storage.recoveryController =
      before.account.storage.recoveryController) : KeepsEnrollment S before after where
  adopted := adopted
  configs other := by
    by_cases here : other = controller
    · subst here
      exact (Transition.config_kept acts.transition unsynced).1
    · rw [State.slice, acts.elsewhere other here]
  epochs other := by
    by_cases here : other = controller
    · subst here
      exact Transition.epoch_kept acts.transition unsynced free
    · rw [State.slice, acts.elsewhere other here]

theorem EnrollmentChange.still {e : Env} {adopted : Option Address} {docHash : Bytes32}
    {new : Option CompiledRecoveryConfig} {slices slices' : Address → Slice}
    {outcome joined : SyncOutcome}
    (change : EnrollmentChange S e adopted docHash new slices outcome joined slices')
    (quiet : bumps outcome + bumps joined = 0) :
    (∀ controller, (slices' controller).config = (slices controller).config ∧
      (slices' controller).epoch = (slices controller).epoch) ∧
      new.map CompiledRecoveryConfig.controller = adopted := by
  cases change with
  | nothing unadopted unnamed => exact ⟨fun _ => ⟨rfl, rfl⟩, by rw [unadopted, unnamed]; rfl⟩
  | @kept controller stored config completing adopts named here =>
      refine ⟨fun other => ?_, by rw [adopts, named, ← here]; rfl⟩
      by_cases same : other = controller
      · subst same
        rw [Function.update_self]
        exact ⟨rfl, rfl⟩
      · rw [Function.update_of_ne same]
        exact ⟨rfl, rfl⟩
  | enrolled | reconfigured | removed | switched | completed => cases quiet

theorem Happened.applied_still {around : Surroundings} {docJson : Bytes} {validUntil : UInt32}
    {expected : Option UInt64} {compiled : CompiledDoc} {leaf : Option CompiledZkFactor}
    {outcome joined : SyncOutcome} {synced : World} (enrolled : Enrolled S around.env.sequence before)
    (effect : ApplyEffect S.code (S.callees around) around.env.sequence .cheapest docJson validUntil
      before.account before.world compiled leaf outcome synced after.account after.world)
    (counters : ApplyCounters (S.callees around) validUntil before.account before.world compiled
      outcome joined synced expected after.account)
    (unmoved : after.account.storage.generationOf.toNat =
      before.account.storage.generationOf.toNat) : KeepsEnrollment S before after := by
  have quiet : bumps outcome + bumps joined = 0 := by
    have grown := counters.generation
    omega
  obtain ⟨slices, adopted⟩ := (enrolled.changed effect counters).still quiet
  exact
    { adopted := effect.recoveryController.trans adopted
      configs := fun controller => (slices controller).1
      epochs := fun controller => (slices controller).2 }

theorem Happened.obeys (enrolled : Enrolled S invocation.around.env.sequence before)
    (happened : Happened S invocation before reply after) :
    (upgradeStamp σ).Obeys (Schedules S) Untouched
      (fun taken => KeepsEnrollment S taken.before taken.after)
      ⟨before, invocation, .ok reply, after⟩ := by
  have untouched {action : Action S} (asked : invocation.action = action)
      (free : touchesUpgrade action = false) :
      Untouched (S := S) ⟨before, invocation, .ok reply, after⟩ := by
    intro _ _
    rw [asked]
    exact free
  cases happened with
  | @applied docJson validUntil expected compiled leaf outcome joined synced _ asked effect
      counters =>
      have pending := counters.pendingUpgrade
      by_cases completes : ∃ completion, outcome = .completed completion
      · obtain ⟨completion, rfl⟩ := completes
        exact .cleared pending
      · refine .left (untouched asked rfl) ?_ ?_ fun unmoved =>
          Happened.applied_still enrolled effect counters unmoved
        · cases outcome with
          | completed completion => exact absurd ⟨completion, rfl⟩ completes
          | _ => exact pending
        · have grown := counters.generation
          simp only [upgradeStamp]
          omega
  | @recoveryCancelled attemptId controller world' asked adopted called =>
      exact .left (untouched asked rfl) rfl (Nat.le_refl _) fun _ =>
        (called.acts enrolled.honest).keepsEnrollment (by simp) (by simp) rfl
  | @upgradeScheduled wasmHash validUntil next epoch request world' asked counted half recorded =>
      simp only [UpgradeRequest.schedule, Option.map_eq_some_iff] at recorded
      obtain ⟨executableAt, added, rfl⟩ := recorded
      have delayed := checkedAdd_eq_some.mp added
      unfold UpgradeHalf at half
      cases adopted : before.account.storage.recoveryController with
      | none =>
          rw [adopted] at half
          obtain ⟨rfl, rfl⟩ := half
          refine .wrote ⟨⟨validUntil, asked, ?_⟩, rfl, delayed, .of_slices rfl fun _ => rfl, ?_⟩
            rfl rfl
          · intro _ _ adopts
            rw [adopted] at adopts
            cases adopts
          · simp [adoptedEpoch, adopted]
      | some controller =>
          rw [adopted] at half
          obtain ⟨answered, rfl, called⟩ := half
          have acts := called.acts enrolled.honest
          obtain ⟨rfl, same⟩ := Transition.of_schedule acts.transition rfl
          obtain ⟨config, configured, condition⟩ :=
            Transition.scheduled_condition acts.transition rfl
          have slices : ∀ other, world'.slice S other = before.world.slice S other := by
            intro other
            by_cases here : other = controller
            · rw [here, same]
            · exact acts.elsewhere other here
          refine .wrote ⟨⟨validUntil, asked, ?_⟩, rfl, delayed, .of_slices rfl slices, ?_⟩ rfl rfl
          · intro controller' config' adopts configured'
            obtain rfl := Option.some.inj (adopted.symm.trans adopts)
            obtain rfl := Option.some.inj (configured.symm.trans configured')
            exact condition
          · simp [adoptedEpoch, adopted, State.slice, same]
  | upgradeExecuted => exact .cleared rfl
  | upgradeDropped => exact .cleared rfl
  | @authorized auth signaturePayload signatures contexts world' asked marked =>
      refine .left (untouched asked rfl) rfl (Nat.le_refl _) fun _ => ⟨rfl, ?_, ?_⟩
      · intro controller
        obtain ⟨completing, slice⟩ := marked.slices controller
        have same := congrArg Slice.config slice
        exact same
      · intro controller
        obtain ⟨completing, slice⟩ := marked.slices controller
        have same := congrArg Slice.epoch slice
        exact same
  | @called controller visible authorized call answer gate world' storage' asked own free acts
      delivered =>
      obtain ⟨gate, rfl⟩ := deliver_frame delivered
      exact .left (untouched asked rfl) rfl (Nat.le_refl _) fun _ =>
        Acts.keepsEnrollment acts (Transition.unsynced_of_not_hook acts.transition free)
          (Transition.no_epoch_of_not_hook acts.transition free) rfl
  | gated asked _ _ gated =>
      obtain ⟨gate, rfl⟩ := rcvGate_configuration gated
      exact .left (untouched asked rfl) rfl (Nat.le_refl _) fun _ => .of_slices rfl fun _ => rfl
  | elsewhere asked slices =>
      refine .left ?_ rfl (Nat.le_refl _) fun _ => .of_slices rfl slices
      rcases asked with ⟨_, _, _, _, _, asked, _⟩ | ⟨_, _, _, _, asked, _⟩
      · exact untouched asked rfl
      · exact untouched asked rfl

end Effects

section Runs

variable {history : List (JointStep S)} {now : UInt32} {state : State σ}

theorem Reached.obeys (reached : Reached S history now state) {taken : JointStep S}
    (member : taken ∈ history) :
    (upgradeStamp σ).Obeys (Schedules S) Untouched
      (fun taken => KeepsEnrollment S taken.before taken.after) taken := by
  obtain ⟨executed, earlier, _, before, _⟩ := reached.at_step member
  rcases step_happened taken.action before.sounds with
    ⟨failure, _, stepped⟩ | ⟨reply, after, _, stepped, happened⟩
  · rw [executed, stepped]
    refine .left ?_ rfl (Nat.le_refl _) fun _ => .of_slices rfl fun _ => rfl
    intro reply replied
    cases replied
  · rw [executed, stepped]
    exact happened.obeys before.enrolled

/-- Where a pending request comes from. -/
theorem Reached.pendingSince (reached : Reached S history now state) {request : UpgradeRequest}
    (pending : state.account.storage.pendingUpgrade = some request) :
    ∃ later taken earlier, (upgradeStamp σ).Since (Schedules S) Untouched
      (fun taken => KeepsEnrollment S taken.before taken.after) history state request later taken
      earlier := by
  have obeys := fun taken (member : taken ∈ history) => reached.obeys member
  obtain ⟨start, first, origin, execution⟩ := reached.run
  refine Stamp.since execution ?_ obeys pending
  obtain ⟨_, _, _, _, built⟩ := origin.built
  simp only [installAdmin, bind_eq_ok, pure_eq_ok, Prod.exists] at built
  obtain ⟨_, _, _, account⟩ := built
  change first.account.storage.pendingUpgrade = none
  rw [← account]
  rfl

/-- A pending request of the present generation is bound to the present epoch of
the present controller, which is the one it was scheduled under. -/
theorem Reached.pendingBound (reached : Reached S history now state) {request : UpgradeRequest}
    {later earlier : List (JointStep S)} {taken : JointStep S}
    (since : (upgradeStamp σ).Since (Schedules S) Untouched
      (fun taken => KeepsEnrollment S taken.before taken.after) history state request later taken
      earlier)
    (current : state.account.storage.generationOf = request.generation) :
    request.controllerEpoch = adoptedEpoch S state ∧
      state.account.storage.recoveryController =
        taken.before.account.storage.recoveryController := by
  obtain ⟨start, first, origin, execution⟩ := reached.run
  rw [since.cut] at execution
  obtain ⟨_, _, after⟩ := Execution.split later execution
  have still := since.still (congrArg UInt64.toNat current)
  have epochs := Execution.kept (adoptedEpoch S) after fun step member =>
    (still step member).adoptedEpoch_eq
  have adopted := Execution.kept
    (fun state : State σ => state.account.storage.recoveryController) after fun step member =>
    (still step member).adopted
  refine ⟨?_, adopted.trans since.write.kept.adopted⟩
  rw [since.write.bound, epochs]

end Runs

/-! ### Executed upgrades -/

/-- A step that executed a request was preceded by the one that scheduled it. -/
structure Scheduled (S : Setting σ) (executed : JointStep S) (request : UpgradeRequest)
    (since : List (JointStep S)) (scheduled : JointStep S) : Prop where
  schedules : Schedules S scheduled request
  delayed : scheduled.action.around.env.sequence.toNat + accountUpgradeDelayLedgers.toNat ≤
    executed.action.around.env.sequence.toNat
  alone : ∀ taken ∈ since, Untouched taken
  still : ∀ taken ∈ since, KeepsEnrollment S taken.before taken.after
  adopted : executed.before.account.storage.recoveryController =
    scheduled.before.account.storage.recoveryController

theorem Reached.executed {history : List (JointStep S)} {now : UInt32} {state : State σ}
    (reached : Reached S history now state) {later earlier : List (JointStep S)}
    {executed : JointStep S} (cut : history = later ++ executed :: earlier) {requestId : UInt64}
    (asked : executed.action.action = .executeUpgrade requestId) {reply : Reply}
    (replied : executed.reply = .ok reply) :
    ∃ request since scheduled first, earlier = since ++ scheduled :: first ∧
      executed.before.account.storage.pendingUpgrade = some request ∧
      request.requestId = requestId ∧ Scheduled S executed request since scheduled := by
  obtain ⟨start, origin, begins, execution⟩ := reached.run
  have member : executed ∈ history := by simp [cut]
  have happened := reached.happened member replied
  rw [cut] at execution
  obtain ⟨_, before, _⟩ := Execution.split later execution
  have reachedBefore : Reached S _ _ _ := ⟨⟨start, origin, begins, before⟩, reached.honest⟩
  obtain ⟨request, pending, named, ready⟩ : ∃ request,
      executed.before.account.storage.pendingUpgrade = some request ∧
        request.requestId = requestId ∧
        request.readiness executed.action.around.env.sequence
          executed.before.account.storage.generationOf = .ready := by
    generalize executed.after = after at happened
    cases happened with
    | upgradeExecuted asked' _ _ pending ready =>
        rw [asked] at asked'
        cases asked'
        exact ⟨_, pending, rfl, ready⟩
    | applied asked' | recoveryCancelled asked' | upgradeScheduled asked' | upgradeDropped asked'
    | authorized asked' | called asked' | gated asked' =>
        rw [asked] at asked'
        cases asked'
    | elsewhere asked' =>
        rw [asked] at asked'
        rcases asked' with ⟨_, _, _, _, _, asked', _⟩ | ⟨_, _, _, _, asked', _⟩ <;> cases asked'
  obtain ⟨since, scheduled, first, found⟩ := reachedBefore.pendingSince pending
  unfold UpgradeRequest.readiness at ready
  split at ready
  next => cases ready
  next current =>
    rw [not_not] at current
    split at ready
    next => cases ready
    next late =>
      have delayed := found.write.delayed
      have reaches := UInt32.le_iff_toNat_le.mp (UInt32.not_lt.mp late)
      refine ⟨request, since, scheduled, first, found.cut, pending, named, found.write, ?_,
        found.untouched, found.still (congrArg UInt64.toNat current),
        (reachedBefore.pendingBound found current).2⟩
      omega

/-- An executed upgrade was scheduled the whole delay earlier, and since then no
request was scheduled, executed or dropped, and nothing of the enrollment
changed. -/
theorem executed_scheduled {history : List (JointStep S)} {now : UInt32} {state : State σ}
    (reached : Reached S history now state) {later earlier : List (JointStep S)}
    {executed : JointStep S} (cut : history = later ++ executed :: earlier) {requestId : UInt64}
    (asked : executed.action.action = .executeUpgrade requestId) {reply : Reply}
    (replied : executed.reply = .ok reply) :
    ∃ request since scheduled first, earlier = since ++ scheduled :: first ∧
      executed.before.account.storage.pendingUpgrade = some request ∧
      request.requestId = requestId ∧ Scheduled S executed request since scheduled :=
  reached.executed cut asked replied

/-! ### Request ids -/

def scheduledId (taken : JointStep S) : Option UInt64 :=
  match taken.reply with
  | .ok (.scheduled requestId) => some requestId
  | _ => none

def executedId (taken : JointStep S) : Option UInt64 :=
  match taken.reply, taken.action.action with
  | .ok _, .executeUpgrade requestId => some requestId
  | _, _ => none

def idsBelow (next : UInt64) : List UInt64 :=
  ((List.range next.toNat).map UInt64.ofNat).reverse

theorem idsBelow_succ {id next : UInt64} (counted : checkedSucc id = some next) :
    idsBelow next = id :: idsBelow id := by
  rw [idsBelow, checkedSucc_eq_some.mp counted, List.range_succ, List.map_append,
    List.reverse_append]
  simp [idsBelow]

theorem idsBelow_nodup (next : UInt64) : (idsBelow next).Nodup := by
  rw [idsBelow, List.nodup_reverse]
  refine List.nodup_range.map_on ?_
  intro id below id' below' same
  have fits := (List.mem_range.mp below).trans next.toNat_lt
  have fits' := (List.mem_range.mp below').trans next.toNat_lt
  have values := congrArg UInt64.toNat same
  rwa [UInt64.toNat_ofNat_of_lt' fits, UInt64.toNat_ofNat_of_lt' fits'] at values

theorem mem_idsBelow {id next : UInt64} (below : id.toNat < next.toNat) : id ∈ idsBelow next := by
  rw [idsBelow, List.mem_reverse, List.mem_map]
  exact ⟨id.toNat, List.mem_range.mpr below, by simp⟩

/-- How the ids of a run relate to what the account stores. -/
structure IdsFollow (history : List (JointStep S)) (storage : AccountStorage) : Prop where
  scheduled : history.filterMap scheduledId = idsBelow (storage.nextUpgradeId.getD 0)
  once : (history.filterMap executedId).Nodup
  spent : ∀ requestId ∈ history.filterMap executedId,
    requestId.toNat < (storage.nextUpgradeId.getD 0).toNat
  pending : ∀ request, storage.pendingUpgrade = some request →
    request.requestId ∉ history.filterMap executedId ∧
      request.requestId.toNat < (storage.nextUpgradeId.getD 0).toNat

namespace IdsFollow

variable {history : List (JointStep S)} {storage storage' : AccountStorage} {taken : JointStep S}

/-- A step that neither schedules nor executes, and leaves or drops the pending
request. -/
theorem passed (follow : IdsFollow history storage) (unscheduled : scheduledId taken = none)
    (unexecuted : executedId taken = none) (next : storage'.nextUpgradeId = storage.nextUpgradeId)
    (pending : storage'.pendingUpgrade = storage.pendingUpgrade ∨
      storage'.pendingUpgrade = none) : IdsFollow (taken :: history) storage' where
  scheduled := by rw [List.filterMap_cons_none unscheduled, next, follow.scheduled]
  once := by rw [List.filterMap_cons_none unexecuted]; exact follow.once
  spent := by rw [List.filterMap_cons_none unexecuted, next]; exact follow.spent
  pending := by
    rw [List.filterMap_cons_none unexecuted, next]
    intro request held
    rcases pending with same | dropped
    · exact follow.pending request (same ▸ held)
    · rw [dropped] at held
      cases held

theorem scheduling (follow : IdsFollow history storage) {next : UInt64} {request : UpgradeRequest}
    (counted : checkedSucc (storage.nextUpgradeId.getD 0) = some next)
    (schedules : scheduledId taken = some (storage.nextUpgradeId.getD 0))
    (unexecuted : executedId taken = none)
    (named : request.requestId = storage.nextUpgradeId.getD 0) :
    IdsFollow (taken :: history)
      { storage with nextUpgradeId := some next, pendingUpgrade := some request } where
  scheduled := by
    rw [List.filterMap_cons_some schedules, follow.scheduled]
    exact (idsBelow_succ counted).symm
  once := by rw [List.filterMap_cons_none unexecuted]; exact follow.once
  spent := by
    rw [List.filterMap_cons_none unexecuted]
    intro requestId spent
    have below := follow.spent requestId spent
    have counted := checkedSucc_eq_some.mp counted
    rw [Option.getD_some]
    omega
  pending := by
    rw [List.filterMap_cons_none unexecuted]
    intro pending held
    obtain rfl := Option.some.inj held
    rw [named, Option.getD_some]
    refine ⟨fun spent => Nat.lt_irrefl _ (follow.spent _ spent), ?_⟩
    have counted := checkedSucc_eq_some.mp counted
    omega

theorem executing (follow : IdsFollow history storage) {request : UpgradeRequest}
    (held : storage.pendingUpgrade = some request) (unscheduled : scheduledId taken = none)
    (executes : executedId taken = some request.requestId)
    (next : storage'.nextUpgradeId = storage.nextUpgradeId)
    (dropped : storage'.pendingUpgrade = none) : IdsFollow (taken :: history) storage' where
  scheduled := by rw [List.filterMap_cons_none unscheduled, next, follow.scheduled]
  once := by
    rw [List.filterMap_cons_some executes, List.nodup_cons]
    exact ⟨(follow.pending request held).1, follow.once⟩
  spent := by
    rw [List.filterMap_cons_some executes, next]
    intro requestId spent
    rcases List.mem_cons.mp spent with rfl | spent
    · exact (follow.pending request held).2
    · exact follow.spent requestId spent
  pending := by
    intro request held
    rw [dropped] at held
    cases held

end IdsFollow

theorem Reached.idsFollow {history : List (JointStep S)} {now : UInt32} {state : State σ}
    (reached : Reached S history now state) : IdsFollow history state.account.storage := by
  refine (reached.induct (fun history _ state => IdsFollow history state.account.storage)
    ?_ ?_ ?_ ?_).2
  · intro start state origin
    obtain ⟨_, _, _, _, built⟩ := origin.built
    simp only [installAdmin, bind_eq_ok, pure_eq_ok, Prod.exists] at built
    obtain ⟨_, _, _, account⟩ := built
    rw [← account]
    exact ⟨rfl, List.nodup_nil, by simp, by simp [AccountStorage.empty]⟩
  · intro history now later state _ follow _
    exact follow
  · intro history state invocation failure _ follow
    exact follow.passed rfl rfl rfl (.inl rfl)
  · intro history state reply after invocation _ _ follow _ happened
    have idle {action : Action S} {reply : Reply} (asked : invocation.action = action)
        (free : ∀ requestId, action ≠ .executeUpgrade requestId) :
        executedId (S := S) ⟨state, invocation, .ok reply, after⟩ = none := by
      rw [executedId, asked]
      split
      next named => exact absurd rfl (free _)
      next => rfl
    cases happened with
    | @applied docJson validUntil expected compiled leaf outcome joined synced _ asked effect
        counters =>
        refine follow.passed rfl (idle asked (by simp)) counters.nextUpgradeId ?_
        rw [counters.pendingUpgrade]
        cases outcome with
        | completed => exact .inr rfl
        | _ => exact .inl rfl
    | recoveryCancelled asked =>
        exact follow.passed rfl (idle asked (by simp)) rfl (.inl rfl)
    | upgradeScheduled asked counted half recorded =>
        refine follow.scheduling counted rfl (idle asked (by simp)) ?_
        simp only [UpgradeRequest.schedule, Option.map_eq_some_iff] at recorded
        obtain ⟨_, _, rfl⟩ := recorded
        rfl
    | upgradeExecuted asked _ _ pending =>
        refine follow.executing pending rfl ?_ rfl rfl
        rw [executedId, asked]
    | upgradeDropped asked => exact follow.passed rfl (idle asked (by simp)) rfl (.inr rfl)
    | authorized asked => exact follow.passed rfl (idle asked (by simp)) rfl (.inl rfl)
    | called asked _ _ _ delivered =>
        obtain ⟨gate, rfl⟩ := deliver_frame delivered
        exact follow.passed rfl (idle asked (by simp)) rfl (.inl rfl)
    | gated asked _ _ gated =>
        obtain ⟨gate, rfl⟩ := rcvGate_configuration gated
        exact follow.passed rfl (idle asked (by simp)) rfl (.inl rfl)
    | elsewhere asked =>
        rcases asked with ⟨_, _, _, _, _, asked, rfl⟩ | ⟨_, _, _, _, asked, rfl⟩
        · exact follow.passed rfl (idle asked (by simp)) rfl (.inl rfl)
        · exact follow.passed rfl (idle asked (by simp)) rfl (.inl rfl)

/-- The requests of a run are numbered from zero in the order they were
scheduled, and each is executed at most once. -/
theorem upgrade_ids {history : List (JointStep S)} {now : UInt32} {state : State σ}
    (reached : Reached S history now state) :
    history.filterMap scheduledId = idsBelow (state.account.storage.nextUpgradeId.getD 0) ∧
      (history.filterMap executedId).Nodup ∧
      history.filterMap executedId ⊆ history.filterMap scheduledId := by
  have follow := reached.idsFollow
  refine ⟨follow.scheduled, follow.once, ?_⟩
  intro requestId spent
  rw [follow.scheduled]
  exact mem_idsBelow (follow.spent requestId spent)

/-! ### When a request executes -/

theorem Reached.deployed {history : List (JointStep S)} {now : UInt32} {state : State σ}
    (reached : Reached S history now state) : ∀ controller,
      state.account.storage.recoveryController = some controller →
        S.deployed controller = true := by
  refine (reached.induct (fun _ _ state => ∀ controller,
    state.account.storage.recoveryController = some controller → S.deployed controller = true)
    ?_ ?_ ?_ ?_).2
  · intro start state origin controller adopted
    obtain ⟨_, _, _, _, built⟩ := origin.built
    simp only [installAdmin, bind_eq_ok, pure_eq_ok, Prod.exists] at built
    obtain ⟨_, _, _, account⟩ := built
    rw [← account] at adopted
    cases adopted
  · intro _ _ _ _ _ held _
    exact held
  · intro _ _ _ _ _ held
    exact held
  · intro history state reply after invocation enrolled _ held _ happened controller adopted
    cases happened with
    | @applied docJson validUntil expected compiled _ _ _ _ _ _ effect counters =>
        rw [effect.recoveryController] at adopted
        obtain ⟨config, named, rfl⟩ := Option.map_eq_some_iff.mp adopted
        cases counters.syncs with
        | none _ unnamed =>
            rw [unnamed] at named
            cases named
        | enrolled _ named' called | switched _ named' _ _ called =>
            obtain rfl := Option.some.inj (named.symm.trans named')
            exact ((rcvSync_called called).acts enrolled.honest).deployed
        | stays _ same called =>
            rw [same config named]
            exact ((rcvSync_called called).acts enrolled.honest).deployed
    | called _ _ _ _ delivered =>
        obtain ⟨gate, rfl⟩ := deliver_frame delivered
        exact held controller adopted
    | gated _ _ _ gated =>
        obtain ⟨gate, rfl⟩ := rcvGate_configuration gated
        exact held controller adopted
    | _ => exact held controller adopted

/-- A pending request that is due, whose generation is current, while nothing is
authorized and no counter is exhausted. -/
structure Executable (S : Setting σ) (now : UInt32) (state : State σ) (requestId : UInt64)
    (request : UpgradeRequest) : Prop where
  pending : state.account.storage.pendingUpgrade = some request
  named : request.requestId = requestId
  current : state.account.storage.generationOf = request.generation
  due : request.executableAt ≤ now
  generation : (checkedSucc state.account.storage.generationOf).isSome = true
  revision : (checkedSucc state.account.storage.revisionOf).isSome = true
  quiet : ∀ controller, state.account.storage.recoveryController = some controller →
    (state.slice S controller).Quiet now
  epoch : ∀ controller, state.account.storage.recoveryController = some controller →
    (checkedSucc (state.slice S controller).epoch).isSome = true

theorem readiness_ready {request : UpgradeRequest} {now : UInt32} {generation : UInt64} :
    request.readiness now generation = .ready ↔
      generation = request.generation ∧ request.executableAt ≤ now := by
  unfold UpgradeRequest.readiness
  split
  next stale => simp [stale]
  next current =>
    rw [not_not] at current
    split
    next early => simp [UInt32.not_le.mpr early]
    next late => simp [current, UInt32.not_lt.mp late]

theorem Transition.of_execute {d : Deployment} {e : Env} {account : Address} {m m' : Slice}
    {call : Recovery.Call} {answered recorded : UInt64} {gate : Option GateCall}
    (transition : Transition d e account m call (.epoch answered) gate m')
    (named : call = .rcvUpgrade account (.execute recorded)) :
    m.Quiet e.sequence ∧ checkedSucc m.epoch = some answered := by
  cases transition with
  | scheduled => cases named
  | upgraded _ _ quiet bumped => exact ⟨quiet, bumped⟩

theorem rcvUpgrade_accepts (around : Surroundings) {world : World} {controller : Address}
    (deployed : S.deployed controller = true)
    (configured : (world.slice S controller).config ≠ none)
    (quiet : (world.slice S controller).Quiet around.env.sequence)
    (bumps : (checkedSucc (world.slice S controller).epoch).isSome = true) :
    ∃ answer, (S.callees around).rcvUpgrade world controller
      (.execute (world.slice S controller).epoch) = .ok answer := by
  obtain ⟨config, enrolled⟩ := Option.ne_none_iff_exists'.mp configured
  obtain ⟨epoch, bumped⟩ := Option.isSome_iff_exists.mp bumps
  have ran : ∃ s, Recovery.rcvUpgrade (S.controller controller) (S.inside around)
      (world.controllers controller) S.me (.execute (world.slice S controller).epoch) =
        .ok (epoch, s) := by
    unfold Recovery.rcvUpgrade
    simp only [bind_eq_ok, require_eq_ok, authorizedLive_eq_none, bumpEpoch, orTrap_eq_ok,
      pure_eq_ok]
    exact ⟨_, (), by simp [Setting.inside, Setting.envWith], config, orFail_eq_ok.mpr enrolled,
      (), quiet, (), rfl, epoch, bumped, rfl⟩
  obtain ⟨s, ran⟩ := ran
  refine ⟨(epoch, world.setController controller s), ?_⟩
  simp only [Setting.callees, atController_eq_ok]
  exact .inl ⟨deployed, s, ran, rfl⟩

theorem Reached.executes {history : List (JointStep S)} {invocation : Invocation S}
    {before after : State σ}
    (reached : Reached S history invocation.around.env.sequence before) {requestId : UInt64}
    (asked : invocation.action = .executeUpgrade requestId) {reply : Reply}
    (happened : Happened S invocation before reply after) :
    ∃ request, invocation.around.env.requireAuth S.me = true ∧
      invocation.around.uploaded request.wasmHash = true ∧
      Executable S invocation.around.env.sequence before requestId request := by
  cases happened with
  | @upgradeExecuted request generation revision world' asked' authorized uploaded pending ready
      half advanced revised =>
      rw [asked] at asked'
      cases asked'
      obtain ⟨current, due⟩ := readiness_ready.mp ready
      have accepted : ∀ controller, before.account.storage.recoveryController = some controller →
          (before.slice S controller).Quiet invocation.around.env.sequence ∧
            (checkedSucc (before.slice S controller).epoch).isSome = true := by
        intro controller adopted
        rcases half with ⟨unadopted, _⟩ | ⟨_, _, _, adopts, _, called⟩
        · rw [adopted] at unadopted
          cases unadopted
        · obtain rfl := Option.some.inj (adopted.symm.trans adopts)
          have acts := called.acts reached.honest
          obtain ⟨quiet, bumped⟩ := Transition.of_execute acts.transition rfl
          exact ⟨quiet, by rw [bumped]; rfl⟩
      exact ⟨request, authorized, uploaded,
        { pending := pending
          named := rfl
          current := current
          due := due
          generation := by rw [advanced]; rfl
          revision := by rw [revised]; rfl
          quiet := fun controller adopted => (accepted controller adopted).1
          epoch := fun controller adopted => (accepted controller adopted).2 }⟩
  | applied asked' | recoveryCancelled asked' | upgradeScheduled asked' | upgradeDropped asked'
  | authorized asked' | called asked' | gated asked' =>
      rw [asked] at asked'
      cases asked'
  | elsewhere asked' =>
      rw [asked] at asked'
      rcases asked' with ⟨_, _, _, _, _, asked', _⟩ | ⟨_, _, _, _, asked', _⟩ <;> cases asked'

/-- The controller's half of an executable request is accepted: the epoch recorded
is the present one. -/
theorem Executable.accepted {history : List (JointStep S)} {around : Surroundings}
    {state : State σ} {requestId : UInt64} {request : UpgradeRequest}
    (executable : Executable S around.env.sequence state requestId request)
    (reached : Reached S history around.env.sequence state) :
    ∃ world', executeAtController (S.callees around) request state.account.storage state.world =
      .ok world' := by
  obtain ⟨later, taken, earlier, since⟩ := reached.pendingSince executable.pending
  obtain ⟨bound, _⟩ := reached.pendingBound since executable.current
  unfold executeAtController
  cases adopted : state.account.storage.recoveryController with
  | none => exact ⟨_, rfl⟩
  | some controller =>
      obtain ⟨⟨answered, world'⟩, accepted⟩ := rcvUpgrade_accepts around
        (reached.deployed controller adopted) ((reached.enrolled.configured controller).mpr adopted)
        (executable.quiet controller adopted) (executable.epoch controller adopted)
      have recorded : request.controllerEpoch = some (state.slice S controller).epoch := by
        rw [bound, adoptedEpoch, adopted, Option.map_some]
      refine ⟨world', ?_⟩
      simp only [recorded, orFail, bind_eq_ok, mapError_eq_ok, pure_eq_ok, Prod.exists]
      exact ⟨_, rfl, _, _, accepted, rfl⟩

/-- In a reachable state a request executes exactly when the account authorizes
it, its wasm is uploaded, and it is due and current: the controller's own check of
the epoch never stands in the way. -/
theorem executeUpgrade_succeeds {history : List (JointStep S)} {invocation : Invocation S}
    {state : State σ} (reached : Reached S history invocation.around.env.sequence state)
    {requestId : UInt64} (asked : invocation.action = .executeUpgrade requestId) :
    (∃ reply after, invocation.run S state = .ok (reply, after)) ↔
      ∃ request, invocation.around.env.requireAuth S.me = true ∧
        invocation.around.uploaded request.wasmHash = true ∧
        Executable S invocation.around.env.sequence state requestId request := by
  constructor
  · rintro ⟨reply, after, ran⟩
    exact reached.executes asked
      (run_happened (fun controller => (reached.enrolled.slices controller).keyed) ran)
  · rintro ⟨request, authorized, uploaded, executable⟩
    obtain ⟨generation, advanced⟩ := Option.isSome_iff_exists.mp executable.generation
    obtain ⟨revision, revised⟩ := Option.isSome_iff_exists.mp executable.revision
    have ready := readiness_ready.mpr ⟨executable.current, executable.due⟩
    obtain ⟨world', half⟩ := executable.accepted reached
    have executed : ∃ storage', executeUpgrade (S.callees invocation.around)
        invocation.around.env.sequence requestId state.account.storage state.world =
          .ok (storage', world') := by
      simp only [executeUpgrade, bind_eq_ok, orFail_eq_ok, require_eq_ok, pure_eq_ok,
        Prod.mk.injEq, AccountStorage.advanceGeneration, AccountStorage.advanceRevision]
      exact ⟨_, (), authorized, request, executable.pending, (), executable.named, (),
        by simp [ready], (), by simp [ready], world', half, _, ⟨generation, advanced, rfl⟩, _,
        ⟨revision, revised, rfl⟩, (), uploaded, rfl, rfl⟩
    obtain ⟨storage', executed⟩ := executed
    refine ⟨.done,
      { account := { state.account with storage := storage' }, world := world' }, ?_⟩
    unfold Invocation.run
    simp only [asked, executed]
    rfl

/-! ### Requests of the present generation -/

/-- The refusals of an upgrade step for an epoch that moved, or for an account
without a configuration. -/
def OutOfStep (failure : Failure) : Prop :=
  failure = .refused .staleUpgrade ∨ failure = .refused .notEnrolled

theorem rcvUpgrade_inStep {d : Deployment} {e : Env} {s : Storage} {account : Address}
    (configured : s.config account ≠ none) :
    Avoids OutOfStep (rcvUpgrade d e s account (.execute (epochOf s account))) := by
  unfold rcvUpgrade
  refine Avoids.bind (Avoids.require fun _ => nofun) fun _ _ => ?_
  refine Avoids.bind (Avoids.orFail fun missing => absurd missing configured) fun _ _ => ?_
  refine Avoids.bind (Avoids.require fun _ => nofun) fun _ _ => ?_
  refine Avoids.bind (Avoids.require fun moved => absurd rfl moved) fun _ _ => ?_
  exact Avoids.bind (Avoids.orFail fun _ => nofun) fun _ _ => Avoids.pure _

/-- A pending request of the present generation: the step that scheduled it, and
the controller's half of executing it. -/
structure UpToDate (S : Setting σ) (history : List (JointStep S)) (state : State σ)
    (request : UpgradeRequest) : Prop where
  scheduled : ∃ since taken first, history = since ++ taken :: first ∧ Schedules S taken request ∧
    state.account.storage.recoveryController = taken.before.account.storage.recoveryController
  recorded : ∀ controller, state.account.storage.recoveryController = some controller →
    request.controllerEpoch = some (state.slice S controller).epoch
  accepted : ∀ controller, state.account.storage.recoveryController = some controller →
    ∀ around epoch failure, request.controllerEpoch = some epoch →
      (S.callees around).rcvUpgrade state.world controller (.execute epoch) = .error failure →
        ¬OutOfStep failure

theorem Reached.upToDate {history : List (JointStep S)} {now : UInt32} {state : State σ}
    (reached : Reached S history now state) {request : UpgradeRequest}
    (pending : state.account.storage.pendingUpgrade = some request)
    (current : state.account.storage.generationOf = request.generation) :
    UpToDate S history state request := by
  obtain ⟨later, taken, earlier, since⟩ := reached.pendingSince pending
  obtain ⟨bound, adopted⟩ := reached.pendingBound since current
  have recorded : ∀ controller, state.account.storage.recoveryController = some controller →
      request.controllerEpoch = some (state.slice S controller).epoch := by
    intro controller adopts
    rw [bound, adoptedEpoch, adopts, Option.map_some]
  refine ⟨⟨later, taken, earlier, since.cut, since.write, adopted⟩, recorded, ?_⟩
  intro controller adopts around epoch failure held failed
  obtain rfl := Option.some.inj ((recorded controller adopts).symm.trans held)
  have configured := (reached.enrolled.configured controller).mpr adopts
  have deployed := reached.deployed controller adopts
  simp only [Setting.callees, Setting.atController, if_pos deployed] at failed
  refine Avoids.bind (rcvUpgrade_inStep configured) ?_ failure failed
  exact fun _ _ => Avoids.pure _

/-- An upgrade executes when it was scheduled the whole delay earlier and nothing
of the enrollment has changed since; ids are never reused; and a request of the
present generation is never out of step with its controller. -/
theorem upgrades_timely {history : List (JointStep S)} {now : UInt32} {state : State σ}
    (reached : Reached S history now state) :
    (∀ later executed earlier requestId reply, history = later ++ executed :: earlier →
      executed.action.action = .executeUpgrade requestId → executed.reply = .ok reply →
        ∃ request since scheduled first, earlier = since ++ scheduled :: first ∧
          executed.before.account.storage.pendingUpgrade = some request ∧
          request.requestId = requestId ∧ Scheduled S executed request since scheduled) ∧
    (history.filterMap scheduledId).Nodup ∧
    ∀ request, state.account.storage.pendingUpgrade = some request →
      state.account.storage.generationOf = request.generation →
        UpToDate S history state request := by
  refine ⟨?_, ?_, ?_⟩
  · intro later executed earlier requestId reply cut asked replied
    exact reached.executed cut asked replied
  · rw [reached.idsFollow.scheduled]
    exact idsBelow_nodup _
  · intro request pending current
    exact reached.upToDate pending current

section Sample

def sampleWasm : Bytes32 := BytesN.fill 4

def approvingUpgrade : Invocation sampleSetting where
  around := sampleAround 3
  action := .call sampleController true false
    (.approveChange sampleSetting.me (.upgrade { requestId := 0, wasmHash := sampleWasm }) 20
      sampleGuardian)

def scheduling : Invocation sampleSetting where
  around := sampleAround 4
  action := .scheduleUpgrade sampleWasm 20

def upgrading : Invocation sampleSetting where
  around := sampleAround 120964
  action := .executeUpgrade 0

def sampleUpgraded : Except AccountFailure (State MemoryStore) := do
  let (_, state) ← sampleEnrolled
  let (_, state) ← approvingUpgrade.run sampleSetting state
  let (_, state) ← scheduling.run sampleSetting state
  let (_, state) ← upgrading.run sampleSetting state
  pure state

set_option maxRecDepth 16384 in
theorem sampleUpgraded_generation : sampleUpgraded.toOption.map
    (fun state => state.account.storage.generationOf) = some 2 := by
  simp only [sampleUpgraded, sampleEnrolled, enrolling, Invocation.run, applyDoc, apply,
    enrollingDoc_compiles]
  decide +kernel

/-- The sample account enrolls, its guardian approves an upgrade, and the upgrade
is scheduled and executed. -/
theorem sampleUpgraded_reached : ∃ enrolled approved scheduled upgraded first reply reply',
    Reached sampleSetting
        [⟨scheduled, upgrading, .ok reply, upgraded⟩, ⟨approved, scheduling, .ok reply', scheduled⟩,
          first, enrolled] 120964 upgraded ∧
      Reached sampleSetting [⟨approved, scheduling, .ok reply', scheduled⟩, first, enrolled] 120964
        scheduled ∧
      upgrading.run sampleSetting scheduled = .ok (reply, upgraded) := by
  obtain ⟨final, ran, -⟩ := Option.map_eq_some_iff.mp sampleUpgraded_generation
  have ran := toOption_eq_some.mp ran
  simp only [sampleUpgraded, sampleEnrolled, sampleBuilt, bind_eq_ok, pure_eq_ok,
    Prod.exists] at ran
  obtain ⟨_, _, ⟨_, ⟨account, built, rfl⟩, applied⟩, _, _, approves, _, _, schedules, _, _,
    executes, rfl⟩ := ran
  have fresh : Origin sampleSetting { account := account, world := sampleWorld } :=
    ⟨⟨sampleAround 1, _, .empty, fun _ => rfl, built⟩, fun _ => rfl, fun _ _ => rfl⟩
  have called : Execution (system sampleSetting) 2 { account := account, world := sampleWorld }
      [_] 2 _ := .call enrolling .refl rfl
  rw [step_of_ok applied] at called
  have called := (called.wait (by decide : (2 : UInt32) ≤ 3)).call approvingUpgrade rfl
  rw [step_of_ok approves] at called
  have called := (called.wait (by decide : (3 : UInt32) ≤ 4)).call scheduling rfl
  rw [step_of_ok schedules] at called
  have waited := called.wait (by decide : (4 : UInt32) ≤ 120964)
  have called := waited.call upgrading rfl
  rw [step_of_ok executes] at called
  exact ⟨_, _, _, _, _, _, _, ⟨⟨2, _, fresh, called⟩, fun _ => rfl⟩,
    ⟨⟨2, _, fresh, waited⟩, fun _ => rfl⟩, executes⟩

theorem executed_scheduled_sample : ∃ earlier executed request since scheduled first,
    executed.action.action = .executeUpgrade 0 ∧ earlier = since ++ scheduled :: first ∧
      Scheduled sampleSetting executed request since scheduled := by
  obtain ⟨_, approved, scheduled, upgraded, first, reply, reply', reached, _⟩ :=
    sampleUpgraded_reached
  obtain ⟨request, since, step, rest, cut, _, _, found⟩ :=
    executed_scheduled reached (List.nil_append _).symm rfl rfl
  exact ⟨_, _, request, since, step, rest, rfl, cut, found⟩

theorem upgrade_ids_sample : ∃ history state, Reached sampleSetting history 120964 state ∧
    history.filterMap executedId ⊆ history.filterMap scheduledId ∧
      0 ∈ history.filterMap executedId := by
  obtain ⟨_, _, _, upgraded, _, _, _, reached, _⟩ := sampleUpgraded_reached
  exact ⟨_, upgraded, reached, (upgrade_ids reached).2.2, List.mem_cons_self⟩

theorem executeUpgrade_succeeds_sample : ∃ history state request,
    Reached sampleSetting history 120964 state ∧
      (sampleAround 120964).uploaded request.wasmHash = true ∧
      Executable sampleSetting 120964 state 0 request := by
  obtain ⟨_, _, scheduled, upgraded, _, reply, _, _, reached, executes⟩ := sampleUpgraded_reached
  have executable := (@executeUpgrade_succeeds _ sampleSetting _ upgrading _ reached 0 rfl).mp
    ⟨reply, upgraded, executes⟩
  obtain ⟨request, _, uploaded, executable⟩ := executable
  exact ⟨_, scheduled, request, reached, uploaded, executable⟩

theorem upgrades_timely_sample : ∃ earlier executed request since scheduled first,
    executed.action.action = .executeUpgrade 0 ∧ earlier = since ++ scheduled :: first ∧
      Scheduled sampleSetting executed request since scheduled ∧
      UpToDate sampleSetting earlier executed.before request := by
  obtain ⟨_, approved, before, upgraded, _, reply, _, reached, pending, executes⟩ :=
    sampleUpgraded_reached
  obtain ⟨request, since, scheduled, first, cut, held, _, found⟩ :=
    (upgrades_timely reached).1 [] _ _ 0 _ rfl rfl rfl
  have happened := run_happened (fun controller => (pending.enrolled.slices controller).keyed)
    executes
  obtain ⟨request', _, _, executable⟩ := @Reached.executes _ _ _ upgrading _ _ pending 0 rfl _
    happened
  obtain rfl := Option.some.inj (held.symm.trans executable.pending)
  have current := (upgrades_timely pending).2.2 request held executable.current
  exact ⟨_, _, request, since, scheduled, first, rfl, cut, found, current⟩

end Sample

end Perch.Joint
