/-
The freeze is the controller's authorization, mirrored.

The account stores its own copy of the freeze: the controller sends it with
`rcv_gate`, a completion lifts it, and nothing lifts it when it expires.  The
controller in turn clears nothing when an authorization expires.  Read at a
ledger, the two are one optional value, and the invariant is that equation: no
step can move one side alone.
-/

import Perch.Joint.Revocation
import Perch.Recovery.Cancellation
import Perch.Recovery.Window

namespace Perch.Joint

open Machine Document Recovery Account

variable {σ : Type} {S : Setting σ}

/-! ### The freeze a controller asks for -/

/-- The freeze an authorization stands for at a ledger, under the protected
profile. -/
def freezeOf (m : Slice) (now : UInt32) : Option FreezeGate :=
  (m.config.filter fun config => config.profile = .protectedProfile).bind fun _ =>
    (m.armed.filter fun a => now < a.expiresAt).map fun a => ⟨a.id, a.expiresAt⟩

def gateAt (storage : AccountStorage) (now : UInt32) : Option FreezeGate :=
  storage.gate.filter fun gate => isFrozen now gate.untilLedger

section Freeze

variable {m m' : Slice} {now later : UInt32} {gate : FreezeGate} {a : Attempt}
  {config : CompiledRecoveryConfig}

theorem freezeOf_eq_some : freezeOf m now = some gate ↔
    ∃ config a, m.config = some config ∧ config.profile = .protectedProfile ∧
      m.armed = some a ∧ now < a.expiresAt ∧ a.id = gate.attemptId ∧
      a.expiresAt = gate.untilLedger := by
  cases gate with
  | mk attemptId untilLedger =>
      simp only [freezeOf, Option.bind_eq_some_iff, Option.filter_eq_some_iff, Option.map_eq_some_iff,
        decide_eq_true_eq, FreezeGate.mk.injEq]
      constructor
      · rintro ⟨config, ⟨enrolled, profile⟩, a, ⟨armed, within⟩, own, expiry⟩
        exact ⟨config, a, enrolled, profile, armed, within, own, expiry⟩
      · rintro ⟨config, a, enrolled, profile, armed, within, own, expiry⟩
        exact ⟨config, ⟨enrolled, profile⟩, a, ⟨armed, within⟩, own, expiry⟩

theorem gateAt_eq_some {storage : AccountStorage} :
    gateAt storage now = some gate ↔ storage.gate = some gate ∧ now < gate.untilLedger := by
  simp [gateAt, Option.filter_eq_some_iff, isFrozen]

theorem freezeOf_congr (configs : m'.config = m.config) (armed : m'.armed = m.armed) :
    freezeOf m' now = freezeOf m now := by
  rw [freezeOf, freezeOf, configs, armed]

theorem freezeOf_of_config (enrolled : m.config = some config)
    (profile : config.profile ≠ .protectedProfile) : freezeOf m now = none := by
  simp [freezeOf, enrolled, profile]

theorem freezeOf_of_disarmed (disarmed : m.armed = none) : freezeOf m now = none := by
  simp [freezeOf, disarmed]

theorem freezeOf_of_armed (enrolled : m.config = some config)
    (profile : config.profile = .protectedProfile) (armed : m.armed = some a) :
    freezeOf m now =
      (some (⟨a.id, a.expiresAt⟩ : FreezeGate)).filter fun gate => now < gate.untilLedger := by
  by_cases within : now < a.expiresAt <;>
    simp [freezeOf, enrolled, profile, armed, within, Option.filter_some]

theorem freezeOf_of_quiet (sound : m.Sound now) (quiet : m.Quiet now) : freezeOf m now = none := by
  apply Option.eq_none_iff_forall_ne_some.mpr
  intro gate frozen
  obtain ⟨_, a, _, _, armed, within, _⟩ := freezeOf_eq_some.mp frozen
  exact quiet a (sound.authorized_iff.mpr ⟨armed, within⟩)

/-- A freeze of a sound slice is a live authorization. -/
theorem freezeOf_eq_some_iff_authorized (sound : m.Sound now) : freezeOf m now = some gate ↔
    ∃ config a, m.config = some config ∧ config.profile = .protectedProfile ∧
      m.Authorized now a ∧ a.id = gate.attemptId ∧ a.expiresAt = gate.untilLedger := by
  rw [freezeOf_eq_some]
  constructor
  · rintro ⟨config, a, enrolled, profile, armed, within, own⟩
    exact ⟨config, a, enrolled, profile, sound.authorized_iff.mpr ⟨armed, within⟩, own⟩
  · rintro ⟨config, a, enrolled, profile, found, own⟩
    obtain ⟨armed, within⟩ := sound.authorized_iff.mp found
    exact ⟨config, a, enrolled, profile, armed, within, own⟩

/-! Both only run out as the ledgers close. -/

theorem freezeOf_later (forward : now ≤ later) : freezeOf m later =
    (freezeOf m now).filter fun gate => later < gate.untilLedger := by
  apply Option.ext
  intro gate
  rw [freezeOf_eq_some, Option.filter_eq_some_iff, freezeOf_eq_some, decide_eq_true_eq]
  constructor
  · rintro ⟨config, a, enrolled, profile, armed, within, own, expiry⟩
    exact ⟨⟨config, a, enrolled, profile, armed, UInt32.lt_of_le_of_lt forward within, own, expiry⟩,
      expiry ▸ within⟩
  · rintro ⟨⟨config, a, enrolled, profile, armed, _, own, expiry⟩, within⟩
    exact ⟨config, a, enrolled, profile, armed, expiry ▸ within, own, expiry⟩

theorem gateAt_later {storage : AccountStorage} (forward : now ≤ later) : gateAt storage later =
    (gateAt storage now).filter fun gate => later < gate.untilLedger := by
  apply Option.ext
  intro gate
  rw [gateAt_eq_some, Option.filter_eq_some_iff, gateAt_eq_some, decide_eq_true_eq]
  constructor
  · rintro ⟨stored, within⟩
    exact ⟨⟨stored, UInt32.lt_of_le_of_lt forward within⟩, within⟩
  · rintro ⟨⟨stored, _⟩, within⟩
    exact ⟨stored, within⟩

end Freeze

/-! ### A controller's step -/

/-- What a step of a controller does to the freeze it asks for, with the gate
call it sends. -/
inductive FreezeEffect (now : UInt32) (before after : Option FreezeGate) :
    Option GateCall → Prop where
  | kept (same : after = before) : FreezeEffect now before after none
  | opened {call : GateCall} (thawed : before = none)
      (asked : after = (some (⟨call.attemptId, call.frozenUntil⟩ : FreezeGate)).filter
        fun gate => now < gate.untilLedger) :
      FreezeEffect now before after (some call)
  | lifted {gate : FreezeGate} (frozen : before = some gate) (thawed : after = none) :
      FreezeEffect now before after (some ⟨gate.attemptId, 0⟩)

section Controller

variable {d : Deployment} {e : Env} {account : Address} {m m' : Slice} {call : Recovery.Call}
  {reply : Recovery.Reply} {gate : Option GateCall} {a : Attempt} {config : CompiledRecoveryConfig}

/-- Short of a completion, an authorization is given up only with a gate call. -/
theorem Transition.gate_of_disarmed (transition : Transition d e account m call reply gate m')
    (sound : m.Sound e.sequence) (unsynced : ∀ outcome, reply ≠ .synced outcome)
    (found : m.Authorized e.sequence a) (disarmed : m'.armed = none)
    (enrolled : m.config = some config) : gate = gateCall config a.id 0 := by
  have armed := (sound.authorized_iff.mp found).1
  have still (same : m'.armed = m.armed) : gate = gateCall config a.id 0 := by
    rw [disarmed, armed] at same
    cases same
  cases transition with
  | completed => exact absurd rfl (unsynced _)
  | classified => exact absurd rfl (unsynced _)
  | cancelledAuthorized enrolled' loaded live =>
      have same := sound.live_eq_authorized found (.of_load loaded) live
      rw [same]
      rw [enrolled] at enrolled'
      rw [Option.some.inj enrolled']
  | cancelledCollecting _ loaded live state cause =>
      exact absurd live (sound.not_live_of_authorized found (.of_load loaded) state)
  | @recorded _ a' b domain _ _ loaded live phase submitted =>
      have same := sound.live_eq_authorized found (.of_load loaded) live
      subst same
      obtain ⟨id, pointer, stored, current⟩ := Slice.armed_eq_some.mp armed
      have held : a'.id = id := sound.keyed id a' (.inl stored)
      have own := Attempt.id_of_asBegun submitted.asBegun
      have state : a'.state = .authorized := (sound.authorized_state found).1
      have kept : (m.put e b).armed = some b := by
        apply Slice.armed_put_self
        · rw [own, held]
          exact pointer
        · exact submitted.state_eq.trans state
        · rw [Attempt.epoch_of_asBegun submitted.asBegun]
          exact current
      rw [kept] at disarmed
      cases disarmed
  | scheduled _ _ quiet => exact absurd found (quiet a)
  | upgraded _ _ quiet => exact absurd found (quiet a)
  | begun started => exact absurd found (started.quiet a)
  | invalidated _ _ _ _ _ _ quiet => exact absurd found (quiet a)
  | authorized _ _ _ _ _ _ quiet => exact absurd found (quiet a)
  | approved _ _ _ quiet => exact absurd found (quiet a)
  | proved _ _ quiet => exact absurd found (quiet a)
  | installed | uninstalled | renewed | enforced | published =>
      exact still (Slice.armed_congr rfl rfl fun _ _ => rfl)

/-- A controller changes the freeze it asks for only with a gate call. -/
theorem Transition.freezeEffect (transition : Transition d e account m call reply gate m')
    (sound : m.Sound e.sequence) (unsynced : ∀ outcome, reply ≠ .synced outcome) :
    FreezeEffect e.sequence (freezeOf m e.sequence) (freezeOf m' e.sequence) gate := by
  have configs := (Transition.config_kept transition unsynced).1
  have closed {config : CompiledRecoveryConfig} {a : Attempt} (enrolled : m.config = some config)
      (found : m.Authorized e.sequence a) (disarmed : m'.armed = none) :
      FreezeEffect e.sequence (freezeOf m e.sequence) (freezeOf m' e.sequence)
        (gateCall config a.id 0) := by
    obtain ⟨armed, within⟩ := sound.authorized_iff.mp found
    rw [freezeOf_of_disarmed disarmed]
    by_cases profile : config.profile = .protectedProfile
    · have frozen : freezeOf m e.sequence = some ⟨a.id, a.expiresAt⟩ := by
        simp [freezeOf_of_armed enrolled profile armed, within]
      rw [gateCall, if_pos profile]
      exact .lifted frozen rfl
    · rw [gateCall, if_neg profile, freezeOf_of_config enrolled profile]
      exact .kept rfl
  cases transition.armedEffect sound with
  | kept same => exact .kept (freezeOf_congr configs same)
  | @touched a b before after begun window =>
      apply FreezeEffect.kept
      simp only [freezeOf, configs, before, after, Option.filter_some, window.expiresAt]
      split
      · simp [Attempt.id_of_asBegun begun, window.expiresAt]
      · rfl
  | @opened config a quiet enrolled kept after expiry applied frozen =>
      by_cases profile : config.profile = .protectedProfile
      · rw [gateCall, if_pos profile]
        exact .opened (freezeOf_of_quiet sound quiet)
          (freezeOf_of_armed (kept.trans enrolled) profile after)
      · rw [gateCall, if_neg profile, freezeOf_of_config enrolled profile,
          freezeOf_of_config (kept.trans enrolled) profile]
        exact .kept rfl
  | closed found enrolled kept after => exact closed enrolled found after
  | moved quiet after =>
      apply FreezeEffect.kept
      rw [freezeOf_of_disarmed after, freezeOf_of_quiet sound quiet]
  | @completed a found after =>
      cases enrolled : m.config with
      | none =>
          apply FreezeEffect.kept
          rw [freezeOf_of_disarmed after]
          simp [freezeOf, enrolled]
      | some config =>
          have effect := closed enrolled found after
          rw [← Transition.gate_of_disarmed transition sound unsynced found after enrolled] at effect
          exact effect

end Controller

/-! ### The account's side -/

theorem rcvGate_adopted {controller : Address} {attemptId : UInt64} {frozenUntil : UInt32}
    {storage storage' : AccountStorage}
    (gated : rcvGate controller attemptId frozenUntil storage = .ok storage') :
    storage.recoveryController = some controller := by
  simp only [rcvGate, bind_eq_ok, orFail_eq_ok, require_eq_ok] at gated
  obtain ⟨_, adopted, _, rfl, _⟩ := gated
  exact adopted

theorem rcvGate_mirrors {now : UInt32} {controller : Address} {call : GateCall}
    {storage storage' : AccountStorage} {after : Option FreezeGate}
    (effect : FreezeEffect now (gateAt storage now) after (some call))
    (gated : rcvGate controller call.attemptId call.frozenUntil storage = .ok storage') :
    gateAt storage' now = after := by
  simp only [rcvGate, bind_eq_ok, orFail_eq_ok, require_eq_ok] at gated
  obtain ⟨_, _, _, rfl, gated⟩ := gated
  cases effect with
  | opened thawed asked =>
      rw [asked]
      split at gated
      next zero =>
        rw [pure_eq_ok] at gated
        have never : ¬now < call.frozenUntil := by
          rw [zero]
          exact UInt32.not_lt_zero
        have inert : gateAt storage' now = none := by
          rw [← gated]
          split
          · rfl
          · exact thawed
        rw [inert]
        simp [Option.filter_some, never]
      next =>
        rw [pure_eq_ok] at gated
        rw [← gated]
        rfl
  | @lifted gate frozen thawed =>
      rw [if_pos rfl, pure_eq_ok] at gated
      have stored := (gateAt_eq_some.mp frozen).1
      rw [← gated, thawed]
      simp [stored, gateAt]

/-! ### The mirror -/

/-- The account's freeze is the one its controller asks for. -/
def Mirrored (S : Setting σ) (now : UInt32) (state : State σ) : Prop :=
  gateAt state.account.storage now =
    state.account.storage.recoveryController.bind fun controller =>
      freezeOf (state.slice S controller) now

section Steps

variable {now : UInt32} {state after : State σ}

/-- The adopted controller's freeze is the account's, and any other's is none. -/
theorem Mirrored.freezeOf_eq (mirrored : Mirrored S now state) (enrolled : Enrolled S now state)
    (controller : Address) : freezeOf (state.slice S controller) now =
      if state.account.storage.recoveryController = some controller then
        gateAt state.account.storage now
      else none := by
  split
  next adopted => rw [mirrored, adopted, Option.bind_some]
  next other =>
    have absent : (state.slice S controller).config = none := by
      by_contra present
      exact other ((enrolled.configured controller).mp present)
    simp [freezeOf, absent]

/-- A step that leaves the gate, the adopted controller and every freeze asked
for leaves the mirror. -/
theorem Mirrored.kept (mirrored : Mirrored S now state)
    (gate : after.account.storage.gate = state.account.storage.gate)
    (adopted : after.account.storage.recoveryController = state.account.storage.recoveryController)
    (freezes : ∀ controller, freezeOf (after.slice S controller) now =
      freezeOf (state.slice S controller) now) : Mirrored S now after := by
  unfold Mirrored at mirrored ⊢
  simp only [gateAt, gate, adopted, freezes]
  exact mirrored

theorem Acts.freezes {e : Env} {controller : Address} {call : Recovery.Call}
    {reply : Recovery.Reply} {world world' : World}
    (acts : Acts S e controller call reply none world world')
    (sound : (world.slice S controller).Sound e.sequence)
    (unsynced : ∀ outcome, reply ≠ .synced outcome) (other : Address) :
    freezeOf (world'.slice S other) e.sequence = freezeOf (world.slice S other) e.sequence := by
  by_cases here : other = controller
  · subst here
    cases Transition.freezeEffect acts.transition sound unsynced with
    | kept same => exact same
  · rw [acts.elsewhere other here]

theorem SliceChange.thawed {e : Env} {docHash : Bytes32} {new : Option CompiledRecoveryConfig}
    {controller : Address} {m m' : Slice} (change : SliceChange e docHash new controller m m')
    (sound : m.Sound e.sequence) (unarmed : m.config = none → m.authorized = none) :
    freezeOf m' e.sequence = none := by
  cases change with
  | untouched absent => simp [freezeOf, absent]
  | enrolled absent =>
      exact freezeOf_of_disarmed (Slice.armed_of_pointer (unarmed absent))
  | kept _ _ _ quiet =>
      rw [← freezeOf_of_quiet sound quiet]
      exact freezeOf_congr rfl (Slice.armed_congr rfl rfl fun _ _ => rfl)
  | reconfigured _ _ _ _ _ bumped =>
      exact freezeOf_of_disarmed (Slice.armed_of_bumped bumped sound.current)
  | removed => simp [freezeOf]
  | completed => exact freezeOf_of_disarmed (Slice.armed_of_pointer rfl)

theorem Mirrored.applied {around : Surroundings} {docJson : Bytes} {validUntil : UInt32}
    {expected : Option UInt64} {compiled : CompiledDoc} {leaf : Option CompiledZkFactor}
    {outcome joined : SyncOutcome} {synced : World}
    (mirrored : Mirrored S around.env.sequence state)
    (enrolled : Enrolled S around.env.sequence state)
    (effect : ApplyEffect S.code (S.callees around) around.env.sequence .cheapest docJson validUntil
      state.account state.world compiled leaf outcome synced after.account after.world)
    (counters : ApplyCounters (S.callees around) validUntil state.account state.world compiled
      outcome joined synced expected after.account) :
    gateAt after.account.storage around.env.sequence = none ∧
      Mirrored S around.env.sequence after := by
  have change := enrolled.changed effect counters
  have thawed : gateAt after.account.storage around.env.sequence = none := by
    have settled := effect.settles
    by_cases completes : ∃ completion, outcome = .completed completion
    · obtain ⟨completion, rfl⟩ := completes
      obtain ⟨_, _, _, lifted⟩ := settled
      simp [gateAt, lifted]
    · have incomplete : ∀ completion, outcome ≠ .completed completion :=
        fun completion same => completes ⟨completion, same⟩
      have kept : after.account.storage.gate = state.account.storage.gate := by
        cases outcome with
        | completed completion => exact absurd rfl (incomplete completion)
        | _ => exact settled.2
      have before : gateAt state.account.storage around.env.sequence = none := by
        rw [mirrored, Option.bind_eq_none_iff]
        intro controller adopts
        apply Option.eq_none_iff_forall_ne_some.mpr
        intro gate frozen
        obtain ⟨_, a, _, _, found, _⟩ :=
          (freezeOf_eq_some_iff_authorized (enrolled.slices controller)).mp frozen
        exact incomplete _ (change.completed_of_authorized adopts found)
      rw [← before, gateAt, gateAt, kept]
  refine ⟨thawed, ?_⟩
  rw [Mirrored, thawed, eq_comm, Option.bind_eq_none_iff]
  intro controller _
  exact (change.slice enrolled.configured controller).thawed (enrolled.slices controller)
    (enrolled.unarmed controller)

theorem Mirrored.step {invocation : Invocation S} {reply : Reply}
    (mirrored : Mirrored S invocation.around.env.sequence state)
    (enrolled : Enrolled S invocation.around.env.sequence state)
    (happened : Happened S invocation state reply after) :
    Mirrored S invocation.around.env.sequence after := by
  cases happened with
  | applied _ effect counters => exact (Mirrored.applied mirrored enrolled effect counters).2
  | recoveryCancelled _ _ called =>
      exact mirrored.kept rfl rfl
        ((called.acts enrolled.honest).freezes (enrolled.slices _) (by simp))
  | upgradeScheduled _ _ half =>
      refine mirrored.kept rfl rfl fun controller => ?_
      unfold UpgradeHalf at half
      split at half
      · rw [half.2]
      · obtain ⟨_, _, called⟩ := half
        exact (called.acts enrolled.honest).freezes (enrolled.slices _) (by simp) controller
  | upgradeExecuted _ _ _ _ _ half =>
      refine mirrored.kept rfl rfl fun controller => ?_
      rcases half with ⟨_, rfl⟩ | ⟨_, _, _, _, _, called⟩
      · rfl
      · exact (called.acts enrolled.honest).freezes (enrolled.slices _) (by simp) controller
  | upgradeDropped => exact mirrored.kept rfl rfl fun _ => rfl
  | authorized _ marked =>
      refine mirrored.kept rfl rfl fun controller => ?_
      obtain ⟨completing, slice⟩ := marked.slices controller
      change freezeOf (World.slice S _ controller) _ = _
      rw [slice]
      exact freezeOf_congr rfl (Slice.armed_congr rfl rfl fun _ _ => rfl)
  | elsewhere _ slices _ =>
      refine mirrored.kept rfl rfl fun controller => ?_
      change freezeOf (World.slice S _ controller) _ = _
      rw [slices]
  | @gated controller _ _ _ _ _ foreign =>
      rw [enrolled.honest controller] at foreign
      cases foreign
  | @called controller visible authorized call reply gate world' storage' asked own free acts
      delivered =>
      have unsynced := Transition.unsynced_of_not_hook acts.transition free
      have effect := Transition.freezeEffect acts.transition (enrolled.slices controller) unsynced
      cases gate with
      | none =>
          rw [deliver, pure_eq_ok] at delivered
          subst delivered
          exact mirrored.kept rfl rfl (acts.freezes (enrolled.slices controller) unsynced)
      | some gate =>
          simp only [deliver, if_pos own] at delivered
          obtain ⟨written, same⟩ := rcvGate_configuration delivered
          have adopted := rcvGate_adopted delivered
          have before := mirrored.freezeOf_eq enrolled controller
          rw [if_pos adopted] at before
          rw [outside_sequence, before] at effect
          have mirrors := rcvGate_mirrors effect delivered
          subst same
          unfold Mirrored
          rw [mirrors]
          simp only [adopted, Option.bind_some]

end Steps

theorem Reached.mirrored {history : List (JointStep S)} {now : UInt32} {state : State σ}
    (reached : Reached S history now state) : Mirrored S now state := by
  refine (reached.induct (fun _ now state => Mirrored S now state) ?_ ?_ ?_ ?_).2
  · intro start state origin
    obtain ⟨_, _, _, _, built⟩ := origin.built
    simp only [installAdmin, bind_eq_ok, pure_eq_ok, Prod.exists] at built
    obtain ⟨_, _, _, account⟩ := built
    rw [Mirrored, ← account]
    rfl
  · intro history now later state _ mirrored forward
    unfold Mirrored at mirrored ⊢
    rw [gateAt_later forward, mirrored]
    cases state.account.storage.recoveryController with
    | none => rfl
    | some controller => exact (freezeOf_later forward).symm
  · intro history state invocation failure _ mirrored
    exact mirrored
  · intro history state reply after invocation enrolled _ mirrored _ happened
    exact mirrored.step enrolled happened

/-! ### Steps while frozen -/

/-- Under the protected profile the owner cancels nothing that is authorized. -/
theorem Transition.not_rcvCancel {d : Deployment} {e : Env} {account : Address} {m m' : Slice}
    {call : Recovery.Call} {reply : Recovery.Reply} {gate : Option GateCall} {a : Attempt}
    {config : CompiledRecoveryConfig} {attemptId : UInt64}
    (transition : Transition d e account m call reply gate m') (sound : m.Sound e.sequence)
    (found : m.Authorized e.sequence a) (enrolled : m.config = some config)
    (profile : config.profile = .protectedProfile) : call ≠ .rcvCancel account attemptId := by
  intro named
  cases transition with
  | cancelledAuthorized enrolled' _ _ _ cause =>
      obtain rfl := Option.some.inj (enrolled'.symm.trans enrolled)
      cases cause with
      | owner _ loss =>
          rw [loss] at profile
          cases profile
      | evidence submitted =>
          rcases Submission.call_eq submitted with ⟨_, rfl⟩ | ⟨_, rfl⟩ <;> cases named
  | cancelledCollecting _ loaded live state =>
      exact absurd live (sound.not_live_of_authorized found (.of_load loaded) state)
  | recorded _ _ _ _ submitted =>
      rcases Submission.call_eq submitted with ⟨_, rfl⟩ | ⟨_, rfl⟩ <;> cases named
  | begun started => exact absurd found (started.quiet a)
  | invalidated _ _ _ _ _ _ quiet => exact absurd found (quiet a)
  | authorized _ _ _ _ _ _ quiet => exact absurd found (quiet a)
  | _ => cases named

/-- A controller that stops asking for a freeze, without a completion, was
called with evidence for cancelling. -/
theorem Transition.mayCancel_of_thawed {d : Deployment} {e : Env} {account : Address}
    {m m' : Slice} {call : Recovery.Call} {reply : Recovery.Reply} {gate : Option GateCall}
    {a : Attempt} {config : CompiledRecoveryConfig}
    (transition : Transition d e account m call reply gate m') (sound : m.Sound e.sequence)
    (unsynced : ∀ outcome, reply ≠ .synced outcome) (found : m.Authorized e.sequence a)
    (enrolled : m.config = some config) (profile : config.profile = .protectedProfile)
    (thawed : freezeOf m' e.sequence = none) : call.mayCancel a.id = true := by
  rcases transition.in_window sound found with ⟨_, _, _, _, synced⟩ | ⟨cancels, _⟩ |
    ⟨_, _, framed⟩
  · exact absurd synced (unsynced _)
  · exact cancels
  · obtain ⟨⟨id, pointer, stored, current⟩, within⟩ :=
      (sound.authorized_iff.mp found).imp_left Slice.armed_eq_some.mp
    have held : a.id = id := sound.keyed id a (.inl stored)
    obtain ⟨_, guardians, zk, written⟩ := framed.own
    have armed : m'.armed = some { a with cancelGuardians := guardians, cancelZk := zk } := by
      refine Slice.armed_eq_some.mpr ⟨a.id, ?_, written, ?_⟩
      · rw [framed.authorized, pointer, held]
      · rw [framed.epoch]
        exact current
    rw [freezeOf_of_armed (framed.config.trans enrolled) profile armed] at thawed
    simp [Option.filter_some, within] at thawed

def SameButUpgrade (before after : AccountState σ) : Prop :=
  ∃ pending, after =
    { before with storage := { before.storage with pendingUpgrade := pending } }

theorem SameButUpgrade.refl (account : AccountState σ) : SameButUpgrade account account :=
  ⟨account.storage.pendingUpgrade, rfl⟩

theorem SameButUpgrade.trans {first second third : AccountState σ}
    (earlier : SameButUpgrade first second) (later : SameButUpgrade second third) :
    SameButUpgrade first third := by
  obtain ⟨_, rfl⟩ := earlier
  obtain ⟨pending, rfl⟩ := later
  exact ⟨pending, rfl⟩

/-- What can end the freeze of an attempt before its ledger: the apply of the
attempt's target, or evidence against the attempt. -/
inductive EndsFreeze (S : Setting σ) (controller : Address) (a : Attempt) : Action S → Prop where
  | completion {docJson : Bytes} {validUntil : UInt32} {expected : Option UInt64}
      {compiled : CompiledDoc} (compiles : compileDoc S.code.host docJson = .ok compiled)
      (target : compiled.docHash = a.targetDocHash) :
      EndsFreeze S controller a (.applyDoc docJson validUntil expected)
  | cancellation {visible authorized : Bool} {call : Recovery.Call} (own : call.account = S.me)
      (cancels : call.mayCancel a.id = true) :
      EndsFreeze S controller a (.call controller visible authorized call)

/-- What leaves a freeze in force: an authorization of `apply_doc` alone, by the
recovery rule alone, dropping an upgrade, and what happens at other contracts. -/
inductive LeavesFrozen (S : Setting σ) (recoveryRule : Option UInt32) : Action S → Prop where
  | authorization {auth : S.CheckAuth} {payload : Bytes32} {signatures : AuthPayload}
      {rule : UInt32} {args : List Val} (selected : recoveryRule = some rule)
      (ids : signatures.contextRuleIds = [rule]) :
      LeavesFrozen S recoveryRule (.checkAuth auth payload signatures
        [.contract { contract := S.me, fnName := "apply_doc", args := args }])
  | dropping : LeavesFrozen S recoveryRule .cancelUpgrade
  | call {controller : Address} {visible authorized : Bool} {call : Recovery.Call} :
      LeavesFrozen S recoveryRule (.call controller visible authorized call)
  | insertion {pool account : Address} {enrollmentId commitment : Bytes32} :
      LeavesFrozen S recoveryRule (.insert pool account enrollmentId commitment)

/-- A step that succeeds while an attempt freezes the account. -/
inductive FrozenStep (S : Setting σ) (now : UInt32) (state : State σ) (controller : Address)
    (a : Attempt) (action : Action S) (after : State σ) : Prop where
  | ended (ends : EndsFreeze S controller a action)
      (thawed : gateAt after.account.storage now = none)
  | stayed (leaves : LeavesFrozen S state.account.storage.recoveryRule action)
      (same : SameButUpgrade state.account after.account)

section Frozen

variable {invocation : Invocation S} {state after : State σ} {reply : Reply}
  {controller : Address} {config : CompiledRecoveryConfig} {a : Attempt} {gate : FreezeGate}

/-- An authorization given while frozen is for the completion alone. -/
theorem checkAuth_frozen {auth : S.CheckAuth} {payload : Bytes32} {signatures : AuthPayload}
    {contexts : List Context} {sequence : UInt32} {account : AccountState σ} {world world' : World}
    {around : Surroundings} (frozen : gateAt account.storage sequence = some gate)
    (accepted : checkAuth S.code sequence (auth.run around) payload signatures contexts account
      world = .ok world') :
    ∃ rule args, account.storage.recoveryRule = some rule ∧ signatures.contextRuleIds = [rule] ∧
      contexts = [.contract { contract := S.me, fnName := "apply_doc", args := args }] := by
  simp only [checkAuth, bind_eq_ok, require_eq_ok] at accepted
  obtain ⟨-, -, -, admitted, -⟩ := accepted
  obtain ⟨stored, within⟩ := gateAt_eq_some.mp frozen
  have completion := admitted gate stored (by simpa [isFrozen] using within)
  unfold isCompletion at completion
  split at completion
  next rule call selected =>
    simp only [Bool.and_eq_true, decide_eq_true_eq] at completion
    obtain ⟨⟨ids, contract⟩, fnName⟩ := completion
    refine ⟨rule, call.args, selected, ids, ?_⟩
    rw [Setting.me, ← contract, ← fnName]
  next => cases completion

/-- A step that succeeds while the account is frozen is one of the listed. -/
theorem frozenStep (mirrored : Mirrored S invocation.around.env.sequence state)
    (enrolled : Enrolled S invocation.around.env.sequence state)
    (adopted : state.account.storage.recoveryController = some controller)
    (configured : (state.slice S controller).config = some config)
    (profile : config.profile = .protectedProfile)
    (found : (state.slice S controller).Authorized invocation.around.env.sequence a)
    (ran : invocation.run S state = .ok (reply, after)) :
    FrozenStep S invocation.around.env.sequence state controller a invocation.action after := by
  have sound := enrolled.slices controller
  obtain ⟨armed, within⟩ := sound.authorized_iff.mp found
  have asked : freezeOf (state.slice S controller) invocation.around.env.sequence =
      some ⟨a.id, a.expiresAt⟩ := by
    simp [freezeOf_of_armed configured profile armed, Option.filter_some, within]
  have frozen : gateAt state.account.storage invocation.around.env.sequence =
      some ⟨a.id, a.expiresAt⟩ := by
    rw [mirrored, adopted, Option.bind_some, asked]
  have happened := run_happened (fun controller => (enrolled.slices controller).keyed) ran
  have upgrade {step : UpgradeStep} {answered : UInt64} {world' : World}
      (called : Called S invocation.around controller (.rcvUpgrade S.me step) (.epoch answered)
        state.world world') : False := by
    have acts := called.acts enrolled.honest
    rcases Transition.in_window acts.transition sound found with ⟨_, _, _, named, _⟩ |
      ⟨cancels, _⟩ | ⟨opened, _⟩
    · cases named
    · cases cancels
    · cases opened
  cases happened with
  | @applied docJson validUntil expected compiled leaf outcome joined synced _ asked' effect
      counters =>
      rw [asked']
      have change := enrolled.changed effect counters
      have completed := change.completed_of_authorized adopted found
      obtain ⟨controller', a', adopts, found', target, _⟩ := change.of_completed completed
      obtain rfl := Option.some.inj (adopted.symm.trans adopts)
      obtain rfl := found'.unique found
      have settled := effect.settles
      rw [completed] at settled
      obtain ⟨_, _, _, lifted⟩ := settled
      exact .ended (.completion effect.compiles target) (by simp [gateAt, lifted])
  | recoveryCancelled _ adopts called =>
      obtain rfl := Option.some.inj (adopted.symm.trans adopts)
      have acts := called.acts enrolled.honest
      exact absurd rfl (Transition.not_rcvCancel acts.transition sound found configured profile)
  | upgradeScheduled _ _ half =>
      simp only [adopted, UpgradeHalf] at half
      obtain ⟨_, _, called⟩ := half
      exact (upgrade called).elim
  | upgradeExecuted _ _ _ _ _ half =>
      rcases half with ⟨unadopted, _⟩ | ⟨_, _, _, adopts, _, called⟩
      · rw [adopted] at unadopted
        cases unadopted
      · obtain rfl := Option.some.inj (adopted.symm.trans adopts)
        exact (upgrade called).elim
  | upgradeDropped asked' =>
      rw [asked']
      exact .stayed .dropping ⟨none, rfl⟩
  | @authorized auth payload signatures contexts world' asked' =>
      unfold Invocation.run at ran
      simp only [asked', bind_eq_ok, pure_eq_ok, Prod.mk.injEq] at ran
      obtain ⟨world, accepted, _, _⟩ := ran
      obtain ⟨rule, args, selected, ids, rfl⟩ := checkAuth_frozen frozen accepted
      rw [asked']
      exact .stayed (.authorization selected ids) (.refl _)
  | @called other visible authorized call reply gate world' storage' asked' own free acts
      delivered =>
      rw [asked']
      have unsynced := Transition.unsynced_of_not_hook acts.transition free
      have effect := Transition.freezeEffect acts.transition (enrolled.slices other) unsynced
      cases gate with
      | none =>
          rw [deliver, pure_eq_ok] at delivered
          subst delivered
          exact .stayed .call (.refl _)
      | some gate =>
          simp only [deliver, if_pos own] at delivered
          obtain rfl := Option.some.inj (adopted.symm.trans (rcvGate_adopted delivered))
          have thawed : freezeOf (World.slice S world' controller)
              invocation.around.env.sequence = none := by
            rw [outside_sequence, asked] at effect
            generalize freezeOf (World.slice S world' controller) _ = later at effect
            cases effect with
            | opened thawed => cases thawed
            | lifted _ thawed => exact thawed
          have cancels := Transition.mayCancel_of_thawed acts.transition sound unsynced found
            configured profile thawed
          refine .ended (.cancellation own cancels) ?_
          rw [← thawed]
          exact rcvGate_mirrors (by rw [frozen, ← asked]; exact effect) delivered
  | @gated other _ _ _ _ _ foreign =>
      rw [enrolled.honest other] at foreign
      cases foreign
  | elsewhere asked' =>
      rcases asked' with ⟨_, _, _, _, _, asked', _⟩ | ⟨_, _, _, _, asked', _⟩
      · rw [asked']
        exact .stayed .call (.refl _)
      · rw [asked']
        exact .stayed .insertion (.refl _)

end Frozen

/-! ### Runs while frozen -/

/-- Behind a freeze in force is an authorization of the adopted controller. -/
theorem Reached.authorization {history : List (JointStep S)} {now : UInt32} {state : State σ}
    (reached : Reached S history now state) {gate : FreezeGate}
    (gated : state.account.storage.gate = some gate) (within : now < gate.untilLedger) :
    ∃ controller config a, state.account.storage.recoveryController = some controller ∧
      (state.slice S controller).config = some config ∧ config.profile = .protectedProfile ∧
      (state.slice S controller).Authorized now a ∧ a.id = gate.attemptId ∧
      a.expiresAt = gate.untilLedger := by
  have held := gateAt_eq_some.mpr ⟨gated, within⟩
  rw [reached.mirrored, Option.bind_eq_some_iff] at held
  obtain ⟨controller, adopted, frozen⟩ := held
  obtain ⟨config, a, found⟩ :=
    (freezeOf_eq_some_iff_authorized (reached.enrolled.slices controller)).mp frozen
  exact ⟨controller, config, a, adopted, found⟩

theorem Reached.gated_iff {history : List (JointStep S)} {now : UInt32} {state : State σ}
    (reached : Reached S history now state) {gate : FreezeGate} :
    state.account.storage.gate = some gate ∧ now < gate.untilLedger ↔
      ∃ controller config a, state.account.storage.recoveryController = some controller ∧
        (state.slice S controller).config = some config ∧ config.profile = .protectedProfile ∧
        (state.slice S controller).Authorized now a ∧ a.id = gate.attemptId ∧
        a.expiresAt = gate.untilLedger := by
  constructor
  · rintro ⟨gated, within⟩
    exact reached.authorization gated within
  · rintro ⟨controller, config, a, adopted, found⟩
    rw [← gateAt_eq_some, reached.mirrored, Option.bind_eq_some_iff]
    exact ⟨controller, adopted,
      (freezeOf_eq_some_iff_authorized (reached.enrolled.slices controller)).mpr
        ⟨config, a, found⟩⟩

/-- The freeze in force is the live authorization of the adopted controller. -/
theorem freeze_agrees {history : List (JointStep S)} {now : UInt32} {state : State σ}
    (reached : Reached S history now state) (gate : FreezeGate) :
    state.account.storage.gate = some gate ∧ now < gate.untilLedger ↔
      ∃ controller config a, state.account.storage.recoveryController = some controller ∧
        (state.slice S controller).config = some config ∧ config.profile = .protectedProfile ∧
        (state.slice S controller).Authorized now a ∧ a.id = gate.attemptId ∧
        a.expiresAt = gate.untilLedger :=
  reached.gated_iff

/-- What is left to the owner while an attempt freezes the account: to authorize
one `apply_doc` by the recovery rule alone, which applies the attempt's target. -/
structure OwnerBound (S : Setting σ) (now : UInt32) (state : State σ) (a : Attempt) : Prop where
  authorizes : ∀ (auth : S.CheckAuth) (around : Surroundings) signaturePayload signatures contexts
    world, checkAuth S.code now (auth.run around) signaturePayload signatures contexts
      state.account state.world = .ok world →
    ∃ rule args, state.account.storage.recoveryRule = some rule ∧
      signatures.contextRuleIds = [rule] ∧
      contexts = [.contract { contract := S.me, fnName := "apply_doc", args := args }]
  applies : ∀ (invocation : Invocation S) docJson validUntil expected reply after,
    invocation.around.env.sequence = now →
    invocation.action = .applyDoc docJson validUntil expected →
    invocation.run S state = .ok (reply, after) →
      ∃ compiled, compileDoc S.code.host docJson = .ok compiled ∧
        compiled.docHash = a.targetDocHash
  refuses : ∀ (invocation : Invocation S) reply after, invocation.around.env.sequence = now →
    invocation.run S state = .ok (reply, after) →
      (∀ attemptId, invocation.action ≠ .cancelRecovery attemptId) ∧
      (∀ wasmHash validUntil, invocation.action ≠ .scheduleUpgrade wasmHash validUntil) ∧
      ∀ requestId, invocation.action ≠ .executeUpgrade requestId

theorem Reached.ownerBound {history : List (JointStep S)} {now : UInt32} {state : State σ}
    (reached : Reached S history now state) {controller : Address}
    {config : CompiledRecoveryConfig} {a : Attempt}
    (adopted : state.account.storage.recoveryController = some controller)
    (configured : (state.slice S controller).config = some config)
    (profile : config.profile = .protectedProfile)
    (found : (state.slice S controller).Authorized now a) : OwnerBound S now state a := by
  have listed (invocation : Invocation S) (reply : Reply) (after : State σ)
      (atNow : invocation.around.env.sequence = now)
      (ran : invocation.run S state = .ok (reply, after)) :
      EndsFreeze S controller a invocation.action ∨
        LeavesFrozen S state.account.storage.recoveryRule invocation.action := by
    subst atNow
    cases frozenStep reached.mirrored reached.enrolled adopted configured profile found ran with
    | ended ends => exact Or.inl ends
    | stayed leaves => exact Or.inr leaves
  constructor
  · intro auth around signaturePayload signatures contexts world accepted
    have gated : state.account.storage.gate = some ⟨a.id, a.expiresAt⟩ ∧ now < a.expiresAt :=
      reached.gated_iff.mpr ⟨controller, config, a, adopted, configured, profile, found, rfl, rfl⟩
    exact checkAuth_frozen (gateAt_eq_some.mpr gated) accepted
  · intro invocation docJson validUntil expected reply after atNow asked ran
    rcases listed invocation reply after atNow ran with ends | leaves
    · rw [asked] at ends
      cases ends with
      | completion compiles target => exact ⟨_, compiles, target⟩
    · rw [asked] at leaves
      cases leaves
  · intro invocation reply after atNow ran
    have allowed := listed invocation reply after atNow ran
    generalize invocation.action = action at allowed
    rcases allowed with ends | leaves
    · cases ends <;> exact ⟨nofun, nofun, nofun⟩
    · cases leaves <;> exact ⟨nofun, nofun, nofun⟩

/-- In every reachable state the account is frozen exactly while its adopted
controller has a live authorized attempt under the protected profile, under the
attempt's id and until it expires, and then its owner is bound to the attempt. -/
theorem freeze_mirrored {history : List (JointStep S)} {now : UInt32} {state : State σ}
    (reached : Reached S history now state) :
    ((∃ gate, state.account.storage.gate = some gate ∧ now < gate.untilLedger) ↔
      ∃ controller config a, state.account.storage.recoveryController = some controller ∧
        (state.slice S controller).config = some config ∧ config.profile = .protectedProfile ∧
        (state.slice S controller).Authorized now a) ∧
    ∀ gate, state.account.storage.gate = some gate → now < gate.untilLedger →
      ∀ controller config a, state.account.storage.recoveryController = some controller →
        (state.slice S controller).config = some config →
        (state.slice S controller).Authorized now a →
          gate = ⟨a.id, a.expiresAt⟩ ∧ OwnerBound S now state a := by
  constructor
  · constructor
    · rintro ⟨gate, gated, within⟩
      obtain ⟨controller, config, a, adopted, configured, profile, found, _⟩ :=
        reached.gated_iff.mp ⟨gated, within⟩
      exact ⟨controller, config, a, adopted, configured, profile, found⟩
    · rintro ⟨controller, config, a, adopted, configured, profile, found⟩
      exact ⟨⟨a.id, a.expiresAt⟩, reached.gated_iff.mpr
        ⟨controller, config, a, adopted, configured, profile, found, rfl, rfl⟩⟩
  · intro gate gated within controller config a adopted configured found
    obtain ⟨controller', config', a', adopted', configured', profile, found', own, expiry⟩ :=
      reached.gated_iff.mp ⟨gated, within⟩
    obtain rfl := Option.some.inj (adopted.symm.trans adopted')
    obtain rfl := Option.some.inj (configured.symm.trans configured')
    obtain rfl := found'.unique found
    refine ⟨?_, reached.ownerBound adopted configured profile found⟩
    rw [own, expiry]

/-- An authorized attempt that was held before the step has the terms it had. -/
theorem begun_of_authorized {invocation : Invocation S} {state after : State σ}
    {controller : Address} {a b : Attempt} (sound : (state.slice S controller).Sound
      invocation.around.env.sequence)
    (sound' : (after.slice S controller).Sound invocation.around.env.sequence)
    (unapplied : Unapplied S invocation state after)
    (found : (state.slice S controller).Authorized invocation.around.env.sequence a)
    (found' : (after.slice S controller).Authorized invocation.around.env.sequence b)
    (same : b.id = a.id) : b.asBegun = a.asBegun := by
  obtain ⟨authorized, _, stored', _⟩ := sound'.authorized_state found'
  obtain ⟨_, _, stored, _⟩ := sound.authorized_state found
  rcases (unapplied.slices controller).holds sound b.id b (.inl stored') with
    ⟨id, c, held, begun⟩ | ⟨_, _, _, _, _, _, started⟩
  · have own : c.id = id := sound.keyed id c held
    have named : id = a.id := by rw [← own, ← Attempt.id_of_asBegun begun, same]
    subst named
    rw [begun, sound.holds_unique held (.inl stored)]
  · rw [started.record] at authorized
    cases authorized

section Runs

variable {history window : List (JointStep S)} {now later : UInt32} {state after : State σ}
  {controller : Address} {gate : FreezeGate} {a : Attempt}

/-- A run in which nothing ends the freeze of an attempt: the account as the
freeze found it, and the attempt as it was begun. -/
structure Frozen (S : Setting σ) (controller : Address) (a : Attempt) (state : State σ)
    (window : List (JointStep S)) (later : UInt32) (after : State σ) : Prop where
  same : SameButUpgrade state.account after.account
  begun : ∀ b, (after.slice S controller).Authorized later b → b.asBegun = a.asBegun
  leaves : ∀ taken ∈ window, ∀ reply, taken.reply = .ok reply →
    LeavesFrozen S state.account.storage.recoveryRule taken.action.action

theorem Frozen.found (frozen : Frozen S controller a state window later after)
    (reached : Reached S history later after)
    (adopted : state.account.storage.recoveryController = some controller)
    (gated : state.account.storage.gate = some gate) (within : later < gate.untilLedger) :
    ∃ config b, after.account.storage.recoveryController = some controller ∧
      (after.slice S controller).config = some config ∧ config.profile = .protectedProfile ∧
      (after.slice S controller).Authorized later b ∧ b.id = gate.attemptId ∧
      b.asBegun = a.asBegun := by
  obtain ⟨pending, same⟩ := frozen.same
  have held : after.account.storage.gate = some gate := by rw [same, ← gated]
  have adopts : after.account.storage.recoveryController = some controller := by
    rw [same, ← adopted]
  obtain ⟨controller', config, b, adopted', configured, profile, found, own, _⟩ :=
    reached.authorization held within
  obtain rfl := Option.some.inj (adopts.symm.trans adopted')
  exact ⟨config, b, adopts, configured, profile, found, own, frozen.begun b found⟩

theorem Frozen.step {invocation : Invocation S} {reply : Reply} {final : State σ}
    (frozen : Frozen S controller a state window invocation.around.env.sequence after)
    (reached : Reached S history invocation.around.env.sequence after)
    (adopted : state.account.storage.recoveryController = some controller)
    (gated : state.account.storage.gate = some gate)
    (within : invocation.around.env.sequence < gate.untilLedger)
    (ran : invocation.run S after = .ok (reply, final))
    (reached' : Reached S (⟨after, invocation, .ok reply, final⟩ :: history)
      invocation.around.env.sequence final)
    (lasts : ¬EndsFreeze S controller a invocation.action) :
    Frozen S controller a state (⟨after, invocation, .ok reply, final⟩ :: window)
      invocation.around.env.sequence final := by
  obtain ⟨config, b, adopts, configured, profile, found, own, begun⟩ :=
    frozen.found reached adopted gated within
  have rule : after.account.storage.recoveryRule = state.account.storage.recoveryRule := by
    obtain ⟨_, same⟩ := frozen.same
    rw [same]
  have still {action : Action S} (ends : EndsFreeze S controller b action) :
      EndsFreeze S controller a action := by
    cases ends with
    | completion compiles target =>
        exact .completion compiles
          (target.trans (Attempt.term_eq Attempt.targetDocHash (fun _ => rfl) begun))
    | cancellation named cancels =>
        exact .cancellation named (Attempt.id_of_asBegun begun ▸ cancels)
  cases frozenStep reached.mirrored reached.enrolled adopts configured profile found ran with
  | ended ends _ => exact absurd (still ends) lasts
  | stayed leaves same =>
      have kept := frozen.same.trans same
      refine ⟨kept, ?_, ?_⟩
      · intro c found'
        have happened :=
          run_happened (fun controller => (reached.enrolled.slices controller).keyed) ran
        rcases happened.applied_or_unapplied with
          ⟨_, _, _, _, _, _, _, _, _, asked, _⟩ | unapplied
        · rw [asked] at leaves
          cases leaves
        · have gated' : final.account.storage.gate = some gate := by
            obtain ⟨_, same⟩ := kept
            rw [same, ← gated]
          have adopts' : final.account.storage.recoveryController = some controller := by
            obtain ⟨_, same⟩ := kept
            rw [same, ← adopted]
          obtain ⟨controller', _, d, adopted', _, _, found'', own', _⟩ :=
            reached'.authorization gated' within
          obtain rfl := Option.some.inj (adopts'.symm.trans adopted')
          obtain rfl := found'.unique found''
          exact (begun_of_authorized (reached.enrolled.slices controller)
            (reached'.enrolled.slices controller) unapplied found found'
            (own'.trans own.symm)).trans begun
      · intro taken member
        rcases List.mem_cons.mp member with rfl | earlier
        · intro _ _
          rw [← rule]
          exact leaves
        · exact frozen.leaves taken earlier

/-- Until a freeze's ledger, a run that neither applies the attempt's target nor
sends evidence against the attempt changes nothing of the account but a pending
upgrade, which it can drop; and all that succeeds in it is listed. -/
theorem frozen_until (reached : Reached S history now state)
    (gated : state.account.storage.gate = some gate) (within : now < gate.untilLedger) :
    ∃ controller a, state.account.storage.recoveryController = some controller ∧
      (state.slice S controller).Authorized now a ∧ a.id = gate.attemptId ∧
      a.expiresAt = gate.untilLedger ∧
      ∀ window later after, Execution (system S) now state window later after →
        later < gate.untilLedger →
        (∀ taken ∈ window, ∀ reply, taken.reply = .ok reply →
          ¬EndsFreeze S controller a taken.action.action) →
        Frozen S controller a state window later after := by
  obtain ⟨controller, config, a, adopted, _, _, found, own, expiry⟩ :=
    reached.authorization gated within
  refine ⟨controller, a, adopted, found, own, expiry, ?_⟩
  intro window later after execution
  obtain ⟨start, first, origin, before⟩ := reached.run
  induction execution with
  | refl =>
      intro _ _
      refine ⟨.refl _, ?_, by simp⟩
      intro b found'
      rw [found'.unique found]
  | @wait window now later after execution forward ih =>
      intro ends lasts
      have frozen := ih (UInt32.lt_of_le_of_lt forward ends) lasts
      refine ⟨frozen.same, ?_, frozen.leaves⟩
      intro b found'
      have reachedBefore : Reached S _ _ _ :=
        ⟨⟨start, first, origin, before.trans execution⟩, reached.honest⟩
      have reachedAfter : Reached S _ _ _ :=
        ⟨⟨start, first, origin, (before.trans execution).wait forward⟩, reached.honest⟩
      have sound := reachedBefore.enrolled.slices controller
      have sound' := reachedAfter.enrolled.slices controller
      obtain ⟨armed, alive⟩ := sound'.authorized_iff.mp found'
      exact frozen.begun b (sound.authorized_iff.mpr ⟨armed, UInt32.lt_of_le_of_lt forward alive⟩)
  | @call window now after invocation execution atNow ih =>
      intro ends lasts
      have reachedBefore : Reached S _ _ _ :=
        ⟨⟨start, first, origin, before.trans execution⟩, reached.honest⟩
      have reachedAfter : Reached S _ _ _ :=
        ⟨⟨start, first, origin, (before.trans execution).call invocation atNow⟩, reached.honest⟩
      have frozen := ih ends fun taken member => lasts taken (List.mem_cons_of_mem _ member)
      subst atNow
      rcases step_happened invocation reachedBefore.enrolled.slices with
        ⟨failure, _, stepped⟩ | ⟨reply, final, ran, stepped, _⟩
      · rw [stepped] at lasts ⊢
        refine ⟨frozen.same, frozen.begun, ?_⟩
        intro taken member reply replied
        rcases List.mem_cons.mp member with rfl | earlier
        · cases replied
        · exact frozen.leaves taken earlier reply replied
      · rw [stepped] at lasts reachedAfter ⊢
        exact frozen.step reachedBefore adopted gated ends ran reachedAfter
          (lasts _ List.mem_cons_self reply rfl)

end Runs

section Sample

theorem freeze_agrees_sample : ∃ history state controller config a,
    Reached sampleSetting history 3 state ∧
      state.account.storage.recoveryController = some controller ∧
      (state.slice sampleSetting controller).config = some config ∧
      (state.slice sampleSetting controller).Authorized 3 a ∧ a.expiresAt = 33 := by
  obtain ⟨history, state, reached, gated⟩ := sampleRecovered_gated
  obtain ⟨controller, config, a, adopted, configured, _, found, _, expiry⟩ :=
    (freeze_agrees reached ⟨0, 33⟩).mp ⟨gated, by decide⟩
  exact ⟨history, state, controller, config, a, reached, adopted, configured, found, expiry⟩

theorem freeze_mirrored_sample : ∃ history state controller a,
    Reached sampleSetting history 3 state ∧
      (state.slice sampleSetting controller).Authorized 3 a ∧ a.expiresAt = 33 ∧
      OwnerBound sampleSetting 3 state a := by
  obtain ⟨history, state, reached, gated⟩ := sampleRecovered_gated
  obtain ⟨agrees, bound⟩ := freeze_mirrored reached
  obtain ⟨controller, config, a, adopted, configured, _, found⟩ :=
    agrees.mp ⟨⟨0, 33⟩, gated, by decide⟩
  obtain ⟨same, owner⟩ :=
    bound ⟨0, 33⟩ gated (by decide) controller config a adopted configured found
  exact ⟨history, state, controller, a, reached, found,
    (congrArg FreezeGate.untilLedger same).symm, owner⟩

theorem frozen_until_sample : ∃ history state controller a,
    Reached sampleSetting history 3 state ∧ a.expiresAt = 33 ∧
      ∀ window later after, Execution (system sampleSetting) 3 state window later after →
        later < 33 →
        (∀ taken ∈ window, ∀ reply, taken.reply = .ok reply →
          ¬EndsFreeze sampleSetting controller a taken.action.action) →
        Frozen sampleSetting controller a state window later after := by
  obtain ⟨history, state, reached, gated⟩ := sampleRecovered_gated
  obtain ⟨controller, a, _, _, _, expiry, lasts⟩ := frozen_until reached gated (by decide)
  exact ⟨history, state, controller, a, reached, expiry, lasts⟩

end Sample

end Perch.Joint
