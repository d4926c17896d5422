/-
The account and its controllers agree on enrollment.

A switch of controllers syncs two of them with the same arguments, and each
classifies the call from its own storage.  Over the joint state there are only
seven ways an apply can go, and each ends with exactly the adopted controller
holding a configuration, the one of the applied document.
-/

import Perch.Joint.Step

namespace Perch.Joint

open Machine Document Recovery Account

variable {σ : Type} {S : Setting σ}

/-! ### The base invariant -/

/-- Who is enrolled where, among recovery controllers: one holds a configuration
exactly when it is the adopted one, and no attempt is authorized without a
configuration. -/
structure Enrolled (S : Setting σ) (now : UInt32) (state : State σ) : Prop where
  honest : S.Honest
  slices : Sounds S now state
  configured : ∀ controller, (state.slice S controller).config ≠ none ↔
    state.account.storage.recoveryController = some controller
  unarmed : ∀ controller, (state.slice S controller).config = none →
    (state.slice S controller).authorized = none

/-- How an apply changes the slices, with the outcomes of the old controller and
of a new one. -/
inductive EnrollmentChange (S : Setting σ) (e : Env) (adopted : Option Address)
    (docHash : Bytes32) (new : Option CompiledRecoveryConfig) (before : Address → Slice) :
    SyncOutcome → SyncOutcome → (Address → Slice) → Prop where
  | nothing (unadopted : adopted = none) (unnamed : new = none) :
      EnrollmentChange S e adopted docHash new before .unchanged .unchanged before
  | enrolled {config : CompiledRecoveryConfig} {epoch : UInt64}
      {completing : Option (Temporary CompletionMarker)}
      (unadopted : adopted = none) (named : new = some config)
      (absent : (before config.controller).config = none)
      (bumped : checkedSucc (before config.controller).epoch = some epoch) :
      EnrollmentChange S e adopted docHash new before .unchanged .enrolled
        (Function.update before config.controller
          { before config.controller with
            config := some config, epoch := epoch, completing := completing })
  | kept {controller : Address} {stored config : CompiledRecoveryConfig}
      {completing : Option (Temporary CompletionMarker)}
      (adopts : adopted = some controller) (named : new = some config)
      (here : config.controller = controller) (quiet : (before controller).Quiet e.sequence)
      (present : (before controller).config = some stored)
      (same : config.configHash = stored.configHash) :
      EnrollmentChange S e adopted docHash new before .unchanged .unchanged
        (Function.update before controller { before controller with completing := completing })
  | reconfigured {controller : Address} {stored config : CompiledRecoveryConfig} {epoch : UInt64}
      {completing : Option (Temporary CompletionMarker)}
      (adopts : adopted = some controller) (named : new = some config)
      (here : config.controller = controller) (quiet : (before controller).Quiet e.sequence)
      (present : (before controller).config = some stored)
      (changed : config.configHash ≠ stored.configHash)
      (bumped : checkedSucc (before controller).epoch = some epoch) :
      EnrollmentChange S e adopted docHash new before .reconfigured .unchanged
        (Function.update before controller
          { before controller with
            config := some config, epoch := epoch, completing := completing })
  | removed {controller : Address} {epoch : UInt64}
      {completing : Option (Temporary CompletionMarker)}
      (adopts : adopted = some controller) (unnamed : new = none)
      (quiet : (before controller).Quiet e.sequence)
      (bumped : checkedSucc (before controller).epoch = some epoch) :
      EnrollmentChange S e adopted docHash new before .removed .unchanged
        (Function.update before controller
          { before controller with
            config := none, authorized := none, epoch := epoch, completing := completing })
  | switched {controller : Address} {config : CompiledRecoveryConfig} {epoch epoch' : UInt64}
      {completing completing' : Option (Temporary CompletionMarker)}
      (adopts : adopted = some controller) (named : new = some config)
      (elsewhere : config.controller ≠ controller) (quiet : (before controller).Quiet e.sequence)
      (bumped : checkedSucc (before controller).epoch = some epoch)
      (absent : (before config.controller).config = none)
      (bumped' : checkedSucc (before config.controller).epoch = some epoch') :
      EnrollmentChange S e adopted docHash new before .removed .enrolled
        (Function.update
          (Function.update before controller
            { before controller with
              config := none, authorized := none, epoch := epoch, completing := completing })
          config.controller
          { before config.controller with
            config := some config, epoch := epoch', completing := completing' })
  | completed {controller : Address} {config : CompiledRecoveryConfig} {a : Attempt}
      {epoch : UInt64} {nullifier : Bytes32 → Option Bool}
      (adopts : adopted = some controller) (named : new = some config)
      (here : config.controller = controller)
      (found : (before controller).Authorized e.sequence a) (target : docHash = a.targetDocHash)
      (terms : config.configHash = a.targetConfigHash)
      (spent : nullifier = fun n =>
        if a.zkNullifier = some n then some true else (before controller).nullifier n)
      (bumped : checkedSucc (before controller).epoch = some epoch) :
      EnrollmentChange S e adopted docHash new before
        (.completed { attemptId := a.id, replaced := a.replaced }) .unchanged
        (Function.update before controller
          { ((before controller).put e { a with state := .completed }) with
            completing := none
            nullifier := nullifier
            authorized := none
            config := some config
            epoch := epoch })

theorem Acts.slices {e : Env} {controller : Address} {call : Recovery.Call}
    {reply : Recovery.Reply} {gate : Option GateCall} {world world' : World}
    (acts : Acts S e controller call reply gate world world') :
    world'.slice S = Function.update (world.slice S) controller (world'.slice S controller) := by
  funext other
  by_cases here : other = controller
  · subst here
    rw [Function.update_self]
  · rw [Function.update_of_ne here, acts.elsewhere other here]

/-- Where no other contract answers, a controller acted. -/
theorem Called.acts {around : Surroundings} {controller : Address} {call : Recovery.Call}
    {reply : Recovery.Reply} {world world' : World}
    (called : Called S around controller call reply world world') (honest : S.Honest) :
    Acts S (S.inside around) controller call reply none world world' := by
  cases called with
  | acted acts => exact acts
  | answered _ foreign =>
      rw [honest controller] at foreign
      cases foreign

section Sync

variable {around : Surroundings} {world world' : World} {controller : Address}
  {docHash : Bytes32} {recovery : List CompiledRecoveryConfig} {validUntil : UInt32}
  {outcome : SyncOutcome}

theorem sync_unconfigured
    (acts : Acts S (S.inside around) controller (.rcvSync S.me docHash recovery validUntil)
      (.synced outcome) none world world')
    (absent : (world.slice S controller).config = none)
    (unarmed : (world.slice S controller).authorized = none)
    {config : CompiledRecoveryConfig} (named : recovery.head? = some config) :
    outcome = .enrolled ∧ config.controller = controller ∧ ∃ epoch completing,
      checkedSucc (world.slice S controller).epoch = some epoch ∧
      world'.slice S controller =
        { world.slice S controller with
          config := some config, epoch := epoch, completing := completing } := by
  have transition := acts.transition
  generalize world'.slice S controller = m' at transition
  generalize asked : Call.rcvSync S.me docHash recovery validUntil = call at transition
  cases transition with
  | completed _ _ _ _ found =>
      obtain ⟨id, pointed, _⟩ := found
      rw [unarmed] at pointed
      cases pointed
  | classified _ _ settled =>
      cases asked
      have dropped := Slice.takeMarker_eq (S.inside around).sequence (world.slice S controller)
      generalize ((world.slice S controller).takeMarker (S.inside around).sequence).completing =
        completing at dropped
      rw [dropped] at settled
      cases settled with
      | nothing _ unnamed =>
          rw [named] at unnamed
          cases unnamed
      | enrolled _ passed here _ _ bumped =>
          obtain rfl := Option.some.inj (named.symm.trans passed)
          exact ⟨rfl, here, _, _, bumped, rfl⟩
      | same present => simp [absent] at present
      | reconfigured present => simp [absent] at present
      | removed present => simp [absent] at present

theorem sync_configured
    (acts : Acts S (S.inside around) controller (.rcvSync S.me docHash recovery validUntil)
      (.synced outcome) none world world')
    {stored : CompiledRecoveryConfig}
    (present : (world.slice S controller).config = some stored) :
    (∃ config completing, recovery.head? = some config ∧ config.controller = controller ∧
        (world.slice S controller).Quiet around.env.sequence ∧
        config.configHash = stored.configHash ∧ outcome = .unchanged ∧
        world'.slice S controller = { world.slice S controller with completing := completing }) ∨
    (∃ config epoch completing, recovery.head? = some config ∧ config.controller = controller ∧
        (world.slice S controller).Quiet around.env.sequence ∧
        config.configHash ≠ stored.configHash ∧
        checkedSucc (world.slice S controller).epoch = some epoch ∧ outcome = .reconfigured ∧
        world'.slice S controller =
          { world.slice S controller with
            config := some config, epoch := epoch, completing := completing }) ∨
    (∃ epoch completing,
        (∀ config, recovery.head? = some config → config.controller ≠ controller) ∧
        (world.slice S controller).Quiet around.env.sequence ∧
        checkedSucc (world.slice S controller).epoch = some epoch ∧ outcome = .removed ∧
        world'.slice S controller =
          { world.slice S controller with
            config := none, authorized := none, epoch := epoch, completing := completing }) ∨
    ∃ config a epoch nullifier, recovery.head? = some config ∧ config.controller = controller ∧
        (world.slice S controller).Authorized around.env.sequence a ∧
        docHash = a.targetDocHash ∧ config.configHash = a.targetConfigHash ∧
        (nullifier = fun n =>
          if a.zkNullifier = some n then some true else (world.slice S controller).nullifier n) ∧
        checkedSucc (world.slice S controller).epoch = some epoch ∧
        outcome = .completed { attemptId := a.id, replaced := a.replaced } ∧
        world'.slice S controller =
          { ((world.slice S controller).put (S.inside around) { a with state := .completed }) with
            completing := none
            nullifier := nullifier
            authorized := none
            config := some config
            epoch := epoch } := by
  have transition := acts.transition
  generalize world'.slice S controller = m' at transition
  generalize asked : Call.rcvSync S.me docHash recovery validUntil = call at transition
  cases transition with
  | completed _ _ _ _ found _ target passed here terms _ spent bumped =>
      cases asked
      exact .inr (.inr (.inr
        ⟨_, _, _, _, passed, here, found, target, terms, spent, bumped, rfl, rfl⟩))
  | classified _ quiet settled =>
      cases asked
      have dropped := Slice.takeMarker_eq (S.inside around).sequence (world.slice S controller)
      generalize ((world.slice S controller).takeMarker (S.inside around).sequence).completing =
        completing at dropped
      rw [dropped] at settled
      cases settled with
      | nothing absent => simp [present] at absent
      | enrolled absent => simp [present] at absent
      | same held passed here equal =>
          obtain rfl := Option.some.inj (present.symm.trans held)
          exact .inl ⟨_, _, passed, here, quiet, equal, rfl, rfl⟩
      | reconfigured held passed here changed _ _ _ bumped =>
          obtain rfl := Option.some.inj (present.symm.trans held)
          exact .inr (.inl ⟨_, _, _, passed, here, quiet, changed, bumped, rfl, rfl⟩)
      | removed _ elsewhere _ bumped =>
          exact .inr (.inr (.inl ⟨_, _, elsewhere, quiet, bumped, rfl, rfl⟩))

end Sync

theorem Enrolled.changes {around : Surroundings} {now : UInt32} {state : State σ}
    (enrolled : Enrolled S now state) {compiled : CompiledDoc} {validUntil : UInt32}
    {outcome joined : SyncOutcome} {synced : World}
    (syncs : SyncedBoth (S.callees around) compiled validUntil
      state.account.storage.recoveryController state.world outcome joined synced) :
    EnrollmentChange S (S.inside around) state.account.storage.recoveryController
      compiled.docHash compiled.recovery.head? (state.slice S) outcome joined
      (synced.slice S) := by
  have unconfigured : ∀ controller,
      state.account.storage.recoveryController ≠ some controller →
      (state.slice S controller).config = none := by
    intro controller other
    by_contra present
    exact other ((enrolled.configured controller).mp present)
  cases syncs with
  | none unadopted unnamed => exact .nothing unadopted unnamed
  | @enrolled config _ _ unadopted named called =>
      have acts := (rcvSync_called called).acts enrolled.honest
      have absent := unconfigured config.controller (by simp [unadopted])
      obtain ⟨rfl, _, epoch, completing, bumped, after⟩ :=
        sync_unconfigured acts absent (enrolled.unarmed _ absent) named
      rw [acts.slices, after]
      exact .enrolled unadopted named absent bumped
  | @stays controller _ _ adopts same called =>
      have acts := (rcvSync_called called).acts enrolled.honest
      obtain ⟨stored, present⟩ :=
        Option.ne_none_iff_exists'.mp ((enrolled.configured controller).mpr adopts)
      rw [acts.slices]
      rcases sync_configured acts present with
        ⟨config, completing, named, here, quiet, equal, rfl, after⟩ |
        ⟨config, epoch, completing, named, here, quiet, changed, bumped, rfl, after⟩ |
        ⟨epoch, completing, elsewhere, quiet, bumped, rfl, after⟩ |
        ⟨config, a, epoch, nullifier, named, here, found, target, terms, spent, bumped, rfl, after⟩
      · rw [after]
        exact .kept adopts named here quiet present equal
      · rw [after]
        exact .reconfigured adopts named here quiet present changed bumped
      · rw [after]
        refine .removed adopts ?_ quiet bumped
        cases named : compiled.recovery.head? with
        | none => rfl
        | some config => exact absurd (same config named) (elsewhere config named)
      · rw [after]
        exact .completed adopts named here found target terms spent bumped
  | @switched controller config _ _ middle _ adopts named elsewhere left called =>
      have leaves := (rcvSync_called left).acts enrolled.honest
      have joins := (rcvSync_called called).acts enrolled.honest
      obtain ⟨stored, present⟩ :=
        Option.ne_none_iff_exists'.mp ((enrolled.configured controller).mpr adopts)
      have absent := unconfigured config.controller (by
        rw [adopts]
        intro same
        exact elsewhere (Option.some.inj same).symm)
      have untouched := leaves.elsewhere config.controller elsewhere
      obtain ⟨rfl, _, epoch', completing', bumped', joined⟩ :=
        sync_unconfigured joins (by rw [untouched]; exact absent)
          (by rw [untouched]; exact enrolled.unarmed _ absent) named
      rw [joins.slices, joined, untouched]
      rw [untouched] at bumped'
      have gone : ∀ found, compiled.recovery.head? = some found →
          found.controller ≠ controller := by
        intro found named'
        rw [named, Option.some.injEq] at named'
        exact named' ▸ elsewhere
      rcases sync_configured leaves present with
        ⟨found, _, named', here, _⟩ | ⟨found, _, _, named', here, _⟩ |
        ⟨epoch, completing, _, quiet, bumped, rfl, after⟩ | ⟨found, _, _, _, named', here, _⟩
      · exact absurd here (gone found named')
      · exact absurd here (gone found named')
      · rw [leaves.slices, after]
        exact .switched adopts named elsewhere quiet bumped absent bumped'
      · exact absurd here (gone found named')

/-! ### One controller's part -/

inductive SliceChange (e : Env) (docHash : Bytes32) (new : Option CompiledRecoveryConfig)
    (controller : Address) (m : Slice) : Slice → Prop where
  | untouched (absent : m.config = none)
      (elsewhere : ∀ config, new = some config → config.controller ≠ controller) :
      SliceChange e docHash new controller m m
  | enrolled {config : CompiledRecoveryConfig} {epoch : UInt64}
      {completing : Option (Temporary CompletionMarker)} (absent : m.config = none)
      (named : new = some config) (here : config.controller = controller)
      (bumped : checkedSucc m.epoch = some epoch) :
      SliceChange e docHash new controller m
        { m with config := some config, epoch := epoch, completing := completing }
  | kept {stored config : CompiledRecoveryConfig}
      {completing : Option (Temporary CompletionMarker)} (present : m.config = some stored)
      (named : new = some config) (here : config.controller = controller)
      (quiet : m.Quiet e.sequence) (same : config.configHash = stored.configHash) :
      SliceChange e docHash new controller m { m with completing := completing }
  | reconfigured {stored config : CompiledRecoveryConfig} {epoch : UInt64}
      {completing : Option (Temporary CompletionMarker)} (present : m.config = some stored)
      (named : new = some config) (here : config.controller = controller)
      (quiet : m.Quiet e.sequence) (changed : config.configHash ≠ stored.configHash)
      (bumped : checkedSucc m.epoch = some epoch) :
      SliceChange e docHash new controller m
        { m with config := some config, epoch := epoch, completing := completing }
  | removed {epoch : UInt64} {completing : Option (Temporary CompletionMarker)}
      (elsewhere : ∀ config, new = some config → config.controller ≠ controller)
      (quiet : m.Quiet e.sequence) (bumped : checkedSucc m.epoch = some epoch) :
      SliceChange e docHash new controller m
        { m with config := none, authorized := none, epoch := epoch, completing := completing }
  | completed {config : CompiledRecoveryConfig} {a : Attempt} {epoch : UInt64}
      {nullifier : Bytes32 → Option Bool} (named : new = some config)
      (here : config.controller = controller) (found : m.Authorized e.sequence a)
      (target : docHash = a.targetDocHash) (terms : config.configHash = a.targetConfigHash)
      (spent : nullifier = fun n => if a.zkNullifier = some n then some true else m.nullifier n)
      (bumped : checkedSucc m.epoch = some epoch) :
      SliceChange e docHash new controller m
        { (m.put e { a with state := .completed }) with
          completing := none
          nullifier := nullifier
          authorized := none
          config := some config
          epoch := epoch }

section Change

variable {e : Env} {adopted : Option Address} {docHash : Bytes32}
  {new : Option CompiledRecoveryConfig} {before after : Address → Slice}
  {outcome joined : SyncOutcome}

theorem EnrollmentChange.slice
    (change : EnrollmentChange S e adopted docHash new before outcome joined after)
    (configured : ∀ controller, (before controller).config ≠ none ↔ adopted = some controller)
    (controller : Address) :
    SliceChange e docHash new controller (before controller) (after controller) := by
  have others : ∀ {c : Address}, adopted = some c → controller ≠ c →
      (before controller).config = none := by
    intro c adopts apart
    by_contra present
    rw [← Ne, configured, adopts] at present
    exact apart (Option.some.inj present).symm
  have away : ∀ {config : CompiledRecoveryConfig}, new = some config →
      controller ≠ config.controller →
      ∀ found, new = some found → found.controller ≠ controller := by
    intro config named apart found named'
    rw [named, Option.some.injEq] at named'
    rw [← named']
    exact Ne.symm apart
  cases change with
  | nothing unadopted unnamed =>
      refine .untouched ?_ (by simp [unnamed])
      by_contra present
      rw [← Ne, configured, unadopted] at present
      cases present
  | @enrolled config _ _ unadopted named absent bumped =>
      by_cases here : controller = config.controller
      · subst here
        rw [Function.update_self]
        exact .enrolled absent named rfl bumped
      · rw [Function.update_of_ne here]
        refine .untouched ?_ (away named here)
        by_contra present
        rw [← Ne, configured, unadopted] at present
        cases present
  | @kept adoptee _ config _ adopts named here quiet present same =>
      subst here
      by_cases own : controller = config.controller
      · subst own
        rw [Function.update_self]
        exact .kept present named rfl quiet same
      · rw [Function.update_of_ne own]
        exact .untouched (others adopts own) (away named own)
  | @reconfigured adoptee _ config _ _ adopts named here quiet present changed bumped =>
      subst here
      by_cases own : controller = config.controller
      · subst own
        rw [Function.update_self]
        exact .reconfigured present named rfl quiet changed bumped
      · rw [Function.update_of_ne own]
        exact .untouched (others adopts own) (away named own)
  | @removed adoptee _ _ adopts unnamed quiet bumped =>
      by_cases own : controller = adoptee
      · subst own
        rw [Function.update_self]
        exact .removed (by simp [unnamed]) quiet bumped
      · rw [Function.update_of_ne own]
        exact .untouched (others adopts own) (by simp [unnamed])
  | @switched adoptee config _ _ _ _ adopts named elsewhere quiet bumped absent bumped' =>
      by_cases there : controller = config.controller
      · subst there
        rw [Function.update_self]
        exact .enrolled absent named rfl bumped'
      · rw [Function.update_of_ne there]
        by_cases own : controller = adoptee
        · subst own
          rw [Function.update_self]
          exact .removed (away named there) quiet bumped
        · rw [Function.update_of_ne own]
          exact .untouched (others adopts own) (away named there)
  | @completed adoptee config a _ _ adopts named here found target terms spent bumped =>
      subst here
      by_cases own : controller = config.controller
      · subst own
        rw [Function.update_self]
        exact .completed named rfl found target terms spent bumped
      · rw [Function.update_of_ne own]
        exact .untouched (others adopts own) (away named own)

namespace SliceChange

variable {controller : Address} {m m' : Slice}

/-- Afterwards exactly the named controller holds a configuration. -/
theorem configured (change : SliceChange e docHash new controller m m') :
    m'.config ≠ none ↔ new.map CompiledRecoveryConfig.controller = some controller := by
  cases change with
  | untouched absent elsewhere =>
      simp only [absent, ne_eq, not_true_eq_false, false_iff, Option.map_eq_some_iff]
      rintro ⟨config, named, here⟩
      exact elsewhere config named here
  | enrolled _ named here => simp [named, here]
  | kept present named here => simp [present, named, here]
  | reconfigured _ named here => simp [named, here]
  | removed elsewhere =>
      simp only [ne_eq, not_true_eq_false, false_iff, Option.map_eq_some_iff]
      rintro ⟨config, named, here⟩
      exact elsewhere config named here
  | completed named here => simp [named, here]

/-- No attempt is authorized where no configuration is left. -/
theorem unarmed (change : SliceChange e docHash new controller m m')
    (unarmed : m.config = none → m.authorized = none) (absent : m'.config = none) :
    m'.authorized = none := by
  cases change with
  | untouched => exact unarmed absent
  | enrolled => cases absent
  | kept => exact unarmed absent
  | reconfigured => cases absent
  | removed => rfl
  | completed => cases absent

end SliceChange

end Change

/-! ### The base invariant over runs -/

/-- Only `rcv_sync` changes a configuration, and nothing is authorized without
one. -/
theorem Transition.config_kept {d : Deployment} {e : Env} {account : Address} {m m' : Slice}
    {call : Recovery.Call} {reply : Recovery.Reply} {gate : Option GateCall}
    (transition : Transition d e account m call reply gate m')
    (unsynced : ∀ outcome, reply ≠ .synced outcome) :
    m'.config = m.config ∧ (m.config = none → m'.authorized = m.authorized) := by
  cases transition with
  | completed => exact absurd rfl (unsynced _)
  | classified => exact absurd rfl (unsynced _)
  | cancelledAuthorized enrolled => exact ⟨rfl, by simp [enrolled]⟩
  | authorized enrolled => exact ⟨rfl, by simp [enrolled]⟩
  | _ => exact ⟨rfl, fun _ => rfl⟩

theorem SliceStep.config_kept {invocation : Invocation S} {storage : AccountStorage}
    {controller : Address} {m m' : Slice}
    (step : SliceStep S invocation storage controller m m') :
    m'.config = m.config ∧ (m.config = none → m'.authorized = m.authorized) := by
  cases step with
  | marked => exact ⟨rfl, fun _ => rfl⟩
  | moved _ transition unsynced => exact Transition.config_kept transition unsynced

namespace Enrolled

variable {now : UInt32} {state : State σ}

theorem later {later : UInt32} (enrolled : Enrolled S now state) (forward : now ≤ later) :
    Enrolled S later state :=
  { enrolled with slices := enrolled.slices.later forward }

theorem origin (honest : S.Honest) (origin : Origin S state) : Enrolled S 0 state := by
  obtain ⟨around, adminSigners, store, _, built⟩ := origin.built
  simp only [installAdmin, bind_eq_ok, pure_eq_ok, Prod.exists] at built
  obtain ⟨_, _, _, account⟩ := built
  refine ⟨honest, .origin origin, fun controller => ?_, fun controller _ => ?_⟩
  · rw [origin.unknown, ← account]
    simp [Storage.slice, Storage.empty, AccountStorage.empty]
  · rw [origin.unknown]
    rfl

/-- How a successful apply changes the slices. -/
theorem changed {around : Surroundings} {docJson : Bytes} {validUntil : UInt32}
    {expected : Option UInt64} {compiled : CompiledDoc} {leaf : Option CompiledZkFactor}
    {outcome joined : SyncOutcome} {synced : World} {after : State σ}
    (enrolled : Enrolled S now state)
    (effect : ApplyEffect S.code (S.callees around) around.env.sequence .cheapest docJson validUntil
      state.account state.world compiled leaf outcome synced after.account after.world)
    (counters : ApplyCounters (S.callees around) validUntil state.account state.world compiled
      outcome joined synced expected after.account) :
    EnrollmentChange S (S.inside around) state.account.storage.recoveryController
      compiled.docHash compiled.recovery.head? (state.slice S) outcome joined (after.slice S) := by
  have change := enrolled.changes counters.syncs
  rw [← slices_of_controllers (controllers_of_leafInserted effect.inserts)] at change
  exact change

theorem applied {around : Surroundings} {docJson : Bytes} {validUntil : UInt32}
    {expected : Option UInt64} {compiled : CompiledDoc} {leaf : Option CompiledZkFactor}
    {outcome joined : SyncOutcome} {synced : World} {after : State σ}
    (enrolled : Enrolled S around.env.sequence state)
    (effect : ApplyEffect S.code (S.callees around) around.env.sequence .cheapest docJson validUntil
      state.account state.world compiled leaf outcome synced after.account after.world)
    (counters : ApplyCounters (S.callees around) validUntil state.account state.world compiled
      outcome joined synced expected after.account) :
    Enrolled S around.env.sequence after := by
  have change := (enrolled.changed effect counters).slice enrolled.configured
  refine ⟨enrolled.honest, enrolled.slices.applied effect counters, fun controller => ?_,
    fun controller => ?_⟩
  · rw [effect.recoveryController]
    exact (change controller).configured
  · exact (change controller).unarmed (enrolled.unarmed controller)

theorem unapplied {invocation : Invocation S} {after : State σ}
    (enrolled : Enrolled S invocation.around.env.sequence state)
    (unapplied : Unapplied S invocation state after) :
    Enrolled S invocation.around.env.sequence after := by
  have adopted : after.account.storage.recoveryController =
      state.account.storage.recoveryController := by
    have same := unapplied.configuration
    simp only [AccountState.configuration, Prod.mk.injEq] at same
    exact same.2.2.2.1
  refine ⟨enrolled.honest, enrolled.slices.unapplied unapplied, fun controller => ?_,
    fun controller absent => ?_⟩
  · rw [(unapplied.slices controller).config_kept.1, adopted]
    exact enrolled.configured controller
  · have kept := (unapplied.slices controller).config_kept
    rw [kept.1] at absent
    rw [kept.2 absent]
    exact enrolled.unarmed controller absent

end Enrolled

theorem Enrolled.happened {invocation : Invocation S} {state after : State σ} {reply : Reply}
    (enrolled : Enrolled S invocation.around.env.sequence state)
    (happened : Happened S invocation state reply after) :
    Enrolled S invocation.around.env.sequence after := by
  rcases happened.applied_or_unapplied with
    ⟨_, _, _, _, _, _, _, _, _, _, effect, counters⟩ | unapplied
  · exact Enrolled.applied enrolled effect counters
  · exact Enrolled.unapplied enrolled unapplied

/-- Induction over the runs through recovery controllers, by the steps that
succeed. -/
theorem Reached.induct (holds : List (JointStep S) → UInt32 → State σ → Prop)
    (initial : ∀ {start state}, Origin S state → holds [] start state)
    (waiting : ∀ {history now later state}, Enrolled S now state → holds history now state →
      now ≤ later → holds history later state)
    (failing : ∀ {history state} (invocation : Invocation S) (failure : AccountFailure),
      Enrolled S invocation.around.env.sequence state →
      holds history invocation.around.env.sequence state →
      holds (⟨state, invocation, .error failure, state⟩ :: history)
        invocation.around.env.sequence state)
    (acting : ∀ {history state reply after} (invocation : Invocation S),
      Enrolled S invocation.around.env.sequence state →
      Enrolled S invocation.around.env.sequence after →
      holds history invocation.around.env.sequence state →
      invocation.run S state = .ok (reply, after) →
      Happened S invocation state reply after →
      holds (⟨state, invocation, .ok reply, after⟩ :: history)
        invocation.around.env.sequence after)
    {history : List (JointStep S)} {now : UInt32} {state : State σ}
    (reached : Reached S history now state) :
    Enrolled S now state ∧ holds history now state := by
  refine (reached.toLived.induct (fun history now state => Enrolled S now state ∧
    holds history now state) ?_ ?_ ?_ ?_).2
  · intro start state origin
    exact ⟨(Enrolled.origin reached.honest origin).later UInt32.zero_le, initial origin⟩
  · rintro history now later state _ ⟨enrolled, held⟩ forward
    exact ⟨enrolled.later forward, waiting enrolled held forward⟩
  · rintro history state invocation failure _ ⟨enrolled, held⟩
    exact ⟨enrolled, failing invocation failure enrolled held⟩
  · rintro history state reply after invocation _ ⟨enrolled, held⟩ ran happened
    have kept := enrolled.happened happened
    exact ⟨kept, acting invocation enrolled kept held ran happened⟩

end Perch.Joint
