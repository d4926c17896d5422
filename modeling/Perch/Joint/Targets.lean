/-
What an attempt's target can rely on.

A target is checked against the account once, when its attempt begins.  What it
was checked against changes only with the epoch: credentials are revoked by
completions, ids are enrolled by applies that change the configuration, and
either ends the epoch and with it the attempt.
-/

import Perch.Joint.Leaves
import Perch.Joint.Revocation
import Perch.Zk.Rotation

namespace Perch.Joint

open Machine Document Recovery Account

variable {σ : Type} {S : Setting σ}

/-! ### The step an attempt began in -/

/-- The call that began an attempt, and the target it derived. -/
structure Begins (S : Setting σ) (controller : Address) (a : Attempt) (derived : DerivedTarget)
    (taken : JointStep S) : Prop where
  derives : ∃ action replacements config authorized,
    taken.action.action = .call controller true authorized (beginCall S.me action replacements) ∧
      Begun (S.controller controller)
        (S.outside taken.action.around taken.before.account.storage controller true authorized
          (beginCall S.me action replacements))
        S.me (taken.before.slice S controller) action replacements config derived a.asBegun
  replied : taken.reply = .ok (.called (.begun a.id))

theorem Begins.begunIn {controller : Address} {a : Attempt} {derived : DerivedTarget}
    {taken : JointStep S} (begins : Begins S controller a derived taken) :
    BegunIn S taken.action taken.before.account.storage controller (taken.before.slice S controller)
      a.asBegun := by
  obtain ⟨action, replacements, config, authorized, asked, started⟩ := begins.derives
  exact ⟨action, replacements, config, derived, authorized, asked, started⟩

theorem Begins.carried {controller : Address} {a b : Attempt} {derived : DerivedTarget}
    {taken : JointStep S} (begins : Begins S controller a derived taken)
    (begun : b.asBegun = a.asBegun) : Begins S controller b derived taken where
  derives := by
    rw [begun]
    exact begins.derives
  replied := by
    rw [Attempt.id_of_asBegun begun]
    exact begins.replied

/-- A controller's own record after a call is one from before, or was begun by
the call. -/
theorem Acts.holds {invocation : Invocation S} {before : State σ} (after : State σ)
    {controller : Address}
    {visible authorized : Bool} {call : Recovery.Call} {reply : Recovery.Reply}
    {gate : Option GateCall}
    (asked : invocation.action = .call controller visible authorized call)
    (acts : Acts S (S.outside invocation.around before.account.storage controller visible
      authorized call) controller call reply gate before.world after.world)
    (sound : (before.slice S controller).Sound invocation.around.env.sequence) :
    ∀ id b, (after.slice S controller).Holds id b → Carried (before.slice S controller) b ∨
      ∃ derived,
        Begins S controller b derived ⟨before, invocation, .ok (.called reply), after⟩ := by
  have earlier : ∀ id b, (before.slice S controller).Holds id b →
      Carried (before.slice S controller) b ∨
      ∃ derived, Begins S controller b derived ⟨before, invocation, .ok (.called reply), after⟩ :=
    fun id b held => .inl ⟨id, b, held, rfl⟩
  cases acts.transition.recordEffect sound with
  | kept attempts temporaries =>
      unfold Slice.Holds
      rw [attempts, temporaries]
      exact earlier
  | @begun action replacements config derived a started called replied wrote =>
      refine wrote.holds earlier (.inr ⟨derived, ?_, by rw [replied]⟩)
      obtain ⟨_, _, _, _, compiles, _⟩ := started.source
      have seen : visible = true := by
        cases visible with
        | true => rfl
        | false => simp [reentered] at compiles
      subst seen called
      have fresh : a.asBegun = a := by
        rw [started.record]
        rfl
      exact ⟨action, replacements, config, authorized, asked, fresh.symm ▸ started⟩
  | submitted _ loaded _ _ submission graded wrote =>
      exact wrote.holds earlier
        (.inl ⟨_, _, .of_load loaded, graded.asBegun.trans submission.asBegun⟩)
  | carried loaded _ begun _ _ _ _ wrote =>
      exact wrote.holds earlier (.inl ⟨_, _, .of_load loaded, begun⟩)

theorem Happened.holds {invocation : Invocation S} {before after : State σ} {reply : Reply}
    (happened : Happened S invocation before reply after) (controller : Address)
    (sound : (before.slice S controller).Sound invocation.around.env.sequence) :
    ∀ id b, (after.slice S controller).Holds id b → Carried (before.slice S controller) b ∨
      ∃ derived, Begins S controller b derived ⟨before, invocation, .ok reply, after⟩ := by
  intro id b held
  rcases happened.applied_or_unapplied with
    ⟨_, _, _, _, _, _, _, _, _, _, effect, counters⟩ | unapplied
  · exact .inl ((syncStep_of_applied effect counters controller).holds sound id b held)
  rcases (unapplied.slices controller).holds sound id b held with from_ | begun
  · exact .inl from_
  obtain ⟨action, replacements, config, derived, authorized, asked, started⟩ := begun
  cases happened with
  | called asked' own free acts delivered =>
      obtain ⟨rfl, rfl, rfl, rfl⟩ := Action.call.inj (asked'.symm.trans asked)
      exact Acts.holds ⟨_, _⟩ asked' acts sound id b held
  | elsewhere _ slices =>
      left
      refine ⟨id, b, ?_, rfl⟩
      change (before.world.slice S controller).Holds id b
      rw [← slices controller]
      exact held
  | applied asked' => cases asked'.symm.trans asked
  | recoveryCancelled asked' => cases asked'.symm.trans asked
  | upgradeScheduled asked' => cases asked'.symm.trans asked
  | upgradeExecuted asked' => cases asked'.symm.trans asked
  | upgradeDropped asked' => cases asked'.symm.trans asked
  | authorized asked' => cases asked'.symm.trans asked
  | gated asked' => cases asked'.symm.trans asked

/-- Every attempt a controller keeps was begun in the run. -/
theorem Reached.begins {history : List (JointStep S)} {now : UInt32} {state : State σ}
    (reached : Reached S history now state) (controller : Address) :
    ∀ id a, (state.slice S controller).Holds id a →
      ∃ taken ∈ history, ∃ derived, Begins S controller a derived taken := by
  refine (reached.induct (fun history _ state => ∀ id a, (state.slice S controller).Holds id a →
    ∃ taken ∈ history, ∃ derived, Begins S controller a derived taken) ?_ ?_ ?_ ?_).2
  · intro start state origin id a held
    rw [origin.unknown] at held
    rcases held with stored | ⟨_, stored, _⟩ <;> cases stored
  · intro _ _ _ _ _ known _
    exact known
  · intro history state invocation failure _ known id a held
    obtain ⟨taken, member, derived, begins⟩ := known id a held
    exact ⟨taken, List.mem_cons_of_mem _ member, derived, begins⟩
  · intro history state reply after invocation enrolled _ known _ happened id b held
    rcases happened.holds controller (enrolled.slices controller) id b held with
      ⟨id, a, held, begun⟩ | ⟨derived, begins⟩
    · obtain ⟨taken, member, derived, begins⟩ := known id a held
      exact ⟨taken, List.mem_cons_of_mem _ member, derived, begins.carried begun⟩
    · exact ⟨_, List.mem_cons_self, derived, begins⟩

/-! ### Ids and leaves -/

/-- An id the account has inserted anywhere, or enrolls a factor under, is one
it remembers. -/
structure IdsKnown (S : Setting σ) (state : State σ) : Prop where
  recorded : ∀ pool enrollmentId,
    (state.world.pools pool).enrollment (S.me, enrollmentId) ≠ none →
      state.account.storage.enrolledIds enrollmentId = true
  current : ∀ factor, state.account.storage.currentZk = some factor →
    state.account.storage.enrolledIds factor.enrollmentId = true

theorem IdsKnown.step {invocation : Invocation S} {before after : State σ} {reply : Reply}
    (known : IdsKnown S before) (stepped : EnrollmentStep S invocation before reply after) :
    IdsKnown S after := by
  cases stepped with
  | still marked records current =>
      refine ⟨?_, ?_⟩
      · intro pool enrollmentId recorded
        rw [records] at recorded
        rw [marked]
        exact known.recorded pool enrollmentId recorded
      · intro factor named
        rw [marked]
        rcases current with none | same
        · rw [none] at named
          cases named
        · exact known.current factor (same ▸ named)
  | @enrolls _ _ _ _ factor synced _ _ _ _ _ _ current marked untouched inserted =>
      refine ⟨?_, ?_⟩
      · intro pool enrollmentId recorded
        rw [marked, Function.update_apply]
        split
        · rfl
        next other =>
          apply known.recorded pool enrollmentId
          cases deep : S.depth factor.pool with
          | none =>
              rw [rcvInsert_elsewhere deep inserted, untouched] at recorded
              exact recorded
          | some depth =>
              obtain ⟨_, _, pools, inserts⟩ := rcvInsert_pools deep inserted
              rw [records_of_inserts inserts pools, if_neg fun both => other both.2,
                untouched] at recorded
              exact recorded
      · intro found named
        obtain rfl : factor = found := Option.some.inj (current.symm.trans named)
        simp [marked]

theorem Lived.idsKnown {history : List (JointStep S)} {now : UInt32} {state : State σ}
    (lived : Lived S history now state) : IdsKnown S state := by
  refine (lived.induct (fun _ _ state => IdsKnown S state) ?_ ?_ ?_ ?_).2
  · intro start state origin
    obtain ⟨_, _, _, _, built⟩ := origin.built
    simp only [installAdmin, bind_eq_ok, pure_eq_ok, Prod.exists] at built
    obtain ⟨_, _, _, account⟩ := built
    refine ⟨?_, ?_⟩
    · intro pool enrollmentId recorded
      exact absurd (origin.unenrolled pool enrollmentId) recorded
    · intro factor named
      rw [← account] at named
      cases named
  · intro _ _ _ _ _ known _
    exact known
  · intro _ _ _ _ _ known
    exact known
  · intro history state reply after invocation _ known _ happened
    exact known.step happened.enrollmentStep

/-! ### What a target was checked against -/

/-- A target the account can still apply: nothing it declares is revoked, its
enrollment is new, and it keeps the configuration but for that. -/
structure Fits (storage : AccountStorage) (config : CompiledRecoveryConfig)
    (target : CompiledDoc) : Prop where
  unrevoked : ∀ fingerprint ∈ target.fingerprints, storage.revoked fingerprint = false
  fresh : ∀ factor, newZk target = some factor →
    storage.enrolledIds factor.enrollmentId = false
  rotated : ∃ enrollments next, target.recovery.head? = some next ∧
    Zk.Rotated enrollments config next

theorem Fits.kept {storage storage' : AccountStorage} {config : CompiledRecoveryConfig}
    {target : CompiledDoc} (fits : Fits storage config target)
    (revoked : storage'.revoked = storage.revoked)
    (enrolledIds : storage'.enrolledIds = storage.enrolledIds) : Fits storage' config target where
  unrevoked := by
    rw [revoked]
    exact fits.unrevoked
  fresh := by
    rw [enrolledIds]
    exact fits.fresh
  rotated := fits.rotated

theorem noneRevoked_eq_ok {view : AccountView} {fingerprints : List Bytes32} :
    noneRevoked view fingerprints = .ok () ↔
      ∀ fingerprint ∈ fingerprints, view.isRevoked fingerprint = some false := by
  induction fingerprints with
  | nil => simp [noneRevoked, pure, Except.pure]
  | cons first rest ih =>
      simp only [noneRevoked, bind_eq_ok, orTrap_eq_ok, require_eq_ok, exists_const, ih,
        List.forall_mem_cons]
      constructor
      · rintro ⟨_, answered, rfl, others⟩
        exact ⟨answered, others⟩
      · rintro ⟨answered, others⟩
        exact ⟨false, answered, rfl, others⟩

theorem enrollmentFresh_eq_ok {view : AccountView} {replacements : ReplacementSet}
    (fresh : enrollmentFresh view replacements = .ok ()) {enrollment : ZkEnrollment}
    (first : replacements.zkEnrollment.head? = some enrollment) :
    view.isEnrolledId enrollment.id = some false := by
  simp only [enrollmentFresh, first, bind_eq_ok, orTrap_eq_ok, require_eq_ok] at fresh
  obtain ⟨_, answered, rfl⟩ := fresh
  exact answered

section Begin

variable {history : List (JointStep S)} {state : State σ} {applied : Option CompiledDoc}
  {taken : JointStep S} {controller : Address} {b : Attempt}

/-- What is begun fits: the controller asked the account. -/
theorem BegunIn.fits (free : CollisionFree S history)
    (encodes : Zk.EncodesHex S.code.host.hexEncode) (follows : Follows S history state applied)
    (member : taken ∈ history) (here : taken.before = state)
    (begun : BegunIn S taken.action state.account.storage controller (state.slice S controller) b) :
    ∃ config, (state.slice S controller).config = some config ∧
      ∀ target, InPlay S history target → target.docHash = b.targetDocHash →
        Fits state.account.storage config target := by
  obtain ⟨action, replacements, config, derived, authorized, asked, started⟩ := begun
  refine ⟨config, started.enrolled, ?_⟩
  intro target inPlay hash
  obtain ⟨current, source, compiler, held, compiles, from_, derives⟩ := started.source
  have fresh := started.freshEnrollment
  have unrevoked := noneRevoked_eq_ok.mp started.notRevoked
  rw [outside_account, if_pos rfl] at held compiles from_ fresh unrevoked
  simp only [Setting.view, Option.some.injEq] at held compiles
  subst compiles
  rw [outside_docCompiler, compiler_deriveTarget] at derives
  obtain ⟨base, rfl, rfl, _⟩ := follows.applied_of_bytes held
  obtain ⟨sourceDoc, currentDoc, targetDoc, compiled, _, parsed, derivation⟩ :=
    deriveTarget_eq_ok derives
  have handled : Handles S taken derived.canonical :=
    .derived asked (by rw [here]; exact held) (by rw [here]; exact SourceOf.origin from_) derives
  have targeted : InPlay S history compiled :=
    ⟨taken, member, _, handled, derivation.compileDoc_canonical S.conforms⟩
  have named : compiled.docHash = b.targetDocHash := by
    rw [started.record, ← derivation.docHash]
    rfl
  obtain rfl := free.document_eq inPlay targeted (hash.trans named.symm)
  obtain ⟨doc, read, whole⟩ := compileDoc_eq_ok.mp (follows.inPlay base rfl).canonical
  obtain rfl := Except.ok.inj (read.symm.trans parsed)
  obtain ⟨next, first, _, rotated⟩ :=
    Zk.derived_rotated encodes derivation (compileParsed_eq_ok whole)
      (follows.stored controller config started.enrolled)
  refine ⟨?_, ?_, replacements.zkEnrollment, next, first, rotated⟩
  · intro fingerprint listed
    rw [← derivation.fingerprints] at listed
    exact Option.some.inj (unrevoked fingerprint listed)
  · intro factor proves
    have zk := rotated.zk
    rw [show next.zk = some factor by simpa [newZk, first] using proves] at zk
    generalize old : config.zk = before at zk
    cases zk with
    | some rotates =>
        obtain ⟨_, enrollment, listed, same⟩ := rotates
        obtain ⟨only, single⟩ := List.length_eq_one_iff.mp (started.enrollment.mp (by simp [old]))
        rw [single, List.mem_singleton] at listed
        rw [same, listed]
        exact Option.some.inj (enrollmentFresh_eq_ok fresh (by simp [single]))

end Begin

/-! ### Over runs -/

theorem SyncStep.unspent {around : Surroundings} {controller : Address} {m m' : Slice}
    (step : SyncStep S around controller m m') (sound : m.Sound around.env.sequence)
    (unspent : m.Unspent) : m'.Unspent := by
  cases step with
  | kept => exact unspent
  | synced transition => exact transition.unspent sound unspent

theorem SliceStep.unspent {invocation : Invocation S} {storage : AccountStorage}
    {controller : Address} {m m' : Slice}
    (step : SliceStep S invocation storage controller m m')
    (sound : m.Sound invocation.around.env.sequence) (unspent : m.Unspent) : m'.Unspent := by
  cases step with
  | marked => exact unspent
  | @moved e _ _ _ _ met transition =>
      have clock : e.sequence = invocation.around.env.sequence := by
        rcases met with rfl | ⟨_, _, _, rfl⟩ <;> rfl
      rw [← clock] at sound
      exact transition.unspent sound unspent

theorem EnrollmentChange.of_completed_bumped {e : Env} {adopted : Option Address}
    {docHash : Bytes32} {new : Option CompiledRecoveryConfig} {before after : Address → Slice}
    {outcome joined : SyncOutcome} {completion : Completion}
    (change : EnrollmentChange S e adopted docHash new before outcome joined after)
    (completed : outcome = .completed completion) :
    ∃ controller, adopted = some controller ∧ (after controller).config = new ∧
      checkedSucc (before controller).epoch = some (after controller).epoch := by
  cases change with
  | @completed controller _ _ _ _ adopts named _ _ _ _ _ bumped =>
      refine ⟨controller, adopts, ?_, ?_⟩
      · rw [Function.update_self, named]
      · rw [Function.update_self]
        exact bumped
  | _ => cases completed

@[simp] theorem leafToInsert_self (factor : Option CompiledZkFactor) :
    leafToInsert factor factor = none := by
  cases factor <;> simp [leafToInsert]

/-- What the attempts of the present epoch rely on: their nullifiers are
unspent, and their targets fit the account. -/
structure Prepared (S : Setting σ) (history : List (JointStep S)) (state : State σ) : Prop where
  unspent : ∀ controller, (state.slice S controller).Unspent
  fits : ∀ controller id a, (state.slice S controller).Holds id a →
    a.epoch = (state.slice S controller).epoch →
    ∃ config, (state.slice S controller).config = some config ∧
      ∀ target, InPlay S history target → target.docHash = a.targetDocHash →
        Fits state.account.storage config target

namespace Prepared

variable {history : List (JointStep S)} {state after : State σ} {applied : Option CompiledDoc}

theorem origin (origin : Origin S state) : Prepared S history state := by
  refine ⟨?_, ?_⟩
  · intro controller id a held
    rw [origin.unknown] at held
    rcases held with stored | ⟨_, stored, _⟩ <;> cases stored
  · intro controller id a held
    rw [origin.unknown] at held
    rcases held with stored | ⟨_, stored, _⟩ <;> cases stored

theorem carried (prepared : Prepared S history state) {controller : Address} {b : Attempt}
    (carried : Carried (state.slice S controller) b)
    (current : b.epoch = (state.slice S controller).epoch) :
    ∃ config, (state.slice S controller).config = some config ∧
      ∀ target, InPlay S history target → target.docHash = b.targetDocHash →
        Fits state.account.storage config target := by
  obtain ⟨id, a, held, begun⟩ := carried
  have target : b.targetDocHash = a.targetDocHash :=
    Attempt.term_eq Attempt.targetDocHash (fun _ => rfl) begun
  rw [target]
  exact prepared.fits controller id a held
    ((Attempt.epoch_of_asBegun begun).symm.trans current)

/-- An apply that keeps a configuration neither revokes nor enrolls. -/
theorem storage_kept {around : Surroundings} {docJson : Bytes} {validUntil : UInt32}
    {expected : Option UInt64} {compiled : CompiledDoc} {leaf : Option CompiledZkFactor}
    {outcome joined : SyncOutcome} {synced : World}
    (enrolled : Enrolled S around.env.sequence state) (follows : Follows S history state applied)
    (follows' : Follows S history after (some compiled))
    (effect : ApplyEffect S.code (S.callees around) around.env.sequence .cheapest docJson validUntil
      state.account state.world compiled leaf outcome synced after.account after.world)
    (counters : ApplyCounters (S.callees around) validUntil state.account state.world compiled
      outcome joined synced expected after.account)
    {controller : Address} {config : CompiledRecoveryConfig}
    (present : (state.slice S controller).config = some config)
    (configs : (after.slice S controller).config = (state.slice S controller).config)
    (epochs : (after.slice S controller).epoch = (state.slice S controller).epoch) :
    after.account.storage.revoked = state.account.storage.revoked ∧
      after.account.storage.enrolledIds = state.account.storage.enrolledIds := by
  have settles := effect.settles
  have inserts := effect.inserts
  have change := enrolled.changed effect counters
  refine ⟨?_, ?_⟩
  · cases outcome with
    | completed completion =>
        obtain ⟨adoptee, adopts, _, bumped⟩ := change.of_completed_bumped rfl
        have adopted := (enrolled.configured controller).mp (by simp [present])
        obtain rfl := Option.some.inj (adopts.symm.trans adopted)
        rw [epochs] at bumped
        exact absurd (lt_checkedSucc bumped) (UInt64.lt_irrefl _)
    | _ => exact settles.1
  · have old : state.account.storage.currentZk = config.zk := by
      rw [follows.currentZk, follows.stored controller config present]
      rfl
    have named : compiled.recovery.head? = some config :=
      follows'.stored controller config (configs.trans present)
    have new : newZk compiled = config.zk := by simp [newZk, named]
    have absent : leaf = none := by
      rw [← (checkDocument_eq_ok.mp effect.checked).2.2.2.2, old, new, leafToInsert_self]
    subst absent
    exact inserts.1

theorem step_applied {taken : JointStep S} {docJson : Bytes} {validUntil : UInt32}
    {expected : Option UInt64} {compiled : CompiledDoc} {leaf : Option CompiledZkFactor}
    {outcome joined : SyncOutcome} {synced : World}
    (enrolled : Enrolled S taken.action.around.env.sequence taken.before)
    (follows : Follows S history taken.before applied)
    (follows' : Follows S history taken.after (some compiled))
    (effect : ApplyEffect S.code (S.callees taken.action.around) taken.action.around.env.sequence
      .cheapest docJson validUntil taken.before.account taken.before.world compiled leaf outcome
      synced taken.after.account taken.after.world)
    (counters : ApplyCounters (S.callees taken.action.around) validUntil taken.before.account
      taken.before.world compiled outcome joined synced expected taken.after.account)
    (prepared : Prepared S history taken.before) : Prepared S history taken.after := by
  have step := syncStep_of_applied effect counters
  have sound := enrolled.slices
  refine ⟨?_, ?_⟩
  · intro controller
    exact (step controller).unspent (sound controller) (prepared.unspent controller)
  · intro controller id b held current
    have from_ := (step controller).holds (sound controller) id b held
    rcases ((enrolled.changed effect counters).slice enrolled.configured controller).epoch_step with
      ⟨epochs, configs⟩ | bumped
    · obtain ⟨config, present, fits⟩ := prepared.carried from_ (current.trans epochs)
      obtain ⟨revoked, enrolledIds⟩ :=
        storage_kept enrolled follows follows' effect counters present configs epochs
      exact ⟨config, configs.trans present, fun target inPlay hash =>
        (fits target inPlay hash).kept revoked enrolledIds⟩
    · exact absurd current (Slice.Sound.past_of_carried (sound controller) bumped from_)

theorem step_unapplied {taken : JointStep S} (free : CollisionFree S history)
    (encodes : Zk.EncodesHex S.code.host.hexEncode) (member : taken ∈ history)
    (enrolled : Enrolled S taken.action.around.env.sequence taken.before)
    (follows : Follows S history taken.before applied)
    (unapplied : Unapplied S taken.action taken.before taken.after)
    (prepared : Prepared S history taken.before) : Prepared S history taken.after := by
  have sound := enrolled.slices
  refine ⟨?_, ?_⟩
  · intro controller
    exact (unapplied.slices controller).unspent (sound controller) (prepared.unspent controller)
  · intro controller id b held current
    have from_ := (unapplied.slices controller).holds (sound controller) id b held
    rcases (unapplied.slices controller).epoch_step with ⟨epochs, configs⟩ | bumped
    · have before : ∃ config, (taken.before.slice S controller).config = some config ∧
          ∀ target, InPlay S history target → target.docHash = b.targetDocHash →
            Fits taken.before.account.storage config target := by
        rcases from_ with from_ | begun
        · exact prepared.carried from_ (current.trans epochs)
        · exact begun.fits free encodes follows member rfl
      obtain ⟨config, present, fits⟩ := before
      exact ⟨config, configs.trans present, fun target inPlay hash =>
        (fits target inPlay hash).kept unapplied.revoked unapplied.enrolledIds⟩
    · rcases from_ with from_ | begun
      · exact absurd current (Slice.Sound.past_of_carried (sound controller) bumped from_)
      · rw [begun.epoch] at current
        have larger := lt_checkedSucc bumped
        rw [current] at larger
        exact absurd larger (UInt64.lt_irrefl _)

end Prepared

/-- In every run, the attempts of the present epoch can rely on the account. -/
theorem Reached.prepared {history : List (JointStep S)} {now : UInt32} {state : State σ}
    (reached : Reached S history now state) (free : CollisionFree S history)
    (encodes : Zk.EncodesHex S.code.host.hexEncode) : Prepared S history state := by
  refine (Reached.follow free (fun _ state => Prepared S history state) ?_ ?_ ?_ ?_ reached).2
  · intro _ _ origin
    exact .origin origin
  · intro _ _ _ _ prepared _
    exact prepared
  · intro taken _ _ _ _ _ _ _ _ _ _ enrolled follows _ follows' _ effect counters prepared
    exact prepared.step_applied enrolled follows follows' effect counters
  · intro taken _ member enrolled follows _ unapplied prepared
    exact prepared.step_unapplied free encodes member enrolled follows unapplied

end Perch.Joint
