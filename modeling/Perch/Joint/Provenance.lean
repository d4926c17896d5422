/-
Where attempts come from.

An attempt is begun from two documents the account and the controller hold,
and its record keeps only hashes of what was derived.  In a run without
collisions the hashes stand for documents of the run, whatever happens between
the attempt's beginning and its completion.
-/

import Perch.Document.Derivation
import Perch.Joint.Agreement
import Perch.Recovery.Armed
import Perch.Recovery.Nullifier

namespace Perch.Joint

open Machine Document Recovery Account

variable {σ : Type} {S : Setting σ}

/-! ### What a beginning attempt meets -/

@[simp] theorem inside_account (around : Surroundings) :
    (S.inside around).account S.me = reentered := by
  simp [Setting.inside, Setting.envWith]

@[simp] theorem outside_account (around : Surroundings) (storage : AccountStorage)
    (controller : Address) (visible authorized : Bool) (call : Recovery.Call) :
    (S.outside around storage controller visible authorized call).account S.me =
      if visible then S.view storage controller else reentered := by
  simp [Setting.outside, Setting.envWith]

@[simp] theorem outside_docCompiler (around : Surroundings) (storage : AccountStorage)
    (controller : Address) (visible authorized : Bool) (call : Recovery.Call) :
    (S.outside around storage controller visible authorized call).docCompiler
      S.code.deployment.infra.docCompiler = S.compiler := by
  simp [Setting.outside, Setting.envWith]

@[simp] theorem compiler_compileDoc {docJson : Bytes} {compiled : CompiledDoc} :
    S.compiler.compileDoc docJson = some compiled ↔
      compileDoc S.code.host docJson = .ok compiled := toOption_eq_some

@[simp] theorem compiler_deriveTarget {source current : Bytes} {action : RecoveryAction}
    {replacements : ReplacementSet} {derived : DerivedTarget} :
    S.compiler.deriveTarget source current action replacements = some derived ↔
      deriveTarget S.code.host source current action replacements = .ok derived := toOption_eq_some

/-- A call that reads the account's document was made from outside, and saw the
account. -/
theorem met_visible {invocation : Invocation S} {storage : AccountStorage} {controller : Address}
    {call : Recovery.Call} {e : Env}
    (met : e = S.inside invocation.around ∨ ∃ visible authorized,
      invocation.action = .call controller visible authorized call ∧
        e = S.outside invocation.around storage controller visible authorized call)
    (answers : (e.account S.me).docCompiler ≠ none) :
    ∃ authorized, invocation.action = .call controller true authorized call ∧
      e = S.outside invocation.around storage controller true authorized call := by
  rcases met with rfl | ⟨visible, authorized, asked, rfl⟩
  · simp [reentered] at answers
  · cases visible with
    | true => exact ⟨authorized, asked, rfl⟩
    | false => simp [reentered] at answers

/-! ### Records after a step -/

def Carried (m : Slice) (b : Attempt) : Prop :=
  ∃ id a, m.Holds id a ∧ b.asBegun = a.asBegun

def BegunIn (S : Setting σ) (invocation : Invocation S) (storage : AccountStorage)
    (controller : Address) (m : Slice) (b : Attempt) : Prop :=
  ∃ action replacements config derived authorized,
    invocation.action = .call controller true authorized (beginCall S.me action replacements) ∧
      Begun (S.controller controller)
        (S.outside invocation.around storage controller true authorized
          (beginCall S.me action replacements))
        S.me m action replacements config derived b

theorem SyncStep.holds {around : Surroundings} {controller : Address} {m m' : Slice}
    (step : SyncStep S around controller m m') (sound : m.Sound around.env.sequence) :
    ∀ id b, m'.Holds id b → Carried m b := by
  have before : ∀ id b, m.Holds id b → Carried m b := fun id b held => ⟨id, b, held, rfl⟩
  cases step with
  | kept => exact before
  | synced transition =>
      rw [← inside_sequence (S := S)] at sound
      cases transition.recordEffect sound with
      | kept attempts temporaries =>
          unfold Slice.Holds
          rw [attempts, temporaries]
          exact before
      | begun _ _ replied => cases replied
      | submitted _ loaded _ _ submission graded wrote =>
          exact wrote.holds before
            ⟨_, _, .of_load loaded, graded.asBegun.trans submission.asBegun⟩
      | carried loaded _ begun _ _ _ _ wrote =>
          exact wrote.holds before ⟨_, _, .of_load loaded, begun⟩

/-- A record after a step is one from before, or was begun in it. -/
theorem SliceStep.holds {invocation : Invocation S} {storage : AccountStorage}
    {controller : Address} {m m' : Slice}
    (step : SliceStep S invocation storage controller m m')
    (sound : m.Sound invocation.around.env.sequence) :
    ∀ id b, m'.Holds id b → Carried m b ∨ BegunIn S invocation storage controller m b := by
  have before : ∀ id b, m.Holds id b → Carried m b ∨ BegunIn S invocation storage controller m b :=
    fun id b held => .inl ⟨id, b, held, rfl⟩
  cases step with
  | marked => exact before
  | @moved e call _ _ _ met transition =>
      have clock : e.sequence = invocation.around.env.sequence := by
        rcases met with rfl | ⟨_, _, _, rfl⟩ <;> rfl
      rw [← clock] at sound
      cases transition.recordEffect sound with
      | kept attempts temporaries =>
          unfold Slice.Holds
          rw [attempts, temporaries]
          exact before
      | begun started called _ wrote =>
          refine wrote.holds before (.inr ?_)
          obtain ⟨_, _, _, _, compiles, _⟩ := started.source
          obtain ⟨authorized, asked, rfl⟩ := met_visible met (by simp [compiles])
          subst called
          exact ⟨_, _, _, _, authorized, asked, started⟩
      | submitted _ loaded _ _ submission graded wrote =>
          exact wrote.holds before
            (.inl ⟨_, _, .of_load loaded, graded.asBegun.trans submission.asBegun⟩)
      | carried loaded _ begun _ _ _ _ wrote =>
          exact wrote.holds before (.inl ⟨_, _, .of_load loaded, begun⟩)

/-! ### Provenance -/

/-- What an attempt was begun from, and what was derived: documents of the run,
which its record's hashes stand for. -/
structure Provenance (S : Setting σ) (history : List (JointStep S)) (a : Attempt)
    (source current target : CompiledDoc) (replacements : ReplacementSet) : Prop where
  sourced : InPlay S history source ∧ a.sourceDocHash = source.docHash
  based : InPlay S history current ∧ (a.action = .lostKey → current = source)
  targeted : InPlay S history target ∧ a.targetDocHash = target.docHash ∧
    a.targetBytesHash = S.sha256 target.canonical
  known : a.action = .lostKey ∨ a.action = .compromise
  hashed : replacements.hash S.sha256 = .ok a.replacementsHash
  derivation : ∃ sourceDoc currentDoc targetDoc derived,
    parse S.code.host source.canonical = .ok sourceDoc ∧
    parse S.code.host current.canonical = .ok currentDoc ∧
    Derivation S.code.host sourceDoc currentDoc a.action replacements targetDoc target derived ∧
    a.targetConfigHash = derived.configHash ∧ a.replaced = derived.replaced
  leaves : ∃ prints, a.replaced.mapM (Credential.fingerprint S.sha256) = .ok prints ∧
    ∀ fingerprint ∈ prints, fingerprint ∉ target.fingerprints

/-- Every baseline and every attempt a controller keeps comes from documents of
the run. -/
structure Recorded (S : Setting σ) (history : List (JointStep S)) (state : State σ) : Prop where
  baselines : ∀ controller hash bytes, (state.slice S controller).baseline hash = some bytes →
    ∃ compiled, InPlay S history compiled ∧ compiled.docHash = hash ∧
      compiled.canonical = bytes ∧ adminSurvives compiled.rules = true
  attempts : ∀ controller id a, (state.slice S controller).Holds id a →
    ∃ source current target replacements,
      Provenance S history a.asBegun source current target replacements
  /-- An attempt of the present epoch was begun under the present configuration. -/
  bound : ∀ controller id a, (state.slice S controller).Holds id a →
    a.epoch = (state.slice S controller).epoch →
    ∃ config, (state.slice S controller).config = some config ∧
      (a.action = .compromise → config.baseline = some a.sourceDocHash)

section Begin

variable {history : List (JointStep S)} {state : State σ} {applied : Option CompiledDoc}
  {taken : JointStep S} {controller : Address} {b : Attempt}

theorem deriveAction_known {action : RecoveryAction} {act : Ir.DeriveAction}
    (acts : deriveAction action = .ok act) : action = .lostKey ∨ action = .compromise := by
  cases action <;> simp_all [deriveAction]

theorem Follows.applied_of_bytes (follows : Follows S history state applied) {bytes : Bytes}
    (held : state.account.storage.appliedDocBytes = some bytes) :
    ∃ compiled, applied = some compiled ∧ compiled.canonical = bytes ∧
      state.account.storage.appliedDoc = some compiled.docHash := by
  have same := follows.document
  simp only [AccountStorage.document, Prod.mk.injEq] at same
  rw [held] at same
  obtain ⟨compiled, found, canonical⟩ := Option.map_eq_some_iff.mp same.2.1.symm
  refine ⟨compiled, found, canonical, ?_⟩
  rw [same.1, found]
  rfl

/-- The source of an attempt that begins is the document the account holds or a
published baseline. -/
theorem SourceOf.origin {m : Slice} {config : CompiledRecoveryConfig} {view : AccountView}
    {current source : Bytes} {hash : Bytes32} {action : RecoveryAction}
    (from_ : SourceOf m config view current source hash action) :
    source = current ∨ ∃ hash, m.baseline hash = some source := by
  cases action with
  | compromise => exact .inr ⟨hash, from_.2⟩
  | _ => exact .inl from_.1

theorem SourceOf.inPlay {config : CompiledRecoveryConfig} {current : CompiledDoc}
    {source : Bytes} {hash : Bytes32} {action : RecoveryAction}
    (inPlay : InPlay S history current)
    (held : state.account.storage.appliedDoc = some current.docHash)
    (baselines : ∀ hash bytes, (state.slice S controller).baseline hash = some bytes →
      ∃ compiled, InPlay S history compiled ∧ compiled.docHash = hash ∧
        compiled.canonical = bytes ∧ adminSurvives compiled.rules = true)
    (from_ : SourceOf (state.slice S controller) config (S.view state.account.storage controller)
      current.canonical source hash action) :
    ∃ compiled, InPlay S history compiled ∧ hash = compiled.docHash ∧
      compiled.canonical = source ∧ (action = .lostKey → current = compiled) := by
  by_cases compromise : action = .compromise
  · subst compromise
    obtain ⟨_, published⟩ := from_
    obtain ⟨compiled, inPlay', rfl, rfl, _⟩ := baselines hash source published
    exact ⟨compiled, inPlay', rfl, rfl, by simp⟩
  · have own : source = current.canonical ∧
        (S.view state.account.storage controller).appliedDocHash = some (some hash) := by
      cases action with
      | compromise => exact absurd rfl compromise
      | _ => exact from_
    obtain ⟨rfl, named⟩ := own
    have same : some current.docHash = some hash := by
      rw [← held]
      exact Option.some.inj named
    exact ⟨current, inPlay, (Option.some.inj same).symm, rfl, fun _ => rfl⟩

theorem BegunIn.provenance (follows : Follows S history state applied) (member : taken ∈ history)
    (here : taken.before = state)
    (baselines : ∀ hash bytes, (state.slice S controller).baseline hash = some bytes →
      ∃ compiled, InPlay S history compiled ∧ compiled.docHash = hash ∧
        compiled.canonical = bytes ∧ adminSurvives compiled.rules = true)
    (begun : BegunIn S taken.action state.account.storage controller (state.slice S controller) b) :
    (∃ source current target replacements,
        Provenance S history b.asBegun source current target replacements) ∧
      ∃ config, (state.slice S controller).config = some config ∧
        (b.action = .compromise → config.baseline = some b.sourceDocHash) := by
  obtain ⟨action, replacements, config, derived, authorized, asked, started⟩ := begun
  have record := started.record
  have acted : b.action = action := by
    rw [record]
    rfl
  obtain ⟨current, source, compiler, held, compiles, from_, derives⟩ := started.source
  simp only [outside_account, if_true, Setting.view, Option.some.injEq] at held compiles
  subst compiles
  rw [outside_docCompiler, compiler_deriveTarget] at derives
  rw [outside_account, if_pos rfl] at from_
  obtain ⟨base, rfl, rfl, appliedHash⟩ := follows.applied_of_bytes held
  have based := follows.inPlay base rfl
  have origin := SourceOf.origin from_
  obtain ⟨sourced, inPlay, hash, rfl, lost⟩ := SourceOf.inPlay based appliedHash baselines from_
  obtain ⟨sourceDoc, currentDoc, targetDoc, target, parsed, parsed', derivation⟩ :=
    deriveTarget_eq_ok derives
  have handled : Handles S taken derived.canonical :=
    .derived asked (by rw [here]; exact held) (by rw [here]; exact origin) derives
  have targeted : InPlay S history target :=
    ⟨taken, member, _, handled, derivation.compileDoc_canonical S.conforms⟩
  obtain ⟨act, rotation, acts, _⟩ := derivation.derives
  obtain ⟨prints, fingerprinted, leaves⟩ := started.leaves
  refine ⟨⟨sourced, base, target, replacements, ?_⟩, config, started.enrolled, ?_⟩
  · constructor
    · exact ⟨inPlay, hash⟩
    · refine ⟨based, ?_⟩
      intro lostKey
      exact lost (acted.symm.trans lostKey)
    · refine ⟨targeted, ?_, ?_⟩
      · rw [record, ← derivation.docHash]
        rfl
      · rw [record, ← derivation.canonical]
        rfl
    · rw [show b.asBegun.action = action from acted]
      exact deriveAction_known acts
    · exact started.hashed
    · refine ⟨sourceDoc, currentDoc, targetDoc, derived, parsed, parsed', ?_, ?_, ?_⟩
      · rw [show b.asBegun.action = action from acted]
        exact derivation
      · rw [record]
        rfl
      · rw [record]
        rfl
    · refine ⟨prints, ?_, ?_⟩
      · rw [show b.asBegun.replaced = derived.replaced by rw [record]; rfl]
        exact fingerprinted
      · intro fingerprint listed
        rw [← derivation.fingerprints]
        have gone := List.all_eq_true.mp leaves fingerprint listed
        simpa using gone
  · intro compromise
    rw [acted] at compromise
    subst compromise
    exact from_.1

end Begin

/-! ### Provenance over runs -/

/-- A baseline is published as the document its hash names. -/
theorem Transition.baseline_cases {d : Deployment} {e : Env} {account : Address} {m m' : Slice}
    {call : Recovery.Call} {reply : Recovery.Reply} {gate : Option GateCall}
    (transition : Transition d e account m call reply gate m') :
    m'.baseline = m.baseline ∨ ∃ docJson compiler compiled,
      call = .publishBaseline account docJson ∧ (e.account account).docCompiler = some compiler ∧
      (e.docCompiler compiler).compileDoc docJson = some compiled ∧
      adminSurvives compiled.rules = true ∧
      m'.baseline = Function.update m.baseline compiled.docHash (some compiled.canonical) := by
  cases transition with
  | published _ _ compiles same admin =>
      exact .inr ⟨_, _, _, rfl, compiles.1, compiles.2, admin, by rw [same]⟩
  | classified _ _ settled =>
      left
      have dropped := Slice.takeMarker_eq e.sequence m
      generalize (m.takeMarker e.sequence).completing = completing at dropped
      rw [dropped] at settled
      cases settled <;> rfl
  | _ => exact .inl rfl

theorem SliceStep.baseline_cases {invocation : Invocation S} {storage : AccountStorage}
    {controller : Address} {m m' : Slice}
    (step : SliceStep S invocation storage controller m m') :
    m'.baseline = m.baseline ∨ ∃ docJson authorized compiled,
      invocation.action = .call controller true authorized (.publishBaseline S.me docJson) ∧
      compileDoc S.code.host docJson = .ok compiled ∧ adminSurvives compiled.rules = true ∧
      m'.baseline = Function.update m.baseline compiled.docHash (some compiled.canonical) := by
  cases step with
  | marked => exact .inl rfl
  | moved met transition =>
      rcases Transition.baseline_cases transition with
        same | ⟨docJson, compiler, compiled, rfl, answers, compiles, admin, after⟩
      · exact .inl same
      · right
        obtain ⟨authorized, asked, rfl⟩ := met_visible met (by simp [answers])
        simp only [outside_account, if_true, Setting.view, Option.some.injEq] at answers
        subst answers
        rw [outside_docCompiler, compiler_compileDoc] at compiles
        exact ⟨docJson, authorized, compiled, asked, compiles, admin, after⟩

theorem SyncStep.baseline {around : Surroundings} {controller : Address} {m m' : Slice}
    (step : SyncStep S around controller m m') : m'.baseline = m.baseline := by
  cases step with
  | kept => rfl
  | synced transition =>
      rcases Transition.baseline_cases transition with same | ⟨_, _, _, called, _⟩
      · exact same
      · cases called

theorem SliceChange.epoch_step {e : Env} {docHash : Bytes32}
    {new : Option CompiledRecoveryConfig} {controller : Address} {m m' : Slice}
    (change : SliceChange e docHash new controller m m') :
    (m'.epoch = m.epoch ∧ m'.config = m.config) ∨ checkedSucc m.epoch = some m'.epoch := by
  cases change with
  | untouched => exact .inl ⟨rfl, rfl⟩
  | kept => exact .inl ⟨rfl, rfl⟩
  | enrolled _ _ _ bumped => exact .inr bumped
  | reconfigured _ _ _ _ _ bumped => exact .inr bumped
  | removed _ _ bumped => exact .inr bumped
  | completed _ _ _ _ _ _ bumped => exact .inr bumped

theorem SliceStep.epoch_step {invocation : Invocation S} {storage : AccountStorage}
    {controller : Address} {m m' : Slice}
    (step : SliceStep S invocation storage controller m m') :
    (m'.epoch = m.epoch ∧ m'.config = m.config) ∨ checkedSucc m.epoch = some m'.epoch := by
  cases step with
  | marked => exact .inl ⟨rfl, rfl⟩
  | moved _ transition => exact transition.epoch_step

/-- No record is current after a bump. -/
theorem Slice.Sound.past_of_carried {now : UInt32} {m : Slice} {epoch : UInt64} {b : Attempt}
    (sound : m.Sound now) (bumped : checkedSucc m.epoch = some epoch) (carried : Carried m b) :
    b.epoch ≠ epoch := by
  obtain ⟨id, a, held, begun⟩ := carried
  have past := sound.current id a held
  rw [← Attempt.epoch_of_asBegun begun] at past
  rintro rfl
  exact UInt64.lt_irrefl _ (UInt64.lt_of_lt_of_le (lt_checkedSucc bumped) past)

theorem BegunIn.epoch {invocation : Invocation S} {storage : AccountStorage}
    {controller : Address} {m : Slice} {b : Attempt}
    (begun : BegunIn S invocation storage controller m b) : b.epoch = m.epoch := by
  obtain ⟨_, _, _, _, _, _, started⟩ := begun
  rw [started.record]
  rfl

namespace Recorded

variable {history : List (JointStep S)} {state after : State σ} {applied : Option CompiledDoc}

theorem carried (recorded : Recorded S history state) {controller : Address} {b : Attempt}
    (carried : Carried (state.slice S controller) b) :
    ∃ source current target replacements,
      Provenance S history b.asBegun source current target replacements := by
  obtain ⟨id, a, held, begun⟩ := carried
  rw [begun]
  exact recorded.attempts controller id a held

theorem carried_bound (recorded : Recorded S history state) {controller : Address} {b : Attempt}
    (carried : Carried (state.slice S controller) b)
    (current : b.epoch = (state.slice S controller).epoch) :
    ∃ config, (state.slice S controller).config = some config ∧
      (b.action = .compromise → config.baseline = some b.sourceDocHash) := by
  obtain ⟨id, a, held, begun⟩ := carried
  have epoch := Attempt.epoch_of_asBegun begun
  have action : b.action = a.action := Attempt.term_eq Attempt.action (fun _ => rfl) begun
  have source : b.sourceDocHash = a.sourceDocHash :=
    Attempt.term_eq Attempt.sourceDocHash (fun _ => rfl) begun
  rw [action, source]
  exact recorded.bound controller id a held (epoch.symm.trans current)

theorem step_applied {now : UInt32} {around : Surroundings} {docJson : Bytes}
    {validUntil : UInt32} {expected : Option UInt64} {compiled : CompiledDoc}
    {leaf : Option CompiledZkFactor} {outcome joined : SyncOutcome} {synced : World}
    (enrolled : Enrolled S now state) (clock : now = around.env.sequence)
    (recorded : Recorded S history state)
    (effect : ApplyEffect S.code (S.callees around) around.env.sequence .cheapest docJson validUntil
      state.account state.world compiled leaf outcome synced after.account after.world)
    (counters : ApplyCounters (S.callees around) validUntil state.account state.world compiled
      outcome joined synced expected after.account) :
    Recorded S history after := by
  have change := (enrolled.changed effect counters).slice enrolled.configured
  have step := syncStep_of_applied effect counters
  have sound : ∀ controller, (state.slice S controller).Sound around.env.sequence := by
    intro controller
    rw [← clock]
    exact enrolled.slices controller
  refine ⟨?_, ?_, ?_⟩
  · intro controller hash bytes published
    rw [(step controller).baseline] at published
    exact recorded.baselines controller hash bytes published
  · intro controller id b held
    exact recorded.carried ((step controller).holds (sound controller) id b held)
  · intro controller id b held current
    have from_ := (step controller).holds (sound controller) id b held
    rcases (change controller).epoch_step with ⟨epochs, configs⟩ | bumped
    · rw [configs]
      exact recorded.carried_bound from_ (current.trans epochs)
    · exact absurd current (Slice.Sound.past_of_carried (sound controller) bumped from_)

theorem step_unapplied {taken : JointStep S} (member : taken ∈ history)
    (here : taken.before = state)
    (enrolled : Enrolled S taken.action.around.env.sequence state)
    (follows : Follows S history state applied) (recorded : Recorded S history state)
    (unapplied : Unapplied S taken.action state after) : Recorded S history after := by
  have provenance : ∀ controller b,
      BegunIn S taken.action state.account.storage controller (state.slice S controller) b → _ :=
    fun controller b => BegunIn.provenance (b := b) follows member here
      (recorded.baselines controller)
  refine ⟨?_, ?_, ?_⟩
  · intro controller hash bytes published
    rcases (unapplied.slices controller).baseline_cases with
      same | ⟨docJson, authorized, compiled, asked, compiles, admin, updated⟩
    · rw [same] at published
      exact recorded.baselines controller hash bytes published
    · rw [updated, Function.update_apply] at published
      split at published
      next named =>
        refine ⟨compiled, ⟨taken, member, docJson, .published asked, compiles⟩, named.symm,
          Option.some.inj published, admin⟩
      next => exact recorded.baselines controller hash bytes published
  · intro controller id b held
    rcases (unapplied.slices controller).holds (enrolled.slices controller) id b held with
      from_ | begun
    · exact recorded.carried from_
    · exact (provenance controller b begun).1
  · intro controller id b held current
    have from_ := (unapplied.slices controller).holds (enrolled.slices controller) id b held
    rcases (unapplied.slices controller).epoch_step with ⟨epochs, configs⟩ | bumped
    · rw [configs]
      rcases from_ with from_ | begun
      · exact recorded.carried_bound from_ (current.trans epochs)
      · exact (provenance controller b begun).2
    · rcases from_ with from_ | begun
      · exact absurd current
          (Slice.Sound.past_of_carried (enrolled.slices controller) bumped from_)
      · rw [begun.epoch] at current
        have larger := lt_checkedSucc bumped
        rw [current] at larger
        exact absurd larger (UInt64.lt_irrefl _)

theorem mono {earlier : List (JointStep S)} (recorded : Recorded S earlier state)
    (part : earlier ⊆ history) : Recorded S history state := by
  refine ⟨?_, ?_, recorded.bound⟩
  · intro controller hash bytes published
    obtain ⟨compiled, inPlay, rest⟩ := recorded.baselines controller hash bytes published
    exact ⟨compiled, inPlay.mono part, rest⟩
  · intro controller id a held
    obtain ⟨source, current, target, replacements, provenance⟩ :=
      recorded.attempts controller id a held
    exact ⟨source, current, target, replacements,
      { provenance with
        sourced := ⟨provenance.sourced.1.mono part, provenance.sourced.2⟩
        based := ⟨provenance.based.1.mono part, provenance.based.2⟩
        targeted := ⟨provenance.targeted.1.mono part, provenance.targeted.2⟩ }⟩

theorem origin (origin : Origin S state) : Recorded S history state := by
  refine ⟨?_, ?_, ?_⟩
  · intro controller hash bytes published
    rw [origin.unknown] at published
    cases published
  · intro controller id a held
    rw [origin.unknown] at held
    rcases held with stored | ⟨_, stored, _⟩ <;> cases stored
  · intro controller id a held
    rw [origin.unknown] at held
    rcases held with stored | ⟨_, stored, _⟩ <;> cases stored

end Recorded

/-- Induction over a run without collisions.  An apply and any other step are
given with everything that is known where they happen. -/
theorem Reached.follow {history : List (JointStep S)} (free : CollisionFree S history)
    (holds : UInt32 → State σ → Prop)
    (initial : ∀ {start state}, Origin S state → holds start state)
    (waiting : ∀ {now later state}, Enrolled S now state → holds now state → now ≤ later →
      holds later state)
    (applying : ∀ {taken : JointStep S} {applied docJson validUntil expected compiled leaf outcome
        joined synced}, taken ∈ history →
      Enrolled S taken.action.around.env.sequence taken.before →
      Follows S history taken.before applied → Recorded S history taken.before →
      Follows S history taken.after (some compiled) → InPlay S history compiled →
      ApplyEffect S.code (S.callees taken.action.around) taken.action.around.env.sequence .cheapest
        docJson validUntil taken.before.account taken.before.world compiled leaf outcome synced
        taken.after.account taken.after.world →
      ApplyCounters (S.callees taken.action.around) validUntil taken.before.account
        taken.before.world compiled outcome joined synced expected taken.after.account →
      holds taken.action.around.env.sequence taken.before →
      holds taken.action.around.env.sequence taken.after)
    (passing : ∀ {taken : JointStep S} {applied}, taken ∈ history →
      Enrolled S taken.action.around.env.sequence taken.before →
      Follows S history taken.before applied → Recorded S history taken.before →
      Unapplied S taken.action taken.before taken.after →
      holds taken.action.around.env.sequence taken.before →
      holds taken.action.around.env.sequence taken.after)
    {now : UInt32} {state : State σ} (reached : Reached S history now state) :
    Recorded S history state ∧ holds now state := by
  refine ((reached.induct (fun earlier now state => earlier ⊆ history →
    (∃ applied, Follows S history state applied) ∧ Recorded S history state ∧ holds now state)
      ?_ ?_ ?_ ?_).2 (List.Subset.refl history)).2
  · intro start state origin _
    exact ⟨⟨none, .origin origin⟩, .origin origin, initial origin⟩
  · intro _ _ _ _ enrolled held forward part
    obtain ⟨follows, recorded, known⟩ := held part
    exact ⟨follows, recorded, waiting enrolled known forward⟩
  · intro _ _ _ _ _ held part
    exact held fun taken member => part (List.mem_cons_of_mem _ member)
  · intro earlier state reply after invocation enrolled _ held _ happened part
    obtain ⟨⟨applied, follows⟩, recorded, known⟩ :=
      held fun taken member => part (List.mem_cons_of_mem _ member)
    have member := part List.mem_cons_self
    rcases happened.applied_or_unapplied with
      ⟨docJson, validUntil, expected, compiled, leaf, outcome, joined, synced, _, asked, effect,
        counters⟩ | unapplied
    · obtain ⟨inPlay, params⟩ := inPlay_of_applied member asked effect.compiles
      have follows' := follows.step_applied free enrolled inPlay params effect counters
      exact ⟨⟨some compiled, follows'⟩, recorded.step_applied enrolled rfl effect counters,
        applying member enrolled follows recorded follows' inPlay effect counters known⟩
    · exact ⟨⟨applied, follows.unapplied unapplied⟩,
        recorded.step_unapplied member rfl enrolled follows unapplied,
        passing member enrolled follows recorded unapplied known⟩

/-- In every run, what a controller keeps comes from documents of the run. -/
theorem Reached.recorded {history : List (JointStep S)} {now : UInt32} {state : State σ}
    (reached : Reached S history now state) (free : CollisionFree S history) :
    Recorded S history state :=
  (Reached.follow free (fun _ _ => True) (fun _ => trivial) (fun _ _ _ => trivial)
    (fun _ _ _ _ _ _ _ _ _ => trivial) (fun _ _ _ _ _ _ => trivial) reached).1

end Perch.Joint
