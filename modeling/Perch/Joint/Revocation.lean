/-
Revocation is permanent, and no recovery revokes what it installs.

Which credentials a completion revokes is settled at two times: those replaced,
when the attempt begins, and those dropped, when it completes.  The first are
checked against the target before the attempt exists, the second are what the
target lacks, and the target is the one document both times.
-/

import Perch.Joint.Provenance

namespace Perch.Joint

open Machine Document Recovery Account

variable {σ : Type} {S : Setting σ}

/-! ### What a completion revokes -/

theorem mem_distinct {fingerprints out : List Bytes32} {fingerprint : Bytes32} :
    fingerprint ∈ fingerprints.foldl (fun out f => if f ∈ out then out else out ++ [f]) out ↔
      fingerprint ∈ out ∨ fingerprint ∈ fingerprints := by
  induction fingerprints generalizing out with
  | nil => simp
  | cons first rest ih =>
      rw [List.foldl_cons, ih]
      split
      · simp only [List.mem_cons]
        constructor
        · rintro (held | held)
          · exact .inl held
          · exact .inr (.inr held)
        · rintro (held | rfl | held)
          · exact .inl held
          · exact .inl ‹_›
          · exact .inr held
      · simp only [List.mem_append, List.mem_cons, List.not_mem_nil, or_false]
        exact or_assoc

theorem mem_dropped {current target out : List Bytes32} {fingerprint : Bytes32} :
    fingerprint ∈ current.foldl
        (fun out f => if f ∉ target ∧ f ∉ out then out ++ [f] else out) out ↔
      fingerprint ∈ out ∨ (fingerprint ∈ current ∧ fingerprint ∉ target) := by
  induction current generalizing out with
  | nil => simp
  | cons first rest ih =>
      rw [List.foldl_cons, ih]
      by_cases same : fingerprint = first
      · subst same
        split
        next fresh => simp [fresh.1]
        next held =>
          rw [not_and_or, not_not, not_not] at held
          rcases held with kept | known
          · simp [kept]
          · simp [known]
      · split <;> simp [same]

theorem mem_revocations {replaced current target : List Bytes32} {fingerprint : Bytes32} :
    fingerprint ∈ revocations replaced current target ↔
      fingerprint ∈ replaced ∨ (fingerprint ∈ current ∧ fingerprint ∉ target) := by
  rw [revocations, mem_dropped, mem_distinct]
  simp

theorem EnrollmentChange.of_completed {e : Env} {adopted : Option Address} {docHash : Bytes32}
    {new : Option CompiledRecoveryConfig} {before after : Address → Slice}
    {outcome joined : SyncOutcome} {completion : Completion}
    (change : EnrollmentChange S e adopted docHash new before outcome joined after)
    (completed : outcome = .completed completion) :
    ∃ controller a, adopted = some controller ∧ (before controller).Authorized e.sequence a ∧
      docHash = a.targetDocHash ∧
      completion = { attemptId := a.id, replaced := a.replaced } ∧
      (after controller).attempt a.id = some { a with state := .completed } := by
  cases change with
  | @completed _ _ a _ _ adopts _ _ found target =>
      cases completed
      refine ⟨_, a, adopts, found, target, rfl, ?_⟩
      rw [Function.update_self]
      exact Slice.put_attempt_of_state (e := e) (a := { a with state := .completed }) (.inr rfl)
  | _ => cases completed

/-- An apply while an attempt is authorized completes it. -/
theorem EnrollmentChange.completed_of_authorized {e : Env} {adopted : Option Address}
    {docHash : Bytes32} {new : Option CompiledRecoveryConfig} {before after : Address → Slice}
    {outcome joined : SyncOutcome} {controller : Address} {a : Attempt}
    (change : EnrollmentChange S e adopted docHash new before outcome joined after)
    (adopts : adopted = some controller) (found : (before controller).Authorized e.sequence a) :
    outcome = .completed { attemptId := a.id, replaced := a.replaced } := by
  cases change with
  | nothing unadopted => simp [unadopted] at adopts
  | enrolled unadopted => simp [unadopted] at adopts
  | kept adopts' _ _ quiet =>
      obtain rfl := Option.some.inj (adopts.symm.trans adopts')
      exact absurd found (quiet a)
  | reconfigured adopts' _ _ quiet =>
      obtain rfl := Option.some.inj (adopts.symm.trans adopts')
      exact absurd found (quiet a)
  | removed adopts' _ quiet =>
      obtain rfl := Option.some.inj (adopts.symm.trans adopts')
      exact absurd found (quiet a)
  | switched adopts' _ _ quiet =>
      obtain rfl := Option.some.inj (adopts.symm.trans adopts')
      exact absurd found (quiet a)
  | completed adopts' _ _ found' =>
      obtain rfl := Option.some.inj (adopts.symm.trans adopts')
      rw [found.unique found']

/-- No authorization is left to use after an apply. -/
theorem SliceChange.quiet {e : Env} {docHash : Bytes32} {new : Option CompiledRecoveryConfig}
    {controller : Address} {m m' : Slice} (change : SliceChange e docHash new controller m m')
    (sound : m.Sound e.sequence) (unarmed : m.config = none → m.authorized = none) :
    ∀ a, m'.armed = some a → ¬e.sequence < a.expiresAt := by
  have disarmed : ∀ {m' : Slice}, m'.armed = none →
      ∀ a, m'.armed = some a → ¬e.sequence < a.expiresAt := by
    intro m' none a found
    rw [none] at found
    cases found
  cases change with
  | untouched absent => exact disarmed (Slice.armed_of_pointer (unarmed absent))
  | enrolled _ _ _ bumped => exact disarmed (Slice.armed_of_bumped bumped sound.current)
  | @kept _ _ completing _ _ _ quiet =>
      intro a found within
      have same : ({ m with completing := completing } : Slice).armed = m.armed :=
        Slice.armed_congr rfl rfl fun _ _ => rfl
      rw [same] at found
      exact quiet a (sound.authorized_iff.mpr ⟨found, within⟩)
  | reconfigured _ _ _ _ _ bumped =>
      exact disarmed (Slice.armed_of_bumped bumped sound.current)
  | removed => exact disarmed (Slice.armed_of_pointer rfl)
  | completed => exact disarmed (Slice.armed_of_pointer rfl)

/-- What the account checks before it applies a document. -/
theorem checkDocument_eq_ok {storage : AccountStorage} {compiled : CompiledDoc}
    {leaf : Option CompiledZkFactor} :
    checkDocument storage compiled = .ok leaf ↔
      adminSurvives compiled.rules = true ∧
      (∀ fingerprint ∈ compiled.fingerprints, storage.revoked fingerprint = false) ∧
      zkFactorTransitionOk storage.currentZk (newZk compiled) = true ∧
      (∀ factor ∈ leafToInsert storage.currentZk (newZk compiled),
        storage.enrolledIds factor.enrollmentId = false) ∧
      leafToInsert storage.currentZk (newZk compiled) = leaf := by
  simp only [checkDocument, bind_eq_ok, require_eq_ok, pure_eq_ok, exists_const]

/-! ### The invariant -/

/-- Nothing the account installed is revoked, and the source of a lost-key
attempt that can complete is still the applied document. -/
structure Clean (S : Setting σ) (now : UInt32) (state : State σ) : Prop where
  unrevoked : ∀ fingerprint ∈ state.account.storage.appliedFingerprints.getD [],
    state.account.storage.revoked fingerprint = false
  sourced : ∀ controller a, (state.slice S controller).armed = some a → now < a.expiresAt →
    a.action = .lostKey → state.account.storage.appliedDoc = some a.sourceDocHash

theorem Settled.revoked_mono {sha256 : Sha256} {outcome : SyncOutcome}
    {fingerprints : List Bytes32} {before after : AccountStorage}
    (settled : Settled sha256 outcome fingerprints before after) {fingerprint : Bytes32}
    (revoked : before.revoked fingerprint = true) : after.revoked fingerprint = true := by
  cases outcome with
  | completed completion =>
      obtain ⟨_, _, extended, _⟩ := settled
      rw [extended]
      simp [revoked]
  | _ =>
      rw [settled.1]
      exact revoked

section Steps

variable {history : List (JointStep S)} {taken : JointStep S} {applied : Option CompiledDoc}
  {docJson : Bytes} {validUntil : UInt32} {expected : Option UInt64} {compiled : CompiledDoc}
  {leaf : Option CompiledZkFactor} {outcome joined : SyncOutcome} {synced : World}

/-- The target of the attempt an apply completes is the document applied. -/
theorem completed_provenance (free : CollisionFree S history)
    (enrolled : Enrolled S taken.action.around.env.sequence taken.before)
    (recorded : Recorded S history taken.before) (inPlay : InPlay S history compiled)
    {controller : Address} {a : Attempt}
    (found : (taken.before.slice S controller).Authorized taken.action.around.env.sequence a)
    (target : compiled.docHash = a.targetDocHash) :
    ∃ source current replacements,
      Provenance S history a.asBegun source current compiled replacements := by
  obtain ⟨_, _, stored, _⟩ := (enrolled.slices controller).authorized_state found
  obtain ⟨source, current, derived, replacements, provenance⟩ :=
    recorded.attempts controller a.id a (.inl stored)
  obtain ⟨inPlay', hash, _⟩ := provenance.targeted
  obtain rfl := free.document_eq inPlay inPlay' (target.trans hash)
  exact ⟨source, current, replacements, provenance⟩

theorem fingerprints_unique {sha256 : Sha256} {credentials : List Credential}
    {prints prints' : List Bytes32}
    (one : List.Forall₂ (fun credential fingerprint =>
      credential.fingerprint sha256 = .ok fingerprint) credentials prints)
    (all : credentials.mapM (Credential.fingerprint sha256) = .ok prints') : prints = prints' := by
  refine List.right_unique_forall₂' ?_ one (mapM_eq_ok all)
  intro credential first second left right
  exact Except.ok.inj (left.symm.trans right)

theorem Clean.step_applied (free : CollisionFree S history)
    (enrolled : Enrolled S taken.action.around.env.sequence taken.before)
    (recorded : Recorded S history taken.before)
    (follows : Follows S history taken.after (some compiled)) (inPlay : InPlay S history compiled)
    (effect : ApplyEffect S.code (S.callees taken.action.around) taken.action.around.env.sequence
      .cheapest docJson validUntil taken.before.account taken.before.world compiled leaf outcome
      synced taken.after.account taken.after.world)
    (counters : ApplyCounters (S.callees taken.action.around) validUntil taken.before.account
      taken.before.world compiled outcome joined synced expected taken.after.account) :
    Clean S taken.action.around.env.sequence taken.after := by
  have change := enrolled.changed effect counters
  have installed : taken.after.account.storage.appliedFingerprints = some compiled.fingerprints :=
    congrArg (fun document => document.2.2) follows.document
  have unrevoked := (checkDocument_eq_ok.mp effect.checked).2.1
  have settles := effect.settles
  refine ⟨?_, ?_⟩
  · rw [installed, Option.getD_some]
    intro fingerprint listed
    cases outcome with
    | completed completion =>
        obtain ⟨prints, fingerprinted, extended, _⟩ := settles
        obtain ⟨controller, a, _, found, target, rfl, _⟩ := change.of_completed rfl
        obtain ⟨_, _, _, provenance⟩ :=
          completed_provenance free enrolled recorded inPlay found target
        obtain ⟨prints', all, leaves⟩ := provenance.leaves
        obtain rfl := fingerprints_unique fingerprinted all
        rw [extended]
        simp only [Bool.or_eq_false_iff, decide_eq_false_iff_not]
        refine ⟨?_, unrevoked fingerprint listed⟩
        rw [mem_revocations]
        rintro (replaced | ⟨_, dropped⟩)
        · exact leaves fingerprint replaced listed
        · exact dropped listed
    | _ =>
        rw [settles.1]
        exact unrevoked fingerprint listed
  · intro controller a found within
    have sliced := change.slice enrolled.configured controller
    exact absurd within (sliced.quiet (enrolled.slices controller)
      (enrolled.unarmed controller) a found)

theorem Clean.step_unapplied
    (enrolled : Enrolled S taken.action.around.env.sequence taken.before)
    (unapplied : Unapplied S taken.action taken.before taken.after)
    (clean : Clean S taken.action.around.env.sequence taken.before) :
    Clean S taken.action.around.env.sequence taken.after := by
  have same := unapplied.configuration
  simp only [AccountState.configuration, AccountStorage.document, Prod.mk.injEq] at same
  obtain ⟨_, ⟨appliedDoc, _, fingerprints⟩, _⟩ := same
  refine ⟨?_, ?_⟩
  · rw [fingerprints, unapplied.revoked]
    exact clean.unrevoked
  · intro controller a found within lost
    rw [appliedDoc]
    have step := unapplied.slices controller
    generalize taken.after.slice S controller = m' at found step
    have sound := enrolled.slices controller
    have before := clean.sourced controller
    generalize taken.before.slice S controller = m at sound before step
    cases step with
    | marked completing =>
        have marked : ({ m with completing := completing } : Slice).armed = m.armed :=
          Slice.armed_congr rfl rfl fun _ _ => rfl
        rw [marked] at found
        exact before a found within lost
    | @moved e call _ _ _ met transition =>
        have clock : e.sequence = taken.action.around.env.sequence := by
          rcases met with rfl | ⟨_, _, _, rfl⟩ <;> rfl
        rw [← clock] at sound
        cases transition.armedEffect sound with
        | kept kept =>
            rw [kept] at found
            exact before a found within lost
        | @touched b c held after begun window =>
            obtain rfl := Option.some.inj (after.symm.trans found)
            have action : c.action = b.action :=
              Attempt.term_eq Attempt.action (fun _ => rfl) begun
            have source : c.sourceDocHash = b.sourceDocHash :=
              Attempt.term_eq Attempt.sourceDocHash (fun _ => rfl) begun
            rw [source]
            exact before b held (window.expiresAt ▸ within) (action ▸ lost)
        | opened _ _ _ after _ applied =>
            obtain rfl := Option.some.inj (after.symm.trans found)
            have named := applied lost
            rcases met with rfl | ⟨visible, _, _, rfl⟩
            · simp [reentered] at named
            · cases visible with
              | true =>
                  simp only [outside_account, if_true, Setting.view, Option.some.injEq] at named
                  exact named
              | false => simp [reentered] at named
        | closed _ _ _ after =>
            rw [after] at found
            cases found
        | moved _ after =>
            rw [after] at found
            cases found
        | completed _ after =>
            rw [after] at found
            cases found

end Steps

theorem Reached.clean {history : List (JointStep S)} {now : UInt32} {state : State σ}
    (reached : Reached S history now state) (free : CollisionFree S history) :
    Clean S now state := by
  refine (Reached.follow free (Clean S) ?_ ?_ ?_ ?_ reached).2
  · intro start state origin
    obtain ⟨_, _, _, _, built⟩ := origin.built
    simp only [installAdmin, bind_eq_ok, pure_eq_ok, Prod.exists] at built
    obtain ⟨_, _, _, account⟩ := built
    refine ⟨?_, ?_⟩
    · rw [← account]
      simp [AccountStorage.empty]
    · intro controller a found
      rw [origin.unknown] at found
      simp [Slice.armed, Storage.slice, Storage.empty] at found
  · intro now later state _ clean forward
    refine ⟨clean.unrevoked, ?_⟩
    intro controller a found within
    exact clean.sourced controller a found (UInt32.lt_of_le_of_lt forward within)
  · intro taken _ _ _ _ _ _ _ _ _ _ enrolled _ recorded follows inPlay effect counters _
    exact Clean.step_applied free enrolled recorded follows inPlay effect counters
  · intro taken _ _ enrolled _ _ unapplied clean
    exact clean.step_unapplied enrolled unapplied

/-! ### Growth -/

theorem Happened.revoked_mono {invocation : Invocation S} {before after : State σ}
    {reply : Reply} (happened : Happened S invocation before reply after) {fingerprint : Bytes32}
    (revoked : before.account.storage.revoked fingerprint = true) :
    after.account.storage.revoked fingerprint = true := by
  rcases happened.applied_or_unapplied with ⟨_, _, _, _, _, _, _, _, _, _, effect, _⟩ | unapplied
  · exact Settled.revoked_mono effect.settles revoked
  · rw [unapplied.revoked]
    exact revoked

theorem Reached.revoked_later {history : List (JointStep S)} {now : UInt32} {state : State σ}
    (reached : Reached S history now state) :
    (∀ taken ∈ history, ∀ fingerprint,
        taken.after.account.storage.revoked fingerprint = true →
        state.account.storage.revoked fingerprint = true) ∧
      history.Pairwise fun newer older => ∀ fingerprint,
        older.after.account.storage.revoked fingerprint = true →
        newer.before.account.storage.revoked fingerprint = true := by
  refine (reached.induct (fun history _ state =>
    (∀ taken ∈ history, ∀ fingerprint,
        taken.after.account.storage.revoked fingerprint = true →
        state.account.storage.revoked fingerprint = true) ∧
      history.Pairwise fun newer older => ∀ fingerprint,
        older.after.account.storage.revoked fingerprint = true →
        newer.before.account.storage.revoked fingerprint = true) ?_ ?_ ?_ ?_).2
  · intro _ _ _
    simp
  · intro _ _ _ _ _ known _
    exact known
  · intro history state invocation failure _ ⟨later, ordered⟩
    refine ⟨?_, .cons later ordered⟩
    intro taken member fingerprint revoked
    rcases List.mem_cons.mp member with rfl | member
    · exact revoked
    · exact later taken member fingerprint revoked
  · intro history state reply after invocation _ _ ⟨later, ordered⟩ _ happened
    refine ⟨?_, .cons later ordered⟩
    intro taken member fingerprint revoked
    rcases List.mem_cons.mp member with rfl | member
    · exact revoked
    · exact happened.revoked_mono (later taken member fingerprint revoked)

/-! ### Completions -/

/-- The step that completes an attempt: the apply that succeeds while the
adopted controller has it authorized. -/
structure Completes (S : Setting σ) (taken : JointStep S) (controller : Address) (a : Attempt) :
    Prop where
  adopted : taken.before.account.storage.recoveryController = some controller
  authorized : (taken.before.slice S controller).Authorized taken.action.around.env.sequence a
  applied : taken.reply = .ok (.applied a.targetDocHash)
  recorded : (taken.after.slice S controller).attempt a.id = some { a with state := .completed }

/-- The document a recovery replaces credentials of: the enrolled baseline, or
the document applied until it completes. -/
def SourceDocument (S : Setting σ) (taken : JointStep S) (controller : Address) (a : Attempt)
    (source : CompiledDoc) : Prop :=
  source.docHash = a.sourceDocHash ∧
    ((a.action = .compromise ∧ ∃ config, (taken.before.slice S controller).config = some config ∧
        config.baseline = some source.docHash) ∨
      (a.action = .lostKey ∧ appliedDocument S taken.before = some source))

/-- A completion revokes the credentials replaced in its source document, and
those of the document before it that its target lacks. -/
def RevokesExactly (S : Setting σ) (taken : JointStep S) (controller : Address) (a : Attempt) :
    Prop :=
  ∃ source sourceDoc target replacements prints,
    SourceDocument S taken controller a source ∧
    parse S.code.host source.canonical = .ok sourceDoc ∧
    appliedDocument S taken.after = some target ∧
    replacements.hash S.sha256 = .ok a.replacementsHash ∧
    canonicalCredentials S.code.host (replacedSigners S.code.host sourceDoc replacements) =
      .ok a.replaced ∧
    List.Forall₂ (fun credential fingerprint =>
      credential.fingerprint S.sha256 = .ok fingerprint) a.replaced prints ∧
    ∀ fingerprint, taken.after.account.storage.revoked fingerprint = true ↔
      taken.before.account.storage.revoked fingerprint = true ∨ fingerprint ∈ prints ∨
        ∃ previous, appliedDocument S taken.before = some previous ∧
          fingerprint ∈ previous.fingerprints ∧ fingerprint ∉ target.fingerprints

def Declares (S : Setting σ) (compiled : CompiledDoc) (credential : Credential) : Prop :=
  ∃ doc credentials, Compiles S.code.host doc compiled ∧
    canonicalCredentials S.code.host doc.signers = .ok credentials ∧ credential ∈ credentials

theorem Declares.listed {compiled : CompiledDoc} {credential : Credential} {fingerprint : Bytes32}
    (declares : Declares S compiled credential)
    (fingerprinted : credential.fingerprint S.sha256 = .ok fingerprint) :
    fingerprint ∈ compiled.fingerprints := by
  obtain ⟨doc, credentials, compiles, declared, member⟩ := declares
  obtain ⟨credentials', declared', prints⟩ := compiles.fingerprints
  obtain rfl := Except.ok.inj (declared.symm.trans declared')
  obtain ⟨found, listed, same⟩ := exists_of_mem_left (mapM_eq_ok prints) member
  rw [mapError_eq_ok, S.code.sameHash] at same
  obtain rfl := Except.ok.inj (fingerprinted.symm.trans same)
  exact listed

section Completed

variable {history : List (JointStep S)} {now : UInt32} {state : State σ} {taken : JointStep S}

theorem Reached.applied (reached : Reached S history now state) (free : CollisionFree S history)
    (member : taken ∈ history) {docHash : Bytes32}
    (replied : taken.reply = .ok (.applied docHash)) :
    ∃ docJson validUntil expected compiled leaf outcome joined synced,
      compiled.docHash = docHash ∧ taken.action.action = .applyDoc docJson validUntil expected ∧
      InPlay S history compiled ∧ Enrolled S taken.action.around.env.sequence taken.before ∧
      Follows S history taken.before (appliedDocument S taken.before) ∧
      Recorded S history taken.before ∧ Clean S taken.action.around.env.sequence taken.before ∧
      appliedDocument S taken.after = some compiled ∧
      ApplyEffect S.code (S.callees taken.action.around) taken.action.around.env.sequence .cheapest
        docJson validUntil taken.before.account taken.before.world compiled leaf outcome synced
        taken.after.account taken.after.world ∧
      ApplyCounters (S.callees taken.action.around) validUntil taken.before.account
        taken.before.world compiled outcome joined synced expected taken.after.account := by
  obtain ⟨_, earlier, part, before, _⟩ := reached.at_step member
  have rest := List.subset_of_cons_subset part
  have follows := (before.follows (free.mono rest)).mono rest
  obtain ⟨docJson, validUntil, expected, compiled, leaf, outcome, joined, synced, same, asked,
    effect, counters⟩ := Happened.of_applied (reached.happened member replied) rfl
  obtain ⟨inPlay, params⟩ := inPlay_of_applied member asked effect.compiles
  have after := follows.step_applied free before.enrolled inPlay params effect counters
  exact ⟨docJson, validUntil, expected, compiled, leaf, outcome, joined, synced, same, asked,
    inPlay, before.enrolled, follows, (before.recorded (free.mono rest)).mono rest,
    before.clean (free.mono rest), after.appliedDocument_eq, effect, counters⟩

/-- Only a completion revokes anything. -/
theorem Reached.completes_of_revoked (reached : Reached S history now state)
    (member : taken ∈ history) {fingerprint : Bytes32}
    (before : taken.before.account.storage.revoked fingerprint = false)
    (after : taken.after.account.storage.revoked fingerprint = true) :
    ∃ controller a, Completes S taken controller a := by
  rcases reached.taken member with ⟨_, _, same⟩ | ⟨reply, replied, happened⟩
  · rw [same, before] at after
    cases after
  · rcases happened.applied_or_unapplied with
      ⟨_, _, _, compiled, _, outcome, _, _, rfl, asked, effect, counters⟩ | unapplied
    · have settles := effect.settles
      obtain ⟨_, _, _, start, _⟩ := reached.at_step member
      have change := start.enrolled.changed effect counters
      cases outcome with
      | completed completion =>
          obtain ⟨controller, a, adopted, found, target, _, recorded⟩ := change.of_completed rfl
          refine ⟨controller, a, adopted, found, ?_, recorded⟩
          rw [replied, target]
      | _ =>
          rw [settles.1, before] at after
          cases after
    · rw [unapplied.revoked, before] at after
      cases after

theorem Completes.revokes (reached : Reached S history now state) (free : CollisionFree S history)
    (member : taken ∈ history) {controller : Address} {a : Attempt}
    (completes : Completes S taken controller a) : RevokesExactly S taken controller a := by
  obtain ⟨_, _, _, target, _, outcome, _, _, hash, _, inPlay, enrolled, follows, recorded, clean,
    after, effect, counters⟩ := reached.applied free member completes.applied
  have sound := enrolled.slices controller
  obtain ⟨_, _, stored, live⟩ := sound.authorized_state completes.authorized
  have change := enrolled.changed effect counters
  have completed := change.completed_of_authorized completes.adopted completes.authorized
  have settles := effect.settles
  rw [completed] at settles
  obtain ⟨prints, fingerprinted, extended, _⟩ := settles
  obtain ⟨source, current, replacements, provenance⟩ :=
    completed_provenance free enrolled recorded inPlay completes.authorized hash
  obtain ⟨sourceDoc, _, _, derived, parsed, _, derivation, _, replaced⟩ := provenance.derivation
  refine ⟨source, sourceDoc, target, replacements, prints, ⟨provenance.sourced.2.symm, ?_⟩, parsed,
    after, provenance.hashed, ?_, fingerprinted, ?_⟩
  · rcases provenance.known with lost | compromise
    · right
      refine ⟨lost, ?_⟩
      obtain ⟨armed, within⟩ := sound.authorized_iff.mp completes.authorized
      have named := clean.sourced controller a armed within lost
      have document := congrArg Prod.fst follows.document
      rw [show taken.before.account.storage.document.1 = _ from named] at document
      obtain ⟨previous, present, same⟩ := Option.map_eq_some_iff.mp document.symm
      rw [present, free.document_eq (follows.inPlay previous present) provenance.sourced.1
        (same.trans provenance.sourced.2)]
    · left
      refine ⟨compromise, ?_⟩
      obtain ⟨config, enrolledConfig, baseline⟩ :=
        recorded.bound controller a.id a (.inl stored) live.1
      refine ⟨config, enrolledConfig, (baseline compromise).trans ?_⟩
      exact congrArg some provenance.sourced.2
  · rw [show a.replaced = derived.replaced from replaced]
    exact derivation.replaced
  · intro fingerprint
    have previous : ∀ fingerprint,
        fingerprint ∈ taken.before.account.storage.appliedFingerprints.getD [] ↔
          ∃ previous, appliedDocument S taken.before = some previous ∧
            fingerprint ∈ previous.fingerprints := by
      intro fingerprint
      have document : taken.before.account.storage.appliedFingerprints =
          (appliedDocument S taken.before).map CompiledDoc.fingerprints :=
        congrArg (fun document => document.2.2) follows.document
      rw [document]
      cases appliedDocument S taken.before <;> simp
    rw [extended]
    simp only [Bool.or_eq_true, decide_eq_true_eq, mem_revocations, previous]
    constructor
    · rintro ((replaced | ⟨⟨document, present, listed⟩, dropped⟩) | earlier)
      · exact .inr (.inl replaced)
      · exact .inr (.inr ⟨document, present, listed, dropped⟩)
      · exact .inl earlier
    · rintro (earlier | replaced | ⟨document, present, listed, dropped⟩)
      · exact .inr earlier
      · exact .inl (.inl replaced)
      · exact .inl (.inr ⟨⟨document, present, listed⟩, dropped⟩)

end Completed

/-- The revoked set only grows, and only when a recovery completes; nothing the
applied document declares is revoked; a completion revokes exactly what it
replaces and what its target drops; and no document that declares a credential
revoked before is ever applied. -/
theorem revocation_permanent {history : List (JointStep S)} {now : UInt32} {state : State σ}
    (reached : Reached S history now state) (free : CollisionFree S history) :
    (∀ taken ∈ history, ∀ fingerprint,
      (taken.before.account.storage.revoked fingerprint = true →
        taken.after.account.storage.revoked fingerprint = true) ∧
      (taken.after.account.storage.revoked fingerprint = true →
        state.account.storage.revoked fingerprint = true)) ∧
    (∀ taken ∈ history, ∀ fingerprint,
      taken.before.account.storage.revoked fingerprint = false →
      taken.after.account.storage.revoked fingerprint = true →
      ∃ controller a, Completes S taken controller a) ∧
    (∀ compiled, appliedDocument S state = some compiled →
      ∀ fingerprint ∈ compiled.fingerprints,
        state.account.storage.revoked fingerprint = false) ∧
    (∀ taken ∈ history, ∀ controller a, Completes S taken controller a →
      RevokesExactly S taken controller a) ∧
    history.Pairwise fun newer older => ∀ credential fingerprint docHash compiled,
      older.after.account.storage.revoked fingerprint = true →
      credential.fingerprint S.sha256 = .ok fingerprint →
      newer.reply = .ok (.applied docHash) → appliedDocument S newer.after = some compiled →
      ¬Declares S compiled credential := by
  obtain ⟨later, ordered⟩ := reached.revoked_later
  refine ⟨?_, ?_, ?_, ?_, ?_⟩
  · intro taken member fingerprint
    refine ⟨?_, later taken member fingerprint⟩
    intro revoked
    rcases reached.taken member with ⟨_, _, same⟩ | ⟨_, _, happened⟩
    · rw [same]
      exact revoked
    · exact happened.revoked_mono revoked
  · intro taken member fingerprint before after
    exact reached.completes_of_revoked member before after
  · intro compiled present fingerprint listed
    apply (reached.clean free).unrevoked
    have document : state.account.storage.appliedFingerprints =
        (appliedDocument S state).map CompiledDoc.fingerprints :=
      congrArg (fun document => document.2.2) (reached.follows free).document
    rw [document, present]
    exact listed
  · intro taken member controller a completes
    exact completes.revokes reached free member
  · refine ordered.imp_of_mem ?_
    intro newer older member _ revokedBefore credential fingerprint docHash compiled revoked
      fingerprinted replied present declares
    obtain ⟨_, _, _, found, _, _, _, _, _, _, _, _, _, _, _, after, effect, _⟩ :=
      reached.applied free member replied
    obtain rfl := Option.some.inj (present.symm.trans after)
    have fresh := (checkDocument_eq_ok.mp effect.checked).2.1 fingerprint
      (declares.listed fingerprinted)
    rw [revokedBefore fingerprint revoked] at fresh
    cases fresh

section Sample

def sampleSet : ReplacementSet where
  signers := [{ signerId := Ir.utf8 "a", credential := .delegated (.account (BytesN.fill 2)) }]
  zkEnrollment := []

def replacedDoc : Ir.PolicyDoc :=
  recoverableDoc "GABAEAQCAIBAEAQCAIBAEAQCAIBAEAQCAIBAEAQCAIBAEAQCAIBAEJXA"

def compiledReplaced : CompiledDoc where
  docHash := localSha256 (textBytes (Ir.writeValue (Ir.docToCv replacedDoc)))
  canonical := textBytes (Ir.writeValue (Ir.docToCv replacedDoc))
  fingerprints :=
    ((Credential.delegated (.account (BytesN.fill 2))).fingerprint localSha256).toOption.toList
  rules :=
    [{ name := Ir.utf8 "admin", scope := .selfAdmin
       signers := [.delegated (.account (BytesN.fill 2))], validUntil := none
       install := [], cap := [] }]
  recovery := [compiledRecovery]

set_option maxRecDepth 16384 in
theorem replacedDoc_compiles :
    compileParsed (localHost "T") replacedDoc = .ok compiledReplaced := by
  apply Compiles.compileParsed_eq
  constructor
  · decide +kernel
  · exact ⟨"T", rfl, rfl⟩
  · decide +kernel
  · exact ⟨⟨[⟨"admin", .selfAdmin,
      [.delegated "GABAEAQCAIBAEAQCAIBAEAQCAIBAEAQCAIBAEAQCAIBAEAQCAIBAEJXA"], none, none,
      none⟩], none⟩, by decide +kernel, by decide +kernel⟩
  · rw [Ir.canonicalJson, utf8_ofList]
    rfl
  · decide +kernel
  · rfl
  · change [sampleRecovery].mapM (toCompiledRecovery (localHost "T")) = _
    rw [List.mapM_cons, sampleRecovery_compiles]
    rfl
  · exact ⟨[.delegated (.account (BytesN.fill 2))], by decide +kernel, by decide +kernel⟩

theorem compiledEnrolling_canonical :
    compiledEnrolling.canonical = Ir.utf8 (Ir.canonicalJson enrollingDoc) := by
  rw [Ir.canonicalJson, utf8_ofList]
  rfl

def sampleDerived : DerivedTarget where
  canonical := compiledReplaced.canonical
  docHash := compiledReplaced.docHash
  configHash := compiledRecovery.configHash
  fingerprints := compiledReplaced.fingerprints
  replaced := [.delegated (.account (BytesN.fill 1))]

set_option maxRecDepth 16384 in
theorem sampleSet_derives :
    deriveTarget (localHost "T") compiledEnrolling.canonical compiledEnrolling.canonical .lostKey
      sampleSet = .ok sampleDerived := by
  have read : parse (localHost "T") compiledEnrolling.canonical = .ok enrollingDoc := by
    rw [compiledEnrolling_canonical]
    exact parse_canonical Ir.jsonReader_conforms rfl
  have derives : Ir.deriveTarget enrollingDoc enrollingDoc .lostKey
      (sampleSet.signers.map (toReplacement (localHost "T"))) none = .ok replacedDoc := by
    decide +kernel
  have slots : (enrollingDoc.signers.filter fun s =>
      (sampleSet.signers.map (toReplacement (localHost "T"))).any fun r =>
        r.signerId = s.id) = enrollingDoc.signers := by
    decide +kernel
  have replaced : canonicalCredentials (localHost "T") enrollingDoc.signers =
      .ok [.delegated (.account (BytesN.fill 1))] := by
    decide +kernel
  have rotation : rotationOf (localHost "T") sampleSet.zkEnrollment = .ok none := rfl
  simp only [deriveTarget, read, rotation, bind_eq_ok, mapError_eq_ok, require_eq_ok,
    orFail_eq_ok, pure_eq_ok]
  exact ⟨_, rfl, _, rfl, _, rfl, _, rfl, _, derives, _, replacedDoc_compiles, (), by decide, _,
    rfl, _, slots ▸ replaced, rfl⟩

theorem sampleCompiler_eq : sampleSetting.compiler =
    { compileDoc := sampleSetting.compiler.compileDoc
      deriveTarget := fun source current action set =>
        if source = compiledEnrolling.canonical ∧ current = compiledEnrolling.canonical ∧
            action = .lostKey ∧ set = sampleSet then
          some sampleDerived
        else sampleSetting.compiler.deriveTarget source current action set } := by
  have same : sampleSetting.compiler.deriveTarget = fun source current action set =>
      if source = compiledEnrolling.canonical ∧ current = compiledEnrolling.canonical ∧
          action = .lostKey ∧ set = sampleSet then
        some sampleDerived
      else sampleSetting.compiler.deriveTarget source current action set := by
    funext source current action set
    split
    next asked =>
      obtain ⟨rfl, rfl, rfl, rfl⟩ := asked
      simp only [Setting.compiler, show sampleSetting.code.host = localHost "T" from rfl,
        sampleSet_derives]
      rfl
    next => rfl
  rw [← same]

def beginning : Invocation sampleSetting where
  around := sampleAround 3
  action := .call sampleController true false (.beginLostKey sampleSetting.me sampleSet)

def approving : Invocation sampleSetting where
  around := sampleAround 3
  action := .call sampleController true false
    (.submitGuardian sampleSetting.me 0 .initiate sampleGuardian)

theorem compiledReplaced_canonical :
    compiledReplaced.canonical = Ir.utf8 (Ir.canonicalJson replacedDoc) := by
  rw [Ir.canonicalJson, utf8_ofList]
  rfl

theorem compiledReplaced_compiles :
    compileDoc sampleSetting.code.host compiledReplaced.canonical = .ok compiledReplaced := by
  rw [compiledReplaced_canonical, show sampleSetting.code.host = localHost "T" from rfl,
    compileDoc_of_doc Ir.jsonReader_conforms rfl]
  exact replacedDoc_compiles

/-- One rule for one context, whose policies decide without signatures. -/
def enforcingAuth : sampleSetting.CheckAuth where
  run around _ payload contexts store world :=
    match contexts, payload.contextRuleIds with
    | [context], [id] =>
        match MemoryStore.store.getContextRule store id with
        | some rule =>
            ((Setting.Selection.calls ⟨context, id, rule, []⟩).foldlM
              (sampleSetting.enforce around) world).mapError fun _ => ()
        | none => .error ()
    | _, _ => .error ()
  enforces := by
    intro around digest payload contexts store world world' ran
    split at ran
    next context id ids =>
      split at ran
      next rule found =>
        refine ⟨[⟨context, id, rule, []⟩], rfl, ids.symm, ?_, ?_⟩
        · intro selection member
          obtain rfl := List.mem_singleton.mp member
          exact ⟨found, by simp⟩
        · rw [mapError_eq_ok] at ran
          simpa using ran
      next => cases ran
    next => cases ran

/-- The recovery rule authorizes the target, once the delay is over. -/
def confirming : Invocation sampleSetting where
  around := sampleAround 13
  action := .checkAuth enforcingAuth (BytesN.fill 0) { contextRuleIds := [1], signatures := [] }
    [.contract
      { contract := sampleSetting.me
        fnName := "apply_doc"
        args := [.bytes compiledReplaced.canonical] }]

def completing : Invocation sampleSetting where
  around := sampleAround 13
  action := .applyDoc compiledReplaced.canonical 20 none

/-- The sample account enrolls, a recovery of it begins, its guardian approves,
and the recovery completes. -/
def sampleRecovered : Except AccountFailure
    (State MemoryStore × State MemoryStore × State MemoryStore × State MemoryStore) := do
  let (_, enrolled) ← sampleEnrolled
  let (_, begun) ← beginning.run sampleSetting enrolled
  let (_, approved) ← approving.run sampleSetting begun
  let (_, confirmed) ← confirming.run sampleSetting approved
  let (_, completed) ← completing.run sampleSetting confirmed
  pure (enrolled, approved, confirmed, completed)

set_option maxRecDepth 16384 in
theorem sampleRecovered_revokes :
    sampleRecovered.toOption.map (fun (enrolled, approved, confirmed, completed) =>
      (enrolled.account.storage.appliedDocBytes, approved.account.storage.gate,
        compiledEnrolling.fingerprints.map fun fingerprint =>
          (confirmed.account.storage.revoked fingerprint,
            completed.account.storage.revoked fingerprint))) =
      some (some compiledEnrolling.canonical, some ⟨0, 33⟩, [(false, true)]) := by
  simp only [sampleRecovered, sampleEnrolled, enrolling, beginning, approving, confirming,
    completing, Invocation.run, applyDoc, apply, enrollingDoc_compiles, compiledReplaced_compiles,
    callController, Setting.outside, Setting.envWith]
  rw [sampleCompiler_eq]
  decide +kernel

def Recovering (taken : JointStep sampleSetting) : Prop :=
  taken.action ∈ [enrolling, approving, confirming, completing] ∨
    taken.action = beginning ∧
      taken.before.account.storage.appliedDocBytes = some compiledEnrolling.canonical ∧
      ∀ hash, (taken.before.slice sampleSetting sampleController).baseline hash = none

theorem Recovering.handles {taken : JointStep sampleSetting} (recovering : Recovering taken)
    {text : Bytes} (handled : Handles sampleSetting taken text) :
    text = compiledEnrolling.canonical ∨ text = compiledReplaced.canonical := by
  rcases recovering with member | ⟨begins, applied, unpublished⟩
  · simp only [List.mem_cons, List.not_mem_nil, or_false] at member
    rcases member with acts | acts | acts | acts
    · left
      rw [compiledEnrolling_canonical]
      exact handles_of_applied handled (congrArg Invocation.action acts)
    · cases handled with
      | @derived _ _ _ action _ _ _ _ asked =>
          rw [acts] at asked
          cases action <;> cases asked
      | applied asked | published asked =>
          rw [acts] at asked
          cases asked
    · cases handled with
      | applied asked | published asked | derived asked =>
          rw [acts] at asked
          cases asked
    · right
      exact handles_of_applied handled (congrArg Invocation.action acts)
  · cases handled with
    | applied asked =>
        rw [begins] at asked
        cases asked
    | published asked =>
        rw [begins] at asked
        cases asked
    | @derived controller _ _ action replacements current source derived asked held origin
        derives =>
        obtain rfl := Option.some.inj (applied.symm.trans held)
        obtain ⟨rfl, rfl, rfl⟩ :
            action = .lostKey ∧ controller = sampleController ∧ replacements = sampleSet := by
          obtain ⟨_, _, _, _, _, _, derivation⟩ := deriveTarget_eq_ok derives
          obtain ⟨_, _, acts, _⟩ := derivation.derives
          rw [begins] at asked
          rcases deriveAction_known acts with rfl | rfl
          · cases asked
            exact ⟨rfl, rfl, rfl⟩
          · cases asked
        rcases origin with rfl | ⟨hash, published⟩
        · have same := derives.symm.trans sampleSet_derives
          rw [← Except.ok.inj same.symm]
          exact .inr rfl
        · rw [unpublished] at published
          cases published

theorem preimages_recoverableDoc {address : String} {bytes : Bytes}
    (preimage : bytes ∈ preimages (recoverableDoc address)) :
    bytes = Ir.utf8 (Ir.canonicalJson (recoverableDoc address)) ∨
      bytes = configDomain ++ Ir.utf8 (Ir.recoveryCanonicalJson sampleRecovery) := by
  rcases preimage with same | ⟨member, declared, same⟩
  · exact .inl same
  · obtain rfl : sampleRecovery = member := Option.some.inj declared
    exact .inr same

def sampleHashed : List Bytes :=
  [compiledEnrolling.canonical, compiledReplaced.canonical,
    configDomain ++ textBytes (Ir.writeValue (Ir.recoveryToCv sampleRecovery))]

theorem mem_sampleHashed {history : List (JointStep sampleSetting)}
    (recovering : ∀ taken ∈ history, Recovering taken) {bytes : Bytes}
    (hashed : bytes ∈ hashedIn sampleSetting history) : bytes ∈ sampleHashed := by
  obtain ⟨taken, member, text, doc, handled, parsed, preimage⟩ := hashed
  have config : configDomain ++ Ir.utf8 (Ir.recoveryCanonicalJson sampleRecovery) =
      configDomain ++ textBytes (Ir.writeValue (Ir.recoveryToCv sampleRecovery)) := by
    rw [Ir.recoveryCanonicalJson, utf8_ofList]
    rfl
  simp only [sampleHashed, List.mem_cons, List.not_mem_nil, or_false]
  rcases (recovering taken member).handles handled with rfl | rfl
  · rw [compiledEnrolling_canonical] at parsed ⊢
    rw [show sampleSetting.code.host = localHost "T" from rfl,
      parse_canonical Ir.jsonReader_conforms rfl] at parsed
    rw [← Except.ok.inj parsed] at preimage
    rcases preimages_recoverableDoc preimage with same | same
    · exact .inl same
    · exact .inr (.inr (same.trans config))
  · rw [compiledReplaced_canonical] at parsed ⊢
    rw [show sampleSetting.code.host = localHost "T" from rfl,
      parse_canonical Ir.jsonReader_conforms rfl] at parsed
    rw [← Except.ok.inj parsed] at preimage
    rcases preimages_recoverableDoc preimage with same | same
    · exact .inr (.inl same)
    · exact .inr (.inr (same.trans config))

set_option maxRecDepth 16384 in
theorem sampleHashed_apart : (sampleHashed.map localSha256).Nodup := by
  decide +kernel

theorem Recovering.params {taken : JointStep sampleSetting} (recovering : Recovering taken)
    {value : Val} (used : value ∈ installParams sampleSetting taken) :
    value = .bytes compiledRecovery.configHash.bytes := by
  have applies {docJson : Bytes} {validUntil : UInt32} {expected : Option UInt64}
      {compiled : CompiledDoc} {sequence : UInt32}
      (compiles : compileDoc sampleSetting.code.host docJson = .ok compiled)
      (single : paramsOf sampleSetting.code sequence compiled =
        [.bytes compiledRecovery.configHash.bytes])
      (used : value ∈
        (AccountCall.applyDoc docJson validUntil expected).params sampleSetting.code sequence) :
      value = .bytes compiledRecovery.configHash.bytes := by
    rw [params_of_compiles compiles sequence validUntil expected, single] at used
    exact List.mem_singleton.mp used
  unfold installParams at used
  rcases recovering with member | ⟨begins, _⟩
  · simp only [List.mem_cons, List.not_mem_nil, or_false] at member
    rcases member with acts | acts | acts | acts <;> rw [acts] at used
    · exact applies enrollingDoc_compiles rfl used
    · cases used
    · cases used
    · exact applies compiledReplaced_compiles rfl used
  · rw [begins] at used
    cases used

theorem collisionFree_of_recovering {history : List (JointStep sampleSetting)}
    (recovering : ∀ taken ∈ history, Recovering taken) : CollisionFree sampleSetting history := by
  constructor
  · intro first hashed second hashed' same
    exact List.inj_on_of_nodup_map sampleHashed_apart (mem_sampleHashed recovering hashed)
      (mem_sampleHashed recovering hashed') same
  · rintro first ⟨taken, member, used⟩ second ⟨taken', member', used'⟩ _
    rw [(recovering taken member).params used, (recovering taken' member').params used']

/-- The recovery is a run, up to the approval and to its end. -/
theorem sampleRecovered_reached : ∃ enrolled approved taken earlier,
    sampleRecovered = .ok (enrolled, approved, taken.before, taken.after) ∧
      (∃ history, Reached sampleSetting history 3 approved ∧
        CollisionFree sampleSetting history) ∧
      Reached sampleSetting (taken :: earlier) 13 taken.after ∧
      CollisionFree sampleSetting (taken :: earlier) := by
  obtain ⟨states, ran, revokes⟩ := Option.map_eq_some_iff.mp sampleRecovered_revokes
  have completes := toOption_eq_some.mp ran
  have ran := completes
  simp only [sampleRecovered, sampleEnrolled, sampleBuilt, bind_eq_ok, pure_eq_ok,
    Prod.exists] at ran
  obtain ⟨_, enrolled, ⟨_, ⟨account, built, rfl⟩, applied⟩, _, begun, begins, _, approved,
    approves, _, confirmed, confirms, _, completed, ends, rfl⟩ := ran
  simp only [Prod.mk.injEq] at revokes
  have held := revokes.1
  have fresh : Origin sampleSetting { account := account, world := sampleWorld } :=
    ⟨⟨sampleAround 1, _, .empty, fun _ => rfl, built⟩, fun _ => rfl, fun _ _ => rfl⟩
  have unpublished : ∀ hash, (enrolled.slice sampleSetting sampleController).baseline hash =
      none := by
    intro hash
    have happened := run_happened (fun controller => (Sounds.origin fresh controller).keyed) applied
    rcases happened.applied_or_unapplied with
      ⟨_, _, _, _, _, _, _, _, _, _, effect, counters⟩ | unapplied
    · rw [(syncStep_of_applied effect counters sampleController).baseline, fresh.unknown]
      rfl
    · rcases (unapplied.slices sampleController).baseline_cases with
        same | ⟨_, _, _, asked, _⟩
      · rw [same, fresh.unknown]
        rfl
      · cases asked
  have called : Execution (system sampleSetting) 2 { account := account, world := sampleWorld }
      [_] 2 _ := .call enrolling .refl rfl
  rw [step_of_ok applied] at called
  have called := (called.wait (by decide : (2 : UInt32) ≤ 3)).call beginning rfl
  rw [step_of_ok begins] at called
  have called := called.call approving rfl
  rw [step_of_ok approves] at called
  have later := (called.wait (by decide : (3 : UInt32) ≤ 13)).call confirming rfl
  rw [step_of_ok confirms] at later
  have later := later.call completing rfl
  rw [step_of_ok ends] at later
  refine ⟨enrolled, approved, _, _, completes,
    ⟨_, ⟨⟨2, _, fresh, called⟩, fun _ => rfl⟩, CollisionFree.mono ?free ?part⟩,
    ⟨⟨2, _, fresh, later⟩, fun _ => rfl⟩, ?free⟩
  case part =>
    intro taken member
    exact List.mem_cons_of_mem _ (List.mem_cons_of_mem _ member)
  apply collisionFree_of_recovering
  intro taken member
  simp only [List.mem_cons, List.not_mem_nil, or_false] at member
  rcases member with rfl | rfl | rfl | rfl | rfl
  · exact .inl (by simp)
  · exact .inl (by simp)
  · exact .inl (by simp)
  · exact .inr ⟨rfl, held, unpublished⟩
  · exact .inl (by simp)

/-- The approval freezes the account. -/
theorem sampleRecovered_gated : ∃ history state, Reached sampleSetting history 3 state ∧
    state.account.storage.gate = some ⟨0, 33⟩ := by
  obtain ⟨_, approved, _, _, ran, ⟨history, reached, _⟩, _⟩ := sampleRecovered_reached
  obtain ⟨states, same, revokes⟩ := Option.map_eq_some_iff.mp sampleRecovered_revokes
  obtain rfl := Option.some.inj (same.symm.trans (toOption_eq_some.mpr ran))
  simp only [Prod.mk.injEq] at revokes
  exact ⟨history, approved, reached, revokes.2.1⟩

/-- The recovery revokes the lost key, and what it revokes is what the theorem
says. -/
theorem revocation_permanent_sample : ∃ taken earlier controller a,
    Reached sampleSetting (taken :: earlier) 13 taken.after ∧
      Completes sampleSetting taken controller a ∧
      RevokesExactly sampleSetting taken controller a ∧
      ∃ fingerprint ∈ compiledEnrolling.fingerprints,
        taken.after.account.storage.revoked fingerprint = true := by
  obtain ⟨_, _, taken, earlier, ran, _, reached, free⟩ := sampleRecovered_reached
  obtain ⟨states, same, revokes⟩ := Option.map_eq_some_iff.mp sampleRecovered_revokes
  obtain rfl := Option.some.inj (same.symm.trans (toOption_eq_some.mpr ran))
  simp only [Prod.mk.injEq] at revokes
  obtain ⟨fingerprint, only', revoked⟩ := List.map_eq_singleton_iff.mp revokes.2.2
  have listed : fingerprint ∈ compiledEnrolling.fingerprints := by simp [only']
  have before := congrArg Prod.fst revoked
  have after := congrArg Prod.snd revoked
  obtain ⟨_, only, _, exact_, _⟩ := revocation_permanent reached free
  obtain ⟨controller, a, completes⟩ := only taken List.mem_cons_self fingerprint before after
  exact ⟨taken, earlier, controller, a, reached, completes,
    exact_ taken List.mem_cons_self controller a completes, fingerprint, listed, after⟩

end Sample

end Perch.Joint
