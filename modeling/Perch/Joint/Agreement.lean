/-
The configuration a controller stores is the applied document's.

Hashes identify documents and configurations here, as they do in the
contracts.  The agreement therefore holds of every run whose own documents,
configurations and install parameters do not collide; nothing is asked of
other inputs of the hash.
-/

import Perch.Joint.Enrollment

namespace Perch.Joint

open Machine Document Recovery Account

variable {σ : Type} {S : Setting σ}

/-! ### The documents of a run -/

/-- The document texts a step works on: one that is applied, one that is
published, or the target derived for an attempt. -/
inductive Handles (S : Setting σ) (taken : JointStep S) : Bytes → Prop where
  | applied {docJson : Bytes} {validUntil : UInt32} {expected : Option UInt64}
      (asked : taken.action.action = .applyDoc docJson validUntil expected) :
      Handles S taken docJson
  | published {controller : Address} {visible authorized : Bool} {account : Address}
      {docJson : Bytes}
      (asked : taken.action.action =
        .call controller visible authorized (.publishBaseline account docJson)) :
      Handles S taken docJson
  | derived {controller : Address} {visible authorized : Bool} {action : RecoveryAction}
      {replacements : ReplacementSet} {current source : Bytes} {derived : DerivedTarget}
      (asked : taken.action.action =
        .call controller visible authorized (beginCall S.me action replacements))
      (held : taken.before.account.storage.appliedDocBytes = some current)
      (origin : source = current ∨
        ∃ hash, (taken.before.slice S controller).baseline hash = some source)
      (derives : deriveTarget S.code.host source current action replacements = .ok derived) :
      Handles S taken derived.canonical

def InPlay (S : Setting σ) (history : List (JointStep S)) (compiled : CompiledDoc) : Prop :=
  ∃ taken ∈ history, ∃ text, Handles S taken text ∧ compileDoc S.code.host text = .ok compiled

/-- What is hashed for a document: its canonical form, and its recovery
member's. -/
def preimages (doc : Ir.PolicyDoc) : Set Bytes :=
  { bytes | bytes = Ir.utf8 (Ir.canonicalJson doc) ∨ ∃ member, doc.recovery = some member ∧
      bytes = configDomain ++ Ir.utf8 (Ir.recoveryCanonicalJson member) }

def hashedIn (S : Setting σ) (history : List (JointStep S)) : Set Bytes :=
  { bytes | ∃ taken ∈ history, ∃ text doc, Handles S taken text ∧
      parse S.code.host text = .ok doc ∧ bytes ∈ preimages doc }

def installParams (S : Setting σ) (taken : JointStep S) : List Val :=
  match taken.action.action with
  | .applyDoc docJson validUntil expected =>
      (AccountCall.applyDoc docJson validUntil expected).params S.code
        taken.action.around.env.sequence
  | _ => []

def paramsIn (S : Setting σ) (history : List (JointStep S)) : Set Val :=
  { value | ∃ taken ∈ history, value ∈ installParams S taken }

theorem paramsIn_mono {earlier history : List (JointStep S)} (part : earlier ⊆ history) :
    paramsIn S earlier ⊆ paramsIn S history :=
  fun _ ⟨taken, held, used⟩ => ⟨taken, part held, used⟩

/-- No two of the documents, configurations or parameters of a run share a
hash. -/
structure CollisionFree (S : Setting σ) (history : List (JointStep S)) : Prop where
  documents : Set.InjOn S.sha256 (hashedIn S history)
  params : Set.InjOn S.code.deployment.digest (paramsIn S history)

section InPlay

variable {history : List (JointStep S)} {first second : CompiledDoc}

theorem CollisionFree.mono {earlier : List (JointStep S)} (free : CollisionFree S history)
    (part : earlier ⊆ history) : CollisionFree S earlier := by
  refine ⟨free.documents.mono ?_, free.params.mono ?_⟩
  · rintro bytes ⟨taken, member, rest⟩
    exact ⟨taken, part member, rest⟩
  · rintro value ⟨taken, member, rest⟩
    exact ⟨taken, part member, rest⟩

theorem InPlay.mono {earlier : List (JointStep S)} (inPlay : InPlay S earlier first)
    (part : earlier ⊆ history) : InPlay S history first := by
  obtain ⟨taken, member, rest⟩ := inPlay
  exact ⟨taken, part member, rest⟩

theorem InPlay.canonical (inPlay : InPlay S history first) :
    compileDoc S.code.host first.canonical = .ok first := by
  obtain ⟨_, _, _, _, compiles⟩ := inPlay
  exact compileDoc_canonical S.conforms compiles

theorem InPlay.parsed (inPlay : InPlay S history first) :
    ∃ doc, Compiles S.code.host doc first ∧ preimages doc ⊆ hashedIn S history := by
  obtain ⟨taken, member, text, handled, compiles⟩ := inPlay
  obtain ⟨doc, parsed, whole⟩ := compileDoc_eq_ok.mp compiles
  refine ⟨doc, compileParsed_eq_ok whole, ?_⟩
  intro bytes hashed
  exact ⟨taken, member, text, doc, handled, parsed, hashed⟩

theorem InPlay.docHash (inPlay : InPlay S history first) :
    first.docHash = S.sha256 first.canonical ∧ first.canonical ∈ hashedIn S history := by
  obtain ⟨doc, compiles, hashed⟩ := inPlay.parsed
  refine ⟨?_, ?_⟩
  · rw [compiles.docHash, S.code.sameHash]
  · rw [compiles.canonical]
    exact hashed (.inl rfl)

/-- A document's hash names one document of the run. -/
theorem CollisionFree.document_eq (free : CollisionFree S history) (inPlay : InPlay S history first)
    (inPlay' : InPlay S history second) (same : first.docHash = second.docHash) :
    first = second := by
  obtain ⟨hash, hashed⟩ := inPlay.docHash
  obtain ⟨hash', hashed'⟩ := inPlay'.docHash
  have canonical : first.canonical = second.canonical := by
    apply free.documents hashed hashed'
    rw [← hash, ← hash', same]
  have compiled := inPlay.canonical
  rw [canonical, inPlay'.canonical] at compiled
  exact (Except.ok.inj compiled).symm

theorem toCompiledRecovery_configHash {host : CompilerHost} {member : Ir.RecoveryConfig}
    {config : CompiledRecoveryConfig} (builds : toCompiledRecovery host member = .ok config) :
    config.configHash = configHash host.sha256 (Ir.utf8 (Ir.recoveryCanonicalJson member)) := by
  simp only [toCompiledRecovery, bind_eq_ok, pure_eq_ok] at builds
  obtain ⟨_, _, _, _, _, _, rfl⟩ := builds
  rfl

theorem CollisionFree.config_eq (free : CollisionFree S history) (inPlay : InPlay S history first)
    (inPlay' : InPlay S history second) {config config' : CompiledRecoveryConfig}
    (named : first.recovery.head? = some config) (named' : second.recovery.head? = some config')
    (same : config.configHash = config'.configHash) : config = config' := by
  obtain ⟨doc, compiles, hashed⟩ := inPlay.parsed
  obtain ⟨doc', compiles', hashed'⟩ := inPlay'.parsed
  obtain ⟨member, declared, builds⟩ := compiles.recovery_mem (List.mem_of_head? named)
  obtain ⟨member', declared', builds'⟩ := compiles'.recovery_mem (List.mem_of_head? named')
  have preimage : configDomain ++ Ir.utf8 (Ir.recoveryCanonicalJson member) =
      configDomain ++ Ir.utf8 (Ir.recoveryCanonicalJson member') := by
    apply free.documents (hashed (.inr ⟨member, declared, rfl⟩))
      (hashed' (.inr ⟨member', declared', rfl⟩))
    rw [toCompiledRecovery_configHash builds, toCompiledRecovery_configHash builds', configHash,
      configHash, S.code.sameHash] at same
    exact same
  have text := utf8_injective (List.append_cancel_left preimage)
  rw [Ir.recoveryCanonicalJson_injective text, builds'] at builds
  exact (Except.ok.inj builds).symm

end InPlay

/-! ### The recovery rule -/

/-- The recovery rule stands for a configuration: scoped to the account, without
signers, and with the controller as its one policy, installed with the
configuration's hash. -/
def RecoveryInstalled (S : Setting σ) (account : AccountState σ)
    (config : Option CompiledRecoveryConfig) : Prop :=
  match config with
  | none => account.storage.recoveryRule = none
  | some config => ∃ id rule, account.storage.recoveryRule = some id ∧
      S.code.oz.getContextRule account.store id = some rule ∧
      rule.contextType = .callContract S.me ∧ rule.signers = [] ∧ rule.validUntil = none ∧
      rule.attached = [(config.controller, .bytes config.configHash.bytes)]

theorem RecoveryInstalled.of_realizes {account : AccountState σ} {sequence : UInt32}
    {compiled : CompiledDoc}
    (realizes : Realizes S.code.oz account.store account.storage.rulesOf
      (desired S.code.deployment sequence compiled))
    (recoveryRule : account.storage.recoveryRule =
      (account.storage.rulesOf.find? InstalledRule.recovery).map InstalledRule.id) :
    RecoveryInstalled S account compiled.recovery.head? := by
  have flagged : ∀ record ∈ account.storage.rulesOf, record.recovery = true →
      ∃ config, compiled.recovery.head? = some config ∧ ∃ rule,
        S.code.oz.getContextRule account.store record.id = some rule ∧
        rule.Has (Account.recoveryRule S.code.deployment config).shape := by
    intro record held isRecovery
    obtain ⟨wanted, asked, same, rule, stored, has⟩ := exists_of_mem_left realizes.installed held
    rw [same] at isRecovery
    rcases mem_desired asked with ⟨_, _, rfl⟩ | ⟨config, named, rfl⟩
    · cases isRecovery
    · exact ⟨config, named, rule, stored, has⟩
  unfold RecoveryInstalled
  cases named : compiled.recovery.head? with
  | none =>
      simp only [recoveryRule, Option.map_eq_none_iff, List.find?_eq_none]
      intro record held isRecovery
      obtain ⟨config, named', _⟩ := flagged record held isRecovery
      rw [named] at named'
      cases named'
  | some config =>
      have asked : Account.recoveryRule S.code.deployment config ∈
          desired S.code.deployment sequence compiled := by
        simp [desired, named]
      obtain ⟨record, held, same, _⟩ := exists_of_mem_left realizes.installed.flip asked
      cases first : account.storage.rulesOf.find? InstalledRule.recovery with
      | none =>
          have unflagged := List.find?_eq_none.mp first record held
          rw [same] at unflagged
          exact absurd rfl unflagged
      | some found =>
          obtain ⟨config', named', rule, stored, has⟩ :=
            flagged found (List.mem_of_find?_eq_some first) (List.find?_some first)
          obtain rfl : config = config' := Option.some.inj (named.symm.trans named')
          refine ⟨found.id, rule, by rw [recoveryRule, first]; rfl, stored, has.contextType,
            has.signers, has.validUntil, ?_⟩
          exact List.perm_singleton.mp has.attached

/-! ### Following the applied document -/

def enrollmentOf (applied : Option CompiledDoc) : Option CompiledRecoveryConfig :=
  applied.bind fun compiled => compiled.recovery.head?

/-- Everything the account and the controllers keep is the applied document's. -/
structure Follows (S : Setting σ) (history : List (JointStep S)) (state : State σ)
    (applied : Option CompiledDoc) : Prop where
  document : state.account.storage.document =
    (applied.map CompiledDoc.docHash, applied.map CompiledDoc.canonical,
      applied.map CompiledDoc.fingerprints)
  inPlay : ∀ compiled ∈ applied, InPlay S history compiled
  adopted : state.account.storage.recoveryController =
    (enrollmentOf applied).map CompiledRecoveryConfig.controller
  currentZk : state.account.storage.currentZk =
    (enrollmentOf applied).bind CompiledRecoveryConfig.zk
  stored : ∀ controller config, (state.slice S controller).config = some config →
    enrollmentOf applied = some config
  rules : RulesAgree S.code (paramsIn S history) state.account
  installed : RecoveryInstalled S state.account (enrollmentOf applied)

theorem SliceChange.stored {e : Env} {docHash : Bytes32} {new : Option CompiledRecoveryConfig}
    {controller : Address} {m m' : Slice} (change : SliceChange e docHash new controller m m')
    (identified : ∀ stored config, m.config = some stored → new = some config →
      config.configHash = stored.configHash → config = stored)
    {config : CompiledRecoveryConfig} (held : m'.config = some config) : new = some config := by
  cases change with
  | untouched absent => simp [absent] at held
  | enrolled _ named => exact named.trans held
  | kept present named _ _ same =>
      rw [named, identified _ _ present named same, ← present]
      exact held
  | reconfigured _ named => exact named.trans held
  | removed => cases held
  | completed named => exact named.trans held

namespace Follows

variable {history : List (JointStep S)} {state : State σ} {applied : Option CompiledDoc}

theorem origin (origin : Origin S state) : Follows S history state none := by
  obtain ⟨around, adminSigners, store, fresh, built⟩ := origin.built
  have rules : RulesAgree S.code (paramsIn S history) state.account :=
    installAdmin_rulesAgree S.documented fresh built
  simp only [installAdmin, bind_eq_ok, pure_eq_ok, Prod.exists] at built
  obtain ⟨_, _, _, account⟩ := built
  refine
    { document := ?_
      inPlay := by simp
      adopted := ?_
      currentZk := ?_
      stored := ?_
      rules := rules
      installed := ?_ }
  · rw [← account]
    rfl
  · rw [← account]
    rfl
  · rw [← account]
    rfl
  · intro controller config held
    rw [origin.unknown] at held
    cases held
  · simp only [RecoveryInstalled, enrollmentOf, Option.bind_none]
    rw [← account]
    rfl

theorem unapplied {invocation : Invocation S} {after : State σ}
    (follows : Follows S history state applied) (unapplied : Unapplied S invocation state after) :
    Follows S history after applied := by
  have same := unapplied.configuration
  simp only [AccountState.configuration, Prod.mk.injEq] at same
  obtain ⟨installedRules, document, recoveryRule, recoveryController, currentZk, store⟩ := same
  refine
    { document := document.trans follows.document
      inPlay := follows.inPlay
      adopted := recoveryController.trans follows.adopted
      currentZk := currentZk.trans follows.currentZk
      stored := ?_
      rules := follows.rules.of_ruleFields ?_
      installed := ?_ }
  · intro controller config held
    rw [(unapplied.slices controller).config_kept.1] at held
    exact follows.stored controller config held
  · simp only [AccountState.ruleFields, installedRules, recoveryRule, recoveryController, store]
  · have installed := follows.installed
    unfold RecoveryInstalled at installed ⊢
    rw [recoveryRule, store]
    exact installed

theorem applied_document (free : CollisionFree S history)
    (follows : Follows S history state applied) {compiled : CompiledDoc}
    (inPlay : InPlay S history compiled) :
    (if state.account.storage.appliedDoc = some compiled.docHash then
        state.account.storage.document
      else (some compiled.docHash, some compiled.canonical, some compiled.fingerprints)) =
      (some compiled.docHash, some compiled.canonical, some compiled.fingerprints) := by
  split
  next same =>
    rw [follows.document]
    have hash : applied.map CompiledDoc.docHash = some compiled.docHash := by
      rw [← same]
      exact (congrArg Prod.fst follows.document).symm
    obtain ⟨old, rfl, equal⟩ := Option.map_eq_some_iff.mp hash
    rw [free.document_eq (follows.inPlay old rfl) inPlay equal]
    rfl
  next => rfl

theorem step_applied {now : UInt32} {around : Surroundings} {docJson : Bytes}
    {validUntil : UInt32} {expected : Option UInt64} {compiled : CompiledDoc}
    {leaf : Option CompiledZkFactor} {outcome joined : SyncOutcome} {synced : World}
    {after : State σ} (free : CollisionFree S history) (enrolled : Enrolled S now state)
    (follows : Follows S history state applied) (inPlay : InPlay S history compiled)
    (params : ∀ value ∈ paramsOf S.code around.env.sequence compiled, value ∈ paramsIn S history)
    (effect : ApplyEffect S.code (S.callees around) around.env.sequence .cheapest docJson validUntil
      state.account state.world compiled leaf outcome synced after.account after.world)
    (counters : ApplyCounters (S.callees around) validUntil state.account state.world compiled
      outcome joined synced expected after.account) :
    Follows S history after (some compiled) := by
  have realizes := effect.realizes S.documented S.pins free.params params follows.rules
  refine
    { document := ?_
      inPlay := ?_
      adopted := effect.recoveryController
      currentZk := effect.currentZk
      stored := ?_
      rules := effect.rulesAgree S.documented S.pins params follows.rules
      installed := RecoveryInstalled.of_realizes realizes effect.recoveryRule }
  · rw [effect.document, follows.applied_document free inPlay]
    rfl
  · intro found same
    rw [← Option.some.inj same]
    exact inPlay
  · intro controller config held
    have change := (enrolled.changed effect counters).slice enrolled.configured controller
    refine change.stored ?_ held
    intro stored config present named equal
    have old := follows.stored controller stored present
    obtain ⟨previous, rfl, named'⟩ := Option.bind_eq_some_iff.mp old
    exact free.config_eq inPlay (follows.inPlay previous rfl) named named' equal

theorem mono {earlier : List (JointStep S)} (follows : Follows S earlier state applied)
    (part : earlier ⊆ history) : Follows S history state applied :=
  { follows with
    inPlay := fun compiled found => (follows.inPlay compiled found).mono part
    rules := follows.rules.widen (paramsIn_mono part) }

end Follows

/-- The applied document, compiled from the bytes the account holds. -/
def appliedDocument (S : Setting σ) (state : State σ) : Option CompiledDoc :=
  state.account.storage.appliedDocBytes.bind fun bytes => (compileDoc S.code.host bytes).toOption

theorem Follows.appliedDocument_eq {history : List (JointStep S)} {state : State σ}
    {applied : Option CompiledDoc} (follows : Follows S history state applied) :
    appliedDocument S state = applied := by
  have bytes : state.account.storage.appliedDocBytes = applied.map CompiledDoc.canonical :=
    congrArg (fun document => document.2.1) follows.document
  unfold appliedDocument
  cases applied with
  | none => simp [bytes]
  | some compiled =>
      rw [bytes, Option.map_some, Option.bind_some, (follows.inPlay compiled rfl).canonical]
      rfl

theorem inPlay_of_applied {history : List (JointStep S)} {taken : JointStep S} {docJson : Bytes}
    {validUntil : UInt32} {expected : Option UInt64} {compiled : CompiledDoc}
    (member : taken ∈ history)
    (asked : taken.action.action = .applyDoc docJson validUntil expected)
    (compiles : compileDoc S.code.host docJson = .ok compiled) :
    InPlay S history compiled ∧
      ∀ value ∈ paramsOf S.code taken.action.around.env.sequence compiled,
        value ∈ paramsIn S history := by
  refine ⟨⟨taken, member, docJson, .applied asked, compiles⟩, ?_⟩
  intro value used
  refine ⟨taken, member, ?_⟩
  unfold installParams
  rw [asked]
  simpa only [params_of_compiles compiles] using used

/-- In every run, everything kept is the applied document's. -/
theorem Reached.follows {history : List (JointStep S)} {now : UInt32} {state : State σ}
    (reached : Reached S history now state) (free : CollisionFree S history) :
    Follows S history state (appliedDocument S state) := by
  have held := (reached.induct (fun earlier _ state => earlier ⊆ history →
    ∃ applied, Follows S history state applied) ?_ ?_ ?_ ?_).2 (List.Subset.refl history)
  · obtain ⟨applied, follows⟩ := held
    rw [follows.appliedDocument_eq]
    exact follows
  · intro start state origin _
    exact ⟨none, .origin origin⟩
  · intro _ _ _ _ _ held _ part
    exact held part
  · intro _ _ _ _ _ held part
    exact held fun taken member => part (List.mem_cons_of_mem _ member)
  · intro earlier state reply after invocation enrolled _ held _ happened part
    obtain ⟨applied, follows⟩ := held fun taken member => part (List.mem_cons_of_mem _ member)
    have member := part List.mem_cons_self
    rcases happened.applied_or_unapplied with
      ⟨docJson, validUntil, expected, compiled, leaf, outcome, joined, synced, _, asked, effect,
        counters⟩ | unapplied
    · obtain ⟨inPlay, params⟩ := inPlay_of_applied member asked effect.compiles
      exact ⟨some compiled,
        Follows.step_applied free enrolled follows inPlay params effect counters⟩
    · exact ⟨applied, follows.unapplied unapplied⟩

theorem Reached.enrolled {history : List (JointStep S)} {now : UInt32} {state : State σ}
    (reached : Reached S history now state) : Enrolled S now state :=
  (reached.induct (fun _ _ _ => True) (fun _ => trivial) (fun _ _ _ => trivial)
    (fun _ _ _ _ => trivial) (fun _ _ _ _ _ _ => trivial)).1

/-! ### Agreement -/

/-- A controller holds a configuration exactly when it is adopted, the one
compiled from the applied document; and the recovery rule stands exactly then,
installed with its hash. -/
structure Agreement (S : Setting σ) (state : State σ) : Prop where
  configured : ∀ controller, (state.slice S controller).config ≠ none ↔
    state.account.storage.recoveryController = some controller
  compiled : ∀ controller config, (state.slice S controller).config = some config →
    enrollmentOf (appliedDocument S state) = some config
  ruled : state.account.storage.recoveryRule ≠ none ↔
    state.account.storage.recoveryController ≠ none
  installed : ∀ id, state.account.storage.recoveryRule = some id →
    ∃ controller config rule, state.account.storage.recoveryController = some controller ∧
      (state.slice S controller).config = some config ∧
      S.code.oz.getContextRule state.account.store id = some rule ∧
      rule.attached = [(controller, .bytes config.configHash.bytes)]

theorem Follows.agreement {history : List (JointStep S)} {now : UInt32} {state : State σ}
    (enrolled : Enrolled S now state)
    (follows : Follows S history state (appliedDocument S state)) : Agreement S state := by
  have rule := follows.installed
  have adopted := follows.adopted
  refine ⟨enrolled.configured, follows.stored, ?_, ?_⟩
  · unfold RecoveryInstalled at rule
    cases enrollment : enrollmentOf (appliedDocument S state) with
    | none =>
        rw [enrollment] at rule adopted
        simp [rule, adopted]
    | some config =>
        rw [enrollment] at rule adopted
        obtain ⟨id, _, present, _⟩ := rule
        simp [present, adopted]
  · intro id named
    unfold RecoveryInstalled at rule
    cases enrollment : enrollmentOf (appliedDocument S state) with
    | none =>
        rw [enrollment] at rule
        rw [rule] at named
        cases named
    | some config =>
        rw [enrollment] at rule adopted
        obtain ⟨id', stored, present, read, _, _, _, attached⟩ := rule
        obtain rfl : id' = id := Option.some.inj (present.symm.trans named)
        obtain ⟨held, configured⟩ :=
          Option.ne_none_iff_exists'.mp ((enrolled.configured config.controller).mpr adopted)
        have same := follows.stored _ held configured
        rw [enrollment, Option.some.injEq] at same
        subst same
        exact ⟨config.controller, config, stored, adopted, configured, read, attached⟩

theorem Reached.at_step {history : List (JointStep S)} {now : UInt32} {state : State σ}
    (reached : Reached S history now state) {taken : JointStep S} (member : taken ∈ history) :
    taken = (system S).step taken.before taken.action ∧ ∃ earlier, taken :: earlier ⊆ history ∧
      Reached S earlier taken.action.around.env.sequence taken.before ∧
      Reached S (taken :: earlier) taken.action.around.env.sequence taken.after := by
  obtain ⟨executed, earlier, part, before, after⟩ := reached.toLived.at_step member
  exact ⟨executed, earlier, part, ⟨before, reached.honest⟩, ⟨after, reached.honest⟩⟩

/-- A step that answered with a document's hash applied the document. -/
theorem Happened.of_applied {invocation : Invocation S} {before after : State σ} {reply : Reply}
    (happened : Happened S invocation before reply after) {docHash : Bytes32}
    (replied : reply = .applied docHash) :
    ∃ docJson validUntil expected compiled leaf outcome joined synced,
      compiled.docHash = docHash ∧ invocation.action = .applyDoc docJson validUntil expected ∧
      ApplyEffect S.code (S.callees invocation.around) invocation.around.env.sequence .cheapest
        docJson validUntil before.account before.world compiled leaf outcome synced after.account
        after.world ∧
      ApplyCounters (S.callees invocation.around) validUntil before.account before.world compiled
        outcome joined synced expected after.account := by
  cases happened with
  | applied asked effect counters =>
      cases replied
      exact ⟨_, _, _, _, _, _, _, _, rfl, asked, effect, counters⟩
  | recoveryCancelled | upgradeScheduled | upgradeExecuted | upgradeDropped | authorized
  | called | gated => cases replied
  | elsewhere asked =>
      rcases asked with ⟨_, _, _, _, _, _, rfl⟩ | ⟨_, _, _, _, _, rfl⟩ <;> cases replied

/-- In every reachable state the account and its controllers agree on
enrollment; and an apply that succeeds is one of the seven changes, each of
which ends in agreement again. -/
theorem enrollment_agrees {history : List (JointStep S)} {now : UInt32} {state : State σ}
    (reached : Reached S history now state) (free : CollisionFree S history) :
    Agreement S state ∧
      ∀ taken ∈ history, ∀ docHash, taken.reply = .ok (.applied docHash) →
        Agreement S taken.before ∧ Agreement S taken.after ∧
        ∃ compiled outcome joined, appliedDocument S taken.after = some compiled ∧
          compiled.docHash = docHash ∧
          EnrollmentChange S (S.inside taken.action.around)
            taken.before.account.storage.recoveryController docHash compiled.recovery.head?
            (taken.before.slice S) outcome joined (taken.after.slice S) := by
  refine ⟨(reached.follows free).agreement reached.enrolled, ?_⟩
  intro taken member docHash replied
  obtain ⟨_, earlier, part, before, after⟩ := reached.at_step member
  have follows := before.follows (free.mono (List.subset_of_cons_subset part))
  refine ⟨follows.agreement before.enrolled,
    (after.follows (free.mono part)).agreement after.enrolled, ?_⟩
  obtain ⟨_, _, _, compiled, _, outcome, joined, _, rfl, asked, effect, counters⟩ :=
    Happened.of_applied (reached.happened member replied) rfl
  obtain ⟨inPlay, params⟩ := inPlay_of_applied member asked effect.compiles
  have applied := (follows.mono (List.subset_of_cons_subset part)).step_applied free
    before.enrolled inPlay params effect counters
  exact ⟨compiled, outcome, joined, applied.appliedDocument_eq, rfl,
    before.enrolled.changed effect counters⟩

section Sample

/-- One guardian, one replaceable signer, and a freeze while a recovery waits. -/
def sampleRecovery : Ir.RecoveryConfig where
  profile := .protectedProfile
  mode := .guardianOnly
    { guardians := ["GAEQSCIJBEEQSCIJBEEQSCIJBEEQSCIJBEEQSCIJBEEQSCIJBEEQSH7S"], quorum := 1 }
  controller := "CACQKBIFAUCQKBIFAUCQKBIFAUCQKBIFAUCQKBIFAUCQKBIFAUCQLC2U"
  baseline := none
  replaceable := ["a"]
  delayLedgers := 10
  expiryLedgers := 20
  maxCancels := 1

def recoverableDoc (address : String) : Ir.PolicyDoc where
  version := 1
  network := some "T"
  signers := [{ id := "a", method := .delegated address }]
  rules :=
    [{ name := "admin", scope := .selfAdmin, principals := .all ["a"], functions := none
       args := none, notAfterLedger := none, cap := none }]
  recovery := some sampleRecovery

def enrollingDoc : Ir.PolicyDoc :=
  recoverableDoc "GAAQCAIBAEAQCAIBAEAQCAIBAEAQCAIBAEAQCAIBAEAQCAIBAEAQDZ7H"

def sampleController : Address := .contract (BytesN.fill 5)

def sampleGuardian : Address := .account (BytesN.fill 9)

def sampleSetting : Setting MemoryStore where
  code := sampleCode
  deployed address := address = sampleController
  foreign _ := false
  poseidon2 := { hash := fun _ => 0, reduced := fun _ => by decide }
  depth _ := none
  documented := MemoryStore.documented
  conforms := Ir.jsonReader_conforms
  pins := by decide
  apart := by
    intro controller deployed
    obtain rfl : controller = sampleController := by simpa using deployed
    decide

/-- Every signature is given, and no contract outside the model answers. -/
def sampleAround (sequence : UInt32) : Surroundings where
  env :=
    { sequence := sequence
      maxTtl := 100000
      minTemporaryTtl := 100
      requireAuth := fun _ => true
      requireAuthForArgs := fun _ _ => true
      account := fun _ => reentered
      docCompiler := fun _ =>
        { compileDoc := fun _ => none, deriveTarget := fun _ _ _ _ => none }
      zkAdapter := fun _ =>
        { verify := fun _ _ _ => false, circuitId := none, treeDepth := none }
      poolDepth := fun _ => none }
  uploaded _ := true
  foreignSync _ _ _ _ := .error .trapped
  foreignCancel _ _ := .error .trapped
  foreignUpgrade _ _ := .error .trapped
  policyInstall _ _ _ := .ok ()
  poolInsert _ _ _ := .error none

def sampleWorld : World where
  controllers _ := Storage.empty
  pools _ := Zk.PoolStorage.empty

def compiledRecovery : CompiledRecoveryConfig where
  configHash := configHash localSha256
    (textBytes (Ir.writeValue (Ir.recoveryToCv sampleRecovery)))
  profile := .protectedProfile
  mode := .guardianOnly { guardians := [sampleGuardian], quorum := 1 }
  controller := sampleController
  baseline := none
  replaceable := [Ir.utf8 "a"]
  delayLedgers := 10
  expiryLedgers := 20
  maxCancels := 1

def compiledEnrolling : CompiledDoc where
  docHash := localSha256 (textBytes (Ir.writeValue (Ir.docToCv enrollingDoc)))
  canonical := textBytes (Ir.writeValue (Ir.docToCv enrollingDoc))
  fingerprints :=
    ((Credential.delegated (.account (BytesN.fill 1))).fingerprint localSha256).toOption.toList
  rules :=
    [{ name := Ir.utf8 "admin", scope := .selfAdmin
       signers := [.delegated (.account (BytesN.fill 1))], validUntil := none
       install := [], cap := [] }]
  recovery := [compiledRecovery]

theorem sampleRecovery_compiles :
    toCompiledRecovery (localHost "T") sampleRecovery = .ok compiledRecovery := by
  have mode : toCompiledMode (localHost "T") sampleRecovery.mode =
      .ok (.guardianOnly { guardians := [sampleGuardian], quorum := 1 }) := by
    decide +kernel
  have controller : addressFromStr (localHost "T") sampleRecovery.controller =
      .ok sampleController := by
    decide +kernel
  rw [toCompiledRecovery, mode, controller, Ir.recoveryCanonicalJson, utf8_ofList]
  rfl

set_option maxRecDepth 16384 in
theorem enrollingDoc_compiles :
    compileDoc sampleSetting.code.host (Ir.utf8 (Ir.canonicalJson enrollingDoc)) =
      .ok compiledEnrolling := by
  rw [show sampleSetting.code.host = localHost "T" from rfl,
    compileDoc_of_doc Ir.jsonReader_conforms rfl]
  apply Compiles.compileParsed_eq
  constructor
  · decide +kernel
  · exact ⟨"T", rfl, rfl⟩
  · decide +kernel
  · exact ⟨⟨[⟨"admin", .selfAdmin,
      [.delegated "GAAQCAIBAEAQCAIBAEAQCAIBAEAQCAIBAEAQCAIBAEAQCAIBAEAQDZ7H"], none, none,
      none⟩], none⟩, by decide +kernel, by decide +kernel⟩
  · rw [Ir.canonicalJson, utf8_ofList]
    rfl
  · decide +kernel
  · rfl
  · change [sampleRecovery].mapM (toCompiledRecovery (localHost "T")) = _
    rw [List.mapM_cons, sampleRecovery_compiles]
    rfl
  · exact ⟨[.delegated (.account (BytesN.fill 1))], by decide +kernel, by decide +kernel⟩

def enrolling : Invocation sampleSetting where
  around := sampleAround 2
  action := .applyDoc (Ir.utf8 (Ir.canonicalJson enrollingDoc)) 10 none

def sampleBuilt : Except AccountFailure (State MemoryStore) := do
  let account ← installAdmin sampleCode (sampleSetting.callees (sampleAround 1)) 1
    [.delegated (.account (BytesN.fill 8))] .empty sampleWorld
  pure { account := account, world := sampleWorld }

def sampleEnrolled : Except AccountFailure (Reply × State MemoryStore) := do
  let origin ← sampleBuilt
  enrolling.run sampleSetting origin

set_option maxRecDepth 16384 in
theorem sampleEnrolled_adopts : sampleEnrolled.toOption.map (fun result =>
    (result.2.account.storage.recoveryController, result.2.account.storage.gate)) =
      some (some sampleController, none) := by
  simp only [sampleEnrolled, enrolling, Invocation.run, applyDoc, apply, enrollingDoc_compiles]
  decide +kernel

theorem sampleEnrolled_reached :
    ∃ origin reply state, Reached sampleSetting [⟨origin, enrolling, .ok reply, state⟩] 2 state ∧
      state.account.storage.recoveryController = some sampleController ∧
      state.account.storage.gate = none := by
  obtain ⟨⟨reply, state⟩, ran, adopted⟩ := Option.map_eq_some_iff.mp sampleEnrolled_adopts
  obtain ⟨controller, gate⟩ := Prod.mk.inj adopted
  have ran := toOption_eq_some.mp ran
  simp only [sampleEnrolled, sampleBuilt, bind_eq_ok, pure_eq_ok] at ran
  obtain ⟨origin, ⟨account, built, rfl⟩, applied⟩ := ran
  have fresh : Origin sampleSetting { account := account, world := sampleWorld } :=
    ⟨⟨sampleAround 1, _, .empty, fun _ => rfl, built⟩, fun _ => rfl, fun _ _ => rfl⟩
  have called : Execution (system sampleSetting) 2 { account := account, world := sampleWorld }
      [_] 2 _ := .call enrolling .refl rfl
  rw [step_of_ok applied] at called
  exact ⟨_, reply, state, ⟨⟨2, _, fresh, called⟩, fun _ => rfl⟩, controller, gate⟩

theorem handles_of_applied {taken : JointStep S} {text docJson : Bytes} {validUntil : UInt32}
    {expected : Option UInt64} (handled : Handles S taken text)
    (asked : taken.action.action = .applyDoc docJson validUntil expected) : text = docJson := by
  cases handled with
  | applied asked' =>
      rw [asked] at asked'
      cases asked'
      rfl
  | published asked' =>
      rw [asked] at asked'
      cases asked'
  | derived asked' =>
      rw [asked] at asked'
      cases asked'

theorem hashedIn_enrolling {taken : JointStep sampleSetting} (asked : taken.action = enrolling)
    {bytes : Bytes} (hashed : bytes ∈ hashedIn sampleSetting [taken]) :
    bytes = textBytes (Ir.writeValue (Ir.docToCv enrollingDoc)) ∨
      bytes = configDomain ++ textBytes (Ir.writeValue (Ir.recoveryToCv sampleRecovery)) := by
  obtain ⟨_, member, text, doc, handled, parsed, preimage⟩ := hashed
  rw [List.mem_singleton.mp member] at handled
  have applies : taken.action.action =
      .applyDoc (Ir.utf8 (Ir.canonicalJson enrollingDoc)) 10 none := by
    rw [asked]
    rfl
  have known : parse sampleSetting.code.host (Ir.utf8 (Ir.canonicalJson enrollingDoc)) =
      .ok enrollingDoc := parse_canonical Ir.jsonReader_conforms rfl
  rw [handles_of_applied handled applies, known] at parsed
  rw [← Except.ok.inj parsed] at preimage
  rcases preimage with same | ⟨member, declared, same⟩
  · left
    rw [same, Ir.canonicalJson, utf8_ofList]
    rfl
  · right
    have only : sampleRecovery = member := Option.some.inj declared
    rw [same, ← only, Ir.recoveryCanonicalJson, utf8_ofList]
    rfl

set_option maxRecDepth 16384 in
theorem sampleEnrolled_collisionFree {taken : JointStep sampleSetting}
    (asked : taken.action = enrolling) : CollisionFree sampleSetting [taken] := by
  have apart : localSha256 (textBytes (Ir.writeValue (Ir.docToCv enrollingDoc))) ≠
      localSha256 (configDomain ++ textBytes (Ir.writeValue (Ir.recoveryToCv sampleRecovery))) := by
    decide +kernel
  constructor
  · intro first hashed second hashed' same
    rcases hashedIn_enrolling asked hashed with left | left <;>
      rcases hashedIn_enrolling asked hashed' with right | right <;>
      rw [left, right] at same ⊢
    · exact absurd same apart
    · exact absurd same.symm apart
  · have single : installParams sampleSetting taken =
        [.bytes compiledRecovery.configHash.bytes] := by
      unfold installParams
      rw [asked]
      exact params_of_compiles enrollingDoc_compiles 2 10 none
    rintro first ⟨_, member, used⟩ second ⟨_, member', used'⟩ _
    obtain rfl := List.mem_singleton.mp member
    obtain rfl := List.mem_singleton.mp member'
    rw [single, List.mem_singleton] at used used'
    rw [used, used']

/-- The sample account, and the controller it enrolled with, agree. -/
theorem enrollment_agrees_sample :
    ∃ origin reply state, Reached sampleSetting [⟨origin, enrolling, .ok reply, state⟩] 2 state ∧
      state.account.storage.recoveryController = some sampleController ∧
      Agreement sampleSetting state := by
  obtain ⟨origin, reply, state, reached, adopted, _⟩ := sampleEnrolled_reached
  exact ⟨origin, reply, state, reached, adopted,
    (enrollment_agrees reached (sampleEnrolled_collisionFree rfl)).1⟩

end Sample

end Perch.Joint
