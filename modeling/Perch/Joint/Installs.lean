/-
Every applied document installs.

A refusal after the controllers are synced would undo a recovery that was long
approved.  There is none: a compiled rule is well inside the store's limits, the
interpreter keeps exactly the programs of the rules in place, and a synced
controller holds the configuration its rule names.
-/

import Perch.Account.Occupancy
import Perch.Account.Refusals
import Perch.Document.Installable
import Perch.Joint.Agreement

namespace Perch.Joint

open Machine Document Recovery Program Account

/-! ### A synced controller -/

section Controller

variable {d : Deployment} {e : Env} {account : Address} {m m' : Slice}
  {config : CompiledRecoveryConfig}

/-- What a controller holds of a configuration. -/
def Configured (m : Slice) (config : CompiledRecoveryConfig) : Prop :=
  ∃ stored, m.config = some stored ∧ stored.configHash = config.configHash

theorem classified_configured {new : Option CompiledRecoveryConfig} {validUntil : UInt32}
    {outcome : SyncOutcome} (classified : Classified d e account m new validUntil outcome m')
    (named : new = some config) (here : config.controller = d.address) : Configured m' config := by
  cases classified with
  | nothing _ unnamed => rw [named] at unnamed; cases unnamed
  | enrolled _ passed =>
      obtain rfl := Option.some.inj (named.symm.trans passed)
      exact ⟨config, rfl, rfl⟩
  | same present passed _ equal =>
      obtain rfl := Option.some.inj (named.symm.trans passed)
      exact ⟨_, present, equal.symm⟩
  | reconfigured _ passed =>
      obtain rfl := Option.some.inj (named.symm.trans passed)
      exact ⟨config, rfl, rfl⟩
  | removed _ elsewhere => exact absurd here (elsewhere config named)

/-- A sync that names this controller leaves it the configuration it names. -/
theorem synced_configured {docHash : Bytes32} {recovery : List CompiledRecoveryConfig}
    {validUntil : UInt32} {outcome : SyncOutcome}
    (transition : Transition d e account m (.rcvSync account docHash recovery validUntil)
      (.synced outcome) none m') (named : recovery.head? = some config)
    (here : config.controller = d.address) : Configured m' config := by
  generalize asked : Call.rcvSync account docHash recovery validUntil = call at transition
  cases transition with
  | classified _ _ settled =>
      cases asked
      exact classified_configured settled named here
  | completed _ _ _ _ _ _ _ passed =>
      cases asked
      obtain rfl := Option.some.inj (named.symm.trans passed)
      exact ⟨config, rfl, rfl⟩

end Controller

section Syncs

variable {σ : Type} {S : Setting σ} {around : Surroundings} {compiled : CompiledDoc}
  {validUntil : UInt32} {outcome : SyncOutcome} {config : CompiledRecoveryConfig}
  {world world' : World}

theorem rcvSync_configured (deployed : S.deployed config.controller = true)
    (named : compiled.recovery.head? = some config)
    (called : (S.callees around).rcvSync world config.controller compiled.docHash
      compiled.recovery validUntil = .ok (outcome, world')) :
    Configured (world'.slice S config.controller) config := by
  cases rcvSync_called called with
  | acted acts => exact synced_configured acts.transition named rfl
  | answered absent => rw [deployed] at absent; cases absent

/-- Once the controllers are synced, the one a document names holds the
configuration it names. -/
theorem syncControllers_configured {storage storage' : AccountStorage}
    (deployed : S.deployed config.controller = true)
    (named : compiled.recovery.head? = some config)
    (synced : syncControllers (S.callees around) compiled validUntil storage world =
      .ok (outcome, storage', world')) :
    Configured (world'.slice S config.controller) config := by
  obtain ⟨joined, syncs, _⟩ := syncControllers_eq_ok synced
  cases syncs with
  | none _ unnamed => rw [named] at unnamed; cases unnamed
  | enrolled _ first called =>
      obtain rfl := Option.some.inj (named.symm.trans first)
      exact rcvSync_configured deployed named called
  | stays _ same called =>
      rw [← same config named] at called
      exact rcvSync_configured deployed named called
  | switched _ first _ _ called =>
      obtain rfl := Option.some.inj (named.symm.trans first)
      exact rcvSync_configured deployed named called

/-- And its `install` accepts the recovery rule. -/
theorem Configured.installs {world : World} (deployed : S.deployed config.controller = true)
    (configured : Configured (world.slice S config.controller) config) {rule : ContextRule}
    (scope : rule.contextType = .callContract S.me) (unsigned : rule.signers = []) :
    S.installPolicy around world config.controller (.bytes config.configHash.bytes) rule =
      .ok () := by
  obtain ⟨stored, held, same⟩ := configured
  have found : (world.controllers config.controller).config S.me = some stored := held
  simp [Setting.installPolicy, deployed, config.configHash.size, Recovery.install,
    assertRecoveryRule, requireConfig, require, orFail, found, same, scope, unsigned,
    Setting.inside, Setting.envWith]

end Syncs

/-! ### What a document asks of the store -/

section Rules

variable {σ : Type} {oz : RuleStore σ} {documented : oz.Documented} {i : Interpreting}
  {S : Setting (Watched oz i)}

/-- The account's rule store is the watched one, and the interpreter is the one
the account pins. -/
structure Watches (S : Setting (Watched oz i)) (documented : oz.Documented) : Prop where
  store : S.code.oz = watched documented i
  account : i.account = S.me
  interpreter : i.interpreter = S.code.deployment.infra.interpreter

/-- The host, the store and the shared policies do as documented: the interpreter
takes every valid program, the spending limit every positive cap on a contract's
rule, and the store any distinct signers whose keys their verifiers leave alone. -/
structure Hosted (S : Setting (Watched oz i)) (around : Surroundings) : Prop where
  reads : S.code.host.Reads
  signers : ∀ signers : List Signer, signers.Nodup →
    (∀ verifier key, .external verifier key ∈ signers → S.code.host.Keeps verifier key) →
      oz.acceptsSigners signers = true
  interpreter : ∀ params rule, params.program.validate = .ok () →
    around.policyInstall S.code.deployment.infra.interpreter
      (S.code.deployment.installVal params) rule = .ok ()
  spendingLimit : ∀ cap (rule : ContextRule) address, 0 < cap.spendingLimit →
    0 < cap.periodLedgers → rule.contextType = .callContract address →
      around.policyInstall S.code.deployment.infra.spendingLimit
        (S.code.deployment.capVal cap) rule = .ok ()

theorem accepts_signers (hosted : Hosted S around) {signers : List Signer}
    (few : signers.length ≤ maxSigners) (distinct : signers.Nodup)
    (canonical : ∀ verifier key, .external verifier key ∈ signers →
      S.code.host.Keeps verifier key) : (watched documented i).SignersFit signers where
  few := few
  accepted := by
    simp [watched, distinct, hosted.signers signers distinct canonical]

variable {around : Surroundings} {world : World}

/-- A shared policy answers for itself. -/
theorem installPolicy_shared {policy : Address} {param : Val} {rule : ContextRule}
    (shared : policy = S.code.deployment.infra.interpreter ∨
      policy = S.code.deployment.infra.spendingLimit) :
    S.installPolicy around world policy param rule = around.policyInstall policy param rule := by
  have absent : ¬S.deployed policy = true := by
    intro deployed
    obtain ⟨first, second⟩ := S.apart policy deployed
    exact shared.elim first second
  unfold Setting.installPolicy
  rw [if_neg absent]

theorem documentRule_attached {d : AccountDeployment} {rule : CompiledRule}
    {attached : Address × Val} :
    attached ∈ (documentRule d rule).attached ↔
      (∃ params ∈ rule.install.head?, attached = (d.infra.interpreter, d.installVal params)) ∨
        ∃ cap ∈ rule.cap.head?, attached = (d.infra.spendingLimit, d.capVal cap) := by
  rw [documentRule, Wanted.attached_of, List.mem_append, Option.mem_toList, Option.mem_toList]
  simp only [Option.mem_def, Option.map_eq_some_iff, @eq_comm _ attached]

theorem documentRule_scope (d : AccountDeployment) (rule : CompiledRule) :
    ∃ address, (documentRule d rule).rule.contextType = .callContract address := by
  change ∃ address, RuleScope.contextType d rule.scope = .callContract address
  cases rule.scope with
  | selfAdmin => exact ⟨d.address, rfl⟩
  | contract address => exact ⟨address, rfl⟩

theorem documentRule_installable (hosted : Hosted S around) {rule : CompiledRule}
    (well : rule.Wellformed S.code.host)
    (current : expired around.env.sequence rule.validUntil = false) :
    (documentRule S.code.deployment rule).Installable (watched documented i)
      (ozEnv (S.callees around) around.env.sequence world) where
  nonempty := .inl well.signed
  signersFit := accepts_signers hosted (well.few.trans (by decide)) well.distinct well.canonical
  few := by
    have size : (documentRule S.code.deployment rule).attached.length ≤ 2 := by
      rw [documentRule, Wanted.attached_of, List.length_append]
      have first := Option.length_toList_le (o := rule.install.head?.map fun params =>
        (S.code.deployment.infra.interpreter, S.code.deployment.installVal params))
      have second := Option.length_toList_le (o := rule.cap.head?.map fun cap =>
        (S.code.deployment.infra.spendingLimit, S.code.deployment.capVal cap))
      omega
    exact size.trans (by decide)
  shortName := well.shortName
  current := by
    intro last bound
    have bound : rule.validUntil = some last := bound
    change around.env.sequence ≤ last
    simpa [expired, bound] using current
  installs := by
    intro signers _ attached member rule' scope _
    rcases documentRule_attached.mp member with ⟨params, listed, rfl⟩ | ⟨cap, listed, rfl⟩
    · have valid := well.program params (List.mem_of_head? listed)
      exact (installPolicy_shared (.inl rfl)).trans (hosted.interpreter params rule' valid)
    · obtain ⟨positive, lasting⟩ := well.cap cap (List.mem_of_head? listed)
      refine (installPolicy_shared (.inr rfl)).trans ?_
      obtain ⟨address, contract⟩ := documentRule_scope S.code.deployment rule
      exact hosted.spendingLimit cap rule' address positive lasting (scope.trans contract)

theorem recoveryRule_installable (hosted : Hosted S around) {config : CompiledRecoveryConfig}
    (deployed : S.deployed config.controller = true)
    (configured : Configured (world.slice S config.controller) config) :
    (recoveryRule S.code.deployment config).Installable (watched documented i)
      (ozEnv (S.callees around) around.env.sequence world) where
  nonempty := by simp [recoveryRule]
  signersFit := accepts_signers hosted (Nat.zero_le _) List.nodup_nil fun _ _ => nofun
  few := by simp [recoveryRule, maxPolicies]
  shortName := show recoveryName.length ≤ maxNameSize by decide
  current := by simp [notPast, recoveryRule, Wanted.of]
  installs := by
    intro signers unsigned attached member rule scope signed
    obtain rfl : attached = (config.controller, .bytes config.configHash.bytes) := by
      simpa [recoveryRule] using member
    exact configured.installs deployed scope (signed.trans (unsigned rfl))

theorem desired_installable (hosted : Hosted S around) {docJson : Bytes} {compiled : CompiledDoc}
    (compiles : compileDoc S.code.host docJson = .ok compiled)
    (configured : ∀ config ∈ compiled.recovery.head?, S.deployed config.controller = true ∧
      Configured (world.slice S config.controller) config) :
    ∀ wanted ∈ desired S.code.deployment around.env.sequence compiled,
      wanted.Installable (watched documented i)
        (ozEnv (S.callees around) around.env.sequence world) := by
  obtain ⟨doc, _, parsed⟩ := compileDoc_eq_ok.mp compiles
  intro wanted asked
  rcases mem_desired_iff.mp asked with ⟨rule, listed, live, rfl⟩ | ⟨config, listed, rfl⟩
  · exact documentRule_installable hosted
      ((compileParsed_eq_ok parsed).wellformed hosted.reads listed) live
  · obtain ⟨deployed, held⟩ := configured config listed
    exact recoveryRule_installable hosted deployed held

/-- The program of a document rule is the one it was compiled to. -/
theorem documentRule_program (watches : Watches S documented) {rule : CompiledRule}
    (valid : ∀ params ∈ rule.install, params.program.validate = .ok ())
    (readable : ∀ params ∈ rule.install,
      i.fromVal (S.code.deployment.installVal params) = some params) :
    i.program (documentRule S.code.deployment rule).attached = rule.install.head? := by
  have cap : ∀ cap, i.takes (S.code.deployment.infra.spendingLimit,
      S.code.deployment.capVal cap) = none := by
    intro cap
    rw [Interpreting.takes, if_neg]
    exact fun same => S.pins (watches.interpreter ▸ same).symm
  have program : ∀ params ∈ rule.install.head?, i.takes (S.code.deployment.infra.interpreter,
      S.code.deployment.installVal params) = some params := by
    intro params listed
    have listed := List.mem_of_head? listed
    rw [Interpreting.takes, if_pos watches.interpreter.symm, readable params listed]
    simp [valid params listed, Except.isOk, Except.toBool]
  rw [documentRule, Wanted.attached_of, Interpreting.program]
  cases installed : rule.install.head? with
  | none => cases rule.cap.head? <;> simp [cap]
  | some params => simp [program params installed]

theorem recoveryRule_program (watches : Watches S documented) {config : CompiledRecoveryConfig}
    (deployed : S.deployed config.controller = true) :
    i.program (recoveryRule S.code.deployment config).attached = none := by
  have foreign : config.controller ≠ i.interpreter :=
    watches.interpreter ▸ (S.apart config.controller deployed).1
  simp [recoveryRule, Interpreting.program, Interpreting.takes, foreign]

end Rules

/-! ### Every run -/

section Runs

variable {σ : Type} {oz : RuleStore σ} {documented : oz.Documented} {i : Interpreting}
  {S : Setting (Watched oz i)}

/-- In every run of an account no more rules were ever in place than a document
may ask for. -/
theorem Origin.places (watches : Watches S documented) {first state : State (Watched oz i)}
    (origin : Origin S first) (counted : first.account.store.1.most ≤ 1) {start now : UInt32}
    {history : List (JointStep S)} (run : Execution (system S) start first history now state) :
    RulesAgree S.code (paramsIn S history) state.account ∧
      state.account.store.1.most ≤ maxDocRules + 1 := by
  refine (origin.induct (fun history _ state =>
    RulesAgree S.code (paramsIn S history) state.account ∧
      state.account.store.1.most ≤ maxDocRules + 1) ?_ ?_ ?_ ?_ run).2
  · obtain ⟨_, _, _, fresh, built⟩ := origin.built
    exact ⟨installAdmin_rulesAgree S.documented fresh built, counted.trans (Nat.le_add_left ..)⟩
  · intro _ _ _ _ _ held _
    exact held
  · intro _ _ _ _ _ held
    exact ⟨held.1.widen (paramsIn_mono (List.subset_cons_self ..)), held.2⟩
  · intro history state reply after invocation _ held _ happened
    obtain ⟨agree, most⟩ := held
    let taken : JointStep S := ⟨state, invocation, .ok reply, after⟩
    have member : taken ∈ taken :: history := List.mem_cons_self ..
    have agree := agree.widen (paramsIn_mono (List.subset_cons_self taken history))
    rcases happened.applied_or_unapplied with
      ⟨_, _, _, compiled, _, _, _, _, _, asked, effect, _⟩ | unapplied
    · obtain ⟨_, params⟩ := inPlay_of_applied member asked effect.compiles
      refine ⟨effect.rulesAgree S.documented S.pins params agree, ?_⟩
      obtain ⟨doc, _, parsed⟩ := compileDoc_eq_ok.mp effect.compiles
      obtain ⟨sum, reconciled⟩ := effect.reconciled
      have compiles := compileParsed_eq_ok parsed
      have matching : Matching S.code.oz state.account.store state.account.storage.rulesOf
          (desired S.code.deployment invocation.around.env.sequence compiled) :=
        agree.matching S.pins compiles
      rw [watches.store] at matching reconciled
      have places := reconcile_places matching _ (by decide) reconciled
      have asked := (length_desired S.code.deployment compiled invocation.around.env.sequence).trans
        (Nat.add_le_add_right compiles.length_rules 1)
      omega
    · have same := unapplied.configuration
      simp only [AccountState.configuration, Prod.mk.injEq] at same
      obtain ⟨installed, _, recoveryRule, recoveryController, _, store⟩ := same
      refine ⟨agree.of_ruleFields ?_, store ▸ most⟩
      simp only [AccountState.ruleFields, installed, recoveryRule, recoveryController, store]

/-- What applying a document's rules leaves, and what it met. -/
structure Installs (S : Setting (Watched oz i)) (around : Surroundings) (compiled : CompiledDoc)
    (world : World) (before after : AccountState (Watched oz i)) : Prop where
  /-- There was room for every rule, at every moment. -/
  places : after.store.1.most ≤ maxDocRules + 1
  valid : ∀ rule ∈ compiled.rules, ∀ params ∈ rule.install, params.program.validate = .ok ()
  controller : ∀ config ∈ compiled.recovery.head?, ∀ rule : ContextRule,
    rule.contextType = .callContract S.me → rule.signers = [] →
      S.installPolicy around world config.controller (.bytes config.configHash.bytes) rule = .ok ()
  /-- Where no installed parameter has the digest of another that is asked for,
  the interpreter holds the programs of the constrained rules. -/
  programs : (∀ policy, StoredIn S.code.oz before.store policy →
      ∀ new ∈ paramsOf S.code around.env.sequence compiled,
        S.code.deployment.digest policy.2 = S.code.deployment.digest new → policy.2 = new) →
    ∀ id params, after.store.1.programs S.me id = some params ↔
      ∃ rule ∈ compiled.rules, expired around.env.sequence rule.validUntil = false ∧
        rule.install.head? = some params ∧
        (documentRule S.code.deployment rule).rule.withId id ∈ after.storage.rulesOf

/-- The interpreter's programs are those of the records. -/
theorem realized_programs (watches : Watches S documented) {sequence : UInt32}
    {compiled : CompiledDoc} {store : Watched oz i} {records : List InstalledRule}
    (realizes : Realizes (watched documented i) store records
      (desired S.code.deployment sequence compiled))
    (distinct : (compiled.rules.map CompiledRule.name).Nodup)
    (valid : ∀ rule ∈ compiled.rules, ∀ params ∈ rule.install,
      params.program.validate = .ok ())
    (readable : ∀ rule ∈ compiled.rules, ∀ params ∈ rule.install,
      i.fromVal (S.code.deployment.installVal params) = some params)
    (deployed : ∀ config ∈ compiled.recovery.head?, S.deployed config.controller = true)
    {id : UInt32} {params : Program.InstallParams} :
    store.1.programs S.me id = some params ↔
      ∃ rule ∈ compiled.rules, expired sequence rule.validUntil = false ∧
        rule.install.head? = some params ∧
        (documentRule S.code.deployment rule).rule.withId id ∈ records := by
  have stored : ∀ record ∈ records, ∃ wanted ∈ desired S.code.deployment sequence compiled,
      record = wanted.rule.withId record.id ∧
        store.1.programs S.me record.id = i.program wanted.attached := by
    intro record member
    obtain ⟨wanted, asked, same, rule, found, has⟩ := exists_of_mem_left realizes.installed member
    refine ⟨wanted, asked, same, ?_⟩
    rw [← watches.account, store.2.stored found]
    exact Interpreting.program_perm has.attached (attached_nodup documented found)
  constructor
  · intro held
    have present : oz.getContextRule store.1.store id ≠ none := by
      intro absent
      rw [← watches.account, store.2.programs, absent] at held
      cases held
    obtain ⟨rule', found⟩ := Option.ne_none_iff_exists'.mp present
    obtain ⟨record, member, rfl⟩ := List.mem_map.mp (realizes.complete id rule' found)
    obtain ⟨wanted, asked, same, program⟩ := stored record member
    rw [program] at held
    rcases mem_desired_iff.mp asked with ⟨rule, listed, live, rfl⟩ | ⟨config, named, rfl⟩
    · rw [documentRule_program watches (valid rule listed) (readable rule listed)] at held
      exact ⟨rule, listed, live, held, same ▸ member⟩
    · rw [recoveryRule_program watches (deployed config named)] at held
      cases held
  · rintro ⟨rule, listed, live, installed, member⟩
    obtain ⟨wanted, asked, same, program⟩ := stored _ member
    have own : documentRule S.code.deployment rule ∈ desired S.code.deployment sequence compiled :=
      mem_desired_iff.mpr (.inl ⟨rule, listed, live, rfl⟩)
    have slot := congrArg InstalledRule.slot same
    rw [InstalledRule.withId_slot, InstalledRule.withId_slot] at slot
    obtain rfl := List.inj_on_of_nodup_map (desired_slots_nodup distinct sequence) own asked slot
    rw [← installed, ← documentRule_program watches (valid rule listed) (readable rule listed)]
    exact program

/-- Whatever an account went through, a document that compiles and whose
controllers sync installs.  The watched store fails where a precondition does or
a hook panics, so no operation meets either. -/
theorem applied_document_installs (watches : Watches S documented)
    {first state : State (Watched oz i)} (origin : Origin S first)
    (counted : first.account.store.1.most ≤ 1) {start now : UInt32}
    {history : List (JointStep S)} (run : Execution (system S) start first history now state)
    {around : Surroundings} (hosted : Hosted S around) {docJson : Bytes}
    {compiled : CompiledDoc} (compiles : compileDoc S.code.host docJson = .ok compiled)
    {validUntil : UInt32} {outcome : SyncOutcome} {storage : AccountStorage} {synced : World}
    (syncs : syncControllers (S.callees around) compiled validUntil state.account.storage
      state.world = .ok (outcome, storage, synced))
    (deployed : ∀ config ∈ compiled.recovery.head?, S.deployed config.controller = true)
    (readable : ∀ rule ∈ compiled.rules, ∀ params ∈ rule.install,
      i.fromVal (S.code.deployment.installVal params) = some params)
    (room : (S.code.oz.nextId state.account.store).toNat + (maxDocRules + 1) < 4294967296) :
    ∃ account, applyRules S.code (S.callees around) around.env.sequence .cheapest compiled
        { state.account with storage := storage } synced = .ok account ∧
      Installs S around compiled synced state.account account := by
  obtain ⟨agree, most⟩ := origin.places watches counted run
  obtain ⟨_, _, ⟨generation, rfl⟩, _⟩ := syncControllers_eq_ok syncs
  obtain ⟨doc, _, parsed⟩ := compileDoc_eq_ok.mp compiles
  have shape := compileParsed_eq_ok parsed
  have configured : ∀ config ∈ compiled.recovery.head?,
      Configured (synced.slice S config.controller) config :=
    fun config named => syncControllers_configured (deployed config named) named syncs
  have valid : ∀ rule ∈ compiled.rules, ∀ params ∈ rule.install,
      params.program.validate = .ok () :=
    fun rule listed => (shape.wellformed hosted.reads listed).program
  have asked := (length_desired S.code.deployment compiled around.env.sequence).trans
    (Nat.add_le_add_right shape.length_rules 1)
  have matching : Matching S.code.oz state.account.store state.account.storage.rulesOf
      (desired S.code.deployment around.env.sequence compiled) :=
    agree.matching S.pins shape
  have setting (free : ∀ policy, StoredIn S.code.oz state.account.store policy →
      ∀ new ∈ paramsOf S.code around.env.sequence compiled,
        S.code.deployment.digest policy.2 = S.code.deployment.digest new → policy.2 = new) :
      Account.Setting S.code.oz state.account.store state.account.storage.rulesOf
        (desired S.code.deployment around.env.sequence compiled) :=
    { toMatching := matching
      collisionFree := fun id rule stored old held _ wanted new member =>
        free old ⟨id, rule, stored, held⟩ new.2 (mem_paramsOf wanted member) }
  rw [watches.store] at matching room
  have ready : Ready (watched documented i) (ozEnv (S.callees around) around.env.sequence synced)
      state.account.store (desired S.code.deployment around.env.sequence compiled) :=
    { installable := desired_installable hosted compiles fun config named =>
        ⟨deployed config named, configured config named⟩
      room := by omega }
  obtain ⟨⟨records, sum, store⟩, reconciled⟩ :=
    (reconcile_brings (watched_documented documented i) matching .cheapest).total ready
  have reconciles := reconciled
  rw [← watches.store] at reconciles
  obtain ⟨account, applied, rfl, rfl⟩ : ∃ account,
      applyRules S.code (S.callees around) around.env.sequence .cheapest compiled
        { state.account with
          storage := { state.account.storage with recoveryGeneration := generation } } synced =
        .ok account ∧ account.store = store ∧ account.storage.rulesOf = records :=
    applyRules_of_reconciled reconciles
  refine ⟨account, applied, ?_, valid, ?_, ?_⟩
  · have places := reconcile_places matching _ (by decide) reconciled
    omega
  · intro config named rule scope unsigned
    exact (configured config named).installs (deployed config named) scope unsigned
  · intro free id params
    have realizes := (reconcile_meets S.documented (setting free) .cheapest).sound _ reconciles
    rw [watches.store] at realizes
    exact realized_programs watches realizes shape.names_nodup valid readable deployed

end Runs

section Sample

/-- The parameters the sample's one constrained rule is installed with. -/
def sampleInstall : InstallParams where
  program := { version := 1, ops := [.minSigners 1, .fnIn ["pay"], .all 2] }
  docHash := localSha256 (Ir.ruleHashDomain ++
    textBytes (Ir.writeValue (Ir.ruleToCv (samplePay "pay"))))

def sampleInterpreting : Interpreting where
  interpreter := sampleCode.deployment.infra.interpreter
  account := sampleCode.deployment.address
  fromVal value :=
    if value = sampleCode.deployment.installVal sampleInstall then some sampleInstall else none

def watchedSetting : Setting (Watched MemoryStore.store sampleInterpreting) where
  code := { sampleCode with oz := watched MemoryStore.documented sampleInterpreting }
  deployed := sampleSetting.deployed
  foreign := sampleSetting.foreign
  poseidon2 := sampleSetting.poseidon2
  depth := sampleSetting.depth
  documented := watched_documented MemoryStore.documented sampleInterpreting
  conforms := sampleSetting.conforms
  pins := sampleSetting.pins
  apart := sampleSetting.apart

/-- The sample account's document, with a rule that may call one function. -/
def installingDoc : Ir.PolicyDoc :=
  { sampleDoc "pay" with recovery := some sampleRecovery }

def compiledInstalling : CompiledDoc where
  docHash := localSha256 (textBytes (Ir.writeValue (Ir.docToCv installingDoc)))
  canonical := textBytes (Ir.writeValue (Ir.docToCv installingDoc))
  fingerprints := compiledEnrolling.fingerprints
  rules := (sampleCompiled "pay").rules
  recovery := [compiledRecovery]

set_option maxRecDepth 16384 in
theorem installingDoc_compiles :
    compileDoc watchedSetting.code.host (Ir.utf8 (Ir.canonicalJson installingDoc)) =
      .ok compiledInstalling := by
  rw [show watchedSetting.code.host = localHost "T" from rfl,
    compileDoc_of_doc Ir.jsonReader_conforms rfl]
  apply Compiles.compileParsed_eq
  constructor
  · decide +kernel
  · exact ⟨"T", rfl, rfl⟩
  · decide +kernel
  · -- The rules are those of the document without the member.
    have parsed := samplePay_compiles
    rw [show sampleCode.host = localHost "T" from rfl,
      compileDoc_of_doc Ir.jsonReader_conforms rfl] at parsed
    exact (compileParsed_eq_ok parsed).rules
  · rw [Ir.canonicalJson, utf8_ofList]
    rfl
  · decide +kernel
  · rfl
  · change [sampleRecovery].mapM (toCompiledRecovery (localHost "T")) = _
    rw [List.mapM_cons, sampleRecovery_compiles]
    rfl
  · exact ⟨[.delegated (.account (BytesN.fill 1))], by decide +kernel, by decide +kernel⟩

def watchedFresh : Watched MemoryStore.store sampleInterpreting where
  val := { store := .empty, programs := fun _ _ => none, inPlace := [], most := 0 }
  property :=
    { programs := fun _ => rfl
      distinct := List.nodup_nil
      inPlace := fun _ => ⟨nofun, nofun⟩ }

def watchedEnrolling : Invocation watchedSetting where
  around := sampleAround 2
  action := .applyDoc (Ir.utf8 (Ir.canonicalJson enrollingDoc)) 10 none

theorem watchedEnrolling_compiles :
    compileDoc watchedSetting.code.host (Ir.utf8 (Ir.canonicalJson enrollingDoc)) =
      .ok compiledEnrolling :=
  enrollingDoc_compiles

def watchedSynced : Except AccountFailure (State (Watched MemoryStore.store sampleInterpreting) ×
    Reply × State (Watched MemoryStore.store sampleInterpreting) × SyncOutcome) := do
  let account ← installAdmin watchedSetting.code (watchedSetting.callees (sampleAround 1)) 1
    [.delegated (.account (BytesN.fill 8))] watchedFresh sampleWorld
  let origin := { account := account, world := sampleWorld }
  let (reply, state) ← watchedEnrolling.run watchedSetting origin
  let (outcome, _) ← syncControllers (watchedSetting.callees (sampleAround 3)) compiledInstalling 10
    state.account.storage state.world
  pure (origin, reply, state, outcome)

set_option maxRecDepth 16384 in
theorem watchedSynced_room : watchedSynced.toOption.map (fun result =>
    (result.1.account.store.1.most, result.2.2.1.account.store.1.store.nextId)) =
      some (1, 2) := by
  simp only [watchedSynced, watchedEnrolling, Invocation.run, applyDoc, apply,
    watchedEnrolling_compiles]
  decide +kernel

theorem watchedSetting_watches : Watches watchedSetting MemoryStore.documented where
  store := rfl
  account := rfl
  interpreter := rfl

theorem sampleAround_hosted (sequence : UInt32) : Hosted watchedSetting (sampleAround sequence) where
  reads :=
    { hex := fun _ => rfl
      address := fun read read' => localAddressFromStr_injective read read' }
  signers _ distinct _ := decide_eq_true distinct
  interpreter _ _ _ := rfl
  spendingLimit _ _ _ _ _ _ := rfl

theorem sampleInstall_readable : ∀ rule ∈ compiledInstalling.rules, ∀ params ∈ rule.install,
    sampleInterpreting.fromVal (watchedSetting.code.deployment.installVal params) =
      some params := by
  intro rule listed params installed
  have only : params ∈ [sampleInstall] := List.mem_flatMap.mpr ⟨rule, listed, installed⟩
  obtain rfl := List.mem_singleton.mp only
  simp [sampleInterpreting, watchedSetting]

set_option maxRecDepth 16384 in
theorem watchedInstalled_apart : watchedSetting.code.deployment.digest
    (.bytes compiledRecovery.configHash.bytes) ≠ watchedSetting.code.deployment.digest
      (watchedSetting.code.deployment.installVal sampleInstall) := by
  decide +kernel

set_option maxRecDepth 16384 in
theorem watchedInstalled_params : paramsOf watchedSetting.code 3 compiledInstalling =
    [watchedSetting.code.deployment.installVal sampleInstall,
      .bytes compiledRecovery.configHash.bytes] := by
  rfl

set_option maxRecDepth 16384 in
/-- The parameters in play in the sample's run, and those of its next document,
have different digests. -/
theorem watchedInstalled_free {before : State (Watched MemoryStore.store sampleInterpreting)}
    {reply : Reply} {after : State (Watched MemoryStore.store sampleInterpreting)}
    {value new : Val}
    (used : value ∈ paramsIn watchedSetting [⟨before, watchedEnrolling, .ok reply, after⟩])
    (asked : new ∈ paramsOf watchedSetting.code 3 compiledInstalling)
    (same : watchedSetting.code.deployment.digest value =
      watchedSetting.code.deployment.digest new) : value = new := by
  obtain ⟨_, member, used⟩ := used
  obtain rfl := List.mem_singleton.mp member
  have single : installParams watchedSetting ⟨before, watchedEnrolling, .ok reply, after⟩ =
      [.bytes compiledRecovery.configHash.bytes] :=
    params_of_compiles watchedEnrolling_compiles 2 10 none
  rw [single, List.mem_singleton] at used
  rw [watchedInstalled_params, List.mem_pair] at asked
  subst used
  rcases asked with rfl | rfl
  · exact absurd same watchedInstalled_apart
  · rfl

/-- The sample account enrolled with its controller, and takes a document that
adds a constrained rule. -/
theorem applied_document_installs_sample :
    ∃ origin reply state outcome storage synced account,
      Origin watchedSetting origin ∧
      Execution (system watchedSetting) 2 origin
        [⟨origin, watchedEnrolling, .ok reply, state⟩] 2 state ∧
      syncControllers (watchedSetting.callees (sampleAround 3)) compiledInstalling 10
        state.account.storage state.world = .ok (outcome, storage, synced) ∧
      applyRules watchedSetting.code (watchedSetting.callees (sampleAround 3)) 3 .cheapest
        compiledInstalling { state.account with storage := storage } synced = .ok account ∧
      account.store.1.most ≤ maxDocRules + 1 ∧
      ∀ id params, account.store.1.programs watchedSetting.me id = some params ↔
        ∃ rule ∈ compiledInstalling.rules, expired 3 rule.validUntil = false ∧
          rule.install.head? = some params ∧
          (documentRule watchedSetting.code.deployment rule).rule.withId id ∈
            account.storage.rulesOf := by
  obtain ⟨result, ran, counts⟩ := Option.map_eq_some_iff.mp watchedSynced_room
  obtain ⟨origin, reply, state, outcome⟩ := result
  obtain ⟨most, next⟩ := Prod.mk.inj counts
  have ran := toOption_eq_some.mp ran
  simp only [watchedSynced, bind_eq_ok, pure_eq_ok, Prod.exists, Prod.mk.injEq] at ran
  obtain ⟨account, built, answered, state', enrolled, outcome', storage, synced, syncs, rfl, rfl,
    rfl, rfl⟩ := ran
  have fresh : Origin watchedSetting { account := account, world := sampleWorld } :=
    ⟨⟨sampleAround 1, _, watchedFresh, fun _ => rfl, built⟩, fun _ => rfl, fun _ _ => rfl⟩
  have run : Execution (system watchedSetting) 2 { account := account, world := sampleWorld }
      [_] 2 _ := .call watchedEnrolling .refl rfl
  rw [step_of_ok enrolled] at run
  have counted : account.store.1.most ≤ 1 := most.le
  have room : (MemoryStore.store.nextId state'.account.store.1.store).toNat +
      (maxDocRules + 1) < 4294967296 := by
    rw [show MemoryStore.store.nextId state'.account.store.1.store = 2 from next]
    decide
  obtain ⟨applied, rules, installs⟩ := applied_document_installs watchedSetting_watches fresh
    counted run (sampleAround_hosted 3) installingDoc_compiles syncs
    (by simp [compiledInstalling, compiledRecovery, watchedSetting, sampleSetting])
    sampleInstall_readable room
  have agree := (fresh.places watchedSetting_watches counted run).1
  refine ⟨_, _, _, _, _, _, applied, fresh, run, syncs, rules, installs.places,
    installs.programs ?_⟩
  rintro policy ⟨id, rule, stored, held⟩ new asked same
  exact watchedInstalled_free (agree.params id rule stored policy held) asked same

end Sample

end Perch.Joint
