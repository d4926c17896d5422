/-
An account keeps a rule its owner can manage it by.

The anti-brick check is made on a compiled document, before expired rules are
dropped and the rest is reconciled with what is installed.  What it found is
still there afterwards: such a rule never expires, so it is never dropped, and
reconciliation leaves every rule that is asked for.
-/

import Perch.Joint.Provenance

namespace Perch.Account

open Machine Document Recovery

/-! ### Admin rules -/

/-- A rule scoped to the account, with a signer, without policies, and without
an end. -/
structure StoredRule.IsAdmin (d : AccountDeployment) (rule : StoredRule) : Prop where
  contextType : rule.contextType = .callContract d.address
  signers : rule.signers ≠ []
  policies : rule.policies = []
  validUntil : rule.validUntil = none

structure Wanted.IsAdmin {d : AccountDeployment} (wanted : Wanted d) : Prop where
  contextType : wanted.rule.contextType = .callContract d.address
  signers : wanted.rule.signers ≠ []
  policies : wanted.rule.policies = []
  validUntil : wanted.rule.validUntil = none

/-- As documented, the store refuses a rule with neither signers nor policies. -/
def RuleStore.RefusesEmpty {σ : Type} (oz : RuleStore σ) : Prop :=
  ∀ {env s contextType name validUntil added},
    oz.addContextRule env s contextType name validUntil [] [] ≠ .ok added

section

variable {σ : Type} {d : AccountDeployment} {compiled : CompiledDoc}

theorem mem_desired_of_unexpired {sequence : UInt32} {rule : CompiledRule}
    (listed : rule ∈ compiled.rules) (alive : expired sequence rule.validUntil = false) :
    documentRule d rule ∈ desired d sequence compiled :=
  mem_desired_iff.mpr (.inl ⟨rule, listed, alive, rfl⟩)

theorem Wanted.IsAdmin.mem_desired {rule : CompiledRule} (listed : rule ∈ compiled.rules)
    (admin : (documentRule d rule).IsAdmin) (sequence : UInt32) :
    documentRule d rule ∈ desired d sequence compiled := by
  have unbounded : rule.validUntil = none := admin.validUntil
  apply mem_desired_of_unexpired listed
  rw [unbounded]
  rfl

theorem adminSurvives_eq_true (survives : adminSurvives compiled.rules = true) :
    ∃ rule ∈ compiled.rules, (documentRule d rule).IsAdmin := by
  obtain ⟨rule, listed, kept⟩ := List.any_eq_true.mp survives
  simp only [Bool.and_eq_true, decide_eq_true_eq, Option.isNone_iff_eq_none,
    Bool.not_eq_true', List.isEmpty_eq_false_iff, List.isEmpty_iff] at kept
  obtain ⟨⟨⟨⟨scope, unbounded⟩, signed⟩, unprogrammed⟩, uncapped⟩ := kept
  refine ⟨rule, listed, ?_, signed, ?_, unbounded⟩
  · change RuleScope.contextType d rule.scope = _
    rw [scope]
    rfl
  · simp [documentRule, Wanted.of, unprogrammed, uncapped]

/-- An installed admin rule is an admin rule of the store: a record without
policies is one of a rule without policies, whatever the digests are. -/
theorem Wanted.IsAdmin.stored {wanted : Wanted d} (admin : wanted.IsAdmin) {oz : RuleStore σ}
    {start : σ} {rule : StoredRule} (answers : rule.Answers oz start wanted) : rule.IsAdmin d := by
  refine
    { contextType := answers.contextType.trans admin.contextType
      signers := ?_
      policies := ?_
      validUntil := answers.validUntil.trans admin.validUntil }
  · rw [answers.signers]
    exact admin.signers
  · have recorded := answers.policies.recorded
    rw [admin.policies] at recorded
    have unattached : rule.attached = [] := List.map_eq_nil_iff.mp recorded.eq_nil
    exact List.map_eq_nil_iff.mp unattached

def Administered (oz : RuleStore σ) (d : AccountDeployment) (store : σ) : Prop :=
  ∃ id rule, oz.getContextRule store id = some rule ∧ rule.IsAdmin d

theorem Brings.administered {oz : RuleStore σ} {start store : σ} {records : List InstalledRule}
    {sequence : UInt32} (brings : Brings oz start store records (desired d sequence compiled))
    (survives : adminSurvives compiled.rules = true) : Administered oz d store := by
  obtain ⟨rule, listed, admin⟩ := adminSurvives_eq_true (d := d) survives
  have asked := admin.mem_desired listed sequence
  obtain ⟨record, _, _, stored, found, answers⟩ :=
    exists_of_mem_left brings.installed.flip asked
  exact ⟨record.id, stored, found, admin.stored answers⟩

end

end Perch.Account

namespace Perch.Joint

open Machine Document Recovery Account

variable {σ : Type} {S : Setting σ}

/-! ### Over runs -/

theorem Origin.administered (refuses : S.code.oz.RefusesEmpty) {state : State σ}
    (origin : Origin S state) : Administered S.code.oz S.code.deployment state.account.store := by
  obtain ⟨around, adminSigners, store, fresh, built⟩ := origin.built
  simp only [installAdmin, bind_eq_ok, mapError_eq_ok, pure_eq_ok, Prod.exists] at built
  obtain ⟨id, store', added, account⟩ := built
  rw [← account]
  have policyFree : (([] : List (Address × Val)).map Prod.fst).Nodup := List.nodup_nil
  obtain ⟨_, _, attached, policies, stored⟩ := S.documented.addContextRule_sound policyFree added
  have unattached : attached = [] := List.map_eq_nil_iff.mp (List.Perm.eq_nil policies)
  subst unattached
  refine ⟨id, _, (congrFun stored id).trans (Function.update_self ..), rfl, ?_, rfl, rfl⟩
  intro unsigned
  change adminSigners = [] at unsigned
  subst unsigned
  exact refuses added

/-- An apply leaves an admin rule, whatever the store held before. -/
theorem applied_administered {around : Surroundings} {docJson : Bytes} {validUntil : UInt32}
    {compiled : CompiledDoc} {leaf : Option CompiledZkFactor} {outcome : SyncOutcome}
    {synced : World} {state after : State σ}
    (effect : ApplyEffect S.code (S.callees around) around.env.sequence .cheapest docJson validUntil
      state.account state.world compiled leaf outcome synced after.account after.world)
    (agree : RulesAgree S.code Set.univ state.account) :
    RulesAgree S.code Set.univ after.account ∧
      Administered S.code.oz S.code.deployment after.account.store := by
  have checked := effect.checked
  simp only [checkDocument, bind_eq_ok, require_eq_ok] at checked
  obtain ⟨_, survives, _⟩ := checked
  exact ⟨effect.rulesAgree S.documented S.pins (fun _ _ => trivial) agree,
    (effect.brings S.documented S.pins agree).administered survives⟩

/-- In every state of a run the store holds an admin rule. -/
theorem Lived.administered (refuses : S.code.oz.RefusesEmpty) {history : List (JointStep S)}
    {now : UInt32} {state : State σ} (lived : Lived S history now state) :
    Administered S.code.oz S.code.deployment state.account.store := by
  refine (lived.induct (fun _ _ state => RulesAgree S.code Set.univ state.account ∧
    Administered S.code.oz S.code.deployment state.account.store) ?_ ?_ ?_ ?_).2.2
  · intro _ state origin
    obtain ⟨_, _, _, fresh, built⟩ := origin.built
    exact ⟨installAdmin_rulesAgree S.documented fresh built, origin.administered refuses⟩
  · intro _ _ _ _ _ held _
    exact held
  · intro _ _ _ _ _ held
    exact held
  · intro _ state reply after invocation _ held _ happened
    obtain ⟨agree, administered⟩ := held
    rcases happened.applied_or_unapplied with
      ⟨_, _, _, _, _, _, _, _, _, _, effect, _⟩ | unapplied
    · exact applied_administered effect agree
    · have same := unapplied.configuration
      simp only [AccountState.configuration, Prod.mk.injEq] at same
      obtain ⟨installed, _, recoveryRule, recoveryController, _, store⟩ := same
      refine ⟨agree.of_ruleFields ?_, ?_⟩
      · simp only [AccountState.ruleFields, installed, recoveryRule, recoveryController, store]
      · rw [store]
        exact administered

theorem Sounds.store_kept {now : UInt32} {state : State σ} (sounds : Sounds S now state)
    {added : List (JointStep S)} {later : UInt32} {final : State σ}
    (execution : Execution (system S) now state added later final)
    (unapplied : ∀ taken ∈ added, ∀ docHash, taken.reply ≠ .ok (.applied docHash)) :
    final.account.store = state.account.store := by
  refine (execution.invariant (fun history now reached => Sounds S now reached ∧
    ((∀ taken ∈ history, ∀ docHash, taken.reply ≠ .ok (.applied docHash)) →
      reached.account.store = state.account.store)) ?_ ?_ ?_).2 unapplied
  · exact ⟨sounds, fun _ => rfl⟩
  · intro history now later reached held forward
    exact ⟨held.1.later forward, held.2⟩
  · intro history reached invocation held
    obtain ⟨sounds, kept⟩ := held
    rcases step_happened invocation sounds with
      ⟨failure, _, stepped⟩ | ⟨reply, after, _, stepped, happened⟩
    · rw [stepped]
      exact ⟨sounds, fun quiet => kept fun taken member =>
        quiet taken (List.mem_cons_of_mem _ member)⟩
    · rw [stepped]
      refine ⟨sounds.happened happened, fun quiet => ?_⟩
      rcases happened.applied_or_unapplied with
        ⟨_, _, _, compiled, _, _, _, _, applied, _⟩ | unapplied
      · exact absurd (congrArg Except.ok applied) (quiet _ List.mem_cons_self compiled.docHash)
      · have same := unapplied.configuration
        simp only [AccountState.configuration, Prod.mk.injEq] at same
        rw [← kept fun taken member => quiet taken (List.mem_cons_of_mem _ member)]
        exact same.2.2.2.2.2

/-! ### Signing for an account -/

def applyContext (S : Setting σ) (args : List Val) : Context :=
  .contract { contract := S.me, fnName := "apply_doc", args := args }

/-- A stored rule lets a context pass on signatures alone: it is scoped to the
contract called, has not expired, has no policies, and every signer signed. -/
structure SignedFor (rule : StoredRule) (sequence : UInt32) (signers : List Signer)
    (context : Context) : Prop where
  covers : ∃ call, context = .contract call ∧ rule.contextType = .callContract call.contract
  alive : expired sequence rule.validUntil = false
  policyFree : rule.policies = []
  signed : ∀ signer ∈ rule.signers, signer ∈ signers

/-- As documented, the store's evaluation of an authorization accepts one whose
signatures are all genuine, if every context is selected a rule that lets it
pass on signatures alone. -/
def Setting.CheckAuth.AcceptsSigned (auth : S.CheckAuth)
    (genuine : Surroundings → Bytes32 → AuthPayload → Signer × Bytes → Prop) : Prop :=
  ∀ {around digest payload contexts store world},
    (∀ signature ∈ payload.signatures, genuine around digest payload signature) →
    List.Forall₂ (fun context id => ∃ rule, S.code.oz.getContextRule store id = some rule ∧
      SignedFor rule around.env.sequence (payload.signatures.map Prod.fst) context)
        contexts payload.contextRuleIds →
      auth.run around digest payload contexts store world = .ok world

def Thawed (storage : AccountStorage) (sequence : UInt32) : Prop :=
  ∀ gate ∈ storage.gate, isFrozen sequence gate.untilLedger = false

/-- The signers of a rule authorize `apply_doc` by all signing. -/
def CanApply (S : Setting σ) (auth : S.CheckAuth)
    (genuine : Surroundings → Bytes32 → AuthPayload → Signer × Bytes → Prop) (id : UInt32)
    (rule : StoredRule) (state : State σ) : Prop :=
  ∀ (around : Surroundings) (signaturePayload : Bytes32) (payload : AuthPayload) (args : List Val),
    Thawed state.account.storage around.env.sequence → payload.contextRuleIds = [id] →
    (∀ signer ∈ rule.signers, signer ∈ payload.signatures.map Prod.fst) →
    (∀ signature ∈ payload.signatures,
      genuine around (bindPayload S.code.deployment signaturePayload) payload signature) →
    checkAuth S.code around.env.sequence (auth.run around) signaturePayload payload
      [applyContext S args] state.account state.world = .ok state.world

theorem canApply_of_isAdmin {auth : S.CheckAuth}
    {genuine : Surroundings → Bytes32 → AuthPayload → Signer × Bytes → Prop}
    (accepts : auth.AcceptsSigned genuine) {id : UInt32} {rule : StoredRule} {state : State σ}
    (stored : S.code.oz.getContextRule state.account.store id = some rule)
    (admin : rule.IsAdmin S.code.deployment) : CanApply S auth genuine id rule state := by
  intro around signaturePayload payload args thawed selected signed all
  have passes : SignedFor rule around.env.sequence (payload.signatures.map Prod.fst)
      (applyContext S args) := by
    refine ⟨⟨_, rfl, admin.contextType⟩, ?_, admin.policies, signed⟩
    rw [admin.validUntil]
    rfl
  have run := @accepts around (bindPayload S.code.deployment signaturePayload) payload
    [applyContext S args] state.account.store state.world all (by
      rw [selected]
      exact .cons ⟨rule, stored, passes⟩ .nil)
  simp only [checkAuth, bind_eq_ok, require_eq_ok, mapError_eq_ok]
  refine ⟨(), ?_, (), ?_, run⟩
  · intro context member
    rw [List.mem_singleton.mp member]
    rfl
  · intro gate held frozen
    rw [thawed gate held] at frozen
    cases frozen

/-! ### Survival -/

/-- The document of an attempt's target, which any ledger leaves an admin rule. -/
def TargetSurvives (S : Setting σ) (history : List (JointStep S)) (a : Attempt) : Prop :=
  ∃ target, InPlay S history target ∧ a.targetDocHash = target.docHash ∧
    compileDoc S.code.host target.canonical = .ok target ∧
    adminSurvives target.rules = true ∧
    ∀ sequence, ∃ wanted ∈ desired S.code.deployment sequence target, wanted.IsAdmin

section Targets

variable {history earlier : List (JointStep S)} {a b : Attempt}

theorem TargetSurvives.mono (survives : TargetSurvives S earlier a) (part : earlier ⊆ history) :
    TargetSurvives S history a := by
  obtain ⟨target, inPlay, rest⟩ := survives
  exact ⟨target, inPlay.mono part, rest⟩

theorem TargetSurvives.of_asBegun (survives : TargetSurvives S history a)
    (begun : b.asBegun = a.asBegun) : TargetSurvives S history b := by
  obtain ⟨target, inPlay, named, rest⟩ := survives
  have same : b.targetDocHash = a.targetDocHash :=
    Attempt.term_eq Attempt.targetDocHash (fun _ => rfl) begun
  exact ⟨target, inPlay, same.trans named, rest⟩

/-- What `begin` derived keeps an admin rule, whoever the controllers are. -/
theorem BegunIn.targetSurvives {taken : JointStep S} (member : taken ∈ history)
    {controller : Address}
    (begun : BegunIn S taken.action taken.before.account.storage controller
      (taken.before.slice S controller) b) : TargetSurvives S history b := by
  obtain ⟨action, replacements, config, derived, authorized, asked, started⟩ := begun
  obtain ⟨current, source, compiler, held, compiles, from_, derives⟩ := started.source
  simp only [outside_account, if_true, Setting.view, Option.some.injEq] at held compiles
  subst compiles
  rw [outside_docCompiler, compiler_deriveTarget] at derives
  obtain ⟨_, _, _, target, _, _, derivation⟩ := deriveTarget_eq_ok derives
  have inPlay : InPlay S history target :=
    ⟨taken, member, _, .derived asked held (SourceOf.origin from_) derives,
      derivation.compileDoc_canonical S.conforms⟩
  refine ⟨target, inPlay, ?_, inPlay.canonical, derivation.admin, ?_⟩
  · rw [started.record, ← derivation.docHash]
    rfl
  · intro sequence
    obtain ⟨rule, listed, admin⟩ := adminSurvives_eq_true (d := S.code.deployment) derivation.admin
    exact ⟨_, admin.mem_desired listed sequence, admin⟩

/-- The target of every attempt a controller keeps survives. -/
theorem Lived.targets {now : UInt32} {state : State σ} (lived : Lived S history now state) :
    ∀ controller id a, (state.slice S controller).Holds id a → TargetSurvives S history a := by
  refine (lived.induct (fun history _ state => ∀ controller id a,
    (state.slice S controller).Holds id a → TargetSurvives S history a) ?_ ?_ ?_ ?_).2
  · intro _ state origin controller id a held
    rw [origin.unknown] at held
    rcases held with stored | ⟨_, stored, _⟩ <;> cases stored
  · intro _ _ _ _ _ survive _
    exact survive
  · intro _ _ _ _ _ survive controller id a held
    exact (survive controller id a held).mono (List.subset_cons_self _ _)
  · intro earlier state reply after invocation sounds survive _ happened controller id b held
    have carried (from_ : Carried (state.slice S controller) b) :
        TargetSurvives S (⟨state, invocation, .ok reply, after⟩ :: earlier) b := by
      obtain ⟨id, a, held, begun⟩ := from_
      exact ((survive controller id a held).mono (List.subset_cons_self _ _)).of_asBegun begun
    rcases happened.applied_or_unapplied with
      ⟨_, _, _, _, _, _, _, _, _, _, effect, counters⟩ | unapplied
    · have step := syncStep_of_applied effect counters controller
      exact carried (step.holds (sounds controller) id b held)
    · rcases (unapplied.slices controller).holds (sounds controller) id b held with from_ | begun
      · exact carried from_
      · have member : (⟨state, invocation, .ok reply, after⟩ : JointStep S) ∈ _ :: earlier :=
          List.mem_cons_self
        exact BegunIn.targetSurvives member begun

end Targets

/-- An account always holds a rule scoped to itself, with signers, without
policies and without an end, and from each state it holds it until the next
successful apply; outside a freeze its signers authorize `apply_doc` by all
signing.  Dropping expired rules drops no such rule, and the target of every
attempt a controller keeps has one.  The account may have adopted any contract
for its controller. -/
theorem account_administered (refuses : S.code.oz.RefusesEmpty) {auth : S.CheckAuth}
    {genuine : Surroundings → Bytes32 → AuthPayload → Signer × Bytes → Prop}
    (accepts : auth.AcceptsSigned genuine) {history : List (JointStep S)} {now : UInt32}
    {state : State σ} (lived : Lived S history now state) :
    (∃ id rule, rule.IsAdmin S.code.deployment ∧
      ∀ added later final, Execution (system S) now state added later final →
        (∀ taken ∈ added, ∀ docHash, taken.reply ≠ .ok (.applied docHash)) →
        S.code.oz.getContextRule final.account.store id = some rule ∧
          CanApply S auth genuine id rule final) ∧
    (∀ (compiled : CompiledDoc) (sequence : UInt32), ∀ rule ∈ compiled.rules,
      (documentRule S.code.deployment rule).IsAdmin →
        documentRule S.code.deployment rule ∈ desired S.code.deployment sequence compiled) ∧
    ∀ controller id a, (state.slice S controller).Holds id a → TargetSurvives S history a := by
  refine ⟨?_, ?_, lived.targets⟩
  · obtain ⟨id, rule, stored, admin⟩ := lived.administered refuses
    refine ⟨id, rule, admin, ?_⟩
    intro added later final execution unapplied
    have kept : S.code.oz.getContextRule final.account.store id = some rule := by
      rw [lived.sounds.store_kept execution unapplied]
      exact stored
    exact ⟨kept, canApply_of_isAdmin accepts kept admin⟩
  · intro compiled sequence rule listed admin
    exact admin.mem_desired listed sequence

section Sample

theorem memoryStore_refusesEmpty : MemoryStore.store.RefusesEmpty := by
  intro env s contextType name validUntil added accepted
  simp only [MemoryStore.store, MemoryStore.addContextRule, bind_eq_ok, require_eq_ok] at accepted
  obtain ⟨_, ⟨nonempty, _⟩, _⟩ := accepted
  rcases nonempty with signed | attached
  · exact signed rfl
  · exact attached rfl

def signedFor (sequence : UInt32) (signers : List Signer) (context : Context)
    (rule : StoredRule) : Bool :=
  match context with
  | .contract call =>
      rule.contextType = .callContract call.contract && !expired sequence rule.validUntil &&
        rule.policies = [] && rule.signers.all (fun signer => signer ∈ signers)
  | .createContract _ => false

theorem signedFor_iff {sequence : UInt32} {signers : List Signer} {context : Context}
    {rule : StoredRule} :
    signedFor sequence signers context rule = true ↔ SignedFor rule sequence signers context := by
  cases context with
  | contract call =>
      simp only [signedFor, Bool.and_eq_true, decide_eq_true_eq, Bool.not_eq_true',
        List.all_eq_true]
      constructor
      · rintro ⟨⟨⟨covers, alive⟩, policyFree⟩, signed⟩
        exact ⟨⟨call, rfl, covers⟩, alive, policyFree, signed⟩
      · intro passes
        obtain ⟨_, same, covers⟩ := passes.covers
        cases same
        exact ⟨⟨⟨covers, passes.alive⟩, passes.policyFree⟩, passes.signed⟩
  | createContract _ =>
      simp only [signedFor, Bool.false_eq_true, false_iff]
      intro passes
      obtain ⟨_, impossible, _⟩ := passes.covers
      cases impossible

/-- The rules selected for contexts, when each lets its context pass. -/
def selectSigned (store : MemoryStore) (sequence : UInt32) (signers : List Signer) :
    List Context → List UInt32 → Option (List Setting.Selection)
  | [], [] => some []
  | context :: contexts, id :: ids => do
      let rule ← (MemoryStore.store.getContextRule store id).filter
        (signedFor sequence signers context)
      let rest ← selectSigned store sequence signers contexts ids
      pure (⟨context, id, rule, rule.signers⟩ :: rest)
  | _, _ => none

theorem selectSigned_eq_some {store : MemoryStore} {sequence : UInt32} {signers : List Signer}
    {contexts : List Context} {ids : List UInt32} {selected : List Setting.Selection}
    (selects : selectSigned store sequence signers contexts ids = some selected) :
    selected.map Setting.Selection.context = contexts ∧
      selected.map Setting.Selection.id = ids ∧
      ∀ selection ∈ selected,
        MemoryStore.store.getContextRule store selection.id = some selection.rule ∧
          selection.authenticated = selection.rule.signers ∧ selection.rule.policies = [] := by
  induction contexts, ids using selectSigned.induct generalizing selected with
  | case1 =>
      simp only [selectSigned, Option.some.injEq] at selects
      subst selects
      simp
  | case2 context contexts id ids ih =>
      simp only [selectSigned, Option.bind_eq_bind, Option.bind_eq_some_iff,
        Option.filter_eq_some_iff, Option.pure_def, Option.some.injEq] at selects
      obtain ⟨rule, ⟨found, passes⟩, rest, selects, rfl⟩ := selects
      obtain ⟨contexts, ids, each⟩ := ih selects
      refine ⟨by simp [contexts], by simp [ids], ?_⟩
      intro selection member
      rcases List.mem_cons.mp member with rfl | later
      · exact ⟨found, rfl, (signedFor_iff.mp passes).policyFree⟩
      · exact each selection later
  | case3 => simp [selectSigned] at selects

theorem selectSigned_isSome {store : MemoryStore} {sequence : UInt32} {signers : List Signer}
    {contexts : List Context} {ids : List UInt32}
    (each : List.Forall₂ (fun context id => ∃ rule,
      MemoryStore.store.getContextRule store id = some rule ∧
        SignedFor rule sequence signers context) contexts ids) :
    ∃ selected, selectSigned store sequence signers contexts ids = some selected := by
  induction each with
  | nil => exact ⟨[], rfl⟩
  | cons head _ ih =>
      obtain ⟨rule, found, passes⟩ := head
      obtain ⟨rest, selects⟩ := ih
      have kept := Option.filter_eq_some_iff.mpr ⟨found, signedFor_iff.mpr passes⟩
      exact ⟨_ :: rest, by
        simp only [selectSigned, kept, selects, Option.bind_eq_bind, Option.bind_some,
          Option.pure_def]
        rfl⟩

/-- The sample account, where no recovery controller runs: what its document names
is another contract. -/
def strangerSetting : Setting MemoryStore :=
  { sampleSetting with
    deployed := fun _ => false
    foreign := fun _ => true
    apart := by simp }

/-- Signatures that repeat the digest, on rules without policies. -/
def signedAuth : strangerSetting.CheckAuth where
  run around digest payload contexts store world :=
    if ∀ signature ∈ payload.signatures, signature.2 = digest.bytes then
      match selectSigned store around.env.sequence (payload.signatures.map Prod.fst) contexts
          payload.contextRuleIds with
      | some _ => .ok world
      | none => .error ()
    else .error ()
  enforces := by
    intro around digest payload contexts store world world' ran
    split at ran
    · split at ran
      · rename_i selected selects
        obtain ⟨contexts, ids, each⟩ := selectSigned_eq_some selects
        refine ⟨selected, contexts, ids, ?_, ?_⟩
        · intro selection member
          obtain ⟨found, all, _⟩ := each selection member
          rw [all]
          exact ⟨found, fun _ listed => listed⟩
        · have none : selected.flatMap Setting.Selection.calls = [] := by
            rw [List.flatMap_eq_nil_iff]
            intro selection member
            simp [Setting.Selection.calls, (each selection member).2.2]
          rw [none, ← Except.ok.inj ran]
          rfl
      · cases ran
    · cases ran

theorem signedAuth_accepts : signedAuth.AcceptsSigned
    fun _ digest _ signature => signature.2 = digest.bytes := by
  intro around digest payload contexts store world genuine each
  obtain ⟨selected, selects⟩ := selectSigned_isSome each
  simp only [signedAuth]
  rw [if_pos genuine, selects]

/-- The contract answers `rcv_sync` as a recovery controller would. -/
def strangerAround (sequence : UInt32) : Surroundings :=
  { sampleAround sequence with foreignSync := fun _ _ _ _ => .ok .enrolled }

def adopting : Invocation strangerSetting where
  around := strangerAround 2
  action := .applyDoc (Ir.utf8 (Ir.canonicalJson enrollingDoc)) 10 none

def freezing : Invocation strangerSetting where
  around := strangerAround 3
  action := .gate sampleController 0 1000

def strangerFrozen : Except AccountFailure (State MemoryStore) := do
  let account ← installAdmin sampleCode (strangerSetting.callees (strangerAround 1)) 1
    [.delegated (.account (BytesN.fill 8))] .empty sampleWorld
  let (_, state) ← adopting.run strangerSetting { account := account, world := sampleWorld }
  let (_, state) ← freezing.run strangerSetting state
  pure state

set_option maxRecDepth 16384 in
theorem strangerFrozen_gate : strangerFrozen.toOption.map
    (fun state => state.account.storage.gate.map FreezeGate.untilLedger) = some (some 1000) := by
  simp only [strangerFrozen, adopting, Invocation.run, applyDoc, apply,
    show strangerSetting.code = sampleSetting.code from rfl, enrollingDoc_compiles]
  decide +kernel

/-- The account adopts a contract that is no recovery controller, which freezes
it. -/
theorem strangerFrozen_lived : ∃ adopted applied frozen,
    Lived strangerSetting [⟨adopted, freezing, .ok .done, frozen⟩, applied] 3 frozen ∧
      frozen.account.storage.gate.map FreezeGate.untilLedger = some 1000 := by
  obtain ⟨frozen, ran, gate⟩ := Option.map_eq_some_iff.mp strangerFrozen_gate
  have ran := toOption_eq_some.mp ran
  simp only [strangerFrozen, bind_eq_ok, pure_eq_ok, Prod.exists] at ran
  obtain ⟨account, built, _, adopted, applies, reply, _, freezes, rfl⟩ := ran
  obtain rfl : .done = reply := by
    simp only [Invocation.run, freezing, gateElsewhere, bind_eq_ok, pure_eq_ok,
      Prod.mk.injEq] at freezes
    obtain ⟨_, _, _, _, done, _⟩ := freezes
    exact done
  have fresh : Origin strangerSetting { account := account, world := sampleWorld } :=
    ⟨⟨strangerAround 1, _, .empty, fun _ => rfl, built⟩, fun _ => rfl, fun _ _ => rfl⟩
  have called : Execution (system strangerSetting) 2 { account := account, world := sampleWorld }
      [_] 2 _ := .call adopting .refl rfl
  rw [step_of_ok applies] at called
  have called := (called.wait (by decide : (2 : UInt32) ≤ 3)).call freezing rfl
  rw [step_of_ok freezes] at called
  exact ⟨_, _, _, ⟨2, _, fresh, called⟩, gate⟩

/-- When the freeze is over the signers of the admin rule authorize `apply_doc`
again. -/
theorem account_administered_sample : ∃ adopted applied frozen id rule,
    Lived strangerSetting [⟨adopted, freezing, .ok .done, frozen⟩, applied] 3 frozen ∧
      strangerSetting.code.oz.getContextRule frozen.account.store id = some rule ∧
      rule.IsAdmin strangerSetting.code.deployment ∧
      ∀ signaturePayload, checkAuth strangerSetting.code 1002
        (signedAuth.run (strangerAround 1002)) signaturePayload
        { contextRuleIds := [id]
          signatures := rule.signers.map fun signer =>
            (signer, (bindPayload strangerSetting.code.deployment signaturePayload).bytes) }
        [applyContext strangerSetting []] frozen.account frozen.world = .ok frozen.world := by
  obtain ⟨adopted, applied, frozen, lived, gate⟩ := strangerFrozen_lived
  obtain ⟨⟨id, rule, admin, stays⟩, _⟩ :=
    account_administered memoryStore_refusesEmpty signedAuth_accepts lived
  obtain ⟨stored, can⟩ := stays [] 3 frozen .refl (by simp)
  refine ⟨adopted, applied, frozen, id, rule, lived, stored, admin, ?_⟩
  intro signaturePayload
  apply can (strangerAround 1002) signaturePayload
  · intro held found
    have known : frozen.account.storage.gate = some held := found
    rw [known, Option.map_some, Option.some.injEq] at gate
    rw [gate]
    rfl
  · rfl
  · intro signer listed
    simpa using listed
  · intro signature listed
    obtain ⟨signer, _, rfl⟩ := List.mem_map.mp listed
    rfl

end Sample

end Perch.Joint
