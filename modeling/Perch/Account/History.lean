/-
An account from its constructor on.

Every exported entry point that changes the account is a call here, and the
contracts it meets may answer anything.  Whatever they answer, the records
mirror the store, no two records share a slot, and the recovery rule's id is
that of the one flagged record.
-/

import Perch.Account.Apply
import Perch.Account.MemoryStore
import Perch.Document.LocalHost

namespace Perch.Account

open Machine Document Recovery

variable {σ ω : Type}

/-! ### Calls -/

inductive AccountCall
  | applyDoc (docJson : Bytes) (approvalValidUntil : UInt32) (expectedRevision : Option UInt64)
  | rcvGate (invoker : Address) (attemptId : UInt64) (frozenUntil : UInt32)
  | cancelRecovery (attemptId : UInt64)
  | scheduleUpgrade (wasmHash : Bytes32) (approvalValidUntil : UInt32)
  | executeUpgrade (requestId : UInt64)
  | cancelUpgrade

section Invoke

variable (code : AccountCode σ) (callees : Callees ω) (sequence : UInt32)

def invoke (call : AccountCall) (account : AccountState σ) (world : ω) :
    Except AccountFailure (AccountState σ × ω) :=
  match call with
  | .applyDoc docJson approvalValidUntil expectedRevision => do
      let (_, account, world) ← applyDoc code callees sequence docJson approvalValidUntil
        expectedRevision account world
      pure (account, world)
  | .rcvGate invoker attemptId frozenUntil => do
      let storage ← rcvGate invoker attemptId frozenUntil account.storage
      pure ({ account with storage := storage }, world)
  | .cancelRecovery attemptId => do
      let world ← cancelRecovery callees attemptId account world
      pure (account, world)
  | .scheduleUpgrade wasmHash approvalValidUntil => do
      let (_, storage, world) ← scheduleUpgrade callees sequence wasmHash approvalValidUntil
        account.storage world
      pure ({ account with storage := storage }, world)
  | .executeUpgrade requestId => do
      let (storage, world) ← executeUpgrade callees sequence requestId account.storage world
      pure ({ account with storage := storage }, world)
  | .cancelUpgrade => do
      let storage ← cancelUpgrade callees account.storage
      pure ({ account with storage := storage }, world)

end Invoke

def AccountState.ruleFields (account : AccountState σ) :
    Option (List InstalledRule) × Option UInt32 × Option Address × σ :=
  (account.storage.installedRules, account.storage.recoveryRule,
    account.storage.recoveryController, account.store)

section Frames

variable {code : AccountCode σ} {callees : Callees ω} {sequence : UInt32}
  {account account' : AccountState σ} {world world' : ω}

/-- Only an applied document touches the rules. -/
theorem invoke_eq_ok {call : AccountCall}
    (invoked : invoke code callees sequence call account world = .ok (account', world')) :
    (∃ docJson approvalValidUntil expectedRevision hash,
      call = .applyDoc docJson approvalValidUntil expectedRevision ∧
      applyDoc code callees sequence docJson approvalValidUntil expectedRevision account world =
        .ok (hash, account', world')) ∨
    account'.ruleFields = account.ruleFields := by
  cases call with
  | applyDoc docJson approvalValidUntil expectedRevision =>
      simp only [invoke, bind_eq_ok, pure_eq_ok, Prod.mk.injEq, Prod.exists] at invoked
      obtain ⟨hash, _, _, applied, rfl, rfl⟩ := invoked
      exact .inl ⟨docJson, approvalValidUntil, expectedRevision, hash, rfl, applied⟩
  | rcvGate invoker attemptId frozenUntil =>
      right
      simp only [invoke, rcvGate, bind_eq_ok, orFail_eq_ok, require_eq_ok, pure_eq_ok,
        Prod.mk.injEq] at invoked
      obtain ⟨storage, ⟨controller, _, _, _, gated⟩, rfl, rfl⟩ := invoked
      split at gated
      · rw [pure_eq_ok] at gated
        subst gated
        unfold AccountState.ruleFields
        split <;> rfl
      · rw [pure_eq_ok] at gated
        subst gated
        rfl
  | cancelRecovery attemptId =>
      right
      simp only [invoke, bind_eq_ok, pure_eq_ok, Prod.mk.injEq] at invoked
      obtain ⟨_, _, rfl, rfl⟩ := invoked
      rfl
  | scheduleUpgrade wasmHash approvalValidUntil =>
      right
      simp only [invoke, scheduleUpgrade, bind_eq_ok, orFail_eq_ok, require_eq_ok, pure_eq_ok,
        Prod.mk.injEq, Prod.exists] at invoked
      obtain ⟨_, _, _, ⟨_, _, _, _, _, _, _, _, _, rfl, rfl, rfl⟩, rfl, rfl⟩ := invoked
      rfl
  | executeUpgrade requestId =>
      right
      simp only [invoke, executeUpgrade, bind_eq_ok, orFail_eq_ok, require_eq_ok, pure_eq_ok,
        Prod.mk.injEq, Prod.exists, advanceGeneration_eq_ok, advanceRevision_eq_ok] at invoked
      obtain ⟨_, _, ⟨_, _, _, _, _, _, _, _, _, _, _, _, _, ⟨_, _, rfl⟩, _, ⟨_, _, rfl⟩, _, _, rfl,
        rfl⟩, rfl, rfl⟩ := invoked
      rfl
  | cancelUpgrade =>
      right
      simp only [invoke, cancelUpgrade, bind_eq_ok, require_eq_ok, pure_eq_ok, Prod.mk.injEq]
        at invoked
      obtain ⟨_, ⟨_, _, _, _, rfl⟩, rfl, rfl⟩ := invoked
      rfl

end Frames

/-! ### What holds of an account's rules -/

section Agreement

variable {code : AccountCode σ} {values : Set Val} {account account' : AccountState σ}

/-- The records are the store's rules, whose policies' parameters are among
`values`. -/
structure RulesAgree (code : AccountCode σ) (values : Set Val) (account : AccountState σ) :
    Prop where
  mirrors : Mirrors code.oz code.deployment account.store account.storage.rulesOf
  slots : (account.storage.rulesOf.map InstalledRule.slot).Nodup
  sound : ∀ c ∈ account.storage.rulesOf, c.Sound
  ownScope : ∀ c ∈ account.storage.rulesOf, c.recovery = true →
    c.contextType = .callContract code.deployment.address
  recoveryRule : account.storage.recoveryRule =
    (account.storage.rulesOf.find? InstalledRule.recovery).map InstalledRule.id
  params : ∀ id rule, code.oz.getContextRule account.store id = some rule →
    ∀ attached ∈ rule.attached, attached.2 ∈ values

theorem RulesAgree.widen {wider : Set Val} (agree : RulesAgree code values account)
    (part : values ⊆ wider) : RulesAgree code wider account :=
  { agree with
    params := fun id rule stored attached held =>
      part (agree.params id rule stored attached held) }

theorem RulesAgree.of_ruleFields (agree : RulesAgree code values account)
    (same : account'.ruleFields = account.ruleFields) : RulesAgree code values account' := by
  simp only [AccountState.ruleFields, Prod.mk.injEq] at same
  obtain ⟨installed, rule, _, store⟩ := same
  have records : account'.storage.rulesOf = account.storage.rulesOf :=
    congrArg (Option.getD · []) installed
  constructor
  · rw [store, records]
    exact agree.mirrors
  · rw [records]
    exact agree.slots
  · rw [records]
    exact agree.sound
  · rw [records]
    exact agree.ownScope
  · rw [rule, records]
    exact agree.recoveryRule
  · rw [store]
    exact agree.params

theorem RulesAgree.flagged_unique (agree : RulesAgree code values account) {c c' : InstalledRule}
    (held : c ∈ account.storage.rulesOf) (held' : c' ∈ account.storage.rulesOf)
    (flagged : c.recovery = true) (flagged' : c'.recovery = true) : c = c' := by
  apply List.inj_on_of_nodup_map agree.slots held held'
  simp only [InstalledRule.slot, flagged, flagged', if_true, agree.ownScope c held flagged,
    agree.ownScope c' held' flagged']

theorem RulesAgree.recoveryRule_iff (agree : RulesAgree code values account) {c : InstalledRule}
    (held : c ∈ account.storage.rulesOf) :
    account.storage.recoveryRule = some c.id ↔ c.recovery = true := by
  rw [agree.recoveryRule, Option.map_eq_some_iff]
  constructor
  · rintro ⟨found, first, same⟩
    have present := List.mem_of_find?_eq_some first
    obtain rfl := List.inj_on_of_nodup_map agree.mirrors.ids present held same
    exact List.find?_some first
  · intro flagged
    cases first : account.storage.rulesOf.find? InstalledRule.recovery with
    | none => exact absurd flagged (List.find?_eq_none.mp first c held)
    | some found =>
        have present := List.mem_of_find?_eq_some first
        exact ⟨found, rfl, congrArg InstalledRule.id
          (agree.flagged_unique present held (List.find?_some first) flagged)⟩

variable {callees : Callees ω} {sequence : UInt32} {world world' : ω}

theorem Wanted.attached_params {d : AccountDeployment} {wanted : Wanted d}
    {attached : Address × Val}
    (member : attached ∈ wanted.attached) : attached.2 ∈ wanted.params := by
  obtain ⟨⟨policy, param⟩, zipped, rfl⟩ := List.mem_map.mp member
  exact (List.of_mem_zip zipped).2

/-- The parameters the rules of a document are installed with at a ledger. -/
def paramsOf (code : AccountCode σ) (sequence : UInt32) (compiled : CompiledDoc) : List Val :=
  (desired code.deployment sequence compiled).flatMap Wanted.params

theorem mem_paramsOf {wanted : Wanted code.deployment} {compiled : CompiledDoc}
    (asked : wanted ∈ desired code.deployment sequence compiled) {attached : Address × Val}
    (member : attached ∈ wanted.attached) : attached.2 ∈ paramsOf code sequence compiled :=
  List.mem_flatMap.mpr ⟨wanted, asked, Wanted.attached_params member⟩

theorem RulesAgree.matching (agree : RulesAgree code values account)
    (pins : code.deployment.infra.interpreter ≠ code.deployment.infra.spendingLimit)
    {doc : Ir.PolicyDoc} {compiled : CompiledDoc} (compiles : Compiles code.host doc compiled) :
    Matching code.oz account.store account.storage.rulesOf
      (desired code.deployment sequence compiled) where
  mirrors := agree.mirrors
  slots := agree.slots
  sound := agree.sound
  wantedSlots := desired_slots_nodup compiles.names_nodup sequence
  wantedSound _ asked := desired_sound pins asked

theorem RulesAgree.setting (agree : RulesAgree code values account)
    (pins : code.deployment.infra.interpreter ≠ code.deployment.infra.spendingLimit)
    (collisionFree : Set.InjOn code.deployment.digest values) {doc : Ir.PolicyDoc}
    {compiled : CompiledDoc} (compiles : Compiles code.host doc compiled)
    (known : ∀ value ∈ paramsOf code sequence compiled, value ∈ values) :
    Setting code.oz account.store account.storage.rulesOf
      (desired code.deployment sequence compiled) := by
  refine { toMatching := agree.matching pins compiles, collisionFree := ?_ }
  intro id rule stored old held wanted asked new member same
  apply collisionFree (agree.params id rule stored old held) _ same
  exact known _ (mem_paramsOf asked member)

/-- The store holds the document's rules as far as the records tell. -/
theorem RulesAgree.of_brings (agree : RulesAgree code values account)
    (pins : code.deployment.infra.interpreter ≠ code.deployment.infra.spendingLimit)
    {doc : Ir.PolicyDoc} {compiled : CompiledDoc} (compiles : Compiles code.host doc compiled)
    (known : ∀ value ∈ paramsOf code sequence compiled, value ∈ values)
    (brings : Brings code.oz account.store account'.store account'.storage.rulesOf
      (desired code.deployment sequence compiled))
    (recoveryRule : account'.storage.recoveryRule =
      (account'.storage.rulesOf.find? InstalledRule.recovery).map InstalledRule.id) :
    RulesAgree code values account' := by
  refine
    { mirrors := brings.mirrors
      slots := ?_
      sound := ?_
      ownScope := ?_
      recoveryRule := recoveryRule
      params := ?_ }
  · rw [brings.slots]
    exact desired_slots_nodup compiles.names_nodup sequence
  · intro c held
    obtain ⟨wanted, asked, same, _⟩ := exists_of_mem_left brings.installed held
    rw [same]
    have sound := desired_sound pins asked
    exact ⟨sound.policies, sound.recovery⟩
  · intro c held flagged
    obtain ⟨wanted, asked, same, _⟩ := exists_of_mem_left brings.installed held
    rw [same] at flagged ⊢
    exact desired_flagged asked flagged
  · intro id rule stored attached member
    obtain ⟨c, held, rfl⟩ := List.mem_map.mp (brings.complete id rule stored)
    obtain ⟨wanted, asked, _, found, foundStored, answers⟩ :=
      exists_of_mem_left brings.installed held
    obtain rfl : found = rule := Option.some.inj (foundStored.symm.trans stored)
    rcases answers.policies.sources attached member with among | ⟨other, before, present, was⟩
    · exact known _ (mem_paramsOf asked among)
    · exact agree.params other before present attached was

section Effect

variable {mode : Mode} {docJson : Bytes} {approvalValidUntil : UInt32} {compiled : CompiledDoc}
  {leaf : Option CompiledZkFactor} {outcome : SyncOutcome} {synced : ω}

/-- A successful apply leaves the document's rules as far as the records tell. -/
theorem ApplyEffect.brings (documented : code.oz.Documented)
    (pins : code.deployment.infra.interpreter ≠ code.deployment.infra.spendingLimit)
    (effect : ApplyEffect code callees sequence mode docJson approvalValidUntil account world
      compiled leaf outcome synced account' world')
    (agree : RulesAgree code values account) :
    Brings code.oz account.store account'.store account'.storage.rulesOf
      (desired code.deployment sequence compiled) := by
  obtain ⟨doc, _, parsed⟩ := compileDoc_eq_ok.mp effect.compiles
  obtain ⟨sum, reconciled⟩ := effect.reconciled
  have matching : Matching code.oz account.store account.storage.rulesOf
      (desired code.deployment sequence compiled) :=
    agree.matching pins (compileParsed_eq_ok parsed)
  exact ((reconcile_brings documented matching mode).sound _ reconciled).1

theorem ApplyEffect.realizes (documented : code.oz.Documented)
    (pins : code.deployment.infra.interpreter ≠ code.deployment.infra.spendingLimit)
    (collisionFree : Set.InjOn code.deployment.digest values)
    (effect : ApplyEffect code callees sequence mode docJson approvalValidUntil account world
      compiled leaf outcome synced account' world')
    (known : ∀ value ∈ paramsOf code sequence compiled, value ∈ values)
    (agree : RulesAgree code values account) :
    Realizes code.oz account'.store account'.storage.rulesOf
      (desired code.deployment sequence compiled) := by
  obtain ⟨doc, _, parsed⟩ := compileDoc_eq_ok.mp effect.compiles
  exact (effect.brings documented pins agree).realizes
    (agree.setting pins collisionFree (compileParsed_eq_ok parsed) known)

theorem ApplyEffect.rulesAgree (documented : code.oz.Documented)
    (pins : code.deployment.infra.interpreter ≠ code.deployment.infra.spendingLimit)
    (effect : ApplyEffect code callees sequence mode docJson approvalValidUntil account world
      compiled leaf outcome synced account' world')
    (known : ∀ value ∈ paramsOf code sequence compiled, value ∈ values)
    (agree : RulesAgree code values account) :
    RulesAgree code values account' := by
  obtain ⟨doc, _, parsed⟩ := compileDoc_eq_ok.mp effect.compiles
  exact agree.of_brings pins (compileParsed_eq_ok parsed) known
    (effect.brings documented pins agree) effect.recoveryRule

end Effect

theorem installAdmin_rulesAgree (documented : code.oz.Documented) {adminSigners : List Signer}
    {store : σ} (fresh : ∀ id, code.oz.getContextRule store id = none)
    (built : installAdmin code callees sequence adminSigners store world = .ok account) :
    RulesAgree code values account := by
  simp only [installAdmin, bind_eq_ok, mapError_eq_ok, pure_eq_ok, Prod.exists] at built
  obtain ⟨id, store', added, rfl⟩ := built
  have policyFree : (([] : List (Address × Val)).map Prod.fst).Nodup := List.nodup_nil
  obtain ⟨_, _, attached, policies, stored⟩ := documented.addContextRule_sound policyFree added
  have unattached : attached = [] := List.map_eq_nil_iff.mp (List.Perm.eq_nil policies)
  subst unattached
  have onlyAdmin : ∀ other rule, code.oz.getContextRule store' other = some rule →
      other = id ∧ rule = ⟨.callContract code.deployment.address, adminName, none, adminSigners,
        []⟩ := by
    intro other rule found
    rw [stored, Function.update_apply] at found
    split at found
    · exact ⟨‹_›, (Option.some.inj found).symm⟩
    · rw [fresh] at found
      cases found
  refine
    { mirrors :=
        { ids := by simp [AccountStorage.rulesOf]
          complete := ?_
          recorded := ?_ }
      slots := by simp [AccountStorage.rulesOf]
      sound := ?_
      ownScope := ?_
      recoveryRule := rfl
      params := ?_ }
  · intro other rule found
    simp [AccountStorage.rulesOf, adminRule, (onlyAdmin other rule found).1]
  · intro c held
    obtain rfl := List.mem_singleton.mp held
    refine ⟨_, (congrFun stored id).trans (Function.update_self ..), ?_⟩
    exact ⟨rfl, rfl, rfl, rfl, .nil⟩
  · intro c held
    obtain rfl := List.mem_singleton.mp held
    exact ⟨List.nodup_nil, fun flagged => by cases flagged⟩
  · intro c held flagged
    obtain rfl := List.mem_singleton.mp held
    cases flagged
  · intro other rule found attached member
    rw [(onlyAdmin other rule found).2] at member
    cases member

end Agreement

/-! ### Histories -/

/-- What an account went through: the successful calls since the constructor,
newest first, each with its ledger.  What the callees keep and answer may be
anything at every call. -/
inductive Reaches (code : AccountCode σ) (ω : Type) :
    List (UInt32 × AccountCall) → AccountState σ → Prop where
  | built {callees : Callees ω} {sequence : UInt32} {adminSigners : List Signer} {store : σ}
      {world : ω} {account : AccountState σ}
      (fresh : ∀ id, code.oz.getContextRule store id = none)
      (installed : installAdmin code callees sequence adminSigners store world = .ok account) :
      Reaches code ω [] account
  | called {history : List (UInt32 × AccountCall)} {account account' : AccountState σ}
      {callees : Callees ω} {sequence : UInt32} {call : AccountCall} {world world' : ω}
      (reached : Reaches code ω history account)
      (invoked : invoke code callees sequence call account world = .ok (account', world')) :
      Reaches code ω ((sequence, call) :: history) account'

/-- The policy parameters a call's document is installed with. -/
def AccountCall.params (code : AccountCode σ) (sequence : UInt32) : AccountCall → List Val
  | .applyDoc docJson _ _ =>
      match compileDoc code.host docJson with
      | .ok compiled => paramsOf code sequence compiled
      | .error _ => []
  | _ => []

theorem params_of_compiles {code : AccountCode σ} {docJson : Bytes} {compiled : CompiledDoc}
    (compiles : compileDoc code.host docJson = .ok compiled) (sequence validUntil : UInt32)
    (expected : Option UInt64) :
    (AccountCall.applyDoc docJson validUntil expected).params code sequence =
      paramsOf code sequence compiled := by
  rw [AccountCall.params, compiles]

/-- A successful call keeps the records and the store in agreement. -/
theorem RulesAgree.invoked {code : AccountCode σ} (documented : code.oz.Documented)
    (pins : code.deployment.infra.interpreter ≠ code.deployment.infra.spendingLimit)
    {callees : Callees ω} {sequence : UInt32} {call : AccountCall}
    {account account' : AccountState σ} {world world' : ω}
    (agree : RulesAgree code Set.univ account)
    (invoked : invoke code callees sequence call account world = .ok (account', world')) :
    RulesAgree code Set.univ account' := by
  rcases invoke_eq_ok invoked with ⟨docJson, validUntil, expected, hash, rfl, applied⟩ | same
  · obtain ⟨compiled, leaf, outcome, synced, _, effect⟩ := apply_eq_ok applied
    exact effect.rulesAgree documented pins (fun _ _ => trivial) agree
  · exact agree.of_ruleFields same

theorem Reaches.rulesAgree {code : AccountCode σ} (documented : code.oz.Documented)
    (pins : code.deployment.infra.interpreter ≠ code.deployment.infra.spendingLimit)
    {history : List (UInt32 × AccountCall)} {account : AccountState σ}
    (reached : Reaches code ω history account) : RulesAgree code Set.univ account := by
  induction reached with
  | built fresh installed => exact installAdmin_rulesAgree documented fresh installed
  | called _ invoked ih => exact ih.invoked documented pins invoked

/-! ### Delta apply -/

/-- Reconciling at the lowest price leaves what a full replace leaves, under
ids that differ only where a rule is new; so the records of an account mirror
its store for as long as it lives. -/
theorem delta_apply_mirrors {code : AccountCode σ} (documented : code.oz.Documented)
    (pins : code.deployment.infra.interpreter ≠ code.deployment.infra.spendingLimit) :
    (∀ (env : OzEnv) (store : σ) (current : List InstalledRule)
      (wanted : List (Wanted code.deployment)), Setting code.oz store current wanted →
      (Ready code.oz env store wanted →
        (∃ delta, reconcile code.oz env code.deployment.infra .cheapest current wanted store =
          .ok delta) ∧
        ∃ full, reconcile code.oz env code.deployment.infra .fullReplace current wanted store =
          .ok full) ∧
      ∀ records sum after,
        reconcile code.oz env code.deployment.infra .cheapest current wanted store =
          .ok (records, sum, after) →
        Realizes code.oz after records wanted ∧ Mirrors code.oz code.deployment after records ∧
        List.Forall₂ (fun priced record => ∀ c,
            priced.decision = .keep c ∨ priced.decision = .inPlace c →
              c ∈ current ∧ c.slot = record.slot ∧ record.id = c.id)
          (priced code.deployment.infra .cheapest current wanted) records ∧
        ∀ replaced sum' full,
          reconcile code.oz env code.deployment.infra .fullReplace current wanted store =
            .ok (replaced, sum', full) →
          SameUpToIds code.oz after full) ∧
    ∀ (ω : Type) (history : List (UInt32 × AccountCall)) (account : AccountState σ),
      Reaches code ω history account →
      Mirrors code.oz code.deployment account.store account.storage.rulesOf ∧
      (account.storage.rulesOf.map InstalledRule.slot).Nodup ∧
      (∀ id, account.storage.recoveryRule = some id ↔
        ∃ c ∈ account.storage.rulesOf, c.recovery = true ∧ c.id = id) ∧
      (∀ c ∈ account.storage.rulesOf, ∀ c' ∈ account.storage.rulesOf,
        c.recovery = true → c'.recovery = true → c = c') := by
  constructor
  · intro env store current wanted setting
    have reconciles := fun mode =>
      @reconcile_meets _ _ env _ _ _ _ documented setting mode
    have delta := reconciles .cheapest
    have full := reconciles .fullReplace
    refine ⟨fun ready => ⟨delta.total ready, full.total ready⟩, ?_⟩
    intro records sum after reconciled
    have realizes := delta.sound _ reconciled
    refine ⟨realizes, realizes.mirrors, ?_, ?_⟩
    · exact reconcile_keepsIds documented setting.toMatching (by decide) reconciled
    · intro replaced sum' other replacedAll
      exact realizes.sameUpToIds (full.sound _ replacedAll)
  · intro ω history account reached
    have agree := reached.rulesAgree documented pins
    refine ⟨agree.mirrors, agree.slots, ?_, ?_⟩
    · intro id
      constructor
      · intro named
        rw [agree.recoveryRule, Option.map_eq_some_iff] at named
        obtain ⟨c, first, rfl⟩ := named
        exact ⟨c, List.mem_of_find?_eq_some first, List.find?_some first, rfl⟩
      · rintro ⟨c, held, flagged, rfl⟩
        exact (agree.recoveryRule_iff held).mpr flagged
    · intro c held c' held' flagged flagged'
      exact agree.flagged_unique held held' flagged flagged'

section Sample

def samplePay (function : String) : Ir.Rule where
  name := "pay"
  scope := .contract "CADQOBYHA4DQOBYHA4DQOBYHA4DQOBYHA4DQOBYHA4DQOBYHA4DQP5KR"
  principals := .all ["a"]
  functions := some [function]
  args := none
  notAfterLedger := none
  cap := none

/-- An admin rule, and a rule that may call one function of one contract. -/
def sampleDoc (function : String) : Ir.PolicyDoc where
  version := 1
  network := some "T"
  signers :=
    [{ id := "a"
       method := .delegated "GAAQCAIBAEAQCAIBAEAQCAIBAEAQCAIBAEAQCAIBAEAQCAIBAEAQDZ7H" }]
  rules :=
    [{ name := "admin", scope := .selfAdmin, principals := .all ["a"], functions := none
       args := none, notAfterLedger := none, cap := none },
     samplePay function]
  recovery := none

def sampleCode : AccountCode MemoryStore where
  deployment :=
    { sha256 := localSha256
      address := .contract (BytesN.fill 1)
      infra :=
        { docCompiler := .contract (BytesN.fill 2)
          interpreter := .contract (BytesN.fill 3)
          spendingLimit := .contract (BytesN.fill 4) }
      toXdr := fun
        | .bytes value => 13 :: value
        | .other xdr => xdr
      installVal := fun params => .other (params.program.ops.flatMap fun
        | .fnIn names => names.flatMap Ir.utf8
        | _ => [])
      capVal := fun cap =>
        .other (beBytes 16 cap.spendingLimit.toNat ++ beBytes 4 cap.periodLedgers.toNat) }
  host := localHost "T"
  oz := MemoryStore.store
  sameHash := rfl

def sampleCallees : Callees Unit where
  rcvSync _ _ _ _ _ := .error .trapped
  rcvCancel _ _ _ := .error .trapped
  rcvUpgrade _ _ _ := .error .trapped
  rcvInsert _ _ _ _ := .error none
  install _ _ _ _ := .ok ()
  authorized := true
  uploaded _ := false

def sampleSigner : Signer := .delegated (.account (BytesN.fill 1))

def sampleApply (function : String) : AccountCall :=
  .applyDoc (Ir.utf8 (Ir.canonicalJson (sampleDoc function))) 10 none

/-- The function is set, and changed by a second apply. -/
def sampleHistory : List (UInt32 × AccountCall) :=
  [(3, sampleApply "mint"), (2, sampleApply "pay")]

def sampleRun : Except AccountFailure (AccountState MemoryStore) := do
  let account ← installAdmin sampleCode sampleCallees 1 [.delegated (.account (BytesN.fill 9))]
    .empty ()
  let (account, _) ← invoke sampleCode sampleCallees 2 (sampleApply "pay") account ()
  let (account, _) ← invoke sampleCode sampleCallees 3 (sampleApply "mint") account ()
  pure account

def textBytes (text : List Char) : Bytes := text.flatMap String.utf8EncodeChar

def sampleCompiled (function : String) : CompiledDoc where
  docHash := localSha256 (textBytes (Ir.writeValue (Ir.docToCv (sampleDoc function))))
  canonical := textBytes (Ir.writeValue (Ir.docToCv (sampleDoc function)))
  fingerprints :=
    ((Credential.delegated (.account (BytesN.fill 1))).fingerprint localSha256).toOption.toList
  rules :=
    [{ name := Ir.utf8 "admin", scope := .selfAdmin, signers := [sampleSigner], validUntil := none
       install := [], cap := [] },
     { name := Ir.utf8 "pay", scope := .contract (.contract (BytesN.fill 7))
       signers := [sampleSigner], validUntil := none
       install :=
         [{ program := { version := 1, ops := [.minSigners 1, .fnIn [function], .all 2] }
            docHash := localSha256 (Ir.ruleHashDomain ++
              textBytes (Ir.writeValue (Ir.ruleToCv (samplePay function)))) }]
       cap := [] }]
  recovery := []

set_option maxRecDepth 16384 in
theorem samplePay_compiles :
    compileDoc sampleCode.host (Ir.utf8 (Ir.canonicalJson (sampleDoc "pay"))) =
      .ok (sampleCompiled "pay") := by
  rw [show sampleCode.host = localHost "T" from rfl, compileDoc_of_doc Ir.jsonReader_conforms rfl]
  simp only [compileParsed, Ir.canonicalJson, utf8_ofList]
  decide +kernel

set_option maxRecDepth 16384 in
theorem sampleMint_compiles :
    compileDoc sampleCode.host (Ir.utf8 (Ir.canonicalJson (sampleDoc "mint"))) =
      .ok (sampleCompiled "mint") := by
  rw [show sampleCode.host = localHost "T" from rfl, compileDoc_of_doc Ir.jsonReader_conforms rfl]
  simp only [compileParsed, Ir.canonicalJson, utf8_ofList]
  decide +kernel

set_option maxRecDepth 16384 in
theorem sampleRun_ok : sampleRun.toOption.isSome = true := by
  simp only [sampleRun, invoke, sampleApply, applyDoc, apply, samplePay_compiles,
    sampleMint_compiles]
  decide +kernel

theorem sampleRun_reaches {account : AccountState MemoryStore} (ran : sampleRun = .ok account) :
    Reaches sampleCode Unit sampleHistory account := by
  simp only [sampleRun, bind_eq_ok, pure_eq_ok, Prod.exists] at ran
  obtain ⟨built, installed, first, _, invokedFirst, second, _, invokedSecond, rfl⟩ := ran
  have reached : Reaches sampleCode Unit [] built := .built (fun _ => rfl) installed
  exact (reached.called invokedFirst).called invokedSecond

theorem delta_apply_mirrors_sample :
    ∃ account, Reaches sampleCode Unit sampleHistory account ∧
      Mirrors sampleCode.oz sampleCode.deployment account.store account.storage.rulesOf ∧
      (account.storage.rulesOf.map InstalledRule.slot).Nodup := by
  obtain ⟨account, ran⟩ := Option.isSome_iff_exists.mp sampleRun_ok
  have reached := sampleRun_reaches (toOption_eq_some.mp ran)
  have documented : sampleCode.oz.Documented := MemoryStore.documented
  have mirrors := (delta_apply_mirrors documented (by decide)).2 Unit sampleHistory account reached
  exact ⟨account, reached, mirrors.1, mirrors.2.1⟩

end Sample

end Perch.Account
