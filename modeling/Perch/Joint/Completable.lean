/-
An authorized recovery can complete.

A completion passes three contracts, and each checks again what was checked
when the attempt began.  None of them refuses: the controller finds the attempt
it authorized and its marker, the account finds a target that still fits it,
and the pool an id it has never seen.  What can still stop a completion is the
host, the rule store, and contracts that are not modelled.
-/

import Perch.Account.Refusals
import Perch.Joint.Targets

namespace Perch.Joint

open Machine Document Recovery Account

variable {σ : Type} {S : Setting σ}

/-! ### At the controller -/

section Controller

variable {d : Deployment} {e : Env} {s : Recovery.Storage} {account : Address} {a : Attempt}

/-- The marker that a confirmation of the attempt leaves. -/
def confirm (e : Env) (s : Recovery.Storage) (account : Address) (a : Attempt) :
    Recovery.Storage :=
  { s with
    completing := Function.update s.completing account
      (some (Temporary.write e.sequence e.minTemporaryTtl (s.completing account)
        { attemptId := a.id, targetDocHash := a.targetDocHash, ledger := e.sequence })) }

theorem enforce_confirms {config : CompiledRecoveryConfig} {target : Bytes} {rest : List Val}
    {rule : ContextRule} (authorized : e.requireAuth account = true)
    (unsigned : rule.signers = []) (scope : rule.contextType = .callContract account)
    (enrolled : s.config account = some config)
    (found : authorizedLive e.sequence s account = some a)
    (due : a.executableAfter ≤ e.sequence) (named : d.sha256 target = a.targetBytesHash) :
    enforce d e s
        (.contract { contract := account, fnName := "apply_doc", args := .bytes target :: rest })
        [] rule account = .ok (confirm e s account a) := by
  simp [enforce, assertRecoveryRule, authorizeCompletion, requireConfig, require, orFail,
    authorized, unsigned, scope, enrolled, found, due, named, Val.toBytes?, confirm]

/-- A marker lasts through its ledger if entries live at all, and another ledger
is to come. -/
theorem read_write {now minimumTtl later : UInt32} (lasting : 0 < minimumTtl)
    (more : now < later) {α : Type} (entry : Option (Temporary α)) (value : α) :
    Temporary.read now (some (Temporary.write now minimumTtl entry value)) = some value := by
  apply Temporary.read_eq_some.mpr
  refine ⟨_, rfl, ?_, Temporary.write_value ..⟩
  have short : now ≤ saturatingSub (saturatingAdd now minimumTtl) 1 := by
    rw [UInt32.lt_iff_toNat_lt] at lasting more
    rw [UInt32.le_iff_toNat_le, toNat_saturatingSub, toNat_saturatingAdd]
    have bound := later.toNat_lt
    have one : (1 : UInt32).toNat = 1 := rfl
    have zero : (0 : UInt32).toNat = 0 := rfl
    omega
  unfold Temporary.write
  split
  · split
    · assumption
    · exact short
  · exact short

/-- A refusal, and not for want of the marker if markers are kept. -/
def Refused (kept : Prop) (failure : Failure) : Prop :=
  ∃ error, failure = .refused error ∧ (error = .attemptAuthorized → kept)

theorem storeConfig_unrefused (s : Recovery.Storage) (account : Address)
    (config : CompiledRecoveryConfig) (kept : Prop) :
    Avoids (Refused kept) (storeConfig s account config) := by
  refine .bind (.bind (.orFail fun _ => ?_) fun _ _ => .pure _) fun _ _ => .pure _
  simp [Refused]

theorem complete_unrefused {new : CompiledRecoveryConfig} {marker : CompletionMarker}
    (found : authorizedLive e.sequence s account = some a) (own : marker.attemptId = a.id)
    (named : marker.targetDocHash = a.targetDocHash) (here : new.controller = d.address)
    (terms : new.configHash = a.targetConfigHash)
    (unspent : ∀ n ∈ a.zkNullifier, s.nullifier (account, n) = none) (kept : Prop) :
    Avoids (Refused kept) (complete d e s account marker (some new) a.targetDocHash) := by
  unfold complete
  rw [found]
  refine .bind (.orFail fun missing => by cases missing) fun b same => ?_
  obtain rfl := Option.some.inj (orFail_eq_ok.mp same)
  refine .bind (.require fun differ => absurd ?_ differ) fun _ _ => ?_
  · simp [own, named]
  refine .bind (.orFail fun missing => by cases missing) fun config same => ?_
  obtain rfl := Option.some.inj (orFail_eq_ok.mp same)
  refine .bind (.require fun differ => absurd ?_ differ) fun _ _ => ?_
  · simp [here, terms]
  refine .bind ?_ fun spent _ => ?_
  · cases held : a.zkNullifier with
    | none => exact .pure _
    | some n =>
        refine .bind (.require fun spent => ?_) fun _ _ => .pure _
        exact absurd (unspent n held) spent
  · exact .bind (storeConfig_unrefused _ _ _ kept) fun _ _ => .pure _

/-- Right after the confirmation, the controller completes the attempt or traps.
It refuses only where the marker is already gone. -/
theorem rcvSync_unrefused {e' : Env} {new : CompiledRecoveryConfig}
    {recovery : List CompiledRecoveryConfig} {validUntil : UInt32}
    (clock : e'.sequence = e.sequence) (found : authorizedLive e.sequence s account = some a)
    (more : e.sequence < a.expiresAt) (first : recovery.head? = some new)
    (here : new.controller = d.address) (terms : new.configHash = a.targetConfigHash)
    (unspent : ∀ n ∈ a.zkNullifier, s.nullifier (account, n) = none) :
    Avoids (Refused (0 < e.minTemporaryTtl))
      (rcvSync d e' (confirm e s account a) account a.targetDocHash recovery validUntil) := by
  have marked : (confirm e s account a).completing account =
      some (Temporary.write e.sequence e.minTemporaryTtl (s.completing account)
        { attemptId := a.id, targetDocHash := a.targetDocHash, ledger := e.sequence }) :=
    Function.update_self ..
  have live : authorizedLive e.sequence (confirm e s account a) account = some a := found
  unfold rcvSync
  refine .bind (.require fun _ => by simp [Refused]) fun _ _ => ?_
  rw [first, clock, marked]
  cases read : Temporary.read e.sequence (some (Temporary.write e.sequence e.minTemporaryTtl
      (s.completing account)
      { attemptId := a.id, targetDocHash := a.targetDocHash, ledger := e.sequence })) with
  | none =>
      refine .bind (.require fun _ => ?_) fun _ quiet => ?_
      · rintro ⟨_, ⟨⟩, kept⟩
        rw [read_write (kept rfl) more] at read
        cases read
      · rw [require_eq_ok, clock, live] at quiet
        cases quiet
  | some marker =>
      obtain ⟨_, same, _, rfl⟩ := Temporary.read_eq_some.mp read
      obtain rfl := Option.some.inj same
      have own : authorizedLive e'.sequence
          (removeCompleting (confirm e s account a) account) account = some a := clock.symm ▸ found
      rw [Temporary.write_value]
      refine .ite (fun _ => ?_) fun other => absurd ?_ other
      · refine complete_unrefused own ?_ ?_ here terms unspent _ <;> rfl
      · rw [← clock, own]
        simp

end Controller

/-! ### What is approved -/

/-- The refusals that would keep an authorized recovery from completing: the
account's and its compiler's, the controller's and its `install`'s, and the
pool's. -/
inductive Locks (controller : Address) (kept : Prop) : AccountFailure → Prop
  | adminLockout : Locks controller kept (.refused .adminLockout)
  | revokedCredential : Locks controller kept (.refused .revokedCredential)
  | zkFactorChangedInPlace : Locks controller kept (.refused .zkFactorChangedInPlace)
  | enrollmentReused : Locks controller kept (.refused .enrollmentReused)
  | invalidCredential : Locks controller kept (.refused .invalidCredential)
  | compiler (error : DocCompilerError) : Locks controller kept (.refused (.compiler error))
  /-- Without its marker a completion is any other apply, for which the
  controller is waiting. -/
  | recovery {error : RecoveryError} (unlost : error = .attemptAuthorized → kept) :
      Locks controller kept (.refused (.recovery error))
  | invalidConfiguration :
      Locks controller kept (.rules (.install controller (.refused .invalidConfiguration)))
  | enrollmentIdTaken : Locks controller kept (.pool .enrollmentIdTaken)
  | nonCanonicalCommitment : Locks controller kept (.pool .nonCanonicalCommitment)

/-- The one context a recovery is completed with. -/
def completionOf (S : Setting σ) (target : Bytes) (rest : List Val) : Context :=
  .contract { contract := S.me, fnName := "apply_doc", args := .bytes target :: rest }

/-- An authorized attempt whose target the three contracts accept. -/
structure Approved (S : Setting σ) (now : UInt32) (state : State σ) (controller : Address)
    (a : Attempt) (target : CompiledDoc) (next : CompiledRecoveryConfig) : Prop where
  adopted : state.account.storage.recoveryController = some controller
  found : authorizedLive now (state.world.controllers controller) S.me = some a
  due : a.executableAfter ≤ now
  more : now < a.expiresAt
  ruled : ∃ id rule, state.account.storage.recoveryRule = some id ∧
    S.code.oz.getContextRule state.account.store id = some rule ∧
    rule.contextType = .callContract S.me ∧ rule.signers = [] ∧
    rule.policies.map AttachedPolicy.policy = [controller]
  configured : (state.slice S controller).config ≠ none
  compiles : compileDoc S.code.host target.canonical = .ok target
  hash : target.docHash = a.targetDocHash
  bytes : S.sha256 target.canonical = a.targetBytesHash
  admin : adminSurvives target.rules = true
  unrevoked : ∀ fingerprint ∈ target.fingerprints,
    state.account.storage.revoked fingerprint = false
  first : target.recovery.head? = some next
  here : next.controller = controller
  terms : next.configHash = a.targetConfigHash
  transition : zkFactorTransitionOk state.account.storage.currentZk next.zk = true
  unspent : (state.slice S controller).Unspent
  enrollment : ∀ factor, next.zk = some factor →
    state.account.storage.enrolledIds factor.enrollmentId = false ∧
      (state.world.pools factor.pool).enrollment (S.me, factor.enrollmentId) = none ∧
      Zk.isCanonicalField factor.commitment = true ∧ S.depth factor.pool ≠ none
  fingerprinted : ∃ prints, a.replaced.mapM (Credential.fingerprint S.sha256) = .ok prints

theorem mem_leafToInsert {old new : Option CompiledZkFactor} {factor : CompiledZkFactor}
    (inserted : leafToInsert old new = some factor) : new = some factor := by
  unfold leafToInsert at inserted
  split at inserted
  · cases inserted
  · split at inserted
    · cases inserted
    · exact inserted
  · exact inserted

/-- A controller does not refuse the configuration it holds. -/
theorem install_accepts {around : Surroundings} {world : World} {controller : Address}
    {config : CompiledRecoveryConfig} (deployed : S.deployed controller = true)
    (stored : (world.slice S controller).config = some config) {rule : ContextRule} :
    S.installPolicy around world controller (.bytes config.configHash.bytes) rule ≠
      .error (.refused .invalidConfiguration) := by
  intro refused
  have held : (world.controllers controller).config S.me = some config := stored
  simp [Setting.installPolicy, deployed, config.configHash.size, Recovery.install,
    assertRecoveryRule, requireConfig, held] at refused

namespace Approved

variable {now : UInt32} {state : State σ} {controller : Address} {a : Attempt}
  {target : CompiledDoc} {next : CompiledRecoveryConfig} {around : Surroundings} {world : World}
  {kept : Prop}

theorem newZk_eq (approved : Approved S now state controller a target next) :
    newZk target = next.zk := by
  simp [newZk, approved.first]

theorem checked (approved : Approved S now state controller a target next) :
    checkDocument state.account.storage target =
      .ok (leafToInsert state.account.storage.currentZk next.zk) := by
  rw [← approved.newZk_eq]
  refine checkDocument_eq_ok.mpr ⟨approved.admin, approved.unrevoked, ?_, ?_, rfl⟩
  · rw [approved.newZk_eq]
    exact approved.transition
  · intro factor inserted
    rw [approved.newZk_eq] at inserted
    exact (approved.enrollment factor (mem_leafToInsert inserted)).1

/-- The controller's half of the apply, after the confirmation. -/
theorem rcvSync_unrefused (approved : Approved S now state controller a target next)
    (honest : S.Honest) {confirmed : World} {validUntil : UInt32} {env : Env}
    (clock : around.env.sequence = env.sequence) (ledger : env.sequence = now)
    (marked : S.deployed controller = true → confirmed.controllers controller =
      confirm env (state.world.controllers controller) S.me a) :
    Avoids (Refused (0 < env.minTemporaryTtl))
      ((S.callees around).rcvSync confirmed controller target.docHash target.recovery
        validUntil) := by
  refine .ite (fun deployed => .bind ?_ fun _ _ => .pure _) fun _ => ?_
  · rw [marked deployed, approved.hash]
    have found := approved.found
    have live := authorizedLive_eq_some.mp found
    obtain ⟨id, _, stored, current, _⟩ := live
    subst ledger
    exact Joint.rcvSync_unrefused clock found approved.more approved.first
      approved.here approved.terms (approved.unspent id a (.inl stored) current)
  · refine .bind (.require fun _ => by simp [Refused]) fun _ foreign => ?_
    rw [require_eq_ok, honest controller] at foreign
    cases foreign

theorem syncControllers_unlocked (approved : Approved S now state controller a target next)
    (honest : S.Honest) {confirmed : World} {validUntil : UInt32} {env : Env}
    (clock : around.env.sequence = env.sequence) (ledger : env.sequence = now)
    (marked : S.deployed controller = true → confirmed.controllers controller =
      confirm env (state.world.controllers controller) S.me a) :
    Avoids (Locks controller (0 < env.minTemporaryTtl))
      (syncControllers (S.callees around) target validUntil state.account.storage confirmed) := by
  have synced : Avoids (Locks controller (0 < env.minTemporaryTtl))
      (syncController (S.callees around) controller target validUntil state.account.storage
        confirmed) := by
    refine .bind (.renamed ?_) fun outcome _ => .bind ?_ fun _ _ => .pure _
    · intro failure raised locks
      apply approved.rcvSync_unrefused honest clock ledger marked failure raised
      cases failure with
      | refused error =>
          cases locks with
          | recovery unlost => exact ⟨error, rfl, unlost⟩
      | trapped => cases locks
    · unfold AccountStorage.noteOutcome
      exact .ite (fun _ => .bind (.orFail fun _ => nofun) fun _ _ => .pure _) fun _ => .pure _
  unfold syncControllers
  rw [approved.adopted, approved.first]
  refine .bind synced fun _ _ => ?_
  simp only [approved.here, ne_eq, not_true_eq_false, if_false]
  exact .pure _

/-- What the syncing leaves, when it succeeds. -/
theorem synced (approved : Approved S now state controller a target next)
    {confirmed : State σ} {synced : World} (enrolled : Enrolled S now confirmed)
    (account : confirmed.account = state.account)
    (marks : Marked S state.world confirmed.world) {validUntil : UInt32}
    {outcome : SyncOutcome} {storage : AccountStorage}
    (clock : around.env.sequence = now)
    (ran : syncControllers (S.callees around) target validUntil state.account.storage
      confirmed.world = .ok (outcome, storage, synced)) :
    outcome = .completed { attemptId := a.id, replaced := a.replaced } ∧
      (∃ generation, storage = { state.account.storage with recoveryGeneration := generation }) ∧
      S.deployed controller = true ∧
      (synced.slice S controller).config = some next ∧ synced.pools = state.world.pools := by
  obtain ⟨joined, syncs, wrote, _⟩ := syncControllers_eq_ok ran
  rw [← account] at syncs
  have adopted : confirmed.account.storage.recoveryController = some controller := by
    rw [account]
    exact approved.adopted
  obtain ⟨completing, same⟩ := marks.slices controller
  have found : (confirmed.slice S controller).Authorized around.env.sequence a := by
    rw [clock]
    change (confirmed.world.slice S controller).Authorized now a
    rw [same]
    exact authorizedLive_eq_some.mp approved.found
  have change := enrolled.changes syncs
  have completed := change.completed_of_authorized adopted found
  obtain ⟨adoptee, adopts, config, _⟩ := change.of_completed_bumped completed
  obtain rfl := Option.some.inj (adopts.symm.trans adopted)
  refine ⟨completed, wrote, ?_, ?_, (pools_of_syncedBoth syncs).trans marks.pools⟩
  · cases syncs with
    | none unadopted => cases unadopted.symm.trans adopted
    | enrolled unadopted => cases unadopted.symm.trans adopted
    | stays adopts _ called =>
        obtain rfl := Option.some.inj (adopts.symm.trans adopted)
        exact ((rcvSync_called called).acts enrolled.honest).deployed
    | switched adopts _ _ left =>
        obtain rfl := Option.some.inj (adopts.symm.trans adopted)
        exact ((rcvSync_called left).acts enrolled.honest).deployed
  · exact config.trans approved.first

/-- The controller installs under the hash of the configuration it just stored. -/
theorem applyRules_unlocked (approved : Approved S now state controller a target next)
    (deployed : S.deployed controller = true)
    (stored : (world.slice S controller).config = some next) (sequence : UInt32)
    (account : AccountState σ) :
    Avoids (Locks controller kept)
      (applyRules S.code (S.callees around) sequence .cheapest target account world) := by
  refine .bind (.renamed ?_) fun _ _ => .pure _
  have spares : ∀ wanted ∈ desired S.code.deployment sequence target,
      ∀ attached ∈ wanted.attached, (ozEnv (S.callees around) sequence world).Spares controller
        (.refused .invalidConfiguration) attached := by
    rintro wanted asked ⟨policy, param⟩ listed rfl rule refused
    rcases mem_desired asked with ⟨document, _, rfl⟩ | ⟨config, named, rfl⟩
    · have apart := S.apart policy deployed
      simp only [documentRule, Wanted.attached_of, List.mem_append, Option.mem_toList,
        Option.map_eq_some_iff, Prod.mk.injEq] at listed
      rcases listed with ⟨_, _, same, _⟩ | ⟨_, _, same, _⟩
      · exact apart.1 same.symm
      · exact apart.2 same.symm
    · obtain rfl := Option.some.inj (approved.first.symm.trans named)
      simp only [recoveryRule, Wanted.attached_of, List.mem_singleton, Prod.mk.injEq] at listed
      obtain ⟨_, rfl⟩ := listed
      exact install_accepts deployed stored refused
  intro failure raised locks
  cases locks
  exact reconcile_avoids S.documented spares _ _ _ _ _ raised rfl

theorem insertLeaf_unlocked (approved : Approved S now state controller a target next)
    (pools : world.pools = state.world.pools) (storage : AccountStorage) :
    Avoids (Locks controller kept) (insertLeaf (S.callees around)
      (leafToInsert state.account.storage.currentZk next.zk) storage world) := by
  cases leaf : leafToInsert state.account.storage.currentZk next.zk with
  | none => exact .pure _
  | some factor =>
      obtain ⟨_, absent, canonical, deep⟩ := approved.enrollment factor (mem_leafToInsert leaf)
      obtain ⟨depth, runs⟩ := Option.ne_none_iff_exists'.mp deep
      rw [← pools] at absent
      refine .bind (.renamed ?_) fun _ _ => .pure _
      simp only [Setting.callees, Setting.rcvInsert, runs]
      refine .bind ?_ fun _ _ => .pure _
      intro failure raised locks
      cases failure with
      | none => cases locks
      | some error =>
          cases locks with
          | enrollmentIdTaken => exact Zk.rcvInsert_ne_taken absent raised
          | nonCanonicalCommitment => exact Zk.rcvInsert_ne_nonCanonical canonical raised

theorem settleOutcome_unlocked (approved : Approved S now state controller a target next)
    (storage : AccountStorage) :
    Avoids (Locks controller kept) (settleOutcome S.code
      (.completed { attemptId := a.id, replaced := a.replaced }) target storage) := by
  obtain ⟨prints, fingerprinted⟩ := approved.fingerprinted
  refine .bind (.mapM ?_) fun _ _ => .pure _
  intro credential listed
  obtain ⟨print, _, same⟩ := exists_of_mem_left (mapM_eq_ok fingerprinted) listed
  rw [same]
  exact .ok _

/-- A confirmed completion fails only for what the three contracts do not check. -/
theorem applyDoc_unlocked (approved : Approved S now state controller a target next)
    {confirmed : State σ} (enrolled : Enrolled S now confirmed)
    (account : confirmed.account = state.account)
    (marks : Marked S state.world confirmed.world) (validUntil : UInt32)
    (expected : Option UInt64) {env : Env} (clock : around.env.sequence = now)
    (ledger : env.sequence = now)
    (marked : S.deployed controller = true → confirmed.world.controllers controller =
      confirm env (state.world.controllers controller) S.me a) :
    Avoids (Locks controller (0 < env.minTemporaryTtl))
      (applyDoc S.code (S.callees around) around.env.sequence target.canonical validUntil expected
        confirmed.account confirmed.world) := by
  rw [account]
  refine .bind (.require fun _ => nofun) fun _ _ => .bind (.require fun _ => nofun) fun _ _ => ?_
  rw [approved.compiles]
  refine .bind (.ok _) fun compiled same => ?_
  obtain rfl := Except.ok.inj same
  rw [approved.checked]
  refine .bind (.ok _) fun leaf same => ?_
  obtain rfl := Except.ok.inj same
  refine .bind (approved.syncControllers_unlocked enrolled.honest (clock.trans ledger.symm) ledger
    marked) ?_
  rintro ⟨outcome, storage, world⟩ ran
  obtain ⟨rfl, _, deployed, stored, pools⟩ :=
    approved.synced enrolled account marks clock ran
  refine .bind (approved.applyRules_unlocked deployed stored _ _) fun ruled _ => ?_
  refine .bind (approved.insertLeaf_unlocked pools _) fun inserted _ => ?_
  refine .bind (approved.settleOutcome_unlocked _) fun settled _ => ?_
  exact .bind (.bind (.orFail fun _ => nofun) fun _ _ => .pure _) fun _ _ => .pure _

/-! ### The confirmation -/

theorem enforce (approved : Approved S now state controller a target next)
    (clock : around.env.sequence = now) (rest : List Val) {rule : ContextRule}
    (scope : rule.contextType = .callContract S.me) (unsigned : rule.signers = []) :
    ∃ world', S.enforce around state.world
        ⟨controller, completionOf S target.canonical rest, [], rule⟩ = .ok world' ∧
      (S.deployed controller = true → world'.controllers controller =
        confirm (S.inside around) (state.world.controllers controller) S.me a) := by
  cases deployed : S.deployed controller with
  | false => exact ⟨state.world, by simp [Setting.enforce, deployed, pure, Except.pure], nofun⟩
  | true =>
      obtain ⟨config, stored⟩ := Option.ne_none_iff_exists'.mp approved.configured
      have confirmed : Recovery.enforce (S.controller controller) (S.inside around)
          (state.world.controllers controller) (completionOf S target.canonical rest) [] rule S.me =
          .ok (confirm (S.inside around) (state.world.controllers controller) S.me a) := by
        apply enforce_confirms _ unsigned scope stored
        · rw [inside_sequence, clock]
          exact approved.found
        · rw [inside_sequence, clock]
          exact approved.due
        · exact approved.bytes
        · simp [Setting.inside, Setting.envWith]
      refine ⟨_, by rw [Setting.enforce, if_pos deployed, confirmed]; rfl, fun _ => ?_⟩
      simp [World.setController]

/-- The recovery rule's one policy confirms the attempt. -/
theorem calls (approved : Approved S now state controller a target next)
    (clock : around.env.sequence = now) {id : UInt32} {rule : StoredRule} (rest : List Val)
    {authenticated : List Signer} (named : state.account.storage.recoveryRule = some id)
    (stored : S.code.oz.getContextRule state.account.store id = some rule)
    (signed : ∀ signer ∈ authenticated, signer ∈ rule.signers) :
    ∃ world', (Setting.Selection.calls
        ⟨completionOf S target.canonical rest, id, rule, authenticated⟩).foldlM (S.enforce around)
        state.world = .ok world' ∧
      (S.deployed controller = true → world'.controllers controller =
        confirm (S.inside around) (state.world.controllers controller) S.me a) := by
  obtain ⟨id', rule', named', stored', scope, unsigned, policies⟩ := approved.ruled
  obtain rfl := Option.some.inj (named'.symm.trans named)
  obtain rfl := Option.some.inj (stored'.symm.trans stored)
  obtain rfl : authenticated = [] := by
    rw [List.eq_nil_iff_forall_not_mem]
    intro signer member
    simpa [unsigned] using signed signer member
  obtain ⟨entry, only, rfl⟩ := List.map_eq_singleton_iff.mp policies
  simp only [Setting.Selection.calls, only, List.map_cons, List.map_nil, List.foldlM_cons,
    List.foldlM_nil]
  let asked : ContextRule :=
    { id := id', contextType := rule'.contextType, name := rule'.name, signers := rule'.signers
      policies := [entry.policy], validUntil := rule'.validUntil }
  obtain ⟨world', enforced, marked⟩ :=
    approved.enforce clock rest (show asked.contextType = _ from scope) unsigned
  exact ⟨world', by rw [enforced]; rfl, marked⟩

end Approved

/-! ### Completing -/

/-- The recovery rule is asked to authorize an apply of the target. -/
structure Confirms (S : Setting σ) (now : UInt32) (state : State σ) (target : Bytes)
    (invocation : Invocation S) : Prop where
  ledger : invocation.around.env.sequence = now
  asked : ∃ auth signaturePayload signatures rest id,
    state.account.storage.recoveryRule = some id ∧ signatures.contextRuleIds = [id] ∧
      invocation.action =
        .checkAuth auth signaturePayload signatures [completionOf S target rest]

/-- Nothing that the account, its controller and its pool check keeps the target
from being applied now, through the recovery rule. -/
structure Completable (S : Setting σ) (now : UInt32) (state : State σ) (controller : Address)
    (target : Bytes) : Prop where
  ruled : ∃ id rule, state.account.storage.recoveryRule = some id ∧
    S.code.oz.getContextRule state.account.store id = some rule
  /-- Neither the freeze nor a reserved name stops the authorization. -/
  admitted : ∀ invocation, Confirms S now state target invocation → ∀ error,
    invocation.run S state ≠ .error (.unauthorized error)
  /-- Whatever of its signers authenticated, the rule's policies enforce it. -/
  enforced : ∀ id rule, state.account.storage.recoveryRule = some id →
    S.code.oz.getContextRule state.account.store id = some rule →
    ∀ (around : Surroundings) rest authenticated, around.env.sequence = now →
      (∀ signer ∈ authenticated, signer ∈ rule.signers) →
      ∃ world', (Setting.Selection.calls
        ⟨completionOf S target rest, id, rule, authenticated⟩).foldlM (S.enforce around)
        state.world = .ok world'
  /-- And in the ledger of the authorization the apply is not refused. -/
  applied : ∀ confirming reply confirmed, Confirms S now state target confirming →
    confirming.run S state = .ok (reply, confirmed) →
    ∀ (around : Surroundings) validUntil expected failure, around.env.sequence = now →
      Invocation.run S ⟨around, .applyDoc target validUntil expected⟩ confirmed =
        .error failure →
      ¬Locks controller (0 < confirming.around.env.minTemporaryTtl) failure

theorem Confirms.admitted {now : UInt32} {state : State σ} {target : Bytes}
    {invocation : Invocation S} (confirms : Confirms S now state target invocation)
    (error : PerchAuthError) : invocation.run S state ≠ .error (.unauthorized error) := by
  obtain ⟨auth, payload, signatures, rest, id, named, selects, asked⟩ := confirms.asked
  have avoids : Avoids (fun failure => ∃ error, failure = .unauthorized error)
      (invocation.run S state) := by
    unfold Invocation.run
    rw [asked]
    refine .bind (.bind (.require fun reserved => absurd ?_ reserved) fun _ _ =>
      .bind (.require fun frozen => absurd ?_ frozen) fun _ _ => .mapError (by simp))
      fun _ _ => .pure _
    · intro context member
      rw [List.mem_singleton.mp member]
      rfl
    · intro gate _ _
      simp [isCompletion, named, selects, completionOf]
  exact fun refused => avoids _ refused ⟨error, rfl⟩

namespace Approved

variable {now : UInt32} {state : State σ} {controller : Address} {a : Attempt}
  {target : CompiledDoc} {next : CompiledRecoveryConfig}

/-- A successful authorization leaves the marker and nothing else. -/
theorem confirmed (approved : Approved S now state controller a target next)
    {confirming : Invocation S} {reply : Reply} {confirmed : State σ}
    (confirms : Confirms S now state target.canonical confirming)
    (ran : confirming.run S state = .ok (reply, confirmed)) :
    confirmed.account = state.account ∧ Marked S state.world confirmed.world ∧
      (S.deployed controller = true → confirmed.world.controllers controller =
        confirm (S.inside confirming.around) (state.world.controllers controller) S.me a) := by
  obtain ⟨auth, payload, signatures, rest, id, named, selects, asked⟩ := confirms.asked
  simp only [Invocation.run, asked, checkAuth, bind_eq_ok, require_eq_ok, mapError_eq_ok,
    pure_eq_ok, Prod.mk.injEq] at ran
  obtain ⟨world, ⟨_, _, _, _, evaluated⟩, _, rfl⟩ := ran
  obtain ⟨selected, contexts, ids, signed, enforced⟩ := auth.enforces evaluated
  obtain ⟨⟨_, _, rule, authenticated⟩, rfl, rfl⟩ := List.map_eq_singleton_iff.mp contexts
  obtain rfl : _ = id := by simpa [selects] using ids
  obtain ⟨stored, signed⟩ := signed _ (List.mem_singleton_self _)
  obtain ⟨world', called, marked⟩ := approved.calls confirms.ledger rest named stored signed
  rw [List.flatMap_singleton, called] at enforced
  obtain rfl := Except.ok.inj enforced
  exact ⟨rfl, enforces_marked called, marked⟩

theorem completable (approved : Approved S now state controller a target next)
    (enrolled : Enrolled S now state) :
    Completable S now state controller target.canonical where
  ruled := by
    obtain ⟨id, rule, named, stored, _⟩ := approved.ruled
    exact ⟨id, rule, named, stored⟩
  admitted invocation confirms := confirms.admitted
  enforced id rule named stored around rest authenticated clock signed := by
    obtain ⟨world', called, _⟩ := approved.calls clock rest named stored signed
    exact ⟨world', called⟩
  applied confirming reply confirmed confirms ran around validUntil expected failure clock
      failed := by
    obtain ⟨account, marks, marked⟩ := approved.confirmed confirms ran
    have kept : Enrolled S now confirmed := by
      have ledger := confirms.ledger
      subst ledger
      exact enrolled.happened
        (run_happened (fun controller => (enrolled.slices controller).keyed) ran)
    have unlocked :=
      approved.applyDoc_unlocked kept account marks validUntil expected clock confirms.ledger marked
    have avoids : Avoids (Locks controller (0 < confirming.around.env.minTemporaryTtl))
        (Invocation.run S ⟨around, .applyDoc target.canonical validUntil expected⟩ confirmed) :=
      .bind unlocked fun _ _ => .pure _
    exact avoids failure failed

end Approved

section Authorized

variable {history : List (JointStep S)} {now : UInt32} {state : State σ} {controller : Address}
  {a : Attempt}

/-- The target derived when an attempt began is the document its record names. -/
theorem Begins.target (free : CollisionFree S history) {taken : JointStep S}
    (member : taken ∈ history) {derived : DerivedTarget}
    (begins : Begins S controller a derived taken) {target : CompiledDoc}
    (inPlay : InPlay S history target) (hash : a.targetDocHash = target.docHash) :
    derived.canonical = target.canonical := by
  obtain ⟨action, replacements, config, authorized, asked, started⟩ := begins.derives
  obtain ⟨current, source, compiler, held, compiles, from_, derives⟩ := started.source
  rw [outside_account, if_pos rfl] at held compiles from_
  simp only [Setting.view, Option.some.injEq] at held compiles
  subst compiles
  rw [outside_docCompiler, compiler_deriveTarget] at derives
  obtain ⟨_, _, _, compiled, _, _, derivation⟩ := deriveTarget_eq_ok derives
  have handled : Handles S taken derived.canonical :=
    .derived asked held (SourceOf.origin from_) derives
  have inPlay' : InPlay S history compiled :=
    ⟨taken, member, _, handled, derivation.compileDoc_canonical S.conforms⟩
  have named : compiled.docHash = a.targetDocHash := by
    rw [← derivation.docHash]
    exact (congrArg Attempt.targetDocHash started.record).symm
  rw [derivation.canonical, free.document_eq inPlay' inPlay (named.trans hash)]

/-- A rotation keeps the factor's pool, and a new id makes it a new factor. -/
theorem zkFactorTransitionOk_of_rotated {enrollments : List ZkEnrollment}
    {config next : CompiledRecoveryConfig} (rotated : Zk.Rotated enrollments config next)
    (fresh : ∀ old new, config.zk = some old → next.zk = some new →
      old.enrollmentId ≠ new.enrollmentId) :
    zkFactorTransitionOk config.zk next.zk = true := by
  have zk := rotated.zk
  generalize config.zk = old, next.zk = new at zk fresh
  cases zk with
  | none => rfl
  | some => simp [zkFactorTransitionOk, fresh _ _ rfl rfl]

/-- In every run, what the three contracts check of an authorized attempt holds. -/
theorem Reached.approved (reached : Reached S history now state) (free : CollisionFree S history)
    (encodes : Zk.EncodesHex S.code.host.hexEncode)
    (found : (state.slice S controller).Authorized now a) (due : a.executableAfter ≤ now)
    (pools : ∀ config factor, (state.slice S controller).config = some config →
      config.zk = some factor → S.depth factor.pool ≠ none) :
    ∃ target next, InPlay S history target ∧ a.targetDocHash = target.docHash ∧
      Approved S now state controller a target next := by
  have enrolled := reached.enrolled
  have follows := reached.follows free
  have known := reached.toLived.idsKnown
  have prepared := reached.prepared free encodes
  obtain ⟨phase, pointer, stored, live⟩ := (enrolled.slices controller).authorized_state found
  obtain ⟨source, current, target, replacements, provenance⟩ :=
    (reached.recorded free).attempts controller a.id a (.inl stored)
  obtain ⟨inPlay, hash, bytes⟩ := provenance.targeted
  obtain ⟨_, _, _, derived, _, _, derivation, terms, _⟩ := provenance.derivation
  obtain ⟨prints, fingerprinted, _⟩ := provenance.leaves
  obtain ⟨config, present, fitting⟩ := prepared.fits controller a.id a (.inl stored) live.1
  have fits := fitting target inPlay hash.symm
  obtain ⟨enrollments, next, first, rotated⟩ := fits.rotated
  have enrollment := follows.stored controller config present
  have adopted := (enrolled.configured controller).mp (by simp [present])
  have own : config.controller = controller := by
    have named := follows.adopted
    rw [adopted, enrollment] at named
    exact (Option.some.inj named).symm
  have currentZk : state.account.storage.currentZk = config.zk := by
    rw [follows.currentZk, enrollment]
    rfl
  have fresh : ∀ factor, next.zk = some factor →
      state.account.storage.enrolledIds factor.enrollmentId = false := by
    intro factor proves
    exact fits.fresh factor (by simpa [newZk, first] using proves)
  have installed := follows.installed
  rw [enrollment] at installed
  obtain ⟨id, rule, ruled, found', scope, unsigned, _, attached⟩ := installed
  obtain ⟨doc, compiles, _⟩ := inPlay.parsed
  refine ⟨target, next, inPlay, hash, ?_⟩
  exact
    { adopted := adopted
      found := authorizedLive_eq_some.mpr found
      due := due
      more := by
        obtain ⟨_, ⟨collecting, _⟩ | ⟨_, _, within⟩⟩ := live
        · cases phase.symm.trans collecting
        · exact within
      ruled := by
        refine ⟨id, rule, ruled, found', scope, unsigned, ?_⟩
        have policies := congrArg (List.map Prod.fst) attached
        rw [StoredRule.attached, List.map_map] at policies
        rw [← own]
        exact policies
      configured := by simp [present]
      compiles := inPlay.canonical
      hash := hash.symm
      bytes := bytes.symm
      admin := derivation.admin
      unrevoked := fits.unrevoked
      first := first
      here := rotated.controller.trans own
      terms := by
        obtain ⟨found, named, same⟩ := derivation.config
        obtain rfl := Option.some.inj (first.symm.trans named)
        exact same.symm.trans terms.symm
      transition := by
        rw [currentZk]
        refine zkFactorTransitionOk_of_rotated rotated ?_
        intro old new enrolledOld proves same
        have held := known.current old (currentZk.trans enrolledOld)
        rw [same, fresh new proves] at held
        cases held
      unspent := prepared.unspent controller
      enrollment := by
        intro factor proves
        refine ⟨fresh factor proves, ?_, ?_, ?_⟩
        · by_contra recorded
          have held := known.recorded factor.pool factor.enrollmentId recorded
          rw [fresh factor proves] at held
          cases held
        · exact Zk.compiled_commitment compiles (List.mem_of_head? first) proves
        · have zk := rotated.zk
          rw [proves] at zk
          generalize old : config.zk = before at zk
          cases zk with
          | some rotates =>
              rw [rotates.1]
              exact pools config _ present old
      fingerprinted := ⟨prints, fingerprinted⟩ }

end Authorized

/-- A recovery that was authorized can always complete: it began in the run, and
whatever happened since, applying the target derived then, through the recovery
rule, is refused by none of the checks of the account, the compiler, the
controller or the pool. -/
theorem recovery_completable {history : List (JointStep S)} {now : UInt32} {state : State σ}
    (reached : Reached S history now state) (free : CollisionFree S history)
    (encodes : Zk.EncodesHex S.code.host.hexEncode) {controller : Address} {a : Attempt}
    (found : (state.slice S controller).Authorized now a) (due : a.executableAfter ≤ now)
    (pools : ∀ config factor, (state.slice S controller).config = some config →
      config.zk = some factor → S.depth factor.pool ≠ none) :
    (∃ taken ∈ history, ∃ derived, Begins S controller a derived taken) ∧
      ∀ taken ∈ history, ∀ derived, Begins S controller a derived taken →
        Completable S now state controller derived.canonical := by
  obtain ⟨_, _, stored, _⟩ := (reached.enrolled.slices controller).authorized_state found
  refine ⟨reached.begins controller a.id a (.inl stored), ?_⟩
  intro taken member derived begins
  obtain ⟨target, next, inPlay, hash, approved⟩ :=
    reached.approved free encodes found due pools
  rw [begins.target free member inPlay hash]
  exact approved.completable reached.enrolled

section Sample

set_option maxRecDepth 16384 in
/-- Ten ledgers after the approval the delay is over. -/
theorem sampleRecovered_due :
    sampleRecovered.toOption.map (fun (_, approved, _, _) =>
      ((authorizedLive 13 (approved.world.controllers sampleController) sampleSetting.me).map
          Attempt.executableAfter,
        (approved.slice sampleSetting sampleController).config.map CompiledRecoveryConfig.zk)) =
      some (some 13, some none) := by
  simp only [sampleRecovered, sampleEnrolled, enrolling, beginning, approving, confirming,
    completing, Invocation.run, applyDoc, apply, enrollingDoc_compiles, compiledReplaced_compiles,
    callController, Setting.outside, Setting.envWith]
  rw [sampleCompiler_eq]
  decide +kernel

/-- The approved sample recovery is one the theorem says can complete, and it
does. -/
theorem recovery_completable_sample : ∃ enrolled approved confirmed completed,
    sampleRecovered = .ok (enrolled, approved, confirmed, completed) ∧
      ∃ history a, Reached sampleSetting history 13 approved ∧
        (approved.slice sampleSetting sampleController).Authorized 13 a ∧
        ∃ taken ∈ history, ∃ derived, Begins sampleSetting sampleController a derived taken ∧
          Completable sampleSetting 13 approved sampleController derived.canonical := by
  obtain ⟨enrolled, approved, _, _, ran, ⟨history, reached, free⟩, _⟩ := sampleRecovered_reached
  obtain ⟨states, same, due⟩ := Option.map_eq_some_iff.mp sampleRecovered_due
  obtain rfl := Option.some.inj (same.symm.trans (toOption_eq_some.mpr ran))
  simp only [Prod.mk.injEq, Option.map_eq_some_iff] at due
  obtain ⟨⟨a, found, delayed⟩, config, stored, unproved⟩ := due
  have later : Reached sampleSetting history 13 approved := by
    obtain ⟨⟨start, first, origin, execution⟩, honest⟩ := reached
    exact ⟨⟨start, first, origin, execution.wait (by decide)⟩, honest⟩
  have found := authorizedLive_eq_some.mp found
  obtain ⟨⟨taken, member, derived, begins⟩, completable⟩ :=
    recovery_completable later free (fun _ => rfl) found (by rw [delayed]) (by
      intro config' factor stored' proves
      obtain rfl := Option.some.inj (stored'.symm.trans stored)
      rw [unproved] at proves
      cases proves)
  exact ⟨enrolled, approved, _, _, ran, history, a, later, found, taken, member, derived, begins,
    completable taken member derived begins⟩

end Sample

end Perch.Joint
