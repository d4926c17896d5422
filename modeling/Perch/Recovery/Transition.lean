/-
What a successful controller call can do to the account it names.

`Transition` lists the outcomes of the entry points, one constructor each,
with every guard the contract checks on the way and the exact next slice.
`execute_transition` reads a successful call back as one of them and says
that no other account is touched.  Everything proved about runs of the
controller uses this result and not the contract's code.
-/

import Perch.Recovery.Slice

namespace Perch.Recovery

open Machine Document

/-! ### Guards shared by several outcomes -/

/-- The recorded evidence satisfies the enrolled condition for a change. -/
structure ConditionMet (d : Deployment) (e : Env) (account : Address) (m : Slice)
    (config : CompiledRecoveryConfig) (subject : StatementSubject) (validUntil : UInt32) :
    Prop where
  change : subject.isChange = true
  fresh : (statement d account config m.epoch validUntil subject).checkFresh e.sequence = .ok ()
  recorded : ∃ digest approval,
    (statement d account config m.epoch validUntil subject).digest d.sha256 = .ok digest ∧
      m.approval digest = some approval ∧
      (∀ set ∈ config.guardians,
        set.quorum.toNat ≤ (approval.guardians.filter (fun g => g ∈ set.guardians)).length) ∧
      (config.zk.isSome → approval.zk = true)

/-- The change an `apply_doc` makes to the enrolled configuration. -/
def configChange (new : Option CompiledRecoveryConfig) : ConfigChange :=
  match new with
  | some config => .set config.configHash
  | none => .remove

/-- How `classify` settles an `apply_doc` that completes nothing. -/
inductive Classified (d : Deployment) (e : Env) (account : Address) (m : Slice)
    (new : Option CompiledRecoveryConfig) (validUntil : UInt32) : SyncOutcome → Slice → Prop where
  | nothing (absent : m.config = none) (unnamed : new = none) :
      Classified d e account m new validUntil .unchanged m
  | enrolled {config : CompiledRecoveryConfig} {epoch : UInt64} (absent : m.config = none)
      (passed : new = some config) (here : config.controller = d.address)
      (valid : checkConfig account config = .ok ())
      (wired : checkZkWiring e none config.zk = .ok ())
      (bumped : checkedSucc m.epoch = some epoch) :
      Classified d e account m new validUntil .enrolled
        { m with config := some config, epoch := epoch }
  | same {stored config : CompiledRecoveryConfig} (present : m.config = some stored)
      (passed : new = some config) (here : config.controller = d.address)
      (equal : config.configHash = stored.configHash) :
      Classified d e account m new validUntil .unchanged m
  | reconfigured {stored config : CompiledRecoveryConfig} {epoch : UInt64}
      (present : m.config = some stored) (passed : new = some config)
      (here : config.controller = d.address) (changed : config.configHash ≠ stored.configHash)
      (condition : stored.profile = .protectedProfile →
        ConditionMet d e account m stored (.reconfigure (configChange new)) validUntil)
      (valid : checkConfig account config = .ok ())
      (wired : checkZkWiring e stored.zk config.zk = .ok ())
      (bumped : checkedSucc m.epoch = some epoch) :
      Classified d e account m new validUntil .reconfigured
        { m with config := some config, epoch := epoch }
  | removed {stored : CompiledRecoveryConfig} {epoch : UInt64} (present : m.config = some stored)
      (elsewhere : ∀ config, new = some config → config.controller ≠ d.address)
      (condition : stored.profile = .protectedProfile →
        ConditionMet d e account m stored (.reconfigure (configChange new)) validUntil)
      (bumped : checkedSucc m.epoch = some epoch) :
      Classified d e account m new validUntil .removed
        { m with config := none, authorized := none, epoch := epoch }

/-- Evidence a call adds to an attempt, and the attempt after it. -/
inductive Submission (d : Deployment) (e : Env) (account : Address) (m : Slice)
    (config : CompiledRecoveryConfig) (a : Attempt) (domain : EvidenceDomain) :
    Call → Attempt → Prop where
  | guardian {set : CompiledGuardianSet} {guardian : Address} {asked : RecoveryStatement}
      {digest : Bytes32} (enrolled : config.guardians = some set)
      (member : guardian ∈ set.guardians) (fresh : guardian ∉ a.counted domain)
      (built : attemptStatement d account config (a.countGuardian guardian domain) domain =
        .ok asked)
      (timely : asked.checkFresh e.sequence = .ok ())
      (hashed : asked.digest d.sha256 = .ok digest)
      (signed : e.requireAuthForArgs guardian digest = true) :
      Submission d e account m config a domain (.submitGuardian account a.id domain guardian)
        (a.countGuardian guardian domain)
  | zk {factor : CompiledZkFactor} {evidence : ZkEvidence} {asked : RecoveryStatement}
      (enrolled : config.zk = some factor) (fresh : a.zkCounted domain = false)
      (built : attemptStatement d account config a domain = .ok asked)
      (timely : asked.checkFresh e.sequence = .ok ())
      (accepted : (e.zkAdapter factor.adapter).verify asked factor.binding evidence = true)
      (unspent : m.nullifier evidence.nullifier = none) :
      Submission d e account m config a domain (.submitZk account a.id domain evidence)
        (a.countZk evidence.nullifier domain)

/-- The document a recovery is derived from, and its identity: the published
baseline, or the applied document. -/
def SourceOf (m : Slice) (config : CompiledRecoveryConfig) (view : AccountView)
    (current source : Bytes) (hash : Bytes32) : RecoveryAction → Prop
  | .compromise => config.baseline = some hash ∧ m.baseline hash = some source
  | _ => source = current ∧ view.appliedDocHash = some (some hash)

/-- The account and compiler answers an attempt is begun from. -/
structure Begun (d : Deployment) (e : Env) (account : Address) (m : Slice)
    (action : RecoveryAction) (replacements : ReplacementSet)
    (config : CompiledRecoveryConfig) (derived : DerivedTarget) (a : Attempt) : Prop where
  enrolled : m.config = some config
  quiet : m.Quiet e.sequence
  hashed : replacements.hash d.sha256 = .ok a.replacementsHash
  enrollment : config.zk.isSome = true ↔ replacements.zkEnrollment.length = 1
  source : ∃ current source compiler,
    (e.account account).appliedDoc = some (some current) ∧
      (e.account account).docCompiler = some compiler ∧
      SourceOf m config (e.account account) current source a.sourceDocHash action ∧
      (e.docCompiler compiler).deriveTarget source current action replacements = some derived
  freshEnrollment : enrollmentFresh (e.account account) replacements = .ok ()
  notRevoked : noneRevoked (e.account account) derived.fingerprints = .ok ()
  leaves : ∃ replaced, derived.replaced.mapM (Credential.fingerprint d.sha256) = .ok replaced ∧
    replacedCredentialsLeave replaced derived.fingerprints = true
  deadline : a.evidenceDeadline.toNat = e.sequence.toNat + config.expiryLedgers.toNat
  record : a = collectingAttempt m.nextAttempt action m.epoch e.sequence a.evidenceDeadline
    a.cancelUntil a.sourceDocHash a.replacementsHash (d.sha256 derived.canonical) derived

def beginCall (account : Address) (action : RecoveryAction) (replacements : ReplacementSet) :
    Call :=
  match action with
  | .compromise => .beginCompromise account replacements
  | _ => .beginLostKey account replacements

/-- Why a call may cancel an attempt, the attempt the cancellation starts
from, and the cancellation count after it. -/
inductive CancelCause (d : Deployment) (e : Env) (account : Address) (m : Slice)
    (config : CompiledRecoveryConfig) (a : Attempt) : Call → Attempt → Option UInt32 → Prop where
  | owner (invoked : e.requireAuth account = true) (loss : config.profile = .loss) :
      CancelCause d e account m config a (.rcvCancel account a.id) a m.cancels
  | evidence {call : Call} {b : Attempt} {cancels : Option UInt32}
      (submitted : Submission d e account m config a .cancel call b)
      (met : cancellationMet config b = true)
      (counted : a.state = .authorized → m.cancels.getD 0 < config.maxCancels ∧
        ∃ next, checkedSucc32 (m.cancels.getD 0) = some next ∧ cancels = some next)
      (uncounted : a.state ≠ .authorized → cancels = m.cancels) :
      CancelCause d e account m config a call b cancels

/-- The gate call an authorized attempt's end or start makes. -/
def gateCall (config : CompiledRecoveryConfig) (attemptId : UInt64) (frozenUntil : UInt32) :
    Option GateCall :=
  if config.profile = .protectedProfile then
    some { attemptId := attemptId, frozenUntil := frozenUntil }
  else none

def Attempt.authorize (a : Attempt) (now executableAfter expiresAt : UInt32) : Attempt :=
  { a with
    state := .authorized
    authorizedAt := now
    executableAfter := executableAfter
    expiresAt := expiresAt }

/-- A lost-key attempt's source must still be the applied document. -/
def SourceApplied (e : Env) (account : Address) (a : Attempt) : Prop :=
  a.action = .lostKey → (e.account account).appliedDocHash = some (some a.sourceDocHash)

/-! ### The outcomes -/

inductive Transition (d : Deployment) (e : Env) (account : Address) (m : Slice) :
    Call → Reply → Option GateCall → Slice → Prop where
  | completed {docHash : Bytes32} {recovery : List CompiledRecoveryConfig} {validUntil : UInt32}
      {marker : CompletionMarker} {a : Attempt} {config : CompiledRecoveryConfig}
      {epoch : UInt64} {nullifier : Bytes32 → Option Bool}
      (invoked : e.requireAuth account = true)
      (left : Temporary.read e.sequence m.completing = some marker)
      (sameDoc : marker.targetDocHash = docHash) (sameLedger : marker.ledger = e.sequence)
      (found : m.Authorized e.sequence a) (own : a.id = marker.attemptId)
      (target : docHash = a.targetDocHash) (passed : recovery.head? = some config)
      (here : config.controller = d.address) (terms : config.configHash = a.targetConfigHash)
      (unspent : ∀ n ∈ a.zkNullifier, m.nullifier n = none)
      (spent : nullifier = fun n => if a.zkNullifier = some n then some true else m.nullifier n)
      (bumped : checkedSucc m.epoch = some epoch) :
      Transition d e account m (.rcvSync account docHash recovery validUntil)
        (.synced (.completed { attemptId := a.id, replaced := a.replaced })) none
        { (m.put e { a with state := .completed }) with
          completing := none
          nullifier := nullifier
          authorized := none
          config := some config
          epoch := epoch }
  | classified {docHash : Bytes32} {recovery : List CompiledRecoveryConfig} {validUntil : UInt32}
      {outcome : SyncOutcome} {m' : Slice}
      (invoked : e.requireAuth account = true)
      (quiet : m.Quiet e.sequence)
      (settled : Classified d e account (m.takeMarker e.sequence) recovery.head? validUntil
        outcome m') :
      Transition d e account m (.rcvSync account docHash recovery validUntil)
        (.synced outcome) none m'
  | cancelledCollecting {config : CompiledRecoveryConfig} {a b : Attempt} {call : Call}
      {cancels : Option UInt32}
      (enrolled : m.config = some config) (loaded : m.load e.sequence a.id = some a)
      (live : m.Live e.sequence a) (state : a.state = .collecting)
      (cause : CancelCause d e account m config a call b cancels) :
      Transition d e account m call .done none (m.put e { b with state := .cancelled })
  | cancelledAuthorized {config : CompiledRecoveryConfig} {a b : Attempt} {call : Call}
      {cancels : Option UInt32}
      (enrolled : m.config = some config) (loaded : m.load e.sequence a.id = some a)
      (live : m.Live e.sequence a) (state : a.state = .authorized)
      (cause : CancelCause d e account m config a call b cancels)
      (opened : config.profile = .protectedProfile →
        (e.account account).rcvGate a.id 0 = some ()) :
      Transition d e account m call .done (gateCall config a.id 0)
        { (m.put e { b with state := .cancelled }) with
          cancels := cancels
          authorized := none }
  | scheduled {config : CompiledRecoveryConfig} {subject : UpgradeSubject} {validUntil : UInt32}
      (invoked : e.requireAuth account = true) (enrolled : m.config = some config)
      (quiet : m.Quiet e.sequence)
      (condition : config.profile = .protectedProfile →
        ConditionMet d e account m config (.upgrade subject) validUntil) :
      Transition d e account m (.rcvUpgrade account (.schedule subject validUntil))
        (.epoch m.epoch) none m
  | upgraded {config : CompiledRecoveryConfig} {epoch : UInt64}
      (invoked : e.requireAuth account = true) (enrolled : m.config = some config)
      (quiet : m.Quiet e.sequence) (bumped : checkedSucc m.epoch = some epoch) :
      Transition d e account m (.rcvUpgrade account (.execute m.epoch)) (.epoch epoch) none
        { m with epoch := epoch }
  | installed {config : CompiledRecoveryConfig} {rule : ContextRule}
      (invoked : e.requireAuth account = true)
      (shaped : assertRecoveryRule rule account = .ok ()) (enrolled : m.config = some config) :
      Transition d e account m (.install config.configHash rule account) .done none m
  | uninstalled {rule : ContextRule} (invoked : e.requireAuth account = true) :
      Transition d e account m (.uninstall rule account) .done none m
  | renewed : Transition d e account m (.renew account) .done none m
  | enforced {args : List Val} {rule : ContextRule} {target : Bytes} {a : Attempt}
      {config : CompiledRecoveryConfig} {entry : Temporary CompletionMarker}
      (invoked : e.requireAuth account = true)
      (shaped : assertRecoveryRule rule account = .ok ())
      (first : args.head?.bind Val.toBytes? = some target) (enrolled : m.config = some config)
      (found : m.Authorized e.sequence a) (executable : a.executableAfter ≤ e.sequence)
      (digested : d.sha256 target = a.targetBytesHash)
      (written : entry.value =
        { attemptId := a.id, targetDocHash := a.targetDocHash, ledger := e.sequence }) :
      Transition d e account m
        (.enforce (.contract { contract := account, fnName := "apply_doc", args := args }) [] rule
          account)
        .done none { m with completing := some entry }
  | begun {action : RecoveryAction} {replacements : ReplacementSet}
      {config : CompiledRecoveryConfig} {derived : DerivedTarget} {a : Attempt} {next : UInt64}
      (started : Begun d e account m action replacements config derived a)
      (known : action = .lostKey ∨ action = .compromise)
      (counted : checkedSucc m.nextAttempt = some next) :
      Transition d e account m (beginCall account action replacements) (.begun a.id) none
        { (m.put e a) with nextAttempt := next }
  | recorded {config : CompiledRecoveryConfig} {a b : Attempt} {domain : EvidenceDomain}
      {call : Call} (enrolled : m.config = some config)
      (loaded : m.load e.sequence a.id = some a) (live : m.Live e.sequence a)
      (phase : domain = .initiate → a.state = .collecting)
      (submitted : Submission d e account m config a domain call b)
      (unmet : match domain with
        | .initiate => initiationMet config b = false
        | .cancel => cancellationMet config b = false) :
      Transition d e account m call .done none (m.put e b)
  | invalidated {config : CompiledRecoveryConfig} {a b : Attempt} {call : Call}
      (enrolled : m.config = some config) (loaded : m.load e.sequence a.id = some a)
      (live : m.Live e.sequence a) (state : a.state = .collecting)
      (submitted : Submission d e account m config a .initiate call b)
      (met : initiationMet config b = true) (quiet : m.Quiet e.sequence)
      (stale : ¬SourceApplied e account a) :
      Transition d e account m call .done none (m.put e { b with state := .invalidated })
  | authorized {config : CompiledRecoveryConfig} {a b : Attempt} {call : Call}
      {executableAfter expiresAt : UInt32}
      (enrolled : m.config = some config) (loaded : m.load e.sequence a.id = some a)
      (live : m.Live e.sequence a) (state : a.state = .collecting)
      (submitted : Submission d e account m config a .initiate call b)
      (met : initiationMet config b = true) (quiet : m.Quiet e.sequence)
      (applied : SourceApplied e account a)
      (delay : executableAfter.toNat = e.sequence.toNat + config.delayLedgers.toNat)
      (expiry : expiresAt.toNat = executableAfter.toNat + config.expiryLedgers.toNat)
      (frozen : config.profile = .protectedProfile →
        (e.account account).rcvGate a.id expiresAt = some ()) :
      Transition d e account m call .done (gateCall config a.id expiresAt)
        { (m.put e (b.authorize e.sequence executableAfter expiresAt)) with
          invalidateBelow := m.nextAttempt
          authorized := some a.id }
  | approved {config : CompiledRecoveryConfig} {set : CompiledGuardianSet}
      {subject : StatementSubject} {validUntil : UInt32} {guardian : Address} {digest : Bytes32}
      {approval : ChangeApproval}
      (enrolled : m.config = some config) (guardians : config.guardians = some set)
      (member : guardian ∈ set.guardians) (quiet : m.Quiet e.sequence)
      (change : subject.isChange = true)
      (fresh : (statement d account config m.epoch validUntil subject).checkFresh e.sequence =
        .ok ())
      (hashed : (statement d account config m.epoch validUntil subject).digest d.sha256 =
        .ok digest)
      (previous : approval = (m.approval digest).getD .empty)
      (uncounted : guardian ∉ approval.guardians)
      (signed : e.requireAuthForArgs guardian digest = true) :
      Transition d e account m (.approveChange account subject validUntil guardian) .done none
        { m with
          approval := Function.update m.approval digest
            (some { approval with guardians := approval.guardians ++ [guardian] }) }
  | proved {config : CompiledRecoveryConfig} {factor : CompiledZkFactor}
      {subject : StatementSubject} {validUntil : UInt32} {evidence : ZkEvidence}
      {digest : Bytes32} {approval : ChangeApproval}
      (enrolled : m.config = some config) (zk : config.zk = some factor)
      (quiet : m.Quiet e.sequence) (change : subject.isChange = true)
      (fresh : (statement d account config m.epoch validUntil subject).checkFresh e.sequence =
        .ok ())
      (hashed : (statement d account config m.epoch validUntil subject).digest d.sha256 =
        .ok digest)
      (previous : approval = (m.approval digest).getD .empty)
      (accepted : (e.zkAdapter factor.adapter).verify
        (statement d account config m.epoch validUntil subject) factor.binding evidence = true)
      (unspent : m.nullifier evidence.nullifier = none) :
      Transition d e account m (.submitZkChange account subject validUntil evidence) .done none
        { m with
          approval := Function.update m.approval digest (some { approval with zk := true }) }
  | published {config : CompiledRecoveryConfig} {baseline : Bytes32} {compiler : Address}
      {docJson : Bytes} {compiled : CompiledDoc}
      (enrolled : m.config = some config) (named : config.baseline = some baseline)
      (compiles : (e.account account).docCompiler = some compiler ∧
        (e.docCompiler compiler).compileDoc docJson = some compiled)
      (same : compiled.docHash = baseline) (admin : adminSurvives compiled.rules = true) :
      Transition d e account m (.publishBaseline account docJson) .done none
        { m with
          baseline := Function.update m.baseline baseline (some compiled.canonical) }

/-! ### Reading the conditions back -/

@[simp] theorem digest_eq_ok {d : Deployment} {statement : RecoveryStatement} {value : Bytes32} :
    digest d statement = .ok value ↔ statement.digest d.sha256 = .ok value := mapError_eq_ok

@[simp] theorem checkFresh_eq_ok {e : Env} {statement : RecoveryStatement} {done : Unit} :
    checkFresh e statement = .ok done ↔ statement.checkFresh e.sequence = .ok () := mapError_eq_ok

@[simp] theorem requireConfig_eq_ok {s : Storage} {account : Address}
    {config : CompiledRecoveryConfig} :
    requireConfig s account = .ok config ↔ s.config account = some config := orFail_eq_ok

@[simp] theorem addLedgers_eq_ok {a b sum : UInt32} :
    addLedgers a b = .ok sum ↔ sum.toNat = a.toNat + b.toNat := by
  rw [addLedgers, orFail_eq_ok, checkedAdd_eq_some]

@[simp] theorem loadLive_eq_ok {now : UInt32} {s : Storage} {account : Address} {id : UInt64}
    {a : Attempt} :
    loadLive now s account id = .ok a ↔
      (s.slice account).load now id = some a ∧ (s.slice account).Live now a := by
  simp only [loadLive, bind_eq_ok, orFail_eq_ok, require_eq_ok, pure_eq_ok, load_eq,
    isLive_eq_true]
  constructor
  · rintro ⟨b, found, -, live, rfl⟩
    exact ⟨found, live⟩
  · rintro ⟨found, live⟩
    exact ⟨a, found, (), live, rfl⟩

@[simp] theorem changeStatementFor_eq_ok {d : Deployment} {s : Storage} {account : Address}
    {config : CompiledRecoveryConfig} {subject : StatementSubject} {validUntil : UInt32}
    {built : RecoveryStatement} :
    changeStatementFor d s account config subject validUntil = .ok built ↔
      subject.isChange = true ∧
        statement d account config (s.slice account).epoch validUntil subject = built := by
  simp only [changeStatementFor, bind_eq_ok, require_eq_ok, pure_eq_ok, exists_const,
    Storage.slice]

theorem requireCondition_eq_ok {d : Deployment} {e : Env} {s : Storage} {account : Address}
    {config : CompiledRecoveryConfig} {subject : StatementSubject} {validUntil : UInt32}
    (accepted : requireCondition d e s account config subject validUntil = .ok ()) :
    ConditionMet d e account (s.slice account) config subject validUntil := by
  simp only [requireCondition, bind_eq_ok, changeStatementFor_eq_ok, checkFresh_eq_ok,
    digest_eq_ok, orFail_eq_ok, require_eq_ok] at accepted
  obtain ⟨built, ⟨change, rfl⟩, -, fresh, value, hashed, approval, stored, -, quorum, zk⟩ :=
    accepted
  exact
    { change := change
      fresh := fresh
      recorded := ⟨value, approval, hashed, stored, quorum, zk⟩ }

theorem verifyZk_eq_ok {e : Env} {s : Storage} {account : Address} {factor : CompiledZkFactor}
    {asked : RecoveryStatement} {evidence : ZkEvidence} {done : Unit} :
    verifyZk e s account factor asked evidence = .ok done ↔
      (e.zkAdapter factor.adapter).verify asked factor.binding evidence = true ∧
        (s.slice account).nullifier evidence.nullifier = none := by
  simp only [verifyZk, bind_eq_ok, require_eq_ok, exists_const, Storage.slice]

/-! ### Reading the writes back -/

section Writes

variable (s : Storage) (account : Address)

theorem slice_setConfigEpoch (config : Option CompiledRecoveryConfig) (epoch : UInt64) :
    ({ s with
      config := Function.update s.config account config
      epoch := Function.update s.epoch account (some epoch) } : Storage).slice account =
      { s.slice account with config := config, epoch := epoch } := by
  simp [Storage.slice, epochOf, nextAttemptOf, invalidateBelowOf]

theorem slice_setAuthorized (pointer : Option UInt64) :
    ({ s with authorized := Function.update s.authorized account pointer } : Storage).slice
        account =
      { s.slice account with authorized := pointer } := by
  simp [Storage.slice, epochOf, nextAttemptOf, invalidateBelowOf]

theorem slice_removeCompleting :
    (removeCompleting s account).slice account =
      { s.slice account with completing := none } := by
  simp [removeCompleting, Storage.slice, epochOf, nextAttemptOf, invalidateBelowOf]

end Writes

theorem bumpEpoch_eq_ok {s s' : Storage} {account : Address} {epoch : UInt64} :
    bumpEpoch s account = .ok (epoch, s') ↔
      checkedSucc (epochOf s account) = some epoch ∧
        { s with epoch := Function.update s.epoch account (some epoch) } = s' := by
  simp only [bumpEpoch, bind_eq_ok, orTrap_eq_ok, pure_eq_ok, Prod.mk.injEq]
  constructor
  · rintro ⟨value, bumped, rfl, rfl⟩
    exact ⟨bumped, rfl⟩
  · rintro ⟨bumped, rfl⟩
    exact ⟨epoch, bumped, rfl, rfl⟩

theorem storeConfig_eq_ok {s s' : Storage} {account : Address} {config : CompiledRecoveryConfig} :
    storeConfig s account config = .ok s' ↔
      ∃ epoch, checkedSucc (epochOf s account) = some epoch ∧
        { s with
          config := Function.update s.config account (some config)
          epoch := Function.update s.epoch account (some epoch) } = s' := by
  simp only [storeConfig, bind_eq_ok, pure_eq_ok, Prod.exists, bumpEpoch_eq_ok]
  constructor
  · rintro ⟨epoch, stored, ⟨bumped, rfl⟩, rfl⟩
    exact ⟨epoch, bumped, rfl⟩
  · rintro ⟨epoch, bumped, rfl⟩
    exact ⟨epoch, _, ⟨bumped, rfl⟩, rfl⟩

theorem removeConfig_eq_ok {s s' : Storage} {account : Address} :
    removeConfig s account = .ok s' ↔
      ∃ epoch, checkedSucc (epochOf s account) = some epoch ∧
        { s with
          config := Function.update s.config account none
          authorized := Function.update s.authorized account none
          epoch := Function.update s.epoch account (some epoch) } = s' := by
  simp only [removeConfig, bind_eq_ok, pure_eq_ok, Prod.exists, bumpEpoch_eq_ok]
  constructor
  · rintro ⟨epoch, stored, ⟨bumped, rfl⟩, rfl⟩
    exact ⟨epoch, bumped, rfl⟩
  · rintro ⟨epoch, bumped, rfl⟩
    exact ⟨epoch, _, ⟨bumped, rfl⟩, rfl⟩

/-- Two storages differ at most in one account's slice. -/
def SameElsewhere (account : Address) (s s' : Storage) : Prop :=
  ∀ other, other ≠ account → s'.slice other = s.slice other

theorem SameElsewhere.refl (account : Address) (s : Storage) : SameElsewhere account s s :=
  fun _ _ => rfl

theorem SameElsewhere.trans {account : Address} {s s' s'' : Storage}
    (first : SameElsewhere account s s') (second : SameElsewhere account s' s'') :
    SameElsewhere account s s'' :=
  fun other distinct => (second other distinct).trans (first other distinct)

theorem SameElsewhere.save (e : Env) (account : Address) (s : Storage) (a : Attempt) :
    SameElsewhere account s (save e s account a) :=
  fun _ distinct => slice_save_of_ne distinct

theorem SameElsewhere.of_update {account : Address} {s s' : Storage}
    (same : ∀ other, other ≠ account →
      s'.config other = s.config other ∧ s'.epoch other = s.epoch other ∧
      s'.nextAttempt other = s.nextAttempt other ∧
      s'.invalidateBelow other = s.invalidateBelow other ∧
      s'.authorized other = s.authorized other ∧ s'.cancels other = s.cancels other ∧
      s'.completing other = s.completing other ∧
      (∀ id, s'.attempt (other, id) = s.attempt (other, id)) ∧
      (∀ id, s'.collecting (other, id) = s.collecting (other, id)) ∧
      (∀ n, s'.nullifier (other, n) = s.nullifier (other, n)) ∧
      (∀ h, s'.approval (other, h) = s.approval (other, h)) ∧
      (∀ h, s'.baseline (other, h) = s.baseline (other, h))) :
    SameElsewhere account s s' := by
  intro other distinct
  obtain ⟨config, epoch, next, below, pointer, cancels, completing, attempt, collecting,
    nullifier, approval, baseline⟩ := same other distinct
  simp only [Storage.slice, epochOf, nextAttemptOf, invalidateBelowOf, config, epoch, next, below,
    pointer, cancels, completing, attempt, collecting, nullifier, approval, baseline]

/-! ### The entry points, one by one -/

section Entry

variable {d : Deployment} {e : Env} {s s' : Storage} {account : Address}

theorem storeConfig_slice {config : CompiledRecoveryConfig}
    (stored : storeConfig s account config = .ok s') :
    SameElsewhere account s s' ∧ ∃ epoch, checkedSucc (s.slice account).epoch = some epoch ∧
      s'.slice account = { s.slice account with config := some config, epoch := epoch } := by
  obtain ⟨epoch, bumped, rfl⟩ := storeConfig_eq_ok.mp stored
  refine ⟨.of_update fun other distinct => ?_, epoch, bumped, slice_setConfigEpoch s account _ _⟩
  simp [distinct]

theorem removeConfig_slice (removed : removeConfig s account = .ok s') :
    SameElsewhere account s s' ∧ ∃ epoch, checkedSucc (s.slice account).epoch = some epoch ∧
      s'.slice account =
        { s.slice account with config := none, authorized := none, epoch := epoch } := by
  obtain ⟨epoch, bumped, rfl⟩ := removeConfig_eq_ok.mp removed
  refine ⟨.of_update fun other distinct => ?_, epoch, bumped, ?_⟩
  · simp [distinct]
  · simp [Storage.slice, epochOf, nextAttemptOf, invalidateBelowOf]

theorem classify_slice {new : Option CompiledRecoveryConfig} {validUntil : UInt32}
    {outcome : SyncOutcome}
    (accepted : classify d e s account new validUntil = .ok (outcome, s')) :
    SameElsewhere account s s' ∧ (s.slice account).Quiet e.sequence ∧
      Classified d e account (s.slice account) new validUntil outcome (s'.slice account) := by
  simp only [classify, bind_eq_ok, require_eq_ok, authorizedLive_eq_none] at accepted
  obtain ⟨-, quiet, accepted⟩ := accepted
  cases present : s.config account with
  | none =>
      cases new with
      | none =>
          simp only [present, pure_eq_ok, Prod.mk.injEq] at accepted
          obtain ⟨rfl, rfl⟩ := accepted
          exact ⟨.refl _ _, quiet, .nothing present rfl⟩
      | some config =>
          simp only [present, bind_eq_ok, require_eq_ok, pure_eq_ok, Prod.mk.injEq] at accepted
          obtain ⟨-, here, ⟨⟩, valid, ⟨⟩, wired, _, stored, rfl, rfl⟩ := accepted
          obtain ⟨elsewhere, epoch, bumped, after⟩ := storeConfig_slice stored
          refine ⟨elsewhere, quiet, ?_⟩
          rw [after]
          exact .enrolled present rfl here valid wired bumped
  | some stored =>
      cases new with
      | none =>
          simp only [present, bind_eq_ok, whenever_eq_ok, pure_eq_ok, Prod.mk.injEq] at accepted
          obtain ⟨-, condition, _, removed, rfl, rfl⟩ := accepted
          obtain ⟨elsewhere, epoch, bumped, after⟩ := removeConfig_slice removed
          refine ⟨elsewhere, quiet, ?_⟩
          rw [after]
          exact .removed present (by simp) (fun profile =>
            requireCondition_eq_ok (condition profile)) bumped
      | some config =>
          simp only [present] at accepted
          split at accepted
          · rename_i same
            simp only [pure_eq_ok, Prod.mk.injEq] at accepted
            obtain ⟨rfl, rfl⟩ := accepted
            exact ⟨.refl _ _, quiet, .same present rfl same.1 same.2⟩
          · rename_i differs
            simp only [bind_eq_ok, whenever_eq_ok] at accepted
            obtain ⟨-, condition, accepted⟩ := accepted
            split at accepted
            · rename_i here
              simp only [bind_eq_ok, pure_eq_ok, Prod.mk.injEq] at accepted
              obtain ⟨⟨⟩, valid, ⟨⟩, wired, _, kept, rfl, rfl⟩ := accepted
              obtain ⟨elsewhere, epoch, bumped, after⟩ := storeConfig_slice kept
              refine ⟨elsewhere, quiet, ?_⟩
              rw [after]
              exact .reconfigured present rfl here (fun same => differs ⟨here, same⟩)
                (fun profile => requireCondition_eq_ok (condition profile)) valid wired bumped
            · rename_i away
              simp only [bind_eq_ok, pure_eq_ok, Prod.mk.injEq] at accepted
              obtain ⟨_, removed, rfl, rfl⟩ := accepted
              obtain ⟨elsewhere, epoch, bumped, after⟩ := removeConfig_slice removed
              refine ⟨elsewhere, quiet, ?_⟩
              rw [after]
              exact .removed present (by simpa using away) (fun profile =>
                requireCondition_eq_ok (condition profile)) bumped

theorem SameElsewhere.setAuthorized (pointer : Option UInt64) :
    SameElsewhere account s
      { s with authorized := Function.update s.authorized account pointer } := by
  refine .of_update fun other distinct => ?_
  simp [distinct]

theorem SameElsewhere.removeCompleting : SameElsewhere account s (removeCompleting s account) := by
  refine .of_update fun other distinct => ?_
  simp [Recovery.removeCompleting, distinct]

theorem spendNullifier_slice {nullifier : Option Bytes32}
    (spent : spendNullifier s account nullifier = .ok s') :
    SameElsewhere account s s' ∧ (∀ n ∈ nullifier, (s.slice account).nullifier n = none) ∧
      s'.slice account =
        { s.slice account with
          nullifier := fun n =>
            if nullifier = some n then some true else (s.slice account).nullifier n } := by
  cases nullifier with
  | none =>
      simp only [spendNullifier, pure_eq_ok] at spent
      subst spent
      exact ⟨.refl _ _, by simp, by simp⟩
  | some nullifier =>
      simp only [spendNullifier, bind_eq_ok, require_eq_ok, pure_eq_ok] at spent
      obtain ⟨-, unspent, rfl⟩ := spent
      refine ⟨.of_update fun other distinct => by simp [distinct],
          by simpa [Storage.slice] using unspent, ?_⟩
      simp only [Storage.slice, epochOf, nextAttemptOf, invalidateBelowOf, Function.update_apply,
        Prod.mk.injEq, true_and, Option.some.injEq]
      simp only [eq_comm]

theorem complete_slice {marker : CompletionMarker} {new : Option CompiledRecoveryConfig}
    {docHash : Bytes32} {outcome : SyncOutcome}
    (accepted : complete d e s account marker new docHash = .ok (outcome, s')) :
    SameElsewhere account s s' ∧ ∃ a config epoch,
      (s.slice account).Authorized e.sequence a ∧ a.id = marker.attemptId ∧
      docHash = a.targetDocHash ∧ new = some config ∧ config.controller = d.address ∧
      config.configHash = a.targetConfigHash ∧
      (∀ n ∈ a.zkNullifier, (s.slice account).nullifier n = none) ∧
      checkedSucc (s.slice account).epoch = some epoch ∧
      outcome = .completed { attemptId := a.id, replaced := a.replaced } ∧
      s'.slice account =
        { ((s.slice account).put e { a with state := .completed }) with
          nullifier := fun n =>
            if a.zkNullifier = some n then some true else (s.slice account).nullifier n
          authorized := none
          config := some config
          epoch := epoch } := by
  simp only [complete, bind_eq_ok, orFail_eq_ok, require_eq_ok, pure_eq_ok,
    authorizedLive_eq_some, Prod.mk.injEq, not_or, not_not] at accepted
  obtain ⟨a, found, -, ⟨own, -, target⟩, config, passed, -, ⟨here, terms⟩, spending, spent, _,
    stored, rfl, rfl⟩ := accepted
  obtain ⟨away, unspent, spentSlice⟩ := spendNullifier_slice spent
  obtain ⟨away', epoch, bumped, after⟩ := storeConfig_slice stored
  rw [slice_setAuthorized, slice_save, spentSlice] at bumped after
  rw [Slice.put_epoch] at bumped
  refine ⟨?_, a, config, epoch, found, own, target, passed, here, terms, unspent, bumped, rfl, ?_⟩
  · exact ((away.trans (.save e account _ _)).trans (.setAuthorized none)).trans away'
  · rw [after]
    rfl

theorem rcvSync_slice {docHash : Bytes32} {recovery : List CompiledRecoveryConfig}
    {validUntil : UInt32} {outcome : SyncOutcome}
    (accepted : rcvSync d e s account docHash recovery validUntil = .ok (outcome, s')) :
    SameElsewhere account s s' ∧
      Transition d e account (s.slice account) (.rcvSync account docHash recovery validUntil)
        (.synced outcome) none (s'.slice account) := by
  simp only [rcvSync, bind_eq_ok, require_eq_ok] at accepted
  obtain ⟨-, invoked, accepted⟩ := accepted
  have dropped : (removeCompleting s account).slice account =
      { s.slice account with completing := none } := slice_removeCompleting s account
  cases left : Temporary.read e.sequence (s.completing account) with
  | none =>
      simp only [left] at accepted
      obtain ⟨elsewhere, quiet, settled⟩ := classify_slice accepted
      have kept : (s.slice account).takeMarker e.sequence = s.slice account := by
        have unread : Temporary.read e.sequence (s.slice account).completing = none := left
        simp only [Slice.takeMarker, unread]
      exact ⟨elsewhere, .classified invoked quiet (by rw [kept]; exact settled)⟩
  | some marker =>
      simp only [left] at accepted
      have read : Temporary.read e.sequence (s.slice account).completing = some marker := left
      split at accepted
      · rename_i current
        obtain ⟨elsewhere, a, config, epoch, found, own, target, passed, here, terms, unspent,
          bumped, rfl, after⟩ := complete_slice accepted
        rw [dropped] at found unspent bumped after
        refine ⟨SameElsewhere.removeCompleting.trans elsewhere, ?_⟩
        rw [after]
        exact .completed invoked read current.1 current.2.1 found own target passed here terms
          unspent rfl bumped
      · obtain ⟨elsewhere, quiet, settled⟩ := classify_slice accepted
        rw [dropped] at quiet settled
        refine ⟨SameElsewhere.removeCompleting.trans elsewhere, .classified invoked quiet ?_⟩
        simpa only [Slice.takeMarker, read] using settled

theorem countCancel_slice {config : CompiledRecoveryConfig}
    (counted : countCancel s account config = .ok s') :
    SameElsewhere account s s' ∧ ∃ next, (s.slice account).cancels.getD 0 < config.maxCancels ∧
      checkedSucc32 ((s.slice account).cancels.getD 0) = some next ∧
      s'.slice account = { s.slice account with cancels := some next } := by
  simp only [countCancel, bind_eq_ok, require_eq_ok, orTrap_eq_ok, pure_eq_ok] at counted
  obtain ⟨-, below, next, counts, rfl⟩ := counted
  refine ⟨.of_update fun other distinct => by simp [distinct], next, below, counts, ?_⟩
  simp [Storage.slice, epochOf, nextAttemptOf, invalidateBelowOf]

theorem cancel_collecting_slice {config : CompiledRecoveryConfig} {a : Attempt} {counted : Bool}
    {gate : Option GateCall} (collecting : a.state = .collecting)
    (accepted : cancel e s account config a counted = .ok (s', gate)) :
    SameElsewhere account s s' ∧ gate = none ∧
      s'.slice account = (s.slice account).put e { a with state := .cancelled } := by
  have unauthorized : ¬(AttemptState.collecting = .authorized) := by decide
  simp only [cancel, collecting, unauthorized, and_false, if_false, bind_eq_ok, pure_eq_ok,
    Prod.mk.injEq] at accepted
  obtain ⟨_, rfl, rfl, rfl⟩ := accepted
  exact ⟨.save e account s _, rfl, slice_save e s account _⟩

/-- Cancelling the authorized attempt also clears the pointer and the freeze,
and counts when evidence did it. -/
theorem cancel_authorized_slice {config : CompiledRecoveryConfig} {a : Attempt} {counted : Bool}
    {gate : Option GateCall} (authorized : a.state = .authorized)
    (accepted : cancel e s account config a counted = .ok (s', gate)) :
    SameElsewhere account s s' ∧ gate = gateCall config a.id 0 ∧
      (config.profile = .protectedProfile → (e.account account).rcvGate a.id 0 = some ()) ∧
      ∃ cancels,
        (counted = true → (s.slice account).cancels.getD 0 < config.maxCancels ∧
          ∃ next, checkedSucc32 ((s.slice account).cancels.getD 0) = some next ∧
            cancels = some next) ∧
        (counted = false → cancels = (s.slice account).cancels) ∧
        s'.slice account =
          { ((s.slice account).put e { a with state := .cancelled }) with
            cancels := cancels
            authorized := none } := by
  simp only [cancel, authorized, and_true, if_true, bind_eq_ok] at accepted
  obtain ⟨s₁, counting, accepted⟩ := accepted
  have count : SameElsewhere account s s₁ ∧ ∃ cancels,
      (counted = true → (s.slice account).cancels.getD 0 < config.maxCancels ∧
        ∃ next, checkedSucc32 ((s.slice account).cancels.getD 0) = some next ∧
          cancels = some next) ∧
      (counted = false → cancels = (s.slice account).cancels) ∧
      s₁.slice account = { s.slice account with cancels := cancels } := by
    cases counted with
    | true =>
        obtain ⟨elsewhere, next, below, counts, after⟩ := countCancel_slice counting
        exact ⟨elsewhere, some next, fun _ => ⟨below, next, counts, rfl⟩, by simp, after⟩
    | false =>
        simp only [Bool.false_eq_true, if_false, pure_eq_ok] at counting
        subst counting
        exact ⟨.refl _ _, _, by simp, fun _ => rfl, rfl⟩
  obtain ⟨elsewhere, cancels, counts, uncounted, counted'⟩ := count
  have away := (elsewhere.trans (.save e account s₁ { a with state := .cancelled })).trans
    (.setAuthorized none)
  have after : ({ save e s₁ account { a with state := .cancelled } with
      authorized := Function.update
        (save e s₁ account { a with state := .cancelled }).authorized account none } :
        Storage).slice account =
      { ((s.slice account).put e { a with state := .cancelled }) with
        cancels := cancels
        authorized := none } := by
    rw [slice_setAuthorized, slice_save, counted']
    rfl
  split at accepted
  · rename_i profile
    simp only [bind_eq_ok, orTrap_eq_ok, pure_eq_ok, Prod.mk.injEq] at accepted
    obtain ⟨⟨⟩, opened, rfl, rfl⟩ := accepted
    exact ⟨away, by simp [gateCall, profile], fun _ => opened, cancels, counts, uncounted, after⟩
  · rename_i profile
    simp only [pure_eq_ok, Prod.mk.injEq] at accepted
    obtain ⟨rfl, rfl⟩ := accepted
    exact ⟨away, by simp [gateCall, profile], fun own => absurd own profile, cancels, counts,
      uncounted, after⟩

theorem promote_slice {config : CompiledRecoveryConfig} {a b : Attempt} {gate : Option GateCall}
    (accepted : promote e s account config a = .ok (b, s', gate)) :
    SameElsewhere account s s' ∧ (s.slice account).Quiet e.sequence ∧
      ((¬SourceApplied e account a ∧ b = { a with state := .invalidated } ∧ gate = none ∧
          s'.slice account = s.slice account) ∨
        ∃ executableAfter expiresAt : UInt32, SourceApplied e account a ∧
          executableAfter.toNat = e.sequence.toNat + config.delayLedgers.toNat ∧
          expiresAt.toNat = executableAfter.toNat + config.expiryLedgers.toNat ∧
          b = a.authorize e.sequence executableAfter expiresAt ∧
          gate = gateCall config a.id expiresAt ∧
          (config.profile = .protectedProfile →
            (e.account account).rcvGate a.id expiresAt = some ()) ∧
          s'.slice account =
            { s.slice account with
              invalidateBelow := (s.slice account).nextAttempt
              authorized := some a.id }) := by
  simp only [promote, bind_eq_ok, require_eq_ok, authorizedLive_eq_none] at accepted
  obtain ⟨-, quiet, stale, staleness, accepted⟩ := accepted
  have sourced : stale = true ↔ ¬SourceApplied e account a := by
    unfold SourceApplied
    unfold staleSource at staleness
    by_cases lost : a.action = .lostKey
    · simp only [lost, bind_eq_ok, orTrap_eq_ok, pure_eq_ok] at staleness
      obtain ⟨applied, known, rfl⟩ := staleness
      simp [lost, known]
    · split at staleness
      · contradiction
      · simp only [pure_eq_ok] at staleness
        simp [← staleness, lost]
  split at accepted
  · rename_i old
    simp only [pure_eq_ok, Prod.mk.injEq] at accepted
    obtain ⟨rfl, rfl, rfl⟩ := accepted
    exact ⟨.refl _ _, quiet, .inl ⟨sourced.mp old, rfl, rfl, rfl⟩⟩
  · rename_i current
    have applied : SourceApplied e account a := not_not.mp (mt sourced.mpr current)
    simp only [bind_eq_ok, addLedgers_eq_ok] at accepted
    obtain ⟨executableAfter, delay, expiresAt, expiry, accepted⟩ := accepted
    have away : SameElsewhere account s
        { s with
          invalidateBelow :=
            Function.update s.invalidateBelow account (some (nextAttemptOf s account))
          authorized := Function.update s.authorized account (some a.id) } := by
      refine .of_update fun other distinct => ?_
      simp [distinct]
    have after : ({ s with
        invalidateBelow :=
          Function.update s.invalidateBelow account (some (nextAttemptOf s account))
        authorized := Function.update s.authorized account (some a.id) } : Storage).slice account =
        { s.slice account with
          invalidateBelow := (s.slice account).nextAttempt
          authorized := some a.id } := by
      simp [Storage.slice, epochOf, nextAttemptOf, invalidateBelowOf]
    split at accepted
    · rename_i profile
      simp only [bind_eq_ok, orTrap_eq_ok, pure_eq_ok, Prod.mk.injEq] at accepted
      obtain ⟨⟨⟩, frozen, rfl, rfl, rfl⟩ := accepted
      exact ⟨away, quiet, .inr ⟨executableAfter, expiresAt, applied, delay, expiry, rfl,
        by simp [gateCall, profile], fun _ => frozen, after⟩⟩
    · rename_i profile
      simp only [pure_eq_ok, Prod.mk.injEq] at accepted
      obtain ⟨rfl, rfl, rfl⟩ := accepted
      exact ⟨away, quiet, .inr ⟨executableAfter, expiresAt, applied, delay, expiry, rfl,
        by simp [gateCall, profile], fun own => absurd own profile, after⟩⟩

/-- Evidence changes the evidence of an attempt and nothing else about it. -/
theorem Submission.unchanged {m : Slice} {config : CompiledRecoveryConfig} {a b : Attempt}
    {domain : EvidenceDomain} {call : Call}
    (submitted : Submission d e account m config a domain call b) :
    b = { a with
      guardians := b.guardians
      zkNullifier := b.zkNullifier
      cancelGuardians := b.cancelGuardians
      cancelZk := b.cancelZk } := by
  cases submitted with
  | guardian => cases domain <;> rfl
  | zk => cases domain <;> rfl

theorem Submission.id_eq {m : Slice} {config : CompiledRecoveryConfig} {a b : Attempt}
    {domain : EvidenceDomain} {call : Call}
    (submitted : Submission d e account m config a domain call b) : b.id = a.id := by
  rw [submitted.unchanged]

theorem Submission.state_eq {m : Slice} {config : CompiledRecoveryConfig} {a b : Attempt}
    {domain : EvidenceDomain} {call : Call}
    (submitted : Submission d e account m config a domain call b) : b.state = a.state := by
  rw [submitted.unchanged]

theorem Submission.sourceApplied {m : Slice} {config : CompiledRecoveryConfig} {a b : Attempt}
    {domain : EvidenceDomain} {call : Call}
    (submitted : Submission d e account m config a domain call b) :
    SourceApplied e account b ↔ SourceApplied e account a := by
  rw [submitted.unchanged]
  exact Iff.rfl

theorem afterEvidence_slice {config : CompiledRecoveryConfig} {a b : Attempt}
    {domain : EvidenceDomain} {call : Call} {gate : Option GateCall}
    (enrolled : s.config account = some config)
    (loaded : (s.slice account).load e.sequence a.id = some a)
    (live : (s.slice account).Live e.sequence a)
    (phase : domain = .initiate → a.state = .collecting)
    (submitted : Submission d e account (s.slice account) config a domain call b)
    (accepted : afterEvidence e s account config b domain = .ok (s', gate)) :
    SameElsewhere account s s' ∧
      Transition d e account (s.slice account) call .done gate (s'.slice account) := by
  cases domain with
  | initiate =>
      simp only [afterEvidence] at accepted
      split at accepted
      · rename_i met
        simp only [bind_eq_ok, pure_eq_ok, Prod.exists, Prod.mk.injEq] at accepted
        obtain ⟨record, s₁, gate, promoted, rfl, rfl⟩ := accepted
        obtain ⟨away, quiet, outcome⟩ := promote_slice promoted
        refine ⟨away.trans (.save e account _ _), ?_⟩
        rw [slice_save]
        rcases outcome with ⟨stale, rfl, rfl, kept⟩ |
          ⟨executableAfter, expiresAt, applied, delay, expiry, rfl, rfl, frozen, moved⟩
        · rw [kept]
          exact .invalidated enrolled loaded live (phase rfl) submitted met quiet
            (mt submitted.sourceApplied.mpr stale)
        · rw [moved]
          rw [submitted.id_eq] at frozen ⊢
          exact .authorized enrolled loaded live (phase rfl) submitted met quiet
            (submitted.sourceApplied.mp applied) delay expiry frozen
      · rename_i unmet
        simp only [pure_eq_ok, Prod.mk.injEq] at accepted
        obtain ⟨rfl, rfl⟩ := accepted
        refine ⟨.save e account s b, ?_⟩
        rw [slice_save]
        exact .recorded enrolled loaded live phase submitted (by simpa using unmet)
  | cancel =>
      simp only [afterEvidence] at accepted
      split at accepted
      · rename_i met
        by_cases authorized : a.state = .authorized
        · obtain ⟨away, rfl, opened, cancels, counted, -, after⟩ :=
            cancel_authorized_slice (submitted.state_eq.trans authorized) accepted
          have gates : gateCall config b.id 0 = gateCall config a.id 0 := by
            rw [submitted.id_eq]
          rw [submitted.id_eq] at opened
          refine ⟨away, ?_⟩
          rw [after, gates]
          exact .cancelledAuthorized enrolled loaded live authorized
            (.evidence submitted met (fun _ => counted rfl) (fun other => absurd authorized other))
            opened
        · have collecting : a.state = .collecting := by
            rcases live.2 with ⟨state, -⟩ | ⟨state, -⟩
            · exact state
            · exact absurd state authorized
          obtain ⟨away, rfl, after⟩ :=
            cancel_collecting_slice (submitted.state_eq.trans collecting) accepted
          refine ⟨away, ?_⟩
          rw [after]
          exact .cancelledCollecting enrolled loaded live collecting
            (.evidence submitted met (fun own => absurd own authorized) (fun _ => rfl))
      · rename_i unmet
        simp only [pure_eq_ok, Prod.mk.injEq] at accepted
        obtain ⟨rfl, rfl⟩ := accepted
        refine ⟨.save e account s b, ?_⟩
        rw [slice_save]
        exact .recorded enrolled loaded live phase submitted (by simpa using unmet)

def Slice.Keyed (m : Slice) : Prop :=
  ∀ id a, m.Holds id a → a.id = id

theorem submitGuardian_slice {attemptId : UInt64} {domain : EvidenceDomain} {guardian : Address}
    {gate : Option GateCall} (keyed : (s.slice account).Keyed)
    (accepted : submitGuardian d e s account attemptId domain guardian = .ok (s', gate)) :
    SameElsewhere account s s' ∧
      Transition d e account (s.slice account)
        (.submitGuardian account attemptId domain guardian) .done gate (s'.slice account) := by
  simp only [submitGuardian, bind_eq_ok, requireConfig_eq_ok, orFail_eq_ok, require_eq_ok,
    loadLive_eq_ok, checkFresh_eq_ok, digest_eq_ok] at accepted
  obtain ⟨config, enrolled, set, guardians, -, member, a, ⟨loaded, live⟩, -, phase, -, fresh,
    asked, built, -, timely, value, hashed, -, signed, accepted⟩ := accepted
  have own : a.id = attemptId := keyed _ _ (.of_load loaded)
  subst own
  exact afterEvidence_slice enrolled loaded live phase
    (.guardian guardians member fresh built timely hashed signed) accepted

theorem submitZk_slice {attemptId : UInt64} {domain : EvidenceDomain} {evidence : ZkEvidence}
    {gate : Option GateCall} (keyed : (s.slice account).Keyed)
    (accepted : submitZk d e s account attemptId domain evidence = .ok (s', gate)) :
    SameElsewhere account s s' ∧
      Transition d e account (s.slice account)
        (.submitZk account attemptId domain evidence) .done gate (s'.slice account) := by
  simp only [submitZk, bind_eq_ok, requireConfig_eq_ok, orFail_eq_ok, require_eq_ok,
    loadLive_eq_ok, checkFresh_eq_ok, verifyZk_eq_ok] at accepted
  obtain ⟨config, enrolled, factor, zk, a, ⟨loaded, live⟩, -, phase, -, fresh, asked, built, -,
    timely, -, ⟨verified, unspent⟩, accepted⟩ := accepted
  have own : a.id = attemptId := keyed _ _ (.of_load loaded)
  subst own
  exact afterEvidence_slice enrolled loaded live phase
    (.zk zk fresh built timely verified unspent) accepted

theorem rcvCancel_slice {attemptId : UInt64} {gate : Option GateCall}
    (keyed : (s.slice account).Keyed)
    (accepted : rcvCancel e s account attemptId = .ok (s', gate)) :
    SameElsewhere account s s' ∧
      Transition d e account (s.slice account) (.rcvCancel account attemptId) .done gate
        (s'.slice account) := by
  simp only [rcvCancel, bind_eq_ok, require_eq_ok, requireConfig_eq_ok, loadLive_eq_ok] at accepted
  obtain ⟨-, invoked, config, enrolled, -, loss, a, ⟨loaded, live⟩, accepted⟩ := accepted
  have own : a.id = attemptId := keyed _ _ (.of_load loaded)
  subst own
  rcases live.2 with ⟨collecting, -⟩ | ⟨authorized, -⟩
  · obtain ⟨away, rfl, after⟩ := cancel_collecting_slice collecting accepted
    refine ⟨away, ?_⟩
    rw [after]
    exact .cancelledCollecting enrolled loaded live collecting (.owner invoked loss)
  · obtain ⟨away, rfl, opened, cancels, -, uncounted, after⟩ :=
      cancel_authorized_slice authorized accepted
    obtain rfl := uncounted rfl
    refine ⟨away, ?_⟩
    rw [after]
    exact .cancelledAuthorized enrolled loaded live authorized (.owner invoked loss) opened

theorem rcvUpgrade_slice {step : UpgradeStep} {epoch : UInt64}
    (accepted : rcvUpgrade d e s account step = .ok (epoch, s')) :
    SameElsewhere account s s' ∧
      Transition d e account (s.slice account) (.rcvUpgrade account step) (.epoch epoch) none
        (s'.slice account) := by
  simp only [rcvUpgrade, bind_eq_ok, require_eq_ok, requireConfig_eq_ok,
    authorizedLive_eq_none] at accepted
  obtain ⟨-, invoked, config, enrolled, -, quiet, accepted⟩ := accepted
  cases step with
  | schedule subject validUntil =>
      simp only [bind_eq_ok, whenever_eq_ok, pure_eq_ok, Prod.mk.injEq] at accepted
      obtain ⟨-, condition, rfl, rfl⟩ := accepted
      exact ⟨.refl _ _, .scheduled invoked enrolled quiet
        (fun profile => requireCondition_eq_ok (condition profile))⟩
  | execute recorded =>
      simp only [bind_eq_ok, require_eq_ok, bumpEpoch_eq_ok] at accepted
      obtain ⟨-, rfl, bumped, rfl⟩ := accepted
      refine ⟨.of_update fun other distinct => by simp [distinct], ?_⟩
      have after : ({ s with epoch := Function.update s.epoch account (some epoch) } :
          Storage).slice account = { s.slice account with epoch := epoch } := by
        simp [Storage.slice, epochOf, nextAttemptOf, invalidateBelowOf]
      rw [after]
      exact .upgraded invoked enrolled quiet bumped

theorem enforce_slice {context : Context} {signers : List Signer} {rule : ContextRule}
    (accepted : enforce d e s context signers rule account = .ok s') :
    SameElsewhere account s s' ∧
      Transition d e account (s.slice account) (.enforce context signers rule account) .done none
        (s'.slice account) := by
  simp only [enforce, bind_eq_ok, require_eq_ok] at accepted
  obtain ⟨-, invoked, -, rfl, ⟨⟩, shaped, accepted⟩ := accepted
  cases context with
  | createContract wasmHash => simp [authorizeCompletion] at accepted
  | contract call =>
      obtain ⟨contract, fnName, args⟩ := call
      simp only [authorizeCompletion, bind_eq_ok, require_eq_ok, orFail_eq_ok,
        requireConfig_eq_ok, authorizedLive_eq_some, pure_eq_ok] at accepted
      obtain ⟨-, ⟨rfl, rfl⟩, target, first, config, enrolled, a, found, -, executable, -,
        digested, rfl⟩ := accepted
      refine ⟨.of_update fun other distinct => by simp [distinct], ?_⟩
      have after (entry : Temporary CompletionMarker) :
          ({ s with completing := Function.update s.completing contract (some entry) } :
            Storage).slice contract = { s.slice contract with completing := some entry } := by
        simp [Storage.slice, epochOf, nextAttemptOf, invalidateBelowOf]
      rw [after]
      exact .enforced invoked shaped first enrolled found executable digested (by simp)

theorem sourceOf_eq_ok {config : CompiledRecoveryConfig} {current source : Bytes}
    {hash : Bytes32} {view : AccountView} {action : RecoveryAction}
    (read : sourceOf s account config view current action = .ok (source, hash)) :
    SourceOf (s.slice account) config view current source hash action := by
  cases action with
  | compromise =>
      simp only [sourceOf, bind_eq_ok, orFail_eq_ok, pure_eq_ok, Prod.mk.injEq] at read
      obtain ⟨_, named, _, stored, rfl, rfl⟩ := read
      exact ⟨named, stored⟩
  | lostKey | cancel | reconfigure | upgrade =>
      simp only [sourceOf, bind_eq_ok, orFail_eq_ok, orTrap_eq_ok, pure_eq_ok,
        Prod.mk.injEq] at read
      obtain ⟨_, known, _, rfl, rfl, rfl⟩ := read
      exact ⟨rfl, known⟩

theorem beginAttempt_slice {action : RecoveryAction} {replacements : ReplacementSet}
    {id : UInt64} (known : action = .lostKey ∨ action = .compromise)
    (accepted : beginAttempt d e s account action replacements = .ok (id, s')) :
    SameElsewhere account s s' ∧
      Transition d e account (s.slice account) (beginCall account action replacements)
        (.begun id) none (s'.slice account) := by
  simp only [beginAttempt, bind_eq_ok, requireConfig_eq_ok, require_eq_ok, mapError_eq_ok,
    orTrap_eq_ok, orFail_eq_ok, authorizedLive_eq_none, addLedgers_eq_ok, pure_eq_ok,
    Prod.exists, Prod.mk.injEq] at accepted
  obtain ⟨config, enrolled, -, quiet, replacementsHash, hashed, -, enrollment, _, applied, current,
    rfl, source, sourceDocHash, read, compiler, compiles, derived, derives, ⟨⟩, freshEnrollment,
    ⟨⟩, notRevoked, replaced, fingerprints, -, leaves, next, counted, evidenceDeadline, deadline,
    delayed, -, cancelUntil, -, rfl, rfl⟩ := accepted
  have moved : ({ s with nextAttempt := Function.update s.nextAttempt account (some next) } :
      Storage).slice account = { s.slice account with nextAttempt := next } := by
    simp [Storage.slice, epochOf, nextAttemptOf, invalidateBelowOf]
  refine ⟨SameElsewhere.trans (.of_update fun other distinct => ?_) (.save e account _ _), ?_⟩
  · simp [distinct]
  · rw [slice_save, moved]
    refine Transition.begun (a := collectingAttempt _ _ _ _ _ _ _ _ _ derived) (d := d)
      (?_ : Begun d e account _ action replacements config derived _) known counted
    exact
      { enrolled := enrolled
        quiet := quiet
        hashed := hashed
        enrollment := enrollment
        source := ⟨current, source, compiler, applied, compiles, sourceOf_eq_ok read, derives⟩
        freshEnrollment := freshEnrollment
        notRevoked := notRevoked
        leaves := ⟨replaced, fingerprints, leaves⟩
        deadline := deadline
        record := rfl }

theorem slice_storeApproval (digest : Bytes32) (approval : ChangeApproval) :
    (storeApproval s account digest approval).slice account =
      { s.slice account with
        approval := Function.update (s.slice account).approval digest (some approval) } := by
  ext1 <;> try rfl
  funext other
  by_cases own : other = digest <;> simp [storeApproval, Storage.slice, own]

theorem SameElsewhere.storeApproval (digest : Bytes32) (approval : ChangeApproval) :
    SameElsewhere account s (storeApproval s account digest approval) := by
  refine .of_update fun other distinct => ?_
  simp [Recovery.storeApproval, distinct]

theorem approveChange_slice {subject : StatementSubject} {validUntil : UInt32}
    {guardian : Address}
    (accepted : approveChange d e s account subject validUntil guardian = .ok s') :
    SameElsewhere account s s' ∧
      Transition d e account (s.slice account) (.approveChange account subject validUntil guardian)
        .done none (s'.slice account) := by
  simp only [approveChange, bind_eq_ok, requireConfig_eq_ok, orFail_eq_ok, require_eq_ok,
    refuseInWindow, authorizedLive_eq_none, changeStatementFor_eq_ok, checkFresh_eq_ok,
    digest_eq_ok, pure_eq_ok] at accepted
  obtain ⟨config, enrolled, set, guardians, -, member, -, quiet, _, ⟨change, rfl⟩, -, fresh, value,
    hashed, -, uncounted, -, signed, rfl⟩ := accepted
  refine ⟨.storeApproval _ _, ?_⟩
  rw [slice_storeApproval]
  exact .approved enrolled guardians member quiet change fresh hashed rfl uncounted signed

theorem submitZkChange_slice {subject : StatementSubject} {validUntil : UInt32}
    {evidence : ZkEvidence}
    (accepted : submitZkChange d e s account subject validUntil evidence = .ok s') :
    SameElsewhere account s s' ∧
      Transition d e account (s.slice account)
        (.submitZkChange account subject validUntil evidence) .done none (s'.slice account) := by
  simp only [submitZkChange, bind_eq_ok, requireConfig_eq_ok, orFail_eq_ok, require_eq_ok,
    refuseInWindow, authorizedLive_eq_none, changeStatementFor_eq_ok, checkFresh_eq_ok,
    digest_eq_ok, verifyZk_eq_ok, pure_eq_ok] at accepted
  obtain ⟨config, enrolled, factor, zk, -, quiet, _, ⟨change, rfl⟩, -, fresh, value, hashed, -, -,
    -, ⟨verified, unspent⟩, rfl⟩ := accepted
  refine ⟨.storeApproval _ _, ?_⟩
  rw [slice_storeApproval]
  exact .proved enrolled zk quiet change fresh hashed rfl verified unspent

theorem publishBaseline_slice {docJson : Bytes}
    (accepted : publishBaseline e s account docJson = .ok s') :
    SameElsewhere account s s' ∧
      Transition d e account (s.slice account) (.publishBaseline account docJson) .done none
        (s'.slice account) := by
  simp only [publishBaseline, bind_eq_ok, requireConfig_eq_ok, orFail_eq_ok, orTrap_eq_ok,
    require_eq_ok, pure_eq_ok] at accepted
  obtain ⟨config, enrolled, baseline, named, compiler, known, compiled, compiles, -,
    ⟨same, admin⟩, rfl⟩ := accepted
  refine ⟨.of_update fun other distinct => by simp [distinct], ?_⟩
  have after : ({ s with
      baseline := Function.update s.baseline (account, baseline) (some compiled.canonical) } :
        Storage).slice account =
      { s.slice account with
        baseline := Function.update (s.slice account).baseline baseline
          (some compiled.canonical) } := by
    ext1 <;> try rfl
    funext other
    by_cases own : other = baseline <;> simp [Storage.slice, own]
  rw [after]
  exact .published enrolled named ⟨known, compiles⟩ same admin

end Entry

/-- A successful call is one of the listed outcomes for the account it names,
and leaves every other account as it was. -/
theorem execute_transition {d : Deployment} {e : Env} {s : Storage} {call : Call}
    {outcome : Outcome} (keyed : (s.slice call.account).Keyed)
    (accepted : execute d e s call = .ok outcome) :
    SameElsewhere call.account s outcome.storage ∧
      Transition d e call.account (s.slice call.account) call outcome.reply outcome.gate
        (outcome.storage.slice call.account) := by
  cases call with
  | rcvSync account docHash recovery validUntil =>
      simp only [execute, bind_eq_ok, pure_eq_ok, Prod.exists] at accepted
      obtain ⟨_, _, accepted, rfl⟩ := accepted
      exact rcvSync_slice accepted
  | rcvCancel account attemptId =>
      simp only [execute, bind_eq_ok, pure_eq_ok, Prod.exists] at accepted
      obtain ⟨_, _, accepted, rfl⟩ := accepted
      exact rcvCancel_slice keyed accepted
  | rcvUpgrade account step =>
      simp only [execute, bind_eq_ok, pure_eq_ok, Prod.exists] at accepted
      obtain ⟨_, _, accepted, rfl⟩ := accepted
      exact rcvUpgrade_slice accepted
  | install installParams rule account =>
      simp only [execute, install, bind_eq_ok, require_eq_ok, requireConfig_eq_ok,
        pure_eq_ok] at accepted
      obtain ⟨_, ⟨-, invoked, ⟨⟩, shaped, config, enrolled, rfl⟩, rfl⟩ := accepted
      exact ⟨.refl _ _, .installed invoked shaped enrolled⟩
  | enforce context signers rule account =>
      simp only [execute, bind_eq_ok, pure_eq_ok] at accepted
      obtain ⟨_, accepted, rfl⟩ := accepted
      exact enforce_slice accepted
  | uninstall rule account =>
      simp only [execute, uninstall, bind_eq_ok, require_eq_ok, pure_eq_ok] at accepted
      obtain ⟨-, invoked, rfl⟩ := accepted
      exact ⟨.refl _ _, .uninstalled invoked⟩
  | beginLostKey account replacements =>
      simp only [execute, bind_eq_ok, pure_eq_ok, Prod.exists] at accepted
      obtain ⟨_, _, accepted, rfl⟩ := accepted
      exact beginAttempt_slice (.inl rfl) accepted
  | beginCompromise account replacements =>
      simp only [execute, bind_eq_ok, pure_eq_ok, Prod.exists] at accepted
      obtain ⟨_, _, accepted, rfl⟩ := accepted
      exact beginAttempt_slice (.inr rfl) accepted
  | submitGuardian account attemptId domain guardian =>
      simp only [execute, bind_eq_ok, pure_eq_ok, Prod.exists] at accepted
      obtain ⟨_, _, accepted, rfl⟩ := accepted
      exact submitGuardian_slice keyed accepted
  | submitZk account attemptId domain evidence =>
      simp only [execute, bind_eq_ok, pure_eq_ok, Prod.exists] at accepted
      obtain ⟨_, _, accepted, rfl⟩ := accepted
      exact submitZk_slice keyed accepted
  | approveChange account subject validUntil guardian =>
      simp only [execute, bind_eq_ok, pure_eq_ok] at accepted
      obtain ⟨_, accepted, rfl⟩ := accepted
      exact approveChange_slice accepted
  | submitZkChange account subject validUntil evidence =>
      simp only [execute, bind_eq_ok, pure_eq_ok] at accepted
      obtain ⟨_, accepted, rfl⟩ := accepted
      exact submitZkChange_slice accepted
  | publishBaseline account docJson =>
      simp only [execute, bind_eq_ok, pure_eq_ok] at accepted
      obtain ⟨_, accepted, rfl⟩ := accepted
      exact publishBaseline_slice accepted
  | renew account =>
      simp only [execute, pure_eq_ok] at accepted
      subst accepted
      exact ⟨.refl _ _, .renewed⟩

end Perch.Recovery
