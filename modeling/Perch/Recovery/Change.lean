/-
Changes of a protected account.

Approvals of a reconfiguration, a removal, or an upgrade accumulate under the
digest of a statement, and the consuming call rebuilds the statement from its
own storage.  The statement fixes the subject, the validity bound, the epoch
and the configuration, so with a collision-free hash only evidence given for
exactly that change counts.
-/

import Mathlib.Data.Set.Function
import Perch.Recovery.Epoch

namespace Perch.Recovery

open Machine Document

/-! ### Recorded approvals and the calls that gave them -/

/-- An accepted `approve_change` of the statement with this digest. -/
def ApprovedChange (d : Deployment) (account : Address) (digest : Bytes32) (guardian : Address)
    (taken : ControllerStep) : Prop :=
  ∃ config subject validUntil,
    taken.action.call = .approveChange account subject validUntil guardian ∧
    (∃ answer, taken.reply = .ok answer) ∧
    taken.before.config account = some config ∧
    (statement d account config (epochOf taken.before account) validUntil subject).digest d.sha256 =
      .ok digest ∧
    taken.action.env.requireAuthForArgs guardian digest = true

/-- An accepted `submit_zk_change` for the statement with this digest. -/
def ProvedChange (d : Deployment) (account : Address) (digest : Bytes32)
    (taken : ControllerStep) : Prop :=
  ∃ config factor subject validUntil evidence,
    taken.action.call = .submitZkChange account subject validUntil evidence ∧
    (∃ answer, taken.reply = .ok answer) ∧
    taken.before.config account = some config ∧ config.zk = some factor ∧
    (statement d account config (epochOf taken.before account) validUntil subject).digest d.sha256 =
      .ok digest ∧
    (taken.action.env.zkAdapter factor.adapter).verify
      (statement d account config (epochOf taken.before account) validUntil subject)
      factor.binding evidence = true

/-- Everything a record counts was given for its digest. -/
structure ApprovalGiven (d : Deployment) (account : Address) (history : History)
    (digest : Bytes32) (approval : ChangeApproval) : Prop where
  distinct : approval.guardians.Nodup
  approved : ∀ guardian ∈ approval.guardians, ∃ taken ∈ history,
    ApprovedChange d account digest guardian taken
  proved : approval.zk = true → ∃ taken ∈ history, ProvedChange d account digest taken

theorem ApprovalGiven.grow {d : Deployment} {account : Address} {history longer : History}
    {digest : Bytes32} {approval : ChangeApproval}
    (given : ApprovalGiven d account history digest approval) (grown : history ⊆ longer) :
    ApprovalGiven d account longer digest approval where
  distinct := given.distinct
  approved := by
    intro guardian counted
    obtain ⟨taken, member, approved⟩ := given.approved guardian counted
    exact ⟨taken, grown member, approved⟩
  proved := by
    intro counted
    obtain ⟨taken, member, proved⟩ := given.proved counted
    exact ⟨taken, grown member, proved⟩

theorem ApprovalGiven.empty (d : Deployment) (account : Address) (history : History)
    (digest : Bytes32) : ApprovalGiven d account history digest .empty where
  distinct := List.nodup_nil
  approved := by simp [ChangeApproval.empty]
  proved := by simp [ChangeApproval.empty]

inductive ApprovalEffect (d : Deployment) (e : Env) (account : Address) (m : Slice) (call : Call)
    (m' : Slice) : Prop where
  | kept (same : m'.approval = m.approval)
  | approved {config : CompiledRecoveryConfig} {subject : StatementSubject} {validUntil : UInt32}
      {guardian : Address} {digest : Bytes32} {approval : ChangeApproval}
      (called : call = .approveChange account subject validUntil guardian)
      (enrolled : m.config = some config)
      (hashed : (statement d account config m.epoch validUntil subject).digest d.sha256 =
        .ok digest)
      (previous : approval = (m.approval digest).getD .empty)
      (uncounted : guardian ∉ approval.guardians)
      (signed : e.requireAuthForArgs guardian digest = true)
      (wrote : m'.approval = Function.update m.approval digest
        (some { approval with guardians := approval.guardians ++ [guardian] }))
  | proved {config : CompiledRecoveryConfig} {factor : CompiledZkFactor}
      {subject : StatementSubject} {validUntil : UInt32} {evidence : ZkEvidence}
      {digest : Bytes32} {approval : ChangeApproval}
      (called : call = .submitZkChange account subject validUntil evidence)
      (enrolled : m.config = some config) (zk : config.zk = some factor)
      (hashed : (statement d account config m.epoch validUntil subject).digest d.sha256 =
        .ok digest)
      (previous : approval = (m.approval digest).getD .empty)
      (accepted : (e.zkAdapter factor.adapter).verify
        (statement d account config m.epoch validUntil subject) factor.binding evidence = true)
      (wrote : m'.approval = Function.update m.approval digest
        (some { approval with zk := true }))

theorem Transition.approvalEffect {d : Deployment} {e : Env} {account : Address} {m m' : Slice}
    {call : Call} {reply : Reply} {gate : Option GateCall}
    (transition : Transition d e account m call reply gate m') :
    ApprovalEffect d e account m call m' := by
  cases transition with
  | approved enrolled _ _ _ _ _ hashed previous uncounted signed =>
      exact .approved rfl enrolled hashed previous uncounted signed rfl
  | proved enrolled zk _ _ _ hashed previous accepted _ =>
      exact .proved rfl enrolled zk hashed previous accepted rfl
  | classified _ _ settled =>
      have dropped := Slice.takeMarker_eq e.sequence m
      generalize (m.takeMarker e.sequence).completing = completing at dropped
      rw [dropped] at settled
      cases settled <;> exact .kept rfl
  | completed | cancelledCollecting | cancelledAuthorized | scheduled | upgraded | installed
  | uninstalled | renewed | enforced | begun | recorded | invalidated | authorized | published =>
      exact .kept rfl

/-- One record gains one piece of evidence, or all stay as they are. -/
theorem Acted.approvals {d : Deployment} {account : Address} {history : History}
    {taken : ControllerStep} {reply : Reply} {gate : Option GateCall}
    (acted : Acted d account taken reply gate)
    (given : ∀ digest approval, (taken.before.slice account).approval digest = some approval →
      ApprovalGiven d account history digest approval) :
    ∀ digest approval, (taken.after.slice account).approval digest = some approval →
      ApprovalGiven d account (taken :: history) digest approval := by
  have longer : history ⊆ taken :: history := List.subset_cons_self taken history
  have kept : ∀ digest approval,
      (taken.before.slice account).approval digest = some approval →
      ApprovalGiven d account (taken :: history) digest approval :=
    fun digest approval present => (given digest approval present).grow longer
  have before : ∀ digest, ApprovalGiven d account (taken :: history) digest
      (((taken.before.slice account).approval digest).getD .empty) := by
    intro digest
    cases present : (taken.before.slice account).approval digest with
    | none => exact .empty d account _ digest
    | some approval => exact kept digest approval present
  have written : ∀ {digest : Bytes32} {gained : ChangeApproval},
      (taken.after.slice account).approval =
        Function.update (taken.before.slice account).approval digest (some gained) →
      ApprovalGiven d account (taken :: history) digest gained →
      ∀ other approval, (taken.after.slice account).approval other = some approval →
        ApprovalGiven d account (taken :: history) other approval := by
    intro digest gained wrote justified other approval present
    rw [wrote] at present
    by_cases own : other = digest
    · subst own
      rw [Function.update_self] at present
      cases present
      exact justified
    · rw [Function.update_of_ne own] at present
      exact kept other approval present
  have answered : ∃ answer, taken.reply = .ok answer := ⟨_, acted.replied⟩
  cases acted.transition.approvalEffect with
  | kept same =>
      rw [same]
      exact kept
  | @approved config subject validUntil guardian digest approval called enrolled hashed previous
      uncounted signed wrote =>
      subst previous
      refine written wrote ?_
      have past := before digest
      exact
        { distinct := by
            refine List.nodup_append.mpr ⟨past.distinct, by simp, ?_⟩
            rintro g counted h single rfl
            exact uncounted (List.mem_singleton.mp single ▸ counted)
          approved := by
            intro g counted
            rcases List.mem_append.mp counted with counted | counted
            · exact past.approved g counted
            · rw [List.mem_singleton.mp counted]
              exact ⟨taken, List.mem_cons_self, config, subject, validUntil, called, answered,
                enrolled, hashed, signed⟩
          proved := past.proved }
  | @proved config factor subject validUntil evidence digest approval called enrolled zk hashed
      previous accepted wrote =>
      subst previous
      refine written wrote ?_
      have past := before digest
      exact
        { distinct := past.distinct
          approved := past.approved
          proved := fun _ => ⟨taken, List.mem_cons_self, config, factor, subject, validUntil,
            evidence, called, answered, enrolled, zk, hashed, accepted⟩ }

theorem Run.approvals {d : Deployment} {history : History} {now : UInt32} {s : Storage}
    (run : Run d history now s) (account : Address) :
    ∀ digest approval, s.approval (account, digest) = some approval →
      ApprovalGiven d account history digest approval := by
  refine (account_invariant account
    (fun history _ m => ∀ digest approval, m.approval digest = some approval →
      ApprovalGiven d account history digest approval)
    Slice.sound_empty ?_ (fun known _ => known) ?_ ?_ run).2
  · intro digest approval impossible
    cases impossible
  · intro history taken known passed digest approval present
    exact (known digest approval present).grow (List.subset_cons_self taken history)
  · intro history taken reply gate known sound acted
    exact acted.approvals known

/-! ### The statements a run hashes -/

/-- The change statement a call names, built from the storage it finds. -/
def changeNamed (d : Deployment) (s : Storage) : Call → Option RecoveryStatement
  | .approveChange account subject validUntil _ | .submitZkChange account subject validUntil _ =>
      (s.config account).map fun config =>
        statement d account config (epochOf s account) validUntil subject
  | .rcvSync account _ recovery validUntil =>
      (s.config account).map fun config =>
        statement d account config (epochOf s account) validUntil
          (.reconfigure (configChange recovery.head?))
  | .rcvUpgrade account (.schedule subject validUntil) =>
      (s.config account).map fun config =>
        statement d account config (epochOf s account) validUntil (.upgrade subject)
  | _ => none

/-- The encodings of the change statements a run names. -/
def namedEncodings (d : Deployment) (history : History) : Set Bytes :=
  { encoded | ∃ taken ∈ history, ∃ named,
      changeNamed d taken.before taken.action.call = some named ∧ named.encode = .ok encoded }

/-- With no collision among them, one digest stands for one statement. -/
theorem statement_of_digest {d : Deployment} {history : History} {first second : ControllerStep}
    {left right : RecoveryStatement} {digest : Bytes32}
    (collisionFree : Set.InjOn d.sha256 (namedEncodings d history))
    (member : first ∈ history) (member' : second ∈ history)
    (named : changeNamed d first.before first.action.call = some left)
    (named' : changeNamed d second.before second.action.call = some right)
    (hashed : left.digest d.sha256 = .ok digest) (hashed' : right.digest d.sha256 = .ok digest) :
    left = right := by
  simp only [RecoveryStatement.digest, bind_eq_ok, pure_eq_ok] at hashed hashed'
  obtain ⟨encoded, encodes, rfl⟩ := hashed
  obtain ⟨encoded', encodes', same⟩ := hashed'
  have equal : encoded' = encoded :=
    collisionFree ⟨second, member', right, named', encodes'⟩ ⟨first, member, left, named, encodes⟩
      same
  subst equal
  exact RecoveryStatement.encode_injective encodes encodes'

/-! ### Protected changes -/

/-- A step that changed the account's configuration or scheduled its upgrade,
with the subject and the bound it was judged under. -/
def ChangeMade (account : Address) (taken : ControllerStep) (subject : StatementSubject)
    (validUntil : UInt32) : Prop :=
  (∃ docHash recovery outcome gate,
    taken.action.call = .rcvSync account docHash recovery validUntil ∧
      (outcome = .reconfigured ∨ outcome = .removed) ∧
      taken.reply = .ok (.synced outcome, gate) ∧
      subject = .reconfigure (configChange recovery.head?)) ∨
  ∃ upgrade epoch gate, taken.action.call = .rcvUpgrade account (.schedule upgrade validUntil) ∧
    taken.reply = .ok (.epoch epoch, gate) ∧ subject = .upgrade upgrade

theorem Transition.changed {d : Deployment} {e : Env} {account : Address} {m m' : Slice}
    {call : Call} {outcome : SyncOutcome} {gate : Option GateCall}
    (transition : Transition d e account m call (.synced outcome) gate m')
    (changed : outcome = .reconfigured ∨ outcome = .removed) :
    ∃ docHash recovery validUntil, call = .rcvSync account docHash recovery validUntil ∧
      Classified d e account { m with completing := (m.takeMarker e.sequence).completing }
        recovery.head? validUntil outcome m' := by
  cases transition with
  | completed => rcases changed with changed | changed <;> cases changed
  | classified _ _ settled => exact ⟨_, _, _, rfl, Slice.takeMarker_eq e.sequence m ▸ settled⟩

theorem Transition.scheduled_condition {d : Deployment} {e : Env} {account : Address}
    {m m' : Slice} {call : Call} {epoch : UInt64} {gate : Option GateCall}
    {upgrade : UpgradeSubject} {validUntil : UInt32}
    (transition : Transition d e account m call (.epoch epoch) gate m')
    (called : call = .rcvUpgrade account (.schedule upgrade validUntil)) :
    ∃ config, m.config = some config ∧ (config.profile = .protectedProfile →
      ConditionMet d e account m config (.upgrade upgrade) validUntil) := by
  cases transition with
  | scheduled _ enrolled _ condition =>
      cases called
      exact ⟨_, enrolled, condition⟩
  | upgraded => cases called

theorem Classified.condition {d : Deployment} {e : Env} {account : Address} {m m' : Slice}
    {completing : Option (Temporary CompletionMarker)}
    {new : Option CompiledRecoveryConfig} {validUntil : UInt32} {outcome : SyncOutcome}
    {config : CompiledRecoveryConfig}
    (settled : Classified d e account { m with completing := completing } new validUntil outcome
      m')
    (changed : outcome = .reconfigured ∨ outcome = .removed) (stored : m.config = some config)
    (profile : config.profile = .protectedProfile) :
    ConditionMet d e account m config (.reconfigure (configChange new)) validUntil := by
  cases settled with
  | reconfigured present _ _ _ condition =>
      have same := Option.some.inj (present.symm.trans stored)
      subst same
      obtain ⟨change, fresh, recorded⟩ := condition profile
      exact ⟨change, fresh, recorded⟩
  | removed present _ condition =>
      have same := Option.some.inj (present.symm.trans stored)
      subst same
      obtain ⟨change, fresh, recorded⟩ := condition profile
      exact ⟨change, fresh, recorded⟩
  | nothing | enrolled | same => rcases changed with changed | changed <;> cases changed

theorem Acted.condition {d : Deployment} {account : Address} {taken : ControllerStep}
    {reply : Reply} {gate : Option GateCall} {subject : StatementSubject} {validUntil : UInt32}
    {config : CompiledRecoveryConfig} (acted : Acted d account taken reply gate)
    (made : ChangeMade account taken subject validUntil)
    (stored : taken.before.config account = some config)
    (profile : config.profile = .protectedProfile) :
    ConditionMet d taken.action.env account (taken.before.slice account) config subject
        validUntil ∧
      changeNamed d taken.before taken.action.call =
        some (statement d account config (epochOf taken.before account) validUntil subject) := by
  have transition := acted.transition
  rcases made with ⟨docHash, recovery, outcome, gate', called, changed, replied, rfl⟩ |
    ⟨upgrade, epoch, gate', called, replied, rfl⟩
  · refine ⟨?_, by rw [called]; simp [changeNamed, stored]⟩
    rw [acted.replied] at replied
    cases replied
    obtain ⟨_, recovery', _, called', settled⟩ := transition.changed changed
    rw [called] at called'
    cases called'
    exact settled.condition changed stored profile
  · refine ⟨?_, by rw [called]; simp [changeNamed, stored]⟩
    rw [acted.replied] at replied
    cases replied
    obtain ⟨config', present, condition⟩ := transition.scheduled_condition called
    have same : config' = config := Option.some.inj (present.symm.trans stored)
    subst same
    exact condition profile

/-- An approval of exactly one change, in the epoch and under the
configuration it was consumed in. -/
structure ApprovedExactly (d : Deployment) (account : Address) (config : CompiledRecoveryConfig)
    (epoch : UInt64) (subject : StatementSubject) (validUntil : UInt32) (guardian : Address)
    (past : ControllerStep) : Prop where
  call : past.action.call = .approveChange account subject validUntil guardian
  accepted : ∃ answer, past.reply = .ok answer
  inEpoch : epochOf past.before account = epoch
  underConfig : past.before.config account = some config
  signed : ∃ digest,
    (statement d account config epoch validUntil subject).digest d.sha256 = .ok digest ∧
      past.action.env.requireAuthForArgs guardian digest = true

structure ProvedExactly (d : Deployment) (account : Address) (config : CompiledRecoveryConfig)
    (epoch : UInt64) (subject : StatementSubject) (validUntil : UInt32)
    (factor : CompiledZkFactor) (past : ControllerStep) : Prop where
  call : ∃ evidence, past.action.call = .submitZkChange account subject validUntil evidence ∧
    (past.action.env.zkAdapter factor.adapter).verify
      (statement d account config epoch validUntil subject) factor.binding evidence = true
  accepted : ∃ answer, past.reply = .ok answer
  inEpoch : epochOf past.before account = epoch
  underConfig : past.before.config account = some config

section Consumed

variable {d : Deployment} {account : Address} {history : History} {taken : ControllerStep}
  {config : CompiledRecoveryConfig} {subject : StatementSubject} {validUntil : UInt32}
  {digest : Bytes32}

/-- Evidence recorded under the digest of a change was given for that change. -/
theorem ApprovedChange.exactly {guardian : Address} {past : ControllerStep}
    (collisionFree : Set.InjOn d.sha256 (namedEncodings d (taken :: history)))
    (fixed : EpochFixed (sliced account history (taken.before.slice account))
      (taken.before.slice account))
    (stored : taken.before.config account = some config)
    (named : changeNamed d taken.before taken.action.call =
      some (statement d account config (epochOf taken.before account) validUntil subject))
    (hashed : (statement d account config (epochOf taken.before account) validUntil
      subject).digest d.sha256 = .ok digest)
    (member : past ∈ history) (approved : ApprovedChange d account digest guardian past) :
    ApprovedExactly d account config (epochOf taken.before account) subject validUntil guardian
      past := by
  obtain ⟨config', subject', validUntil', called, accepted, stored', hashed', signed⟩ := approved
  have named' : changeNamed d past.before past.action.call =
      some (statement d account config' (epochOf past.before account) validUntil' subject') := by
    rw [called]
    simp [changeNamed, stored']
  have same := statement_of_digest collisionFree (List.mem_cons_of_mem _ member) List.mem_cons_self
    named' named hashed' hashed
  simp only [statement, RecoveryStatement.mk.injEq, ConfigBinding.mk.injEq,
    StatementTiming.mk.injEq] at same
  obtain ⟨-, -, -, ⟨epochs, -⟩, ⟨-, -, bounds⟩, subjects⟩ := same
  subst bounds subjects
  have visit : past.before.slice account ∈ sliced account history (taken.before.slice account) :=
    List.mem_cons_of_mem _ (List.mem_map.mpr ⟨past, member, rfl⟩)
  have config_eq : past.before.config account = taken.before.config account :=
    fixed.fixed _ visit epochs
  exact
    { call := called
      accepted := accepted
      inEpoch := epochs
      underConfig := config_eq.trans stored
      signed := ⟨digest, hashed, signed⟩ }

theorem ProvedChange.exactly {factor : CompiledZkFactor} {past : ControllerStep}
    (collisionFree : Set.InjOn d.sha256 (namedEncodings d (taken :: history)))
    (fixed : EpochFixed (sliced account history (taken.before.slice account))
      (taken.before.slice account))
    (stored : taken.before.config account = some config) (zk : config.zk = some factor)
    (named : changeNamed d taken.before taken.action.call =
      some (statement d account config (epochOf taken.before account) validUntil subject))
    (hashed : (statement d account config (epochOf taken.before account) validUntil
      subject).digest d.sha256 = .ok digest)
    (member : past ∈ history) (proved : ProvedChange d account digest past) :
    ProvedExactly d account config (epochOf taken.before account) subject validUntil factor
      past := by
  obtain ⟨config', factor', subject', validUntil', evidence, called, accepted, stored', zk',
    hashed', verified⟩ := proved
  have named' : changeNamed d past.before past.action.call =
      some (statement d account config' (epochOf past.before account) validUntil' subject') := by
    rw [called]
    simp [changeNamed, stored']
  have same := statement_of_digest collisionFree (List.mem_cons_of_mem _ member) List.mem_cons_self
    named' named hashed' hashed
  have visit : past.before.slice account ∈ sliced account history (taken.before.slice account) :=
    List.mem_cons_of_mem _ (List.mem_map.mpr ⟨past, member, rfl⟩)
  rw [same] at verified
  simp only [statement, RecoveryStatement.mk.injEq, ConfigBinding.mk.injEq,
    StatementTiming.mk.injEq] at same
  obtain ⟨-, -, -, ⟨epochs, -⟩, ⟨-, -, bounds⟩, subjects⟩ := same
  have config_eq : past.before.config account = taken.before.config account :=
    fixed.fixed _ visit epochs
  rw [config_eq, stored] at stored'
  cases stored'
  rw [zk] at zk'
  cases zk'
  subst bounds subjects
  exact
    { call := ⟨evidence, called, verified⟩
      accepted := accepted
      inEpoch := epochs
      underConfig := config_eq.trans stored }

end Consumed

/-- A change of a protected account was approved, for exactly this subject,
epoch, configuration and bound, by a quorum of its guardians and by an
accepted proof, whichever its mode has. -/
theorem protected_change_sound {d : Deployment} {history : History} {taken : ControllerStep}
    {now : UInt32} {s : Storage} (run : Run d (taken :: history) now s)
    (collisionFree : Set.InjOn d.sha256 (namedEncodings d (taken :: history)))
    (account : Address) (config : CompiledRecoveryConfig) (subject : StatementSubject)
    (validUntil : UInt32) (stored : taken.before.config account = some config)
    (profile : config.profile = .protectedProfile)
    (made : ChangeMade account taken subject validUntil) :
    taken.action.env.sequence ≤ validUntil ∧
    validUntil.toNat ≤ taken.action.env.sequence.toNat + config.expiryLedgers.toNat ∧
    (∀ set, config.guardians = some set → ∃ approvers : List Address, approvers.Nodup ∧
      set.quorum.toNat ≤ approvers.length ∧
      ∀ guardian ∈ approvers, guardian ∈ set.guardians ∧ ∃ past ∈ history,
        ApprovedExactly d account config (epochOf taken.before account) subject validUntil guardian
          past) ∧
    ∀ factor, config.zk = some factor → ∃ past ∈ history,
      ProvedExactly d account config (epochOf taken.before account) subject validUntil factor
        past := by
  obtain ⟨executed, before, -⟩ := Execution.split [] run
  have before : Run d history taken.action.env.sequence taken.before := before
  have sound := before.sound
  have fixed := before.epochFixed account
  have acted : ∃ reply gate, Acted d account taken reply gate := by
    rw [executed]
    refine (step_passed_or_acted taken.action account
        (fun other => (sound other).keyed)).resolve_left
      fun passed => ?_
    rw [← executed] at passed
    rcases made with ⟨_, _, _, _, called, -, replied, -⟩ | ⟨_, _, _, called, replied, -⟩
    · obtain ⟨failure, failed⟩ := passed.silent (by rw [called]; rfl)
      rw [replied] at failed
      cases failed
    · obtain ⟨failure, failed⟩ := passed.silent (by rw [called]; rfl)
      rw [replied] at failed
      cases failed
  obtain ⟨reply, gate, acted⟩ := acted
  obtain ⟨condition, named⟩ := acted.condition made stored profile
  obtain ⟨digest, approval, hashed, recorded, quorum, zk⟩ := condition.recorded
  have given := before.approvals account digest approval recorded
  have fresh := RecoveryStatement.checkFresh_eq_ok.mp condition.fresh
  have provided : (statement d account config (epochOf taken.before account) validUntil
      subject).action = .reconfigure ∨ (statement d account config
      (epochOf taken.before account) validUntil subject).action = .upgrade := by
    have change := condition.change
    cases subject with
    | reconfigure => exact .inl rfl
    | upgrade => exact .inr rfl
    | lostKey | compromise | cancel => cases change
  refine ⟨fresh.1, fresh.2 provided, ?_, ?_⟩
  · intro set guardians
    refine ⟨approval.guardians.filter (fun g => g ∈ set.guardians), given.distinct.filter _,
      quorum set guardians, ?_⟩
    intro guardian counted
    obtain ⟨counted, member⟩ := List.mem_filter.mp counted
    obtain ⟨past, present, approved⟩ := given.approved guardian counted
    exact ⟨by simpa using member, past, present,
      approved.exactly collisionFree fixed stored named hashed present⟩
  · intro factor enrolled
    obtain ⟨past, present, proved⟩ := given.proved (zk (by rw [enrolled]; rfl))
    exact ⟨past, present, proved.exactly collisionFree fixed stored enrolled named hashed present⟩

namespace Sample

def changedConfig : CompiledRecoveryConfig :=
  { config with configHash := .fill 19, maxCancels := 5 }

def change : StatementSubject := .reconfigure (.set changedConfig.configHash)

/-- Enrollment, and the evidence for one reconfiguration. -/
def approving : List Invocation :=
  [invoke 100 (.rcvSync account (sha256 source) [config] 0),
   invoke 101 (.approveChange account change 150 guardian),
   invoke 102 (.approveChange account change 150 otherGuardian),
   invoke 103 (.submitZkChange account change 150 evidence)]

def approvedRun : History × Storage :=
  (controller deployment).play [] .empty approving

def consuming : ControllerStep :=
  (controller deployment).step approvedRun.2
    (invoke 104 (.rcvSync account (.fill 20) [changedConfig] 150))

def changeEncoding : Except StatementError Bytes :=
  (statement deployment account config 1 150 change).encode

end Sample

theorem protected_change_sound_sample :
    Sample.consuming.reply = .ok (.synced .reconfigured, none) ∧
      ∃ past ∈ Sample.approvedRun.1,
        ProvedExactly Sample.deployment Sample.account Sample.config 1 Sample.change 150
          Sample.factor past := by
  have replied : Sample.consuming.reply = .ok (.synced .reconfigured, none) := by decide +kernel
  have run : Run Sample.deployment (Sample.consuming :: Sample.approvedRun.1) 104
      Sample.consuming.after :=
    (Execution.refl.play (by decide)).call _ rfl
  have one : ∀ taken ∈ Sample.consuming :: Sample.approvedRun.1,
      ∀ named ∈ changeNamed Sample.deployment taken.before taken.action.call,
        named.encode = Sample.changeEncoding := by
    decide +kernel
  have collisionFree : Set.InjOn Sample.deployment.sha256
      (namedEncodings Sample.deployment (Sample.consuming :: Sample.approvedRun.1)) := by
    rintro x ⟨taken, member, named, names, encodes⟩ y ⟨taken', member', named', names', encodes'⟩ -
    rw [one taken member named names] at encodes
    rw [one taken' member' named' names'] at encodes'
    exact Except.ok.inj (encodes.symm.trans encodes')
  have epoch : epochOf Sample.consuming.before Sample.account = 1 := by decide +kernel
  refine ⟨replied, ?_⟩
  rw [← epoch]
  exact (protected_change_sound run collisionFree Sample.account Sample.config Sample.change 150
    (by decide +kernel) rfl (.inl ⟨_, _, _, none, rfl, .inl rfl, replied, rfl⟩)).2.2.2 _ rfl

end Perch.Recovery
