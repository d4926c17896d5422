/-
The revision as an optimistic lock.

Every exported entry point of the account is an action here, and a refused one
leaves the account as it was.  Only an applied document and an executed
upgrade change the configuration, and each advances the revision by one; a
document that names the revision it was prepared at is therefore applied over
the configuration its author read.
-/

import Perch.Account.History

namespace Perch.Account

open Machine Document Recovery

variable {σ ω : Type}

/-! ### The account as a system -/

/-- `execute`: call another contract as the account, except by the names only
the account's own code may call. -/
def execute (invokeContract : ω → Address → Symbol → List Val → Except Unit ω)
    (target : Address) (targetFn : Symbol) (targetArgs : List Val) (world : ω) :
    Except AccountFailure ω := do
  require (isReservedInvokerOnly targetFn = false) (.refused .reservedFunction)
  (invokeContract world target targetFn targetArgs).mapError fun _ => .trapped

/-- The entry points of an account.  `renew` extends lifetimes of persistent
entries, and stands for the views too: none writes. -/
inductive EntryPoint (σ ω : Type)
  | call (call : AccountCall)
  | execute (invokeContract : ω → Address → Symbol → List Val → Except Unit ω) (target : Address)
      (targetFn : Symbol) (targetArgs : List Val)
  | checkAuth (doCheckAuth : DoCheckAuth σ ω) (signaturePayload : Bytes32)
      (signatures : AuthPayload) (contexts : List Context)
  | renew

/-- One invocation of the account, with the state the other contracts are in
and the answers they give. -/
structure Invocation (σ ω : Type) where
  sequence : UInt32
  callees : Callees ω
  world : ω
  entry : EntryPoint σ ω

def Invocation.run (code : AccountCode σ) (invocation : Invocation σ ω)
    (account : AccountState σ) : Except AccountFailure (AccountState σ) :=
  match invocation.entry with
  | .call call => do
      let (account, _) ← invoke code invocation.callees invocation.sequence call account
        invocation.world
      pure account
  | .execute invokeContract target targetFn targetArgs => do
      let _ ← execute invokeContract target targetFn targetArgs invocation.world
      pure account
  | .checkAuth doCheckAuth signaturePayload signatures contexts => do
      let _ ← checkAuth code invocation.sequence doCheckAuth signaturePayload signatures contexts
        account invocation.world
      pure account
  | .renew => pure account

abbrev AccountStep (σ ω : Type) :=
  Step (AccountState σ) (Invocation σ ω) (Except AccountFailure Unit)

def accountSystem (code : AccountCode σ) (ω : Type) :
    System UInt32 (AccountState σ) (Invocation σ ω) (Except AccountFailure Unit) where
  clock invocation := invocation.sequence
  respond account invocation :=
    match invocation.run code account with
    | .ok account' => (.ok (), account')
    | .error failure => (.error failure, account)

/-! ### What a step does to the revision -/

/-- The rules, the document, the recovery rule, the controller and the ZK
factor of an account. -/
def AccountState.configuration (account : AccountState σ) :=
  (account.storage.installedRules, account.storage.document, account.storage.recoveryRule,
    account.storage.recoveryController, account.storage.currentZk, account.store)

/-- The calls that change the configuration or the code that runs it. -/
def EntryPoint.updates : EntryPoint σ ω → Bool
  | .call (.applyDoc _ _ _) | .call (.executeUpgrade _) => true
  | _ => false

def updated (taken : AccountStep σ ω) : Bool :=
  match taken.reply with
  | .ok _ => taken.action.entry.updates
  | .error _ => false

section Steps

variable {code : AccountCode σ} {account account' : AccountState σ} {sequence : UInt32}
  {callees : Callees ω} {world world' : ω}

theorem rcvGate_configuration {invoker : Address} {attemptId : UInt64} {frozenUntil : UInt32}
    {storage storage' : AccountStorage}
    (gated : rcvGate invoker attemptId frozenUntil storage = .ok storage') :
    ∃ gate, storage' = { storage with gate := gate } := by
  simp only [rcvGate, bind_eq_ok, orFail_eq_ok, require_eq_ok] at gated
  obtain ⟨_, _, _, _, gated⟩ := gated
  split at gated
  · rw [pure_eq_ok] at gated
    subst gated
    split
    · exact ⟨none, rfl⟩
    · exact ⟨storage.gate, rfl⟩
  · rw [pure_eq_ok] at gated
    subst gated
    exact ⟨_, rfl⟩

theorem executeUpgrade_revision {requestId : UInt64} {storage storage' : AccountStorage}
    (executed : executeUpgrade callees sequence requestId storage world = .ok (storage', world')) :
    checkedSucc storage.revisionOf = some storage'.revisionOf := by
  simp only [executeUpgrade, bind_eq_ok, orFail_eq_ok, require_eq_ok, pure_eq_ok, Prod.mk.injEq,
    advanceGeneration_eq_ok, advanceRevision_eq_ok] at executed
  obtain ⟨_, _, _, _, _, _, _, _, _, _, _, _, _, ⟨_, _, rfl⟩, _, ⟨next, advanced, rfl⟩, _, _, rfl,
    rfl⟩ := executed
  exact advanced

theorem invoke_revision {call : AccountCall}
    (invoked : invoke code callees sequence call account world = .ok (account', world')) :
    if (.call call : EntryPoint σ ω).updates then
      checkedSucc account.storage.revisionOf = some account'.storage.revisionOf
    else
      account'.storage.revisionOf = account.storage.revisionOf ∧
        account'.configuration = account.configuration := by
  cases call with
  | applyDoc docJson approvalValidUntil expectedRevision =>
      simp only [invoke, bind_eq_ok, pure_eq_ok, Prod.mk.injEq, Prod.exists] at invoked
      obtain ⟨hash, _, _, applied, rfl, rfl⟩ := invoked
      exact (apply_revision applied).2
  | rcvGate invoker attemptId frozenUntil =>
      simp only [invoke, bind_eq_ok, pure_eq_ok, Prod.mk.injEq] at invoked
      obtain ⟨_, gated, rfl, rfl⟩ := invoked
      obtain ⟨_, rfl⟩ := rcvGate_configuration gated
      exact ⟨rfl, rfl⟩
  | cancelRecovery attemptId =>
      simp only [invoke, bind_eq_ok, pure_eq_ok, Prod.mk.injEq] at invoked
      obtain ⟨_, _, rfl, rfl⟩ := invoked
      exact ⟨rfl, rfl⟩
  | scheduleUpgrade wasmHash approvalValidUntil =>
      simp only [invoke, scheduleUpgrade, bind_eq_ok, orFail_eq_ok, require_eq_ok, pure_eq_ok,
        Prod.mk.injEq, Prod.exists] at invoked
      obtain ⟨_, _, _, ⟨_, _, _, _, _, _, _, _, _, rfl, rfl, rfl⟩, rfl, rfl⟩ := invoked
      exact ⟨rfl, rfl⟩
  | executeUpgrade requestId =>
      simp only [invoke, bind_eq_ok, pure_eq_ok, Prod.mk.injEq, Prod.exists] at invoked
      obtain ⟨_, _, executed, rfl, rfl⟩ := invoked
      exact executeUpgrade_revision executed
  | cancelUpgrade =>
      simp only [invoke, cancelUpgrade, bind_eq_ok, require_eq_ok, pure_eq_ok, Prod.mk.injEq]
        at invoked
      obtain ⟨_, ⟨_, _, _, _, rfl⟩, rfl, rfl⟩ := invoked
      exact ⟨rfl, rfl⟩

theorem run_revision {invocation : Invocation σ ω}
    (ran : invocation.run code account = .ok account') :
    if invocation.entry.updates then
      checkedSucc account.storage.revisionOf = some account'.storage.revisionOf
    else
      account'.storage.revisionOf = account.storage.revisionOf ∧
        account'.configuration = account.configuration := by
  obtain ⟨sequence, callees, world, entry⟩ := invocation
  cases entry with
  | call call =>
      simp only [Invocation.run, bind_eq_ok, pure_eq_ok, Prod.exists] at ran
      obtain ⟨_, _, invoked, rfl⟩ := ran
      exact invoke_revision invoked
  | execute | checkAuth =>
      simp only [Invocation.run, bind_eq_ok, pure_eq_ok] at ran
      obtain ⟨_, _, rfl⟩ := ran
      exact ⟨rfl, rfl⟩
  | renew =>
      simp only [Invocation.run, pure_eq_ok] at ran
      subst ran
      exact ⟨rfl, rfl⟩

theorem step_revision (code : AccountCode σ) (account : AccountState σ)
    (invocation : Invocation σ ω) :
    let taken := (accountSystem code ω).step account invocation
    taken.after.storage.revisionOf.toNat =
        account.storage.revisionOf.toNat + (if updated taken then 1 else 0) ∧
      (updated taken = false → taken.after.configuration = account.configuration) := by
  intro taken
  cases ran : invocation.run code account with
  | error failure =>
      have replied : taken.reply = .error failure := by
        simp [taken, System.step, accountSystem, ran]
      have kept : taken.after = account := by
        simp [taken, System.step, accountSystem, ran]
      simp [updated, replied, kept]
  | ok account' =>
      have replied : taken.reply = .ok () := by
        simp [taken, System.step, accountSystem, ran]
      have after : taken.after = account' := by
        simp [taken, System.step, accountSystem, ran]
      have moved := run_revision ran
      have same : updated taken = invocation.entry.updates := by
        simp only [updated, replied]
        rfl
      rw [same, after]
      cases updates : invocation.entry.updates with
      | true =>
          rw [updates, if_pos rfl] at moved
          exact ⟨checkedSucc_eq_some.mp moved, fun impossible => by cases impossible⟩
      | false =>
          rw [updates, if_neg (by simp)] at moved
          rw [moved.1]
          exact ⟨rfl, fun _ => moved.2⟩

end Steps

/-! ### Runs -/

/-- The revision counts the updates, and without one the configuration stays. -/
theorem revision_counts {code : AccountCode σ} {start now : UInt32}
    {origin account : AccountState σ} {history : List (AccountStep σ ω)}
    (execution : Execution (accountSystem code ω) start origin history now account) :
    account.storage.revisionOf.toNat =
        origin.storage.revisionOf.toNat + history.countP updated ∧
      (history.countP updated = 0 → account.configuration = origin.configuration) := by
  induction execution with
  | refl => exact ⟨rfl, fun _ => rfl⟩
  | wait _ _ ih => exact ih
  | @call history now account invocation _ _ ih =>
      obtain ⟨counted, kept⟩ := ih
      obtain ⟨moved, same⟩ := step_revision code account invocation
      rw [moved, counted, List.countP_cons]
      refine ⟨by omega, fun none => ?_⟩
      have quiet : updated ((accountSystem code ω).step account invocation) = false := by
        by_contra moves
        rw [Bool.not_eq_false] at moves
        simp [moves] at none
      rw [same quiet]
      exact kept (by omega)

def appliedAt (revision : UInt64) (taken : AccountStep σ ω) : Prop :=
  taken.reply = .ok () ∧ ∃ docJson approvalValidUntil,
    taken.action.entry = .call (.applyDoc docJson approvalValidUntil (some revision))

theorem appliedAt.updated {revision : UInt64} {taken : AccountStep σ ω}
    (applied : appliedAt revision taken) : updated taken = true := by
  obtain ⟨replied, docJson, validUntil, named⟩ := applied
  simp only [Account.updated, replied, named, EntryPoint.updates]

/-- An apply prepared at a revision succeeds at that revision only. -/
theorem appliedAt.revision_eq {code : AccountCode σ} {account : AccountState σ}
    {invocation : Invocation σ ω} {revision : UInt64}
    (applied : appliedAt revision ((accountSystem code ω).step account invocation)) :
    account.storage.revisionOf = revision := by
  obtain ⟨replied, docJson, validUntil, named⟩ := applied
  rw [System.step_action] at named
  cases ran : invocation.run code account with
  | error failure =>
      simp [System.step, accountSystem, ran] at replied
  | ok account' =>
      simp only [Invocation.run, named, invoke, applyDoc, bind_eq_ok, pure_eq_ok,
        Prod.exists] at ran
      obtain ⟨_, _, ⟨_, _, _, called, rfl, rfl⟩, rfl⟩ := ran
      exact ((apply_revision called).1 revision rfl).symm

/-- Every successful apply and every executed upgrade advances the revision by
one and nothing else moves it; an apply that names the revision of a state
succeeds only if the configuration it replaces is still that state's; and two
applies prepared at one revision never both succeed. -/
theorem no_lost_update (code : AccountCode σ) (ω : Type) (start : UInt32)
    (origin : AccountState σ) :
    (∀ {history : List (AccountStep σ ω)} {now : UInt32} {account : AccountState σ},
      Execution (accountSystem code ω) start origin history now account →
      (∀ taken ∈ history, taken.after.storage.revisionOf.toNat =
        taken.before.storage.revisionOf.toNat + if updated taken then 1 else 0) ∧
      history.Pairwise fun newer older =>
        ∀ revision, ¬(appliedAt revision newer ∧ appliedAt revision older)) ∧
    ∀ {earlier since : List (AccountStep σ ω)} {then' now : UInt32}
      {read account : AccountState σ} (invocation : Invocation σ ω),
      Execution (accountSystem code ω) start origin earlier then' read →
      Execution (accountSystem code ω) then' read since now account →
      invocation.sequence = now →
      appliedAt read.storage.revisionOf ((accountSystem code ω).step account invocation) →
      (∀ taken ∈ since, updated taken = false) ∧ account.configuration = read.configuration := by
  refine ⟨fun run => ⟨?_, ?_⟩, ?_⟩
  · intro taken member
    rw [run.executed member]
    exact (step_revision code _ _).1
  · induction run with
    | refl => exact .nil
    | wait _ _ ih => exact ih
    | @call history now account invocation run _ ih =>
        refine .cons ?_ ih
        rintro older member revision ⟨applied, before⟩
        -- The older apply advanced the revision past the one both name.
        obtain ⟨later, earlier, rfl⟩ := List.append_of_mem member
        obtain ⟨executed, _, further⟩ := Execution.split later run
        have present := applied.revision_eq
        have moved := (step_revision code older.before older.action).1
        have counted := (revision_counts further).1
        rw [← executed, before.updated, if_pos rfl] at moved
        rw [executed] at before
        have past := before.revision_eq
        rw [present, moved, past] at counted
        omega
  · intro earlier since then' now read account invocation _ further _ applied
    obtain ⟨counted, kept⟩ := revision_counts further
    have present := applied.revision_eq
    rw [present] at counted
    have none : since.countP updated = 0 := by omega
    refine ⟨?_, kept none⟩
    intro taken member
    have quiet := List.countP_eq_zero.mp none taken member
    simpa using quiet

section Sample

def preparedApply : Invocation MemoryStore Unit where
  sequence := 2
  callees := sampleCallees
  world := ()
  entry := .call
    (.applyDoc (Ir.utf8 (Ir.canonicalJson (sampleDoc "pay"))) 10 (some 0))

def preparedRun : Except AccountFailure (AccountState MemoryStore) := do
  let account ← installAdmin sampleCode sampleCallees 1 [.delegated (.account (BytesN.fill 9))]
    .empty ()
  preparedApply.run sampleCode account

set_option maxRecDepth 16384 in
theorem preparedRun_ok : preparedRun.toOption.isSome = true := by
  simp only [preparedRun, preparedApply, Invocation.run, invoke, applyDoc, apply,
    samplePay_compiles]
  decide

/-- Once the sample document is applied at revision 0, no other apply prepared
there succeeds. -/
theorem no_lost_update_sample :
    ∃ origin, installAdmin sampleCode sampleCallees 1 [.delegated (.account (BytesN.fill 9))]
        .empty () = .ok origin ∧
      appliedAt 0 ((accountSystem sampleCode Unit).step origin preparedApply) ∧
      ∀ history now account (invocation : Invocation MemoryStore Unit),
        Execution (accountSystem sampleCode Unit) 2
          ((accountSystem sampleCode Unit).step origin preparedApply).after history now account →
        invocation.sequence = now →
        ¬appliedAt 0 ((accountSystem sampleCode Unit).step account invocation) := by
  obtain ⟨account, ran⟩ := Option.isSome_iff_exists.mp preparedRun_ok
  have ran := toOption_eq_some.mp ran
  simp only [preparedRun, bind_eq_ok] at ran
  obtain ⟨origin, built, ran⟩ := ran
  have first : appliedAt 0 ((accountSystem sampleCode Unit).step origin preparedApply) := by
    refine ⟨?_, _, _, rfl⟩
    simp [System.step, accountSystem, ran]
  refine ⟨origin, built, first, ?_⟩
  intro history now account invocation further atNow second
  have began : Execution (accountSystem sampleCode Unit) 2 origin [_] 2 _ :=
    Execution.refl.call preparedApply rfl
  have run := (began.trans further).call invocation atNow
  have apart := ((no_lost_update sampleCode Unit 2 origin).1 run).2
  rw [List.pairwise_cons] at apart
  exact apart.1 _ (by simp) 0 ⟨second, first⟩

end Sample

end Perch.Account
