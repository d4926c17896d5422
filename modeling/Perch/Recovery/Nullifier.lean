/-
Nullifier accounting.

Evidence is accepted while its nullifier is unspent, and spent only when its
attempt completes, so several attempts may hold one nullifier.  A completion
bumps the epoch and thereby kills every other attempt of the account; the
attempts of the present epoch therefore hold unspent nullifiers only, and a
completion never meets a spent one.
-/

import Perch.Recovery.Completion

namespace Perch.Recovery

open Machine Document

/-- No record of the present epoch holds a spent nullifier. -/
def Slice.Unspent (m : Slice) : Prop :=
  ∀ id a, m.Holds id a → a.epoch = m.epoch → ∀ n ∈ a.zkNullifier, m.nullifier n = none

inductive Spending (d : Deployment) (e : Env) (account : Address) (m : Slice) (call : Call)
    (reply : Reply) (m' : Slice) : Prop where
  | kept (same : m'.nullifier = m.nullifier)
      (silent : ∀ completion, reply ≠ .synced (.completed completion))
  | completed {a : Attempt} {docHash : Bytes32} {recovery : List CompiledRecoveryConfig}
      {validUntil : UInt32}
      (called : call = .rcvSync account docHash recovery validUntil)
      (found : m.Authorized e.sequence a)
      (replied : reply = .synced (.completed { attemptId := a.id, replaced := a.replaced }))
      (unspent : ∀ n ∈ a.zkNullifier, m.nullifier n = none)
      (spent : m'.nullifier = fun n => if a.zkNullifier = some n then some true else m.nullifier n)
      (bumped : checkedSucc m.epoch = some m'.epoch)

theorem Transition.spending {d : Deployment} {e : Env} {account : Address} {m m' : Slice}
    {call : Call} {reply : Reply} {gate : Option GateCall}
    (transition : Transition d e account m call reply gate m') :
    Spending d e account m call reply m' := by
  cases transition with
  | completed _ _ _ _ found _ _ _ _ _ unspent spent bumped =>
      exact .completed rfl found rfl unspent spent bumped
  | classified _ _ settled =>
      have dropped := Slice.takeMarker_eq e.sequence m
      generalize (m.takeMarker e.sequence).completing = completing at dropped
      rw [dropped] at settled
      cases settled <;> exact .kept rfl (fun _ same => by cases same)
  | _ => exact .kept rfl (fun _ same => by cases same)

section Steps

variable {d : Deployment} {e : Env} {account : Address} {m m' : Slice} {call : Call}
  {reply : Reply} {gate : Option GateCall}

theorem Transition.spent_stays (transition : Transition d e account m call reply gate m')
    {n : Bytes32} (spent : m.nullifier n ≠ none) : m'.nullifier n ≠ none := by
  cases transition.spending with
  | kept same _ => rwa [same]
  | completed _ _ _ _ after _ =>
      rw [after]
      dsimp only
      split
      · simp
      · exact spent

theorem Transition.records_past (transition : Transition d e account m call reply gate m')
    (sound : m.Sound e.sequence) : ∀ id a, m'.Holds id a → a.epoch ≤ m.epoch := by
  have past : ∀ {a c : Attempt}, m.load e.sequence a.id = some a → c.asBegun = a.asBegun →
      c.epoch ≤ m.epoch := by
    intro a c loaded begun
    rw [Attempt.epoch_of_asBegun begun]
    exact sound.current _ _ (.of_load loaded)
  cases transition.recordEffect sound with
  | kept attempts temporaries =>
      unfold Slice.Holds
      rw [attempts, temporaries]
      exact sound.current
  | begun started _ _ wrote =>
      refine wrote.holds sound.current ?_
      rw [started.record]
      exact UInt64.le_refl _
  | submitted _ loaded _ _ submission graded wrote =>
      exact wrote.holds sound.current (past loaded (graded.asBegun.trans submission.asBegun))
  | carried loaded _ begun _ _ _ _ wrote =>
      exact wrote.holds sound.current (past loaded begun)

/-- Evidence adds at most the nullifier it was checked with. -/
theorem Submission.nullifier_unspent {config : CompiledRecoveryConfig} {a b : Attempt}
    {domain : EvidenceDomain} (submitted : Submission d e account m config a domain call b)
    (unspent : ∀ n ∈ a.zkNullifier, m.nullifier n = none) :
    ∀ n ∈ b.zkNullifier, m.nullifier n = none := by
  cases submitted with
  | guardian =>
      cases domain with
      | initiate => exact unspent
      | cancel => exact unspent
  | zk _ _ _ _ _ fresh =>
      cases domain with
      | initiate =>
          intro n own
          cases own
          exact fresh
      | cancel => exact unspent

theorem Graded.zkNullifier_eq {config : CompiledRecoveryConfig} {now : UInt32} {b c : Attempt}
    (graded : Graded config now b c) : c.zkNullifier = b.zkNullifier := by
  rcases graded with rfl | rfl | ⟨_, _, -, -, -, rfl⟩
  · rfl
  · rfl
  · rfl

theorem Transition.unspent (transition : Transition d e account m call reply gate m')
    (sound : m.Sound e.sequence) (unspent : m.Unspent) : m'.Unspent := by
  rcases transition.epoch_step with ⟨same, -⟩ | bumped
  · cases transition.spending with
    | completed _ _ _ _ _ bumped =>
        rw [same] at bumped
        exact absurd (lt_checkedSucc bumped) (UInt64.lt_irrefl _)
    | kept nullifiers _ =>
        have held : ∀ {a : Attempt}, m.load e.sequence a.id = some a → m.Live e.sequence a →
            ∀ n ∈ a.zkNullifier, m.nullifier n = none := by
          intro a loaded live
          exact unspent _ _ (.of_load loaded) live.1
        unfold Slice.Unspent at unspent ⊢
        rw [nullifiers, same]
        cases transition.recordEffect sound with
        | kept attempts temporaries =>
            unfold Slice.Holds
            rw [attempts, temporaries]
            exact unspent
        | begun started _ _ wrote =>
            refine wrote.holds unspent ?_
            rw [started.record]
            intro _ n own
            cases own
        | submitted _ loaded live _ submission graded wrote =>
            refine wrote.holds unspent fun _ => ?_
            rw [graded.zkNullifier_eq]
            exact submission.nullifier_unspent (held loaded live)
        | carried loaded live _ _ nullifier _ _ wrote =>
            refine wrote.holds unspent fun _ => ?_
            rw [nullifier]
            exact held loaded live
  · -- Every attempt that is left belongs to an epoch that is over.
    intro id a stored current
    have past := transition.records_past sound id a stored
    rw [current] at past
    exact absurd (UInt64.lt_of_lt_of_le (lt_checkedSucc bumped) past) (UInt64.lt_irrefl _)

end Steps

theorem Run.unspent {d : Deployment} {history : History} {now : UInt32} {s : Storage}
    (run : Run d history now s) (account : Address) : (s.slice account).Unspent := by
  refine (account_invariant account (fun _ _ m => m.Unspent) Slice.sound_empty ?_
    (fun known _ => known) (fun known _ => known) ?_ run).2
  · rintro id a (stored | ⟨_, stored, -⟩)
    · cases stored
    · cases stored
  · intro history taken reply gate unspent sound acted
    exact acted.transition.unspent sound unspent

/-! ### A nullifier is spent at most once -/

/-- A step that spent a nullifier of the account: it completed an attempt that
holds it. -/
def spends (account : Address) (n : Bytes32) (taken : ControllerStep) : Bool :=
  taken.action.call.account = account &&
    match taken.reply with
    | .ok (.synced (.completed completion), _) =>
        (taken.before.attempt (account, completion.attemptId)).any
          (fun a => a.zkNullifier = some n)
    | _ => false

theorem Passed.not_spends {account : Address} {taken : ControllerStep} {n : Bytes32}
    (passed : Passed account taken) : spends account n taken = false := by
  unfold spends
  by_cases named : taken.action.call.account = account
  · obtain ⟨failure, failed⟩ := passed.silent named
    simp [failed]
  · simp [named]

theorem Acted.spends_iff {d : Deployment} {account : Address} {taken : ControllerStep}
    {reply : Reply} {gate : Option GateCall} (acted : Acted d account taken reply gate)
    (sound : (taken.before.slice account).Sound taken.action.env.sequence) (n : Bytes32) :
    spends account n taken = true ↔
      (taken.before.slice account).nullifier n = none ∧
        (taken.after.slice account).nullifier n ≠ none := by
  unfold spends
  rw [acted.replied, acted.named]
  cases acted.transition.spending with
  | kept same silent =>
      rw [same]
      constructor
      · intro spent
        split at spent
        · rename_i completion _ replied
          cases replied
          exact absurd rfl (silent completion)
        · simp at spent
      · intro spent
        exact absurd spent.1 spent.2
  | @completed a _ _ _ _ found replied unspent after _ =>
      obtain ⟨-, -, stored, -⟩ := sound.authorized_state found
      have record : taken.before.attempt (account, a.id) = some a := stored
      rw [replied, after]
      simp only [decide_true, Bool.true_and, record, Option.any_some, decide_eq_true_eq]
      constructor
      · intro own
        exact ⟨unspent n own, by simp [own]⟩
      · rintro ⟨fresh, spent⟩
        by_contra other
        rw [if_neg other] at spent
        exact spent fresh

theorem Run.spends_once {d : Deployment} {history : History} {now : UInt32} {s : Storage}
    (run : Run d history now s) (account : Address) (n : Bytes32) :
    history.countP (spends account n) ≤ 1 := by
  refine (account_invariant account
    (fun history _ m => history.countP (spends account n) ≤ 1 ∧
      (history.countP (spends account n) ≠ 0 → m.nullifier n ≠ none))
    Slice.sound_empty ?_ (fun known _ => known) ?_ ?_ run).2.1
  · simp
  · rintro history taken ⟨once, recorded⟩ passed
    rw [List.countP_cons_of_neg (by simp [passed.not_spends])]
    exact ⟨once, recorded⟩
  · rintro history taken reply gate ⟨once, recorded⟩ sound acted
    by_cases spent : spends account n taken = true
    · obtain ⟨fresh, after⟩ := (acted.spends_iff sound n).mp spent
      have never : history.countP (spends account n) = 0 := by
        by_contra before
        exact recorded before fresh
      rw [List.countP_cons_of_pos spent, never]
      exact ⟨le_refl _, fun _ => after⟩
    · rw [List.countP_cons_of_neg spent]
      exact ⟨once, fun before => acted.transition.spent_stays (recorded before)⟩

/-! ### Completing never meets a spent nullifier -/

def DoubleSpend (failure : Failure) : Prop :=
  failure = .refused .nullifierSpent

theorem spendNullifier_avoids {s : Storage} {account : Address} {nullifier : Option Bytes32}
    (unspent : ∀ n ∈ nullifier, s.nullifier (account, n) = none) :
    Avoids DoubleSpend (spendNullifier s account nullifier) := by
  cases nullifier with
  | none => exact .pure _
  | some n =>
      refine .bind (.require fun spent => ?_) fun _ _ => .pure _
      exact absurd (unspent n rfl) spent

theorem storeConfig_avoids (s : Storage) (account : Address) (config : CompiledRecoveryConfig) :
    Avoids DoubleSpend (storeConfig s account config) := by
  refine .bind (.bind (.orFail fun _ => ?_) fun _ _ => .pure _) fun _ _ => .pure _
  simp [DoubleSpend]

theorem complete_avoids {d : Deployment} {e : Env} {s : Storage} {account : Address}
    (unspent : (s.slice account).Unspent) (marker : CompletionMarker)
    (new : Option CompiledRecoveryConfig) (docHash : Bytes32) :
    Avoids DoubleSpend (complete d e s account marker new docHash) := by
  have harmless : ∀ error : RecoveryError, error ≠ .nullifierSpent →
      ¬DoubleSpend (.refused error) := by
    simp [DoubleSpend]
  refine .bind (.orFail fun _ => harmless _ (by decide)) fun a found => ?_
  refine .bind (.require fun _ => harmless _ (by decide)) fun _ _ => ?_
  refine .bind (.orFail fun _ => harmless _ (by decide)) fun config _ => ?_
  refine .bind (.require fun _ => harmless _ (by decide)) fun _ _ => ?_
  obtain ⟨id, -, stored, live⟩ := authorizedLive_eq_some.mp (orFail_eq_ok.mp found)
  refine .bind (spendNullifier_avoids (unspent id a (.inl stored) live.1)) fun s' _ => ?_
  exact .bind (storeConfig_avoids _ _ _) fun _ _ => .pure _

/-! ### Nullifier accounting -/

/-- A step of a run starts in a reachable state and, for each account, passes
it by or makes one of the listed transitions. -/
theorem Run.taken {d : Deployment} {history : History} {now : UInt32} {s : Storage}
    (run : Run d history now s) {taken : ControllerStep} (member : taken ∈ history)
    (account : Address) :
    (taken.before.slice account).Sound taken.action.env.sequence ∧
      (Passed account taken ∨ ∃ reply gate, Acted d account taken reply gate) := by
  obtain ⟨later, earlier, rfl⟩ := List.append_of_mem member
  obtain ⟨executed, before, -⟩ := Execution.split later run
  have before : Run d earlier taken.action.env.sequence taken.before := before
  refine ⟨before.sound account, ?_⟩
  rw [executed]
  exact step_passed_or_acted taken.action account (fun other => (before.sound other).keyed)

theorem nullifierSpent_eq_true {s : Storage} {account : Address} {n : Bytes32} :
    nullifierSpent s account n = true ↔ (s.slice account).nullifier n ≠ none :=
  Option.isSome_iff_ne_none

theorem nullifierSpent_eq_false {s : Storage} {account : Address} {n : Bytes32} :
    nullifierSpent s account n = false ↔ (s.slice account).nullifier n = none :=
  Option.isSome_eq_false_iff.trans Option.isNone_iff_eq_none

/-- In every run the spent nullifiers of an account only grow; only a
completion adds to them, and only the nullifier of the attempt it completes;
none is spent twice; the attempts that are live hold unspent ones, so that
`complete` never refuses one; and a call for one account leaves the nullifiers
of every other as they were. -/
theorem nullifier_accounting {d : Deployment} {history : History} {now : UInt32} {s : Storage}
    (run : Run d history now s) :
    (∀ taken ∈ history, ∀ account n, nullifierSpent taken.before account n = true →
      nullifierSpent taken.after account n = true) ∧
    (∀ taken ∈ history, ∀ account n, nullifierSpent taken.before account n = false →
      nullifierSpent taken.after account n = true →
      ∃ a docHash recovery validUntil gate,
        taken.action.call = .rcvSync account docHash recovery validUntil ∧
        authorizedLive taken.action.env.sequence taken.before account = some a ∧
        taken.reply =
          .ok (.synced (.completed { attemptId := a.id, replaced := a.replaced }), gate) ∧
        a.zkNullifier = some n) ∧
    (∀ account n, history.countP (spends account n) ≤ 1) ∧
    (∀ taken ∈ history, ∀ account n, spends account n taken = true ↔
      nullifierSpent taken.before account n = false ∧
        nullifierSpent taken.after account n = true) ∧
    (∀ account id a, load now s account id = some a → isLive now s account a = true →
      ∀ n, a.zkNullifier = some n → nullifierSpent s account n = false) ∧
    (∀ (e : Env) account marker new docHash, e.sequence = now →
      complete d e (removeCompleting s account) account marker new docHash ≠
        .error (.refused .nullifierSpent)) ∧
    ∀ taken ∈ history, ∀ account, taken.action.call.account ≠ account → ∀ n,
      nullifierSpent taken.after account n = nullifierSpent taken.before account n := by
  have passed_eq : ∀ {taken : ControllerStep} {account : Address} (n : Bytes32),
      Passed account taken →
      nullifierSpent taken.after account n = nullifierSpent taken.before account n := by
    intro taken account n passed
    have kept := congrArg (fun m : Slice => (m.nullifier n).isSome) passed.kept
    exact kept
  refine ⟨?_, ?_, run.spends_once, ?_, ?_, ?_, ?_⟩
  · intro taken member account n spent
    obtain ⟨-, passed | ⟨reply, gate, acted⟩⟩ := run.taken member account
    · rw [passed_eq n passed]
      exact spent
    · exact nullifierSpent_eq_true.mpr
        (acted.transition.spent_stays (nullifierSpent_eq_true.mp spent))
  · intro taken member account n fresh spent
    obtain ⟨-, passed | ⟨reply, gate, acted⟩⟩ := run.taken member account
    · rw [passed_eq n passed, fresh] at spent
      cases spent
    · have fresh := nullifierSpent_eq_false.mp fresh
      have spent := nullifierSpent_eq_true.mp spent
      cases acted.transition.spending with
      | kept same _ =>
          rw [same] at spent
          exact absurd fresh spent
      | @completed a docHash recovery validUntil called found replied _ after _ =>
          refine ⟨a, docHash, recovery, validUntil, gate, called,
            authorizedLive_eq_some.mpr found, ?_, ?_⟩
          · rw [acted.replied, replied]
          · by_contra other
            rw [after] at spent
            exact absurd fresh (by simpa [other] using spent)
  · intro taken member account n
    obtain ⟨sound, passed | ⟨reply, gate, acted⟩⟩ := run.taken member account
    · rw [passed.not_spends, passed_eq n passed]
      simp
    · rw [nullifierSpent_eq_false, nullifierSpent_eq_true]
      exact acted.spends_iff sound n
  · intro account id a loaded live n own
    rw [nullifierSpent_eq_false]
    exact run.unspent account id a (.of_load loaded) (isLive_eq_true.mp live).1 n own
  · rintro e account marker new docHash rfl refused
    have unspent : ((removeCompleting s account).slice account).Unspent := by
      rw [slice_removeCompleting]
      exact run.unspent account
    exact complete_avoids unspent marker new docHash _ refused rfl
  · intro taken member account other n
    obtain ⟨-, passed | ⟨reply, gate, acted⟩⟩ := run.taken member account
    · exact passed_eq n passed
    · exact absurd acted.named other

/-- The sample run completed: its attempt's nullifier is spent, and the sample
attempt held it unspent before. -/
theorem nullifier_accounting_sample :
    ∃ history s, Run Sample.deployment history 114 s ∧
      nullifierSpent s Sample.account Sample.evidence.nullifier = true ∧
      history.countP (spends Sample.account Sample.evidence.nullifier) = 1 ∧
      ∀ account n, history.countP (spends account n) ≤ 1 := by
  have run : Run Sample.deployment ((controller Sample.deployment).play [] .empty
      (Sample.authorizing ++ [Sample.invoke 114
        (.rcvSync Sample.account Sample.target.docHash [Sample.newConfig] 0)])).1 114 _ :=
    Execution.refl.play (by decide)
  exact ⟨_, _, run, by decide +kernel, by decide +kernel, (nullifier_accounting run).2.2.1⟩

end Perch.Recovery
