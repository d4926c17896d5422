/-
The configuration is a function of the epoch.

Every change of an account's configuration bumps its epoch, so all states a
run visited in one epoch store the same configuration.  A statement rebuilt
later in that epoch is the statement evidence was given for.
-/

import Perch.Recovery.Lifetime

namespace Perch.Recovery

open Machine Document

/-- Every state a run has been in, the present one first. -/
def visited (history : History) (s : Storage) : List Storage :=
  s :: history.map (·.before)

def sliced (account : Address) (history : History) (m : Slice) : List Slice :=
  m :: history.map (·.before.slice account)

theorem mem_sliced {account : Address} {history : History} {s visit : Storage}
    (member : visit ∈ visited history s) :
    visit.slice account ∈ sliced account history (s.slice account) := by
  rcases List.mem_cons.mp member with rfl | member
  · exact List.mem_cons_self
  · obtain ⟨taken, present, rfl⟩ := List.mem_map.mp member
    exact List.mem_cons_of_mem _ (List.mem_map.mpr ⟨taken, present, rfl⟩)

/-- The configuration the account had throughout an epoch. -/
def Throughout (visits : List Slice) (epoch : UInt64) (config : Option CompiledRecoveryConfig) :
    Prop :=
  ∀ visit ∈ visits, visit.epoch = epoch → visit.config = config

/-- A move keeps the configuration and the epoch, or bumps the epoch. -/
theorem Transition.epoch_step {d : Deployment} {e : Env} {account : Address} {m m' : Slice}
    {call : Call} {reply : Reply} {gate : Option GateCall}
    (transition : Transition d e account m call reply gate m') :
    (m'.epoch = m.epoch ∧ m'.config = m.config) ∨ checkedSucc m.epoch = some m'.epoch := by
  cases transition.move with
  | configured _ bumped _ => exact .inr bumped
  | completed _ _ _ bumped => exact .inr bumped
  | idle | opened | recorded | closed | promoted | cancelled => exact .inl ⟨rfl, rfl⟩

theorem Transition.epoch_le {d : Deployment} {e : Env} {account : Address} {m m' : Slice}
    {call : Call} {reply : Reply} {gate : Option GateCall}
    (transition : Transition d e account m call reply gate m') : m.epoch ≤ m'.epoch := by
  rcases transition.epoch_step with ⟨same, -⟩ | bumped
  · rw [same]
    exact UInt64.le_refl _
  · exact UInt64.le_of_lt (lt_checkedSucc bumped)

section Steps

variable {d : Deployment} {account : Address} {taken : ControllerStep} {history : History}
  {reply : Reply} {gate : Option GateCall}

theorem sliced_passed {visit : Slice}
    (member : visit ∈ sliced account (taken :: history) (taken.before.slice account)) :
    visit ∈ sliced account history (taken.before.slice account) := by
  simp only [sliced, List.map_cons, List.mem_cons] at member ⊢
  rcases member with rfl | rfl | member
  · exact .inl rfl
  · exact .inl rfl
  · exact .inr member

theorem Throughout.passed {epoch : UInt64} {config : Option CompiledRecoveryConfig}
    (fixed : Throughout (sliced account history (taken.before.slice account)) epoch config) :
    Throughout (sliced account (taken :: history) (taken.before.slice account)) epoch config :=
  fun visit member => fixed visit (sliced_passed member)

/-- An epoch that has begun keeps its configuration. -/
theorem Throughout.acted {epoch : UInt64} {config : Option CompiledRecoveryConfig}
    (acted : Acted d account taken reply gate)
    (past : epoch ≤ (taken.before.slice account).epoch)
    (fixed : Throughout (sliced account history (taken.before.slice account)) epoch config) :
    Throughout (sliced account (taken :: history) (taken.after.slice account)) epoch config := by
  intro visit member current
  rcases List.mem_cons.mp member with rfl | member
  · rcases acted.transition.epoch_step with ⟨same, kept⟩ | bumped
    · rw [kept]
      exact fixed _ List.mem_cons_self (same.symm.trans current)
    · rw [current] at bumped
      exact absurd (UInt64.lt_of_lt_of_le (lt_checkedSucc bumped) past) (UInt64.lt_irrefl _)
  · exact fixed visit member current

end Steps

/-- All states of the present epoch store the present configuration. -/
structure EpochFixed (visits : List Slice) (m : Slice) : Prop where
  past : ∀ visit ∈ visits, visit.epoch ≤ m.epoch
  fixed : Throughout visits m.epoch m.config

theorem EpochFixed.acted {d : Deployment} {account : Address} {taken : ControllerStep}
    {history : History} {reply : Reply} {gate : Option GateCall}
    (acted : Acted d account taken reply gate)
    (known : EpochFixed (sliced account history (taken.before.slice account))
      (taken.before.slice account)) :
    EpochFixed (sliced account (taken :: history) (taken.after.slice account))
      (taken.after.slice account) where
  past := by
    intro visit member
    rcases List.mem_cons.mp member with rfl | member
    · exact UInt64.le_refl _
    · exact UInt64.le_trans (known.past visit member) acted.transition.epoch_le
  fixed := by
    rcases acted.transition.epoch_step with ⟨same, kept⟩ | bumped
    · rw [same, kept]
      exact known.fixed.acted acted (UInt64.le_refl _)
    · intro visit member current
      rcases List.mem_cons.mp member with rfl | member
      · rfl
      · have old := known.past visit member
        rw [current] at old
        exact absurd (UInt64.lt_of_lt_of_le (lt_checkedSucc bumped) old) (UInt64.lt_irrefl _)

theorem EpochFixed.passed {account : Address} {taken : ControllerStep} {history : History}
    (known : EpochFixed (sliced account history (taken.before.slice account))
      (taken.before.slice account)) :
    EpochFixed (sliced account (taken :: history) (taken.before.slice account))
      (taken.before.slice account) where
  past visit member := known.past visit (sliced_passed member)
  fixed := known.fixed.passed

theorem EpochFixed.initial (account : Address) :
    EpochFixed (sliced account [] (Storage.empty.slice account))
      (Storage.empty.slice account) where
  past := by simp [sliced]
  fixed := by simp [Throughout, sliced]

theorem Run.epochFixed {d : Deployment} {history : History} {now : UInt32} {s : Storage}
    (run : Run d history now s) (account : Address) :
    EpochFixed (sliced account history (s.slice account)) (s.slice account) := by
  refine (account_invariant account (fun history _ m => EpochFixed (sliced account history m) m)
    Slice.sound_empty (.initial account) (fun known _ => known) ?_ ?_ run).2
  · intro history taken known passed
    exact known.passed
  · intro history taken reply gate known sound acted
    exact known.acted acted

end Perch.Recovery
