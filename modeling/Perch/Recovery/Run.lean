/-
The controller as a clocked system, and runs of it.

A run starts from a freshly deployed controller and makes any calls, by any
callers and for any accounts, at nondecreasing ledgers.  A failed call is a
step that leaves the storage as it was.
-/

import Perch.Machine.Run
import Perch.Recovery.Transition

namespace Perch.Recovery

open Machine Document

/-- One call of the controller, with the environment it meets. -/
structure Invocation where
  env : Env
  call : Call

/-- What a caller sees: a failure, or a reply and the gate call made. -/
abbrev Answer := Except Failure (Reply × Option GateCall)

abbrev ControllerStep := Step Storage Invocation Answer

abbrev History := List ControllerStep

def controller (d : Deployment) : System UInt32 Storage Invocation Answer where
  clock invocation := invocation.env.sequence
  respond s invocation :=
    match execute d invocation.env s invocation.call with
    | .ok outcome => (.ok (outcome.reply, outcome.gate), outcome.storage)
    | .error failure => (.error failure, s)

abbrev Run (d : Deployment) (history : History) (now : UInt32) (s : Storage) : Prop :=
  Execution (controller d) 0 Storage.empty history now s

/-- A step that succeeded for an account, and the outcome it had there. -/
structure Acted (d : Deployment) (account : Address) (taken : ControllerStep) (reply : Reply)
    (gate : Option GateCall) : Prop where
  named : taken.action.call.account = account
  replied : taken.reply = .ok (reply, gate)
  transition : Transition d taken.action.env account (taken.before.slice account)
    taken.action.call reply gate (taken.after.slice account)

/-- A step that did nothing for an account: it failed, or named another. -/
structure Passed (account : Address) (taken : ControllerStep) : Prop where
  silent : taken.action.call.account = account → ∃ failure, taken.reply = .error failure
  kept : taken.after.slice account = taken.before.slice account

theorem step_passed_or_acted {d : Deployment} {s : Storage} (invocation : Invocation)
    (account : Address) (keyed : ∀ account, (s.slice account).Keyed) :
    Passed account ((controller d).step s invocation) ∨
      ∃ reply gate, Acted d account ((controller d).step s invocation) reply gate := by
  cases executed : execute d invocation.env s invocation.call with
  | error failure =>
      left
      refine { silent := fun _ => ⟨failure, ?_⟩, kept := ?_ }
      · simp [System.step, controller, executed]
      · simp [System.step, controller, executed]
  | ok outcome =>
      obtain ⟨elsewhere, transition⟩ := execute_transition (keyed _) executed
      by_cases own : invocation.call.account = account
      · right
        subst own
        refine ⟨outcome.reply, outcome.gate, { named := rfl, replied := ?_, transition := ?_ }⟩
        · simp [System.step, controller, executed]
        · simpa [System.step, controller, executed] using transition
      · left
        refine { silent := fun same => absurd same own, kept := ?_ }
        simpa [System.step, controller, executed] using elsewhere account (Ne.symm own)

end Perch.Recovery
