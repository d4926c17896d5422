/-
The interpreter's hooks, as the rule store calls them.

A rule's policies are attached and detached one by one, and one of them at most
is the interpreter.  While the interpreter holds the program of every rule, no
hook finds one where there should be none, or none where there should be one.
-/

import Perch.Account.Edit
import Perch.Program.Interpreter

namespace Perch.Account

open Machine Recovery Program

/-! ### The interpreter's hooks -/

/-- The interpreter, the account it is called for, and how the host reads install
parameters. -/
structure Interpreting where
  interpreter : Address
  account : Address
  fromVal : Val → Option InstallParams

namespace Interpreting

variable (i : Interpreting)

/-- The parameters `install` is called with, for a policy that is the interpreter.
An invalid program is refused whatever is stored, by the policy's answer. -/
def takes (attached : Address × Val) : Option InstallParams :=
  if attached.1 = i.interpreter then
    (i.fromVal attached.2).filter fun params => params.program.validate.isOk
  else none

/-- The program of a rule with these policies. -/
def program (attached : List (Address × Val)) : Option InstallParams :=
  attached.findSome? i.takes

def attach (id : UInt32) (programs : Programs) (attached : Address × Val) :
    Except InterpreterError Programs :=
  match i.takes attached with
  | some params => install (fun _ => true) programs i.account id params
  | none => .ok programs

def detach (id : UInt32) (programs : Programs) (attached : Address × Val) :
    Except InterpreterError Programs :=
  match i.takes attached with
  | some _ => uninstall (fun _ => true) programs i.account id
  | none => .ok programs

def attachAll (id : UInt32) (programs : Programs) (attached : List (Address × Val)) :
    Except InterpreterError Programs :=
  attached.foldlM (i.attach id) programs

def detachAll (id : UInt32) (programs : Programs) (attached : List (Address × Val)) :
    Except InterpreterError Programs :=
  attached.foldlM (i.detach id) programs

variable {i} {id : UInt32} {programs : Programs}

theorem set_self {params : Option InstallParams} (same : programs i.account id = params) :
    programs.set i.account id params = programs := by
  funext holder other
  unfold Programs.set
  split
  next both => rw [both.1, both.2, same]
  next => rfl

theorem takes_interpreter {attached : Address × Val} {params : InstallParams}
    (takes : i.takes attached = some params) : attached.1 = i.interpreter := by
  unfold Interpreting.takes at takes
  split at takes
  · assumption
  · cases takes

/-- A rule has one interpreter at most. -/
theorem program_eq_some {attached : List (Address × Val)}
    (distinct : (attached.map Prod.fst).Nodup) {params : InstallParams} :
    i.program attached = some params ↔ ∃ entry ∈ attached, i.takes entry = some params := by
  constructor
  · exact List.exists_of_findSome?_eq_some
  · rintro ⟨entry, member, takes⟩
    cases found : i.program attached with
    | none =>
        have silent := List.findSome?_eq_none_iff.mp found entry member
        rw [takes] at silent
        cases silent
    | some other =>
        obtain ⟨entry', member', takes'⟩ := List.exists_of_findSome?_eq_some found
        have same : entry' = entry :=
          List.inj_on_of_nodup_map distinct member' member
            ((takes_interpreter takes').trans (takes_interpreter takes).symm)
        rw [same] at takes'
        exact takes'.symm.trans takes

theorem program_perm {attached attached' : List (Address × Val)} (same : attached.Perm attached')
    (distinct : (attached.map Prod.fst).Nodup) : i.program attached = i.program attached' := by
  have distinct' := (same.map Prod.fst).nodup_iff.mp distinct
  ext params
  rw [program_eq_some distinct, program_eq_some distinct']
  simp only [same.mem_iff]

theorem attach_eq {attached : Address × Val} (fresh : programs i.account id = none) :
    i.attach id programs attached = .ok (programs.set i.account id (i.takes attached)) := by
  unfold attach
  cases takes : i.takes attached with
  | none => rw [set_self fresh]
  | some params =>
      have valid : params.program.validate = .ok () := by
        unfold Interpreting.takes at takes
        split at takes
        · obtain ⟨_, accepted⟩ := Option.filter_eq_some_iff.mp takes
          cases valid : params.program.validate with
          | ok => rfl
          | error => simp [valid, Except.isOk, Except.toBool] at accepted
        · cases takes
      simp [install, require, fresh, valid, Except.mapError]

theorem detach_eq {attached : Address × Val} (held : programs i.account id = i.takes attached) :
    i.detach id programs attached = .ok (programs.set i.account id none) := by
  unfold detach
  cases takes : i.takes attached with
  | none =>
      rw [takes] at held
      rw [set_self held]
  | some params =>
      rw [takes] at held
      simp [uninstall, require, held]

/-- After the interpreter, no other policy is it. -/
theorem takes_rest {entry : Address × Val} {rest : List (Address × Val)} {params : InstallParams}
    (takes : i.takes entry = some params) (apart : entry.1 ∉ rest.map Prod.fst) :
    ∀ other ∈ rest, i.takes other = none := by
  intro other member
  cases again : i.takes other with
  | none => rfl
  | some =>
      refine absurd (List.mem_map.mpr ⟨other, member, ?_⟩) apart
      exact (takes_interpreter again).trans (takes_interpreter takes).symm

theorem foldlM_silent {hook : Programs → Address × Val → Except InterpreterError Programs}
    {attached : List (Address × Val)}
    (silent : ∀ entry ∈ attached, hook programs entry = .ok programs) :
    attached.foldlM hook programs = .ok programs := by
  induction attached with
  | nil => rfl
  | cons entry rest ih =>
      rw [List.forall_mem_cons] at silent
      rw [List.foldlM_cons, silent.1, ok_bind]
      exact ih silent.2

/-- Attaching a rule's policies stores its program. -/
theorem attachAll_eq {attached : List (Address × Val)} (distinct : (attached.map Prod.fst).Nodup)
    (fresh : programs i.account id = none) :
    i.attachAll id programs attached =
      .ok (programs.set i.account id (i.program attached)) := by
  induction attached with
  | nil => exact congrArg Except.ok (set_self fresh).symm
  | cons entry rest ih =>
      rw [List.map_cons, List.nodup_cons] at distinct
      rw [attachAll, List.foldlM_cons, attach_eq fresh, ok_bind, program, List.findSome?_cons]
      cases takes : i.takes entry with
      | none =>
          rw [set_self fresh]
          exact ih distinct.2
      | some params =>
          refine foldlM_silent fun other member => ?_
          rw [attach, takes_rest takes distinct.1 other member]

/-- And detaching them removes it. -/
theorem detachAll_eq {attached : List (Address × Val)} (distinct : (attached.map Prod.fst).Nodup)
    (held : programs i.account id = i.program attached) :
    i.detachAll id programs attached = .ok (programs.set i.account id none) := by
  induction attached generalizing programs with
  | nil => exact congrArg Except.ok (set_self held).symm
  | cons entry rest ih =>
      rw [List.map_cons, List.nodup_cons] at distinct
      rw [program, List.findSome?_cons] at held
      rw [detachAll, List.foldlM_cons]
      cases takes : i.takes entry with
      | none =>
          rw [takes] at held
          rw [detach, takes, ok_bind]
          exact ih distinct.2 held
      | some params =>
          rw [takes] at held
          rw [detach_eq (held.trans takes.symm), ok_bind]
          refine foldlM_silent fun other member => ?_
          rw [detach, takes_rest takes distinct.1 other member]

/-- Attaching one policy more stores the program of the rule that has it. -/
theorem attach_more {entry : Address × Val} {attached : List (Address × Val)}
    (apart : entry.1 ∉ attached.map Prod.fst)
    (held : programs i.account id = i.program attached) :
    i.attach id programs entry =
      .ok (programs.set i.account id (i.program (entry :: attached))) := by
  rw [program, List.findSome?_cons]
  cases takes : i.takes entry with
  | none =>
      rw [attach, takes]
      exact congrArg Except.ok (set_self held).symm
  | some params =>
      have silent : i.program attached = none :=
        List.findSome?_eq_none_iff.mpr (takes_rest takes apart)
      rw [attach_eq (held.trans silent), takes]

/-- And detaching one stores the program of what is left. -/
theorem detach_one {entry : Address × Val} {attached : List (Address × Val)}
    (distinct : (attached.map Prod.fst).Nodup) (member : entry ∈ attached)
    (held : programs i.account id = i.program attached) :
    i.detach id programs entry = .ok (programs.set i.account id
      (i.program (attached.filter fun other => other.1 ≠ entry.1))) := by
  have apart : ((attached.filter fun other => other.1 ≠ entry.1).map Prod.fst).Nodup :=
    distinct.sublist (List.filter_sublist.map _)
  cases takes : i.takes entry with
  | none =>
      have same : i.program attached =
          i.program (attached.filter fun other => other.1 ≠ entry.1) := by
        ext params
        rw [program_eq_some distinct, program_eq_some apart]
        refine exists_congr fun other => and_congr_left fun has => ?_
        rw [List.mem_filter]
        refine ⟨fun present => ⟨present, decide_eq_true fun equal => ?_⟩, And.left⟩
        rw [List.inj_on_of_nodup_map distinct present member equal, takes] at has
        cases has
      rw [detach, takes, ← same]
      exact congrArg Except.ok (set_self held).symm
  | some params =>
      have rest : i.program (attached.filter fun other => other.1 ≠ entry.1) = none := by
        rw [program, List.findSome?_eq_none_iff]
        intro other left
        cases again : i.takes other with
        | none => rfl
        | some =>
            rw [List.mem_filter, decide_eq_true_eq] at left
            exact absurd ((takes_interpreter again).trans (takes_interpreter takes).symm) left.2
      have stored : i.program attached = some params :=
        (program_eq_some distinct).mpr ⟨entry, member, takes⟩
      rw [detach_eq (held.trans (stored.trans takes.symm)), rest]

end Interpreting

end Perch.Account
