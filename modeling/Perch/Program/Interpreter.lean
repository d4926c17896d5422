/-
The interpreter contract: one program for each account and rule.

One instance serves every account, so each entry point that acts for an account
asks for that account's authorization first.
-/

import Perch.Program.Eval

namespace Perch.Program

open Machine

inductive InterpreterError
  /-- The host refused the account's authorization. -/
  | authRequired
  | denied
  | notInstalled
  | alreadyInstalled
  | invalidProgram
deriving DecidableEq

abbrev Programs := Address → UInt32 → Option InstallParams

def Programs.set (programs : Programs) (account : Address) (rule : UInt32)
    (params : Option InstallParams) : Programs :=
  fun holder id => if holder = account ∧ id = rule then params else programs holder id

/-- A program authorizes a call when it is true of it with the signers that
authenticated, of whom there is at least one. -/
def InstallParams.admits {α : Type} (env : EvalEnv) (context : Context) (authenticated : List α)
    (account : Address) (params : InstallParams) : Bool :=
  !authenticated.isEmpty &&
    eval env ⟨context, UInt32.ofNat authenticated.length, account⟩ params.program = .true

section EntryPoints

variable (requireAuth : Address → Bool) (programs : Programs) (account : Address) (rule : UInt32)

def enforce (env : EvalEnv) (context : Context) (authenticated : List Signer) :
    Except InterpreterError Unit := do
  require (requireAuth account = true) .authRequired
  require (authenticated ≠ []) .denied
  let params ← orFail (programs account rule) .notInstalled
  require (eval env ⟨context, UInt32.ofNat authenticated.length, account⟩ params.program = .true)
    .denied

def install (params : InstallParams) : Except InterpreterError Programs := do
  require (requireAuth account = true) .authRequired
  require (programs account rule = none) .alreadyInstalled
  params.program.validate.mapError fun _ => .invalidProgram
  .ok (programs.set account rule (some params))

def uninstall : Except InterpreterError Programs := do
  require (requireAuth account = true) .authRequired
  require (programs account rule ≠ none) .notInstalled
  .ok (programs.set account rule none)

end EntryPoints

theorem enforce_eq_ok {requireAuth : Address → Bool} {programs : Programs} {account : Address}
    {rule : UInt32} {env : EvalEnv} {context : Context} {authenticated : List Signer}
    {done : Unit} :
    enforce requireAuth programs account rule env context authenticated = .ok done ↔
      requireAuth account = true ∧ ∃ params, programs account rule = some params ∧
        params.admits env context authenticated account = true := by
  simp only [enforce, bind_eq_ok, require_eq_ok, orFail_eq_ok, InstallParams.admits,
    Bool.and_eq_true, Bool.not_eq_true', List.isEmpty_eq_false_iff, decide_eq_true_iff]
  constructor
  · rintro ⟨_, authorized, _, signed, params, stored, allows⟩
    exact ⟨authorized, params, stored, signed, allows⟩
  · rintro ⟨authorized, params, stored, signed, allows⟩
    exact ⟨(), authorized, (), signed, params, stored, allows⟩

end Perch.Program
