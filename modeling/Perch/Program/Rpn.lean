/-
The postfix constraint program an interpreter rule carries.
-/

import Perch.Host

namespace Perch.Program

inductive Op
  | all (n : UInt32)
  | any (n : UInt32)
  | not
  | minSigners (n : UInt32)
  | fnIn (names : List Symbol)
  | argAddrEq (index : UInt32) (address : Address)
  | argAddrIsSelf (index : UInt32)
  | argSymEq (index : UInt32) (symbol : Symbol)
  | argStrIn (index : UInt32) (values : List SString)
  | argStrPrefix (index : UInt32) (initial : SString)
  | argBytesEq (index : UInt32) (value : Bytes)
  | argI128Eq (index : UInt32) (value : Int)
  | argU32Eq (index : UInt32) (value : UInt32)
  | argCount (n : UInt32)
  | ledgerBefore (ledger : UInt32)
  | ledgerAtOrAfter (ledger : UInt32)
deriving DecidableEq

structure RpnProgram where
  version : UInt32
  ops : List Op
deriving DecidableEq

/-- What the interpreter stores for one rule: the program and the hash of the
rule it was compiled from. -/
structure InstallParams where
  program : RpnProgram
  docHash : Bytes32
deriving DecidableEq

/-! ### Validation -/

def programVersion : UInt32 := 1

def maxProgramLen : Nat := 256

def maxStackDepth : Nat := 128

inductive ProgramError
  | unknownVersion
  | empty
  | tooLarge
  | arityMismatch
  | stackUnderflow
  | stackOverflow
  | notSingleResult
deriving DecidableEq

/-- How many verdicts an op pops.  Every op pushes exactly one. -/
def pops : Op → Except ProgramError Nat
  | .all n => if n = 0 then .error .arityMismatch else .ok n.toNat
  | .any n => if n = 0 then .error .arityMismatch else .ok n.toNat
  | .not => .ok 1
  | _ => .ok 0

theorem pops_all (n : UInt32) :
    pops (.all n) = if n = 0 then .error .arityMismatch else .ok n.toNat :=
  rfl

theorem pops_any (n : UInt32) :
    pops (.any n) = if n = 0 then .error .arityMismatch else .ok n.toNat :=
  rfl

def stackEffect (depth : Nat) (op : Op) : Except ProgramError Nat := do
  let popped ← pops op
  if depth < popped then .error .stackUnderflow
  else if maxStackDepth < depth - popped + 1 then .error .stackOverflow
  else .ok (depth - popped + 1)

/-- A program is valid when its simulated stack never runs under or over and
ends with one value. -/
def RpnProgram.validate (program : RpnProgram) : Except ProgramError Unit := do
  if program.version ≠ programVersion then .error .unknownVersion
  else if program.ops = [] then .error .empty
  else if maxProgramLen < program.ops.length then .error .tooLarge
  else
    let depth ← program.ops.foldlM stackEffect 0
    if depth = 1 then .ok () else .error .notSingleResult

end Perch.Program
