/-
Lowering a document to the rules it installs.

Two rules carry the security of the lowering: a constrained rule's program
asks for a signer, and an unconstrained one attaches no policy at all, so that
the store's own check of every signer authorizes it.  Resolving an address or a
symbol is the host's, and traps when the text is not one.
-/

import Perch.Ir.Validate
import Perch.Machine.Fallible
import Perch.Program.Rpn

namespace Perch.Compile

open Machine Ir Program

/-! ### Plans -/

inductive ScopeSpec
  | contract (address : String)
  | selfAdmin
deriving DecidableEq

inductive SignerSpec
  | external (verifier keyHex : String)
  | delegated (address : String)
deriving DecidableEq

structure CapSpec where
  token : Option String
  limit : Int
  periodLedgers : UInt32
deriving DecidableEq

structure LoweredRule where
  name : String
  scope : ScopeSpec
  signers : List SignerSpec
  validUntil : Option UInt32
  /-- Absent: the rule attaches no policy. -/
  install : Option InstallParams
  cap : Option CapSpec
deriving DecidableEq

/-- The lowered rules, and the interpreter's hash when a rule attaches it. -/
structure Plan where
  rules : List LoweredRule
  interpreterWasmHash : Option Bytes32
deriving DecidableEq

inductive LowerError
  | unknownSignerRef (rule id : String)
  | unsupported (rule reason : String)
  | invalidProgram (rule : String) (err : ProgramError)
  | invalidCap (rule : String)
  /-- The host trapped. -/
  | trapped
deriving DecidableEq

/-! ### The host's conversions -/

structure LowerHost where
  sha256 : Sha256
  addressFromStr : String → Option Address

/-- A symbol has at most 32 characters, letters, digits, and underscores. -/
def symbolNew (name : String) : Except LowerError Symbol :=
  if (utf8 name).length ≤ 32 ∧ (utf8 name).all (fun c =>
      (97 ≤ c && c ≤ 122) || (65 ≤ c && c ≤ 90) || (48 ≤ c && c ≤ 57) || c = 95) then .ok name
  else .error .trapped

section

variable (host : LowerHost)

def addressOf (address : String) : Except LowerError Address :=
  orFail (host.addressFromStr address) .trapped

/-- `sha256(RULE_HASH_DOMAIN || rule_canonical_json(rule))`. -/
def ruleHashOnchain (rule : Rule) : Bytes32 :=
  host.sha256 (ruleHashDomain ++ utf8 (ruleCanonicalJson rule))

/-! ### Lowering -/

def lowerArgPred (constraint : ArgConstraint) : Except LowerError Op :=
  match constraint.pred with
  | .isSelf => .ok (.argAddrIsSelf constraint.index)
  | .addressEq address => do .ok (.argAddrEq constraint.index (← addressOf host address))
  | .u32Eq value => .ok (.argU32Eq constraint.index value)
  | .stringIn values => .ok (.argStrIn constraint.index (values.map utf8))
  | .stringPrefix initial => .ok (.argStrPrefix constraint.index (utf8 initial))

/-- `All(MinSigners, the function allowlist, each argument predicate)`. -/
def buildProgram (rule : Rule) (minSigners : UInt32) : Except LowerError RpnProgram := do
  let functions ← match rule.functions with
    | none => .ok []
    | some names => do .ok [Op.fnIn (← names.mapM symbolNew)]
  let args ← match rule.args with
    | none => .ok []
    | some constraints => constraints.mapM (lowerArgPred host)
  let leaves := Op.minSigners (max minSigners 1) :: (functions ++ args)
  let program : RpnProgram :=
    { version := programVersion
      ops := leaves ++ [.all (UInt32.ofNat leaves.length)] }
  program.validate.mapError (LowerError.invalidProgram rule.name)
  .ok program

/-- The signers a rule names, and how many of them its program asks for. -/
def quorum (rule : Rule) : Except LowerError (List String × UInt32) :=
  match rule.principals with
  | .all signers => .ok (signers, UInt32.ofNat signers.length)
  | .threshold signers m => .ok (signers, m)
  | .selfAuthenticating _ _ _ => .error (.unsupported rule.name
      "self-authenticating rules need a policy-call op not in program v1")

def resolveSigner (doc : PolicyDoc) (rule id : String) : Except LowerError SignerSpec :=
  match doc.signers.find? fun decl => decl.id = id with
  | none => .error (.unknownSignerRef rule id)
  | some decl =>
      match decl.method with
      | .external verifier key => .ok (.external verifier key)
      | .delegated address => .ok (.delegated address)

def lowerCap (rule : String) (cap : CapConstraint) : Except LowerError CapSpec :=
  (orFail (parseI128 cap.limit) (.invalidCap rule)).map fun limit =>
    { token := cap.token, limit := limit, periodLedgers := cap.periodLedgers }

def constraintFree (rule : Rule) : Bool :=
  (match rule.principals with
    | .all _ => true
    | _ => false) && rule.functions.isNone && rule.args.isNone && rule.cap.isNone

/-- `not_after_ledger` is the first dead ledger, `valid_until` the last live one. -/
def lastLedger : Option UInt32 → Except LowerError (Option UInt32)
  | none => .ok none
  | some first => if first = 0 then .error .trapped else .ok (some (first - 1))

def lowerScope : Scope → ScopeSpec
  | .contract address => .contract address
  | .selfAdmin => .selfAdmin

def lowerRule (doc : PolicyDoc) (rule : Rule) : Except LowerError LoweredRule := do
  let (signerIds, minSigners) ← quorum rule
  let signers ← signerIds.mapM (resolveSigner doc rule.name)
  let cap ← rule.cap.mapM (lowerCap rule.name)
  let install ← (
    if constraintFree rule then .ok none
    else do
      let program ← buildProgram host rule minSigners
      .ok (some { program := program, docHash := ruleHashOnchain host rule })
    : Except LowerError (Option InstallParams))
  let validUntil ← lastLedger rule.notAfterLedger
  .ok { name := rule.name
        scope := lowerScope rule.scope
        signers := signers
        validUntil := validUntil
        install := install
        cap := cap }

def compile (doc : PolicyDoc) (interpreterWasmHash : Bytes32) : Except LowerError Plan := do
  let rules ← doc.rules.mapM (lowerRule host doc)
  .ok { rules := rules
        interpreterWasmHash :=
          if rules.any (fun rule => rule.install.isSome) then some interpreterWasmHash else none }

end

end Perch.Compile
