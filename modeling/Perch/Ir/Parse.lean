/-
Fail-closed JSON parsing of policy documents.

A document is read from a JSON value tree by hand.  Unknown members, unknown
tags, repeated keys at any level, explicit nulls, and numbers that are not a
`u32` are refused; a numeric version other than 1 is refused before anything
else is looked at.  Lexing is a library's, and stays a parameter.
-/

import Perch.Ir.Syntax
import Perch.Machine.Json

namespace Perch.Ir

open Machine

inductive ParseError
  /-- Not JSON, or not the shape of a document. -/
  | json (message : String)
  | unsupportedVersion (version : Nat)
deriving DecidableEq

def maxDepth : Nat := 64

/-- The JSON library: one value, nested at most `maxDepth` deep, or the text
of its error. -/
abbrev JsonLexer := String → Except String Json

/-- What the parser relies on: compact JSON is read as the tree it stands for. -/
def JsonLexer.Conforms (lexer : JsonLexer) : Prop :=
  ∀ text tree, Json.read maxDepth text.toList = some tree → lexer text = .ok tree

def jsonReader : JsonLexer := fun text =>
  match Json.read maxDepth text.toList with
  | some tree => .ok tree
  | none => .error "malformed"

theorem jsonReader_conforms : jsonReader.Conforms := by
  intro text tree read
  rw [jsonReader, read]

def jsonErr {α : Type} (message : String) : Except ParseError α := .error (.json message)

/-! ### Value-tree helpers -/

abbrev Members := List (String × Json)

/-- A member that occurs at most once. -/
def field (obj : Members) (name : String) : Except ParseError (Option Json) :=
  obj.foldlM (fun found (key, value) =>
    if key = name then
      if found.isSome then jsonErr ("duplicate field `" ++ name ++ "`") else .ok (some value)
    else .ok found) none

def reqField (obj : Members) (name : String) : Except ParseError Json := do
  match ← field obj name with
  | some value => .ok value
  | none => jsonErr ("missing field `" ++ name ++ "`")

/-- A member that must be absent to be `none`: an explicit null is refused. -/
def optField (obj : Members) (name : String) : Except ParseError (Option Json) := do
  match ← field obj name with
  | none => .ok none
  | some .null => jsonErr ("field `" ++ name ++ "` must not be null")
  | some value => .ok (some value)

def denyUnknown (obj : Members) (known : List String) : Except ParseError Unit :=
  obj.forM fun (key, _) =>
    if key ∈ known then .ok () else jsonErr ("unknown field `" ++ key ++ "`")

def asObject (v : Json) (ctx : String) : Except ParseError Members :=
  match v with
  | .object members => .ok members
  | _ => jsonErr ("expected object for " ++ ctx)

def asArray (v : Json) (ctx : String) : Except ParseError (List Json) :=
  match v with
  | .array items => .ok items
  | _ => jsonErr ("expected array for " ++ ctx)

def asStr (v : Json) (ctx : String) : Except ParseError String :=
  match v with
  | .string value => .ok value
  | _ => jsonErr ("expected string for " ++ ctx)

/-- `str::parse` at an unsigned type below `bound`: an optional `+`, then
decimal digits. -/
def parseUnsigned (bound : Nat) (digits : String) : Option Nat :=
  let body := match digits.toList with
    | '+' :: rest => rest
    | chars => chars
  if body ≠ [] ∧ body.all Char.isDigit ∧ Nat.ofDigitChars 10 body 0 < bound then
    some (Nat.ofDigitChars 10 body 0)
  else none

def asU32 (v : Json) (ctx : String) : Except ParseError UInt32 :=
  match v with
  | .number digits true =>
      match parseUnsigned 4294967296 digits with
      | some value => .ok (UInt32.ofNat value)
      | none => jsonErr ("expected u32 for " ++ ctx)
  | _ => jsonErr ("expected u32 for " ++ ctx)

def asStrs (v : Json) (ctx item : String) : Except ParseError (List String) := do
  (← asArray v ctx).mapM fun e => asStr e item

def tag (obj : Members) (ctx : String) : Except ParseError String := do
  asStr (← reqField obj "type") ctx

def optional? {α : Type} (obj : Members) (name : String) (read : Json → Except ParseError α) :
    Except ParseError (Option α) := do
  match ← optField obj name with
  | some value => some <$> read value
  | none => .ok none

/-! ### Rules and signers -/

def signerFromValue (v : Json) : Except ParseError SignerDecl := do
  let obj ← asObject v "signer"
  -- An `address` member makes the signer delegated; mixed shapes are refused.
  let method ← (do
    if (← field obj "address").isSome then
      denyUnknown obj ["id", "address"]
      .ok (.delegated (← asStr (← reqField obj "address") "address"))
    else
      denyUnknown obj ["id", "verifier", "key"]
      let verifier ← asStr (← reqField obj "verifier") "verifier"
      let key ← asStr (← reqField obj "key") "key"
      .ok (.external verifier key) : Except ParseError SignerMethod)
  let id ← asStr (← reqField obj "id") "signer id"
  .ok { id := id, method := method }

def scopeFromValue (v : Json) : Except ParseError Scope := do
  let obj ← asObject v "scope"
  match ← tag obj "scope type" with
  | "contract" =>
      denyUnknown obj ["type", "address"]
      .ok (.contract (← asStr (← reqField obj "address") "contract address"))
  | "self-admin" =>
      denyUnknown obj ["type"]
      .ok .selfAdmin
  | other => jsonErr ("unknown variant `" ++ other ++ "` for scope type")

def principalsFromValue (v : Json) : Except ParseError Principals := do
  let obj ← asObject v "principals"
  match ← tag obj "principals type" with
  | "all" =>
      denyUnknown obj ["type", "signers"]
      .ok (.all (← asStrs (← reqField obj "signers") "signers" "signer id"))
  | "threshold" =>
      denyUnknown obj ["type", "signers", "m"]
      let signers ← asStrs (← reqField obj "signers") "signers" "signer id"
      let m ← asU32 (← reqField obj "m") "threshold m"
      .ok (.threshold signers m)
  | "self-authenticating" =>
      denyUnknown obj ["type", "policy", "install-param-hex", "ack"]
      let policy ← asStr (← reqField obj "policy") "policy"
      let installParamHex ← asStr (← reqField obj "install-param-hex") "install-param-hex"
      let ack ← asStr (← reqField obj "ack") "ack"
      .ok (.selfAuthenticating policy installParamHex ack)
  | other => jsonErr ("unknown variant `" ++ other ++ "` for principals type")

def predFromValue (v : Json) : Except ParseError ArgPred := do
  let obj ← asObject v "predicate"
  match ← tag obj "predicate type" with
  | "is-self" =>
      denyUnknown obj ["type"]
      .ok .isSelf
  | "address-eq" =>
      denyUnknown obj ["type", "address"]
      .ok (.addressEq (← asStr (← reqField obj "address") "address"))
  | "string-in" =>
      denyUnknown obj ["type", "values"]
      .ok (.stringIn (← asStrs (← reqField obj "values") "values" "value"))
  | "string-prefix" =>
      denyUnknown obj ["type", "prefix"]
      .ok (.stringPrefix (← asStr (← reqField obj "prefix") "prefix"))
  | "u32-eq" =>
      denyUnknown obj ["type", "value"]
      .ok (.u32Eq (← asU32 (← reqField obj "value") "value"))
  | other => jsonErr ("unknown variant `" ++ other ++ "` for predicate type")

def argConstraintFromValue (v : Json) : Except ParseError ArgConstraint := do
  let obj ← asObject v "arg constraint"
  denyUnknown obj ["index", "pred"]
  let index ← asU32 (← reqField obj "index") "arg index"
  let pred ← predFromValue (← reqField obj "pred")
  .ok { index := index, pred := pred }

def capFromValue (v : Json) : Except ParseError CapConstraint := do
  let obj ← asObject v "cap"
  denyUnknown obj ["token", "limit", "period-ledgers"]
  let token ← optional? obj "token" fun v => asStr v "cap token"
  let limit ← asStr (← reqField obj "limit") "cap limit"
  let periodLedgers ← asU32 (← reqField obj "period-ledgers") "period-ledgers"
  .ok { token := token, limit := limit, periodLedgers := periodLedgers }

def ruleFromValue (v : Json) : Except ParseError Rule := do
  let obj ← asObject v "rule"
  denyUnknown obj
    ["name", "scope", "principals", "functions", "args", "not-after-ledger", "cap"]
  let name ← asStr (← reqField obj "name") "rule name"
  let scope ← scopeFromValue (← reqField obj "scope")
  let principals ← principalsFromValue (← reqField obj "principals")
  let functions ← optional? obj "functions" fun v => asStrs v "functions" "function"
  let args ← optional? obj "args" fun v => do
    (← asArray v "args").mapM argConstraintFromValue
  let notAfterLedger ← optional? obj "not-after-ledger" fun v => asU32 v "not-after-ledger"
  let cap ← optional? obj "cap" capFromValue
  .ok { name := name, scope := scope, principals := principals, functions := functions,
        args := args, notAfterLedger := notAfterLedger, cap := cap }

/-! ### Recovery -/

def recoveryProfileFromValue (v : Json) : Except ParseError RecoveryProfile := do
  match ← asStr v "recovery profile" with
  | "loss" => .ok .loss
  | "protected" => .ok .protectedProfile
  | other => jsonErr ("unknown value `" ++ other ++ "` for recovery profile")

def guardianSetFromFields (obj : Members) : Except ParseError GuardianSet := do
  let guardians ← asStrs (← reqField obj "guardians") "guardians" "guardian address"
  let quorum ← asU32 (← reqField obj "quorum") "guardian quorum"
  .ok { guardians := guardians, quorum := quorum }

def zkFactorFromFields (obj : Members) : Except ParseError ZkFactor := do
  let adapter ← asStr (← reqField obj "adapter") "zk adapter"
  let circuitId ← asStr (← reqField obj "circuit-id") "zk circuit-id"
  let pool ← asStr (← reqField obj "pool") "zk pool"
  let enrollmentId ← asStr (← reqField obj "enrollment-id") "zk enrollment-id"
  let commitment ← asStr (← reqField obj "commitment") "zk commitment"
  .ok { adapter := adapter, circuitId := circuitId, pool := pool, enrollmentId := enrollmentId,
        commitment := commitment }

def recoveryModeFromValue (v : Json) : Except ParseError RecoveryMode := do
  let obj ← asObject v "recovery mode"
  match ← tag obj "recovery mode type" with
  | "guardian-only" =>
      denyUnknown obj ["type", "guardians", "quorum"]
      .ok (.guardianOnly (← guardianSetFromFields obj))
  | "zk-only" =>
      denyUnknown obj ["type", "adapter", "circuit-id", "pool", "enrollment-id", "commitment"]
      .ok (.zkOnly (← zkFactorFromFields obj))
  | "combined" =>
      denyUnknown obj ["type", "guardians", "quorum", "adapter", "circuit-id", "pool",
        "enrollment-id", "commitment"]
      let guardians ← guardianSetFromFields obj
      let zk ← zkFactorFromFields obj
      .ok (.combined guardians zk)
  | other => jsonErr ("unknown variant `" ++ other ++ "` for recovery mode type")

def baselineCommitmentFromValue (v : Json) : Except ParseError BaselineCommitment := do
  let obj ← asObject v "recovery baseline"
  denyUnknown obj ["doc-hash"]
  .ok { docHash := ← asStr (← reqField obj "doc-hash") "baseline doc-hash" }

def recoveryFromValue (v : Json) : Except ParseError RecoveryConfig := do
  let obj ← asObject v "recovery"
  denyUnknown obj ["profile", "mode", "controller", "baseline", "replaceable", "delay-ledgers",
    "expiry-ledgers", "max-cancels"]
  let profile ← recoveryProfileFromValue (← reqField obj "profile")
  let mode ← recoveryModeFromValue (← reqField obj "mode")
  let controller ← asStr (← reqField obj "controller") "recovery controller"
  let baseline ← optional? obj "baseline" baselineCommitmentFromValue
  let replaceable ← asStrs (← reqField obj "replaceable") "recovery replaceable"
    "replaceable signer id"
  let delayLedgers ← asU32 (← reqField obj "delay-ledgers") "recovery delay-ledgers"
  let expiryLedgers ← asU32 (← reqField obj "expiry-ledgers") "recovery expiry-ledgers"
  let maxCancels ← asU32 (← reqField obj "max-cancels") "recovery max-cancels"
  .ok { profile := profile, mode := mode, controller := controller, baseline := baseline,
        replaceable := replaceable, delayLedgers := delayLedgers, expiryLedgers := expiryLedgers,
        maxCancels := maxCancels }

/-! ### Documents -/

def docFromValue (v : Json) : Except ParseError PolicyDoc := do
  let obj ← asObject v "document"
  denyUnknown obj ["version", "network", "signers", "rules", "recovery"]
  let version ← asU32 (← reqField obj "version") "version"
  let network ← optional? obj "network" fun v => asStr v "network"
  let signers ← (← asArray (← reqField obj "signers") "signers").mapM signerFromValue
  let rules ← (← asArray (← reqField obj "rules") "rules").mapM ruleFromValue
  let recovery ← optional? obj "recovery" recoveryFromValue
  .ok { version := version, network := network, signers := signers, rules := rules,
        recovery := recovery }

def checkVersionMember (member : String × Json) : Except ParseError Unit :=
  match member with
  | ("version", .number digits true) =>
      match parseUnsigned 18446744073709551616 digits with
      | some version => if version ≠ 1 then .error (.unsupportedVersion version) else .ok ()
      | none => .ok ()
  | _ => .ok ()

/-- A numeric version other than 1 wins over every other fault. -/
def checkVersion : Json → Except ParseError Unit
  | .object members => members.forM checkVersionMember
  | _ => .ok ()

def fromJson (lexer : JsonLexer) (input : String) : Except ParseError PolicyDoc := do
  let value ← (lexer input).mapError ParseError.json
  checkVersion value
  docFromValue value

end Perch.Ir
