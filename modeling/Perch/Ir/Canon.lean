/-
The canonical form of a policy document: the bytes its identity hashes.

A document is walked into a small value of strings, `u32`s, arrays, and
objects, and one emitter writes it: members in the order of their keys' UTF-16
code units, no whitespace, plain decimals, minimal string escapes.  Absent
members are left out, so the canonical form never holds a `null`.
-/

import Mathlib.Data.List.Lex
import Mathlib.Data.List.Sort
import Perch.Ir.Syntax
import Perch.Machine.Json

namespace Perch.Ir

open Machine

/-! ### Canonical values -/

inductive Cv
  | str (value : String)
  | u32 (value : UInt32)
  | arr (items : List Cv)
  /-- Members in source order; the emitter sorts them. -/
  | obj (entries : List (String × Cv))

def Cv.strs (values : List String) : Cv := .arr (values.map .str)

def optional {α : Type} (key : String) (value : α → Cv) (field : Option α) : List (String × Cv) :=
  (field.map fun present => (key, value present)).toList

/-! ### Documents as canonical values -/

def signerToCv (s : SignerDecl) : Cv :=
  match s.method with
  | .external verifier key =>
      .obj [("id", .str s.id), ("verifier", .str verifier), ("key", .str key)]
  | .delegated address => .obj [("id", .str s.id), ("address", .str address)]

def scopeToCv : Scope → Cv
  | .contract address => .obj [("type", .str "contract"), ("address", .str address)]
  | .selfAdmin => .obj [("type", .str "self-admin")]

def principalsToCv : Principals → Cv
  | .all signers => .obj [("type", .str "all"), ("signers", .strs signers)]
  | .threshold signers m =>
      .obj [("type", .str "threshold"), ("signers", .strs signers), ("m", .u32 m)]
  | .selfAuthenticating policy installParamHex ack =>
      .obj [("type", .str "self-authenticating"), ("policy", .str policy),
        ("install-param-hex", .str installParamHex), ("ack", .str ack)]

def predToCv : ArgPred → Cv
  | .isSelf => .obj [("type", .str "is-self")]
  | .addressEq address => .obj [("type", .str "address-eq"), ("address", .str address)]
  | .stringIn values => .obj [("type", .str "string-in"), ("values", .strs values)]
  | .stringPrefix initial => .obj [("type", .str "string-prefix"), ("prefix", .str initial)]
  | .u32Eq value => .obj [("type", .str "u32-eq"), ("value", .u32 value)]

def argConstraintToCv (a : ArgConstraint) : Cv :=
  .obj [("index", .u32 a.index), ("pred", predToCv a.pred)]

def capToCv (cap : CapConstraint) : Cv :=
  .obj (optional "token" .str cap.token ++
    [("limit", .str cap.limit), ("period-ledgers", .u32 cap.periodLedgers)])

def ruleToCv (r : Rule) : Cv :=
  .obj ([("name", .str r.name), ("scope", scopeToCv r.scope),
      ("principals", principalsToCv r.principals)] ++
    optional "functions" .strs r.functions ++
    optional "args" (fun args => .arr (args.map argConstraintToCv)) r.args ++
    optional "not-after-ledger" .u32 r.notAfterLedger ++
    optional "cap" capToCv r.cap)

def recoveryProfileStr : RecoveryProfile → String
  | .loss => "loss"
  | .protectedProfile => "protected"

def guardianFields (g : GuardianSet) : List (String × Cv) :=
  [("guardians", .strs g.guardians), ("quorum", .u32 g.quorum)]

def zkFields (z : ZkFactor) : List (String × Cv) :=
  [("adapter", .str z.adapter), ("circuit-id", .str z.circuitId), ("pool", .str z.pool),
    ("enrollment-id", .str z.enrollmentId), ("commitment", .str z.commitment)]

def recoveryModeToCv : RecoveryMode → Cv
  | .guardianOnly g => .obj (("type", .str "guardian-only") :: guardianFields g)
  | .zkOnly z => .obj (("type", .str "zk-only") :: zkFields z)
  | .combined g z => .obj (("type", .str "combined") :: (guardianFields g ++ zkFields z))

def baselineToCv (b : BaselineCommitment) : Cv := .obj [("doc-hash", .str b.docHash)]

def recoveryToCv (r : RecoveryConfig) : Cv :=
  .obj ([("profile", .str (recoveryProfileStr r.profile)), ("mode", recoveryModeToCv r.mode),
      ("controller", .str r.controller)] ++
    optional "baseline" baselineToCv r.baseline ++
    [("replaceable", .strs r.replaceable), ("delay-ledgers", .u32 r.delayLedgers),
      ("expiry-ledgers", .u32 r.expiryLedgers), ("max-cancels", .u32 r.maxCancels)])

def docToCv (doc : PolicyDoc) : Cv :=
  .obj ([("version", .u32 doc.version)] ++
    optional "network" .str doc.network ++
    [("signers", .arr (doc.signers.map signerToCv)), ("rules", .arr (doc.rules.map ruleToCv))] ++
    optional "recovery" recoveryToCv doc.recovery)

/-! ### Canonical values as text -/

def encodeUtf16 (s : String) : List Nat :=
  s.toList.flatMap fun c =>
    let code := c.toNat
    if code < 0x10000 then [code]
    else [0xD800 + (code - 0x10000) / 0x400, 0xDC00 + (code - 0x10000) % 0x400]

/-- Members in the order of their keys' UTF-16 code units. -/
def sortKeys {α : Type} (entries : List (String × α)) : List (String × α) :=
  entries.insertionSort fun a b => encodeUtf16 a.1 ≤ encodeUtf16 b.1

def hexDigit (n : Nat) : Char := "0123456789abcdef".toList.getD n '0'

def escapeChar (c : Char) : List Char :=
  if c = '"' then ['\\', '"']
  else if c = '\\' then ['\\', '\\']
  else if c = '\x08' then ['\\', 'b']
  else if c = '\t' then ['\\', 't']
  else if c = '\n' then ['\\', 'n']
  else if c = '\x0c' then ['\\', 'f']
  else if c = '\r' then ['\\', 'r']
  else if c.toNat < 0x20 then
    ['\\', 'u', '0', '0', hexDigit (c.toNat / 16 % 16), hexDigit (c.toNat % 16)]
  else [c]

def writeJsonString (s : String) : List Char :=
  '"' :: (s.toList.flatMap escapeChar ++ ['"'])

mutual

def writeValue : Cv → List Char
  | .str s => writeJsonString s
  | .u32 n => Nat.toDigits 10 n.toNat
  | .arr items => '[' :: (Json.joined (writeItems items) ++ [']'])
  | .obj entries =>
      '{' :: (Json.joined ((sortKeys (writeEntries entries)).map fun (key, text) =>
        writeJsonString key ++ ':' :: text) ++ ['}'])

def writeItems : List Cv → List (List Char)
  | [] => []
  | item :: items => writeValue item :: writeItems items

def writeEntries : List (String × Cv) → List (String × List Char)
  | [] => []
  | (key, value) :: entries => (key, writeValue value) :: writeEntries entries

end

def canonicalJson (doc : PolicyDoc) : String := String.ofList (writeValue (docToCv doc))

/-- Exactly the bytes the `recovery` member contributes to `canonicalJson`. -/
def recoveryCanonicalJson (r : RecoveryConfig) : String :=
  String.ofList (writeValue (recoveryToCv r))

/-- Exactly the bytes one rule contributes to `canonicalJson`. -/
def ruleCanonicalJson (rule : Rule) : String := String.ofList (writeValue (ruleToCv rule))

def utf8 (s : String) : Bytes := s.toUTF8.data.toList

def ruleHashDomain : Bytes := utf8 "perch/rule"

end Perch.Ir
