/-
The published schema of policy documents.

The schema is a second description of what the parser and the validator
accept, for editors and review tools.  Every limit is taken from its one
declared source.  Titles, descriptions and examples constrain nothing and are
left out.
-/

import Perch.Document.Compiler
import Perch.Machine.JsonSchema

namespace Perch.PerchSchema

open Machine Machine.JsonSchema Document

/-! ### Patterns -/

def contractStrkeyPattern : String := "^C[A-Z2-7]\x7b55\x7d$"

def addressStrkeyPattern : String := "^[CG][A-Z2-7]\x7b55\x7d$"

def sha256HexPattern : String := "^[0-9a-f]\x7b64\x7d$"

/-- Hex of one to `maxSignerKeyLen` whole bytes, in either case. -/
def signerKeyPattern : String :=
  "^([0-9a-fA-F]\x7b2\x7d)\x7b1," ++ toString Ir.maxSignerKeyLen ++ "\x7d$"

def ruleNamePattern : String := "^[\\x00-\\x7F]*$"

def installParamPattern : String := "^([0-9a-fA-F]\x7b2\x7d)*$"

def maxI128 : Nat := 170141183460469231731687303715884105727

/-- A positive integer, with an optional plus and leading zeros, of no more
significant digits than `maxI128` has. -/
def limitPattern : String :=
  "^\\+?0*[1-9][0-9]\x7b0," ++ toString ((toString maxI128).length - 1) ++ "\x7d$"

/-! ### Fields -/

/-- A chain of conditions that bounds one field by how many items a list
field has, for up to `cap` of them. -/
def countBoundChain (listField boundField : String) (cap : Nat) : List Schema :=
  (List.range' 1 cap).map fun (len : Nat) =>
    [.ifThen
      [.required [listField, boundField],
        .properties [(listField, [.minItems len, .maxItems len])] true]
      [.properties [(boundField, [.maximum len])] true]]

def u32Field (least : Nat) : Schema :=
  [.type .integer, .minimum least, .maximum 4294967295]

def contractAddress : Schema := [.type .string, .pattern contractStrkeyPattern]

def address : Schema := [.type .string, .pattern addressStrkeyPattern]

def sha256Hex : Schema := [.type .string, .pattern sha256HexPattern]

def texts (item : Schema) : Schema :=
  [.type .array, .minItems 1, .uniqueItems, .items item]

/-! ### Definitions -/

def externalSigner : Schema :=
  record ["id", "verifier", "key"]
    [("id", [.type .string]), ("verifier", contractAddress),
      ("key", [.type .string, .pattern signerKeyPattern])]

def delegatedSigner : Schema :=
  record ["id", "address"] [("id", [.type .string]), ("address", address)]

def signerDecl : Schema := [.type .object, .oneOf [externalSigner, delegatedSigner]]

def rule : Schema :=
  record ["name", "scope", "principals"]
    [("name", [.type .string, .pattern ruleNamePattern, .maxLength maxRuleNameBytes]),
      ("scope", [.ref "scope"]),
      ("principals", [.ref "principals"]),
      ("functions", texts [.type .string, .minLength 1]),
      ("args", [.type .array, .minItems 1, .items [.ref "argConstraint"]]),
      ("not-after-ledger", u32Field 1),
      ("cap", [.ref "capConstraint"])]

def scope : Schema :=
  [.type .object,
    .oneOf (tagged "type"
      [("contract", ["address"], [("address", contractAddress)]),
        ("self-admin", [], [])])]

def principals : Schema :=
  [.type .object,
    .allOf (countBoundChain "signers" "m" maxDocSigners),
    .oneOf (tagged "type"
      [("all", ["signers"], [("signers", texts [.type .string])]),
        ("threshold", ["signers", "m"],
          [("signers", texts [.type .string]), ("m", u32Field 1)]),
        ("self-authenticating", ["policy", "install-param-hex", "ack"],
          [("policy", contractAddress),
            ("install-param-hex", [.type .string, .pattern installParamPattern]),
            ("ack", [.const (.string Ir.ackSentinel)])])])]

def argConstraint : Schema :=
  record ["index", "pred"] [("index", u32Field 0), ("pred", [.ref "argPred"])]

def argPred : Schema :=
  [.type .object,
    .oneOf (tagged "type"
      [("is-self", [], []),
        ("address-eq", ["address"], [("address", address)]),
        ("string-in", ["values"], [("values", texts [.type .string])]),
        ("string-prefix", ["prefix"], [("prefix", [.type .string])]),
        ("u32-eq", ["value"], [("value", u32Field 0)])])]

def capConstraint : Schema :=
  record ["limit", "period-ledgers"]
    [("token", contractAddress),
      ("limit", [.type .string, .pattern limitPattern]),
      ("period-ledgers", u32Field 1)]

def recoveryConfig : Schema :=
  record ["profile", "mode", "controller", "replaceable", "delay-ledgers", "expiry-ledgers",
      "max-cancels"]
    [("profile", [.enum [.string "loss", .string "protected"]]),
      ("mode", [.ref "recoveryMode"]),
      ("controller", contractAddress),
      ("baseline", [.ref "baselineCommitment"]),
      ("replaceable", texts [.type .string]),
      ("delay-ledgers", u32Field 1),
      ("expiry-ledgers", u32Field 1),
      ("max-cancels", u32Field 1)]

def guardianFields : List (String × Schema) :=
  [("guardians", [.ref "guardians"]), ("quorum", [.ref "quorum"])]

def zkFields : List (String × Schema) :=
  [("adapter", [.ref "zkAdapter"]), ("circuit-id", [.ref "circuitId"]),
    ("pool", [.ref "zkPool"]), ("enrollment-id", [.ref "enrollmentId"]),
    ("commitment", [.ref "commitment"])]

def recoveryMode : Schema :=
  [.type .object,
    .allOf (countBoundChain "guardians" "quorum" maxDocSigners),
    .oneOf (tagged "type"
      [("guardian-only", ["guardians", "quorum"], guardianFields),
        ("zk-only", ["adapter", "circuit-id", "pool", "enrollment-id", "commitment"], zkFields),
        ("combined",
          ["guardians", "quorum", "adapter", "circuit-id", "pool", "enrollment-id", "commitment"],
          guardianFields ++ zkFields)])]

def baselineCommitment : Schema := record ["doc-hash"] [("doc-hash", sha256Hex)]

def policyDefs : List (String × Schema) :=
  [("signerDecl", signerDecl),
    ("rule", rule),
    ("scope", scope),
    ("principals", principals),
    ("argConstraint", argConstraint),
    ("argPred", argPred),
    ("capConstraint", capConstraint),
    ("recoveryConfig", recoveryConfig),
    ("recoveryMode", recoveryMode),
    ("guardians", texts address),
    ("quorum", u32Field 1),
    ("zkAdapter", contractAddress),
    ("zkPool", contractAddress),
    ("circuitId", sha256Hex),
    ("enrollmentId", sha256Hex),
    ("commitment", sha256Hex),
    ("baselineCommitment", baselineCommitment)]

def policySchema : Schema :=
  record ["version", "signers", "rules"]
    [("version", [.const (.number "1" true)]),
      ("network", [.type .string]),
      ("signers", [.type .array, .items [.ref "signerDecl"], .maxItems maxDocSigners]),
      ("rules", [.type .array, .items [.ref "rule"], .maxItems maxDocRules]),
      ("recovery", [.ref "recoveryConfig"])]

end Perch.PerchSchema
