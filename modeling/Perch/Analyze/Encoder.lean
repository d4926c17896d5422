/-
The analyzer: what it asks an SMT solver about a document's rules.

A rule is encoded as a formula over one symbolic invocation.  Who signs is
encoded only as how many did; expiry and caps are compared outside the
formula.  The solver is another program, and stays a parameter.
-/

import Perch.Ir.Validate
import Perch.Machine.Smt

namespace Perch.Analyze

open Machine Ir

/-! ### The symbolic invocation -/

inductive BoolVar
  | ctxContract
deriving DecidableEq

inductive IntVar
  | signerCount
  | argCount
  | argType (index : UInt32)
  | argAddr (index : UInt32)
  | argU32 (index : UInt32)
deriving DecidableEq

inductive StrVar
  | fnName
  | argStr (index : UInt32)
deriving DecidableEq

abbrev Formula := Smt.Formula BoolVar IntVar StrVar

abbrev Script := Smt.Script BoolVar IntVar StrVar

abbrev Assignment := Smt.Assignment BoolVar IntVar StrVar

def maxStrArgLen : Nat := 256

def tAddr : Int := 0

def tU32 : Int := 1

def tStr : Int := 2

/-- Anything no predicate can decode. -/
def tOther : Int := 3

/-! ### Encoding -/

/-- The addresses interned so far, oldest first, and the argument indexes the
encoded predicates inspect. -/
structure Encoder where
  addresses : List String
  argIndexes : List UInt32
deriving DecidableEq

def Encoder.new : Encoder := { addresses := [], argIndexes := [] }

/-- An address' id is its place among the interned ones, from 1; 0 is the
account's own. -/
def Encoder.addrId (enc : Encoder) (address : String) : Nat × Encoder :=
  if address ∈ enc.addresses then (enc.addresses.idxOf address + 1, enc)
  else (enc.addresses.length + 1, { enc with addresses := enc.addresses ++ [address] })

def Encoder.inspect (enc : Encoder) (index : UInt32) : Encoder :=
  if index ∈ enc.argIndexes then enc
  else { enc with argIndexes := enc.argIndexes ++ [index] }

def smtString (s : String) : String := Smt.quoted s

def typeIs (index : UInt32) (tag : Int) : Formula :=
  .intEq (.var (.argType index)) (.num tag)

def argStrIs (index : UInt32) (value : String) : Formula :=
  .strEq (.var (.argStr index)) (.lit (smtString value))

/-- Candidates too long for the chain are dropped, as its comparison skips them. -/
def stringInHolds (index : UInt32) (values : List String) : Formula :=
  Smt.conjunction
    [typeIs index tStr,
     .le (.strLen (.var (.argStr index))) (.num maxStrArgLen),
     Smt.disjunction ((values.filter fun v => (utf8 v).length ≤ maxStrArgLen).map
       (argStrIs index))]

def stringPrefixHolds (index : UInt32) (initial : String) : Formula :=
  if maxStrArgLen < (utf8 initial).length then .const false
  else .and (typeIs index tStr) (.prefixOf (.lit (smtString initial)) (.var (.argStr index)))

def addrHolds (index : UInt32) (id : Nat) : Formula :=
  .and (typeIs index tAddr) (.intEq (.var (.argAddr index)) (.num id))

def Encoder.predHolds (enc : Encoder) (index : UInt32) (pred : ArgPred) : Formula × Encoder :=
  let enc := enc.inspect index
  let present : Formula := .lt (.num index.toNat) (.var .argCount)
  match pred with
  | .isSelf => (.and present (addrHolds index 0), enc)
  | .addressEq address =>
      let (id, enc) := enc.addrId address
      (.and present (addrHolds index id), enc)
  | .u32Eq value =>
      (.and present (.and (typeIs index tU32)
        (.intEq (.var (.argU32 index)) (.num value.toNat))), enc)
  | .stringIn values => (.and present (stringInHolds index values), enc)
  | .stringPrefix initial => (.and present (stringPrefixHolds index initial), enc)

/-- The argument predicates in order, each on a contract call. -/
def Encoder.argsHold (enc : Encoder) : List ArgConstraint → List Formula × Encoder
  | [] => ([], enc)
  | constraint :: rest =>
      let (holds, enc) := enc.predHolds constraint.index constraint.pred
      let (more, enc) := enc.argsHold rest
      (.var .ctxContract :: holds :: more, enc)

def signerFloor : Principals → Nat
  | .all signers => max signers.length 1
  | .threshold _ m => max m.toNat 1
  | .selfAuthenticating _ _ _ => 1

def functionsHold : Option (List String) → List Formula
  | none => []
  | some names =>
      [.var .ctxContract,
       Smt.disjunction (names.map fun name => .strEq (.var .fnName) (.lit (smtString name)))]

/-- A rule's program allows the symbolic invocation: the signer floor is met,
the function is listed, and every argument predicate holds. -/
def Encoder.ruleAllows (enc : Encoder) (rule : Rule) : Formula × Encoder :=
  let (args, enc) := enc.argsHold (rule.args.getD [])
  (Smt.conjunction
    -- `(>= a b)` is `(<= b a)`.
    (.le (.num (signerFloor rule.principals)) (.var .signerCount) ::
      (functionsHold rule.functions ++ args)), enc)

/-- What is asserted of the symbolic invocation itself. -/
def Encoder.declarations (enc : Encoder) : Script :=
  [.le (.num 0) (.var .signerCount), .le (.num 0) (.var .argCount)] ++
    enc.argIndexes.flatMap fun index =>
      [.and (.le (.num 0) (.var (.argType index))) (.le (.var (.argType index)) (.num tOther)),
       .and (.le (.num 0) (.var (.argU32 index))) (.le (.var (.argU32 index)) (.num 4294967295))]

/-! ### Queries -/

structure RuleLiveness where
  rule : String
  verdict : Smt.Verdict
deriving DecidableEq

structure OnlyCallsViolation where
  rule : String
  verdict : Smt.Verdict
deriving DecidableEq

section Queries

variable (runZ3 : Script → Smt.Verdict)

def livenessScript (rule : Rule) : Script :=
  let (allow, enc) := Encoder.new.ruleAllows rule
  enc.declarations ++ [allow]

def deadRules (doc : PolicyDoc) : List RuleLiveness :=
  doc.rules.map fun rule => { rule := rule.name, verdict := runZ3 (livenessScript rule) }

/-- The rule allows a call of none of the functions. -/
def outsideScript (rule : Rule) (allowed : List String) : Script :=
  let (allow, enc) := Encoder.new.ruleAllows rule
  enc.declarations ++ [allow, .var .ctxContract,
    Smt.conjunction (allowed.map fun f => .not (.strEq (.var .fnName) (.lit (smtString f))))]

def onlyCalls (doc : PolicyDoc) (contract : String) (allowed : List String) :
    List OnlyCallsViolation :=
  doc.rules.flatMap fun rule =>
    if rule.scope = .contract contract then
      match runZ3 (outsideScript rule allowed) with
      | .unsat => []
      | verdict => [{ rule := rule.name, verdict := verdict }]
    else []

end Queries

/-! ### Narrowing -/

/-- One way a child document widens, or fails to provably narrow, its parent. -/
inductive WideningFinding
  | addedRule (rule : String)
  | scopeChanged (rule : String)
  | semanticWidening (rule : String) (verdict : Smt.Verdict)
  | expiryExtended (rule : String)
  | capLoosened (rule : String)
  | undecided (rule : String) (verdict : Smt.Verdict)
deriving DecidableEq

section Narrows

variable (runZ3 : Script → Smt.Verdict)

def wideningScript (parent child : Rule) : Script :=
  let (childAllow, enc) := Encoder.new.ruleAllows child
  let (parentAllow, enc) := enc.ruleAllows parent
  enc.declarations ++ [childAllow, .not parentAllow]

def semanticFindings (parent child : Rule) : List WideningFinding :=
  match runZ3 (wideningScript parent child) with
  | .unsat => []
  | .sat witness => [.semanticWidening child.name (.sat witness)]
  | .unknown output => [.undecided child.name (.unknown output)]

def expiryExtended (parent child : Option UInt32) : Bool :=
  match parent, child with
  | some _, none => true
  | some p, some c => p < c
  | none, _ => false

/-- A limit that does not parse counts as the largest. -/
def capLimit (cap : CapConstraint) : Int :=
  (parseI128 cap.limit).getD 170141183460469231731687303715884105727

def capLoosened (parent child : Option CapConstraint) : Bool :=
  match parent, child with
  | some _, none => true
  | some p, some c =>
      p.token ≠ c.token || capLimit p < capLimit c || c.periodLedgers < p.periodLedgers
  | none, _ => false

def ruleFindings (parent : PolicyDoc) (child : Rule) : List WideningFinding :=
  match parent.rules.find? fun r => r.name = child.name with
  | none => [.addedRule child.name]
  | some p =>
      if p.scope ≠ child.scope then [.scopeChanged child.name]
      else
        semanticFindings runZ3 p child ++
          (if expiryExtended p.notAfterLedger child.notAfterLedger then
            [.expiryExtended child.name] else []) ++
          (if capLoosened p.cap child.cap then [.capLoosened child.name] else [])

/-- Every finding is a reason the child does not purely narrow the parent. -/
def narrows (parent child : PolicyDoc) : List WideningFinding :=
  child.rules.flatMap (ruleFindings runZ3 parent)

end Narrows

end Perch.Analyze
