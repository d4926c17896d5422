/-
Semantic validation of parsed policy documents.

Every violation is collected, in the order the checks run, and each names the
signer or rule it concerns.  Address checks cover the strkey's shape and its
CRC16 checksum, so that what passes here can be decoded later.
-/

import Mathlib.Algebra.Ring.Nat
import Perch.Ir.Canon

namespace Perch.Ir

/-- The one acknowledgement a self-authenticating rule may carry. -/
def ackSentinel : String := "this-policy-authenticates-or-anyone-can-fire-this-rule"

def maxSignerKeyLen : Nat := 256

def maxStringPredLen : Nat := 256

inductive ValidationError
  | unsupportedVersion (version : UInt32)
  | emptySignerId (position : Nat)
  | duplicateSignerId (id : String)
  | duplicateSignerKey (id firstId : String)
  | invalidSignerKeyHex (id : String)
  | signerKeyLength (id : String) (len : Nat)
  | invalidVerifierAddress (id address : String)
  | invalidDelegatedAddress (id address : String)
  | emptyRuleName (position : Nat)
  | duplicateRuleName (name : String)
  | invalidContractAddress (rule address : String)
  | emptyPrincipalSigners (rule : String)
  | duplicatePrincipalSigner (rule id : String)
  | unknownSignerRef (rule id : String)
  | invalidThreshold (rule : String) (m n : UInt32)
  | wrongAckSentinel (rule : String)
  | invalidPolicyAddress (rule address : String)
  | invalidInstallParamHex (rule : String)
  | emptyFunctions (rule : String)
  | emptyFunctionName (rule : String)
  | duplicateFunction (rule name : String)
  | invalidFunctionName (rule name : String)
  | emptyArgs (rule : String)
  | duplicateArgIndex (rule : String) (index : UInt32)
  | emptyStringInValues (rule : String) (index : UInt32)
  | duplicateStringInValue (rule : String) (index : UInt32) (value : String)
  | stringPredicateTooLong (rule : String) (index : UInt32) (len : Nat)
  | invalidArgAddress (rule : String) (index : UInt32) (address : String)
  | zeroNotAfterLedger (rule : String)
  | invalidCapLimit (rule limit : String)
  | zeroCapPeriod (rule : String)
  | invalidCapToken (rule address : String)
  | capWithoutToken (rule : String)
  | capTokenMismatch (rule token scope : String)
  | ruleScopedToRecoveryContract (rule address : String)
  | emptyRecoveryReplaceable
  | duplicateRecoveryReplaceable (id : String)
  | unknownRecoveryReplaceableRef (id : String)
  | zeroRecoveryDelayLedgers
  | zeroRecoveryExpiryLedgers
  | zeroRecoveryMaxCancels
  | invalidRecoveryController (address : String)
  | invalidBaselineDocHash (docHash : String)
  | emptyGuardianSet
  | duplicateGuardian (address : String)
  | invalidGuardianAddress (address : String)
  | invalidGuardianQuorum (quorum n : UInt32)
  | invalidRecoveryAdapter (address : String)
  | invalidCircuitId (circuitId : String)
  | invalidEnrollmentId (enrollmentId : String)
  | invalidCommitment (commitment : String)
  | invalidRecoveryPool (address : String)
deriving DecidableEq

def reportIf (fails : Prop) [Decidable fails] (error : ValidationError) : List ValidationError :=
  if fails then [error] else []

def eachSeen {α κ : Type} [DecidableEq κ] (key : α → κ) (report : Bool → α → List ValidationError) :
    List κ → List α → List ValidationError
  | _, [] => []
  | seen, item :: items =>
      report (key item ∈ seen) item ++ eachSeen key report (key item :: seen) items

/-! ### Shapes -/

def isBase32 (b : UInt8) : Bool := (65 ≤ b && b ≤ 90) || (50 ≤ b && b ≤ 55)

def base32Value (b : UInt8) : Nat :=
  if 65 ≤ b ∧ b ≤ 90 then b.toNat - 65 else b.toNat - 50 + 26

/-- The bytes a base32 text decodes to: five bits a letter, most significant
first, what does not fill a byte dropped. -/
def base32Bytes (buf bits : Nat) : Bytes → Bytes
  | [] => []
  | c :: rest =>
      let buf := (buf * 32 + base32Value c) % 4294967296
      if 8 ≤ bits + 5 then
        UInt8.ofNat (buf / 2 ^ (bits + 5 - 8)) :: base32Bytes buf (bits + 5 - 8) rest
      else base32Bytes buf (bits + 5) rest

def crcShift (crc : UInt16) : UInt16 :=
  if crc &&& 0x8000 ≠ 0 then (crc <<< 1) ^^^ 0x1021 else crc <<< 1

/-- CRC16-XModem. -/
def crc16 (data : Bytes) : UInt16 :=
  data.foldl (fun (crc : UInt16) b =>
      Nat.iterate crcShift 8 (crc ^^^ (b.toUInt16 <<< (8 : UInt16)))) 0

/-- The trailing little-endian checksum, over the first 33 of the 35 bytes. -/
def strkeyChecksumOk (bytes : Bytes) : Bool :=
  let data := base32Bytes 0 0 bytes
  bytes.length = 56 && bytes.all isBase32 && data.length = 35 &&
    crc16 (data.take 33) = (data.getD 33 0).toUInt16 + ((data.getD 34 0).toUInt16 <<< 8)

def isStrkeyShape (s : String) (leads : List UInt8) : Bool :=
  let bytes := utf8 s
  bytes.length = 56 && (bytes.headD 0) ∈ leads && bytes.all isBase32 && strkeyChecksumOk bytes

def isContractAddressShape (s : String) : Bool := isStrkeyShape s [67]

def isAddressShape (s : String) : Bool := isStrkeyShape s [67, 71]

def isValidSymbol (s : String) : Bool :=
  let b := utf8 s
  1 ≤ b.length && b.length ≤ 32 && b.all fun c =>
    (97 ≤ c && c ≤ 122) || (65 ≤ c && c ≤ 90) || (48 ≤ c && c ≤ 57) || c = 95

def isSha256Hex (s : String) : Bool :=
  (utf8 s).length = 64 && (utf8 s).all fun b => (48 ≤ b && b ≤ 57) || (97 ≤ b && b ≤ 102)

/-- `str::parse` at `i128`: an optional sign, then decimal digits. -/
def parseI128 (s : String) : Option Int :=
  let (negative, body) := match s.toList with
    | '-' :: rest => (true, rest)
    | '+' :: rest => (false, rest)
    | chars => (false, chars)
  let magnitude := Nat.ofDigitChars 10 body 0
  let value : Int := if negative then -(magnitude : Int) else magnitude
  if body ≠ [] ∧ body.all Char.isDigit ∧
      -170141183460469231731687303715884105728 ≤ value ∧
      value ≤ 170141183460469231731687303715884105727 then some value
  else none

/-! ### Signers -/

structure SeenSigners where
  ids : List String
  /-- Physical keys, each with the first id that used it. -/
  keys : List ((String × Bytes) × String)
  delegated : List (String × String)

section

-- The hex library's decoder.
variable (hexDecode : String → Option Bytes)

def validateMethod (seen : SeenSigners) (id : String) : SignerMethod → List ValidationError
  | .external verifier key =>
      (match hexDecode key with
        | none => [.invalidSignerKeyHex id]
        | some decoded =>
            reportIf (decoded = [] ∨ maxSignerKeyLen < decoded.length)
                (.signerKeyLength id decoded.length) ++
              (match seen.keys.lookup (verifier, decoded) with
                | some firstId => [.duplicateSignerKey id firstId]
                | none => [])) ++
        reportIf (isContractAddressShape verifier = false) (.invalidVerifierAddress id verifier)
  | .delegated address =>
      reportIf (isAddressShape address = false) (.invalidDelegatedAddress id address) ++
        (match seen.delegated.lookup address with
          | some firstId => [.duplicateSignerKey id firstId]
          | none => [])

/-- Empty ids are remembered too: they are reported as empty, never as repeated. -/
def SeenSigners.insert (seen : SeenSigners) (signer : SignerDecl) : SeenSigners :=
  let ids := signer.id :: seen.ids
  match signer.method with
  | .external verifier key =>
      match hexDecode key with
      | none => { seen with ids := ids }
      | some decoded =>
          -- The first id of a key is kept.
          { seen with ids := ids, keys := seen.keys ++ [((verifier, decoded), signer.id)] }
  | .delegated address =>
      { seen with ids := ids, delegated := seen.delegated ++ [(address, signer.id)] }

def validateSigners (position : Nat) (seen : SeenSigners) :
    List SignerDecl → List ValidationError
  | [] => []
  | signer :: rest =>
      (if signer.id = "" then [.emptySignerId position]
        else reportIf (signer.id ∈ seen.ids) (.duplicateSignerId signer.id)) ++
      validateMethod hexDecode seen signer.id signer.method ++
      validateSigners (position + 1) (seen.insert hexDecode signer) rest

/-! ### Rules -/

def validatePrincipalSigners (rule : String) (signers declared : List String) :
    List ValidationError :=
  reportIf (signers = []) (.emptyPrincipalSigners rule) ++
    eachSeen id (fun repeated id =>
      reportIf (repeated = true) (.duplicatePrincipalSigner rule id) ++
        reportIf (id ∉ declared) (.unknownSignerRef rule id)) [] signers

def validateScope (rule : String) : Scope → List ValidationError
  | .contract address =>
      reportIf (isContractAddressShape address = false) (.invalidContractAddress rule address)
  | .selfAdmin => []

def validatePrincipals (rule : String) (declared : List String) :
    Principals → List ValidationError
  | .all signers => validatePrincipalSigners rule signers declared
  | .threshold signers m =>
      validatePrincipalSigners rule signers declared ++
        reportIf (m = 0 ∨ signers.length < m.toNat)
          (.invalidThreshold rule m (UInt32.ofNat signers.length))
  | .selfAuthenticating policy installParamHex ack =>
      reportIf (ack ≠ ackSentinel) (.wrongAckSentinel rule) ++
        reportIf (isContractAddressShape policy = false) (.invalidPolicyAddress rule policy) ++
        reportIf (hexDecode installParamHex = none) (.invalidInstallParamHex rule)

def validateFunctions (rule : String) (functions : List String) : List ValidationError :=
  reportIf (functions = []) (.emptyFunctions rule) ++
    eachSeen id (fun repeated func =>
      (if func = "" then [.emptyFunctionName rule]
        else reportIf (isValidSymbol func = false) (.invalidFunctionName rule func)) ++
      reportIf (repeated = true) (.duplicateFunction rule func)) [] functions

def validatePred (rule : String) (index : UInt32) : ArgPred → List ValidationError
  | .stringIn values =>
      reportIf (values = []) (.emptyStringInValues rule index) ++
        eachSeen id (fun repeated value =>
          reportIf (repeated = true) (.duplicateStringInValue rule index value)) [] values
  | .stringPrefix initial =>
      reportIf (maxStringPredLen < (utf8 initial).length)
        (.stringPredicateTooLong rule index (utf8 initial).length)
  | .addressEq address =>
      reportIf (isAddressShape address = false) (.invalidArgAddress rule index address)
  | .isSelf => []
  | .u32Eq _ => []

def validateArgs (rule : String) (args : List ArgConstraint) : List ValidationError :=
  reportIf (args = []) (.emptyArgs rule) ++
    eachSeen ArgConstraint.index (fun repeated constraint =>
      reportIf (repeated = true) (.duplicateArgIndex rule constraint.index) ++
        validatePred rule constraint.index constraint.pred) [] args

def validateCapScope (rule : String) (scope : Scope) (token : Option String) :
    List ValidationError :=
  match scope, token with
  | .selfAdmin, _ => [.capWithoutToken rule]
  | .contract _, none => []
  | .contract address, some token =>
      if isContractAddressShape token = false then [.invalidCapToken rule token]
      else reportIf (token ≠ address) (.capTokenMismatch rule token address)

def validateCap (rule : String) (scope : Scope) (cap : CapConstraint) : List ValidationError :=
  reportIf ((parseI128 cap.limit).all (fun limit => limit ≤ 0) = true)
      (.invalidCapLimit rule cap.limit) ++
    reportIf (cap.periodLedgers = 0) (.zeroCapPeriod rule) ++
    validateCapScope rule scope cap.token

def validateRule (declared : List String) (rule : Rule) : List ValidationError :=
  validateScope rule.name rule.scope ++
    validatePrincipals hexDecode rule.name declared rule.principals ++
    (rule.functions.map (validateFunctions rule.name)).getD [] ++
    (rule.args.map (validateArgs rule.name)).getD [] ++
    reportIf (rule.notAfterLedger = some 0) (.zeroNotAfterLedger rule.name) ++
    (rule.cap.map (validateCap rule.name rule.scope)).getD []

def validateRules (declared : List String) (position : Nat) (seen : List String) :
    List Rule → List ValidationError
  | [] => []
  | rule :: rest =>
      (if rule.name = "" then [.emptyRuleName position]
        else reportIf (rule.name ∈ seen) (.duplicateRuleName rule.name)) ++
      validateRule hexDecode declared rule ++
      validateRules declared (position + 1) (rule.name :: seen) rest

/-! ### Recovery -/

def RecoveryMode.zk : RecoveryMode → Option ZkFactor
  | .guardianOnly _ => none
  | .zkOnly z => some z
  | .combined _ z => some z

def validateRulesAvoidZkContracts (doc : PolicyDoc) (r : RecoveryConfig) : List ValidationError :=
  match r.mode.zk with
  | none => []
  | some zk => doc.rules.flatMap fun rule =>
      match rule.scope with
      | .contract address =>
          reportIf (address = zk.adapter ∨ address = zk.pool)
            (.ruleScopedToRecoveryContract rule.name address)
      | .selfAdmin => []

def validateGuardianSet (g : GuardianSet) : List ValidationError :=
  reportIf (g.guardians = []) .emptyGuardianSet ++
    eachSeen id (fun repeated address =>
      reportIf (repeated = true) (.duplicateGuardian address) ++
        reportIf (isAddressShape address = false) (.invalidGuardianAddress address)) []
      g.guardians ++
    reportIf (g.quorum = 0 ∨ g.guardians.length < g.quorum.toNat)
      (.invalidGuardianQuorum g.quorum (UInt32.ofNat g.guardians.length))

/-- Fixed-width lowercase hex compares in the same order as the number. -/
def bn254ScalarModulusHex : String :=
  "30644e72e131a029b85045b68181585d2833e84879b9709143e1f593f0000001"

def validateZkFactor (z : ZkFactor) : List ValidationError :=
  reportIf (isContractAddressShape z.adapter = false) (.invalidRecoveryAdapter z.adapter) ++
    reportIf (isSha256Hex z.circuitId = false) (.invalidCircuitId z.circuitId) ++
    reportIf (isContractAddressShape z.pool = false) (.invalidRecoveryPool z.pool) ++
    reportIf (isSha256Hex z.enrollmentId = false) (.invalidEnrollmentId z.enrollmentId) ++
    reportIf (isSha256Hex z.commitment = false ∨ utf8 bn254ScalarModulusHex ≤ utf8 z.commitment)
      (.invalidCommitment z.commitment)

def validateMode : RecoveryMode → List ValidationError
  | .guardianOnly g => validateGuardianSet g
  | .zkOnly z => validateZkFactor z
  | .combined g z => validateGuardianSet g ++ validateZkFactor z

def validateRecovery (declared : List String) (r : RecoveryConfig) : List ValidationError :=
  reportIf (r.replaceable = []) .emptyRecoveryReplaceable ++
    eachSeen id (fun repeated id =>
      reportIf (repeated = true) (.duplicateRecoveryReplaceable id) ++
        reportIf (id ∉ declared) (.unknownRecoveryReplaceableRef id)) [] r.replaceable ++
    reportIf (r.delayLedgers = 0) .zeroRecoveryDelayLedgers ++
    reportIf (r.expiryLedgers = 0) .zeroRecoveryExpiryLedgers ++
    reportIf (r.maxCancels = 0) .zeroRecoveryMaxCancels ++
    reportIf (isContractAddressShape r.controller = false)
      (.invalidRecoveryController r.controller) ++
    (r.baseline.map fun b =>
      reportIf (isSha256Hex b.docHash = false) (.invalidBaselineDocHash b.docHash)).getD [] ++
    validateMode r.mode

/-! ### Documents -/

def violations (doc : PolicyDoc) : List ValidationError :=
  reportIf (doc.version ≠ 1) (.unsupportedVersion doc.version) ++
    validateSigners hexDecode 0 ⟨[], [], []⟩ doc.signers ++
    validateRules hexDecode (doc.signers.map SignerDecl.id) 0 [] doc.rules ++
    (doc.recovery.map fun r =>
      validateRecovery (doc.signers.map SignerDecl.id) r ++
        validateRulesAvoidZkContracts doc r).getD []

def validate (doc : PolicyDoc) : Except (List ValidationError) Unit :=
  if violations hexDecode doc = [] then .ok () else .error (violations hexDecode doc)

end

end Perch.Ir
