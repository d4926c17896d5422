/-
The document compiler: a document's bytes in, compiled rules and the canonical
identity out.

The contract is stateless.  It parses, validates, binds the network, checks
the caps, lowers, and fingerprints, and refuses at the first step that fails.
The JSON and hex libraries, the host's address conversions, and the verifiers
that canonicalize keys are other code, and stay parameters.
-/

import Perch.Compile.Lower
import Perch.Document.Compiled
import Perch.Ir.Derive
import Perch.Ir.Parse
import Perch.Machine.Utf8
import Perch.Recovery.Credential

namespace Perch.Document

open Machine Recovery

def maxDocSigners : Nat := 8

def maxDocRules : Nat := 11

def maxDocCanonicalBytes : Nat := 8192

def maxRuleNameBytes : Nat := 20

inductive DocCompilerError
  | docNotUtf8
  | docParse
  | docInvalid
  | wrongNetwork
  | docCompile
  | docTooLarge
  | keyNotCanonicalizable
  | notEnrolled
  | replacementRefused
  | zkEnrollmentMismatch
  | adminLockout
deriving DecidableEq

inductive DocFailure
  | refused (error : DocCompilerError)
  | trapped
deriving DecidableEq

/-- The chain, the host conversions, the libraries, and the verifiers a
compiler runs with.  The same call always gets the same answer. -/
structure CompilerHost where
  sha256 : Sha256
  networkId : Bytes32
  lexer : Ir.JsonLexer
  hexDecode : String → Option Bytes
  hexEncode : Bytes → String
  addressFromStr : String → Option Address
  addressToString : Address → SString
  /-- A verifier's `batch_canonicalize_key`; absent when the call fails. -/
  canonicalizeKeys : Address → List Bytes → Option (List Bytes)

section

variable (host : CompilerHost)

def CompilerHost.lowerHost : Compile.LowerHost :=
  { sha256 := host.sha256, addressFromStr := host.addressFromStr }

/-! ### Conversions -/

def addressFromStr (address : String) : Except DocFailure Address :=
  orFail (host.addressFromStr address) .trapped

def hexNibble (c : UInt8) : Option UInt8 :=
  if 48 ≤ c ∧ c ≤ 57 then some (c - 48)
  else if 97 ≤ c ∧ c ≤ 102 then some (c - 97 + 10)
  else if 65 ≤ c ∧ c ≤ 70 then some (c - 65 + 10)
  else none

def hexPairs : Bytes → Option Bytes
  | [] => some []
  | [_] => none
  | high :: low :: rest => do
      let high ← hexNibble high
      let low ← hexNibble low
      let tail ← hexPairs rest
      some ((high * 16 + low) :: tail)

def hexBytes (s : String) : Except DocFailure Bytes :=
  orFail (hexPairs (Ir.utf8 s)) (.refused .docInvalid)

def hexBytes32 (s : String) : Except DocFailure Bytes32 := do
  require ((Ir.utf8 s).length = 64) (.refused .docInvalid)
  let bytes ← hexBytes s
  if size : bytes.length = 32 then .ok ⟨bytes, size⟩ else .error (.refused .docInvalid)

def configDomain : Bytes := "perch/recovery/config".toUTF8.data.toList

/-- `sha256(CONFIG_DOMAIN || canonical_recovery_json)`. -/
def configHash (sha256 : Sha256) (canonicalRecoveryJson : Bytes) : Bytes32 :=
  sha256 (configDomain ++ canonicalRecoveryJson)

/-! ### The recovery member -/

def toCompiledGuardianSet (g : Ir.GuardianSet) : Except DocFailure CompiledGuardianSet := do
  let guardians ← g.guardians.mapM (addressFromStr host)
  pure { guardians := guardians, quorum := g.quorum }

def toCompiledZk (z : Ir.ZkFactor) : Except DocFailure CompiledZkFactor := do
  let adapter ← addressFromStr host z.adapter
  let circuitId ← hexBytes32 z.circuitId
  let pool ← addressFromStr host z.pool
  let enrollmentId ← hexBytes32 z.enrollmentId
  let commitment ← hexBytes32 z.commitment
  pure
    { adapter := adapter
      circuitId := circuitId
      pool := pool
      enrollmentId := enrollmentId
      commitment := commitment }

def toCompiledMode : Ir.RecoveryMode → Except DocFailure CompiledRecoveryMode
  | .guardianOnly g => do pure (.guardianOnly (← toCompiledGuardianSet host g))
  | .zkOnly z => do pure (.zkOnly (← toCompiledZk host z))
  | .combined g z => do
      let guardians ← toCompiledGuardianSet host g
      let zk ← toCompiledZk host z
      pure (.combined guardians zk)

def toCompiledProfile : Ir.RecoveryProfile → RecoveryProfile
  | .loss => .loss
  | .protectedProfile => .protectedProfile

def toCompiledRecovery (r : Ir.RecoveryConfig) : Except DocFailure CompiledRecoveryConfig := do
  let mode ← toCompiledMode host r.mode
  let baseline ← r.baseline.mapM fun b => hexBytes32 b.docHash
  let controller ← addressFromStr host r.controller
  pure
    { configHash := configHash host.sha256 (Ir.utf8 (Ir.recoveryCanonicalJson r))
      profile := toCompiledProfile r.profile
      mode := mode
      controller := controller
      baseline := baseline
      replaceable := r.replaceable.map Ir.utf8
      delayLedgers := r.delayLedgers
      expiryLedgers := r.expiryLedgers
      maxCancels := r.maxCancels }

/-! ### Rules -/

def toSigner : Compile.SignerSpec → Except DocFailure Signer
  | .delegated address => do pure (.delegated (← addressFromStr host address))
  | .external verifier keyHex => do
      let verifier ← addressFromStr host verifier
      let key ← hexBytes keyHex
      pure (.external verifier key)

def toRuleScope : Compile.ScopeSpec → Except DocFailure RuleScope
  | .selfAdmin => pure .selfAdmin
  | .contract address => do pure (.contract (← addressFromStr host address))

def toCompiled (rule : Compile.LoweredRule) : Except DocFailure CompiledRule := do
  let scope ← toRuleScope host rule.scope
  let signers ← rule.signers.mapM (toSigner host)
  pure
    { name := Ir.utf8 rule.name
      scope := scope
      signers := signers
      validUntil := rule.validUntil
      install := rule.install.toList
      cap := rule.cap.toList.map fun cap =>
        { spendingLimit := cap.limit, periodLedgers := cap.periodLedgers } }

/-! ### Credentials -/

/-- External keys by verifier, and where each signer's key went. -/
structure Batches where
  verifiers : List Address
  keys : Address → List Bytes
  slots : List (Address × Option Nat)

def Batches.empty : Batches := { verifiers := [], keys := fun _ => [], slots := [] }

def Batches.add (batches : Batches) (s : Ir.SignerDecl) : Except DocFailure Batches :=
  match s.method with
  | .delegated address => do
      let address ← addressFromStr host address
      pure { batches with slots := batches.slots ++ [(address, none)] }
  | .external verifier key => do
      let verifier ← addressFromStr host verifier
      let key ← hexBytes key
      let batch := batches.keys verifier
      pure
        { verifiers :=
            if verifier ∈ batches.verifiers then batches.verifiers
            else batches.verifiers ++ [verifier]
          keys := Function.update batches.keys verifier (batch ++ [key])
          slots := batches.slots ++ [(verifier, some batch.length)] }

/-- A verifier's keys, which must be canonical as declared. -/
def canonicalBatch (batches : Batches) (verifier : Address) : Except DocFailure Unit := do
  let keys ← orFail (host.canonicalizeKeys verifier (batches.keys verifier))
    (.refused .keyNotCanonicalizable)
  require (keys = batches.keys verifier) (.refused .keyNotCanonicalizable)

def slotCredential (batches : Batches) : Address × Option Nat → Except DocFailure Credential
  | (address, none) => pure (.delegated address)
  | (verifier, some i) => do
      let key ← orFail ((batches.keys verifier)[i]?) (.refused .keyNotCanonicalizable)
      pure (.external verifier key)

/-- The credentials signers declare.  A key its verifier would respell is
refused, so the keys returned are the keys declared. -/
def canonicalCredentials (signers : List Ir.SignerDecl) : Except DocFailure (List Credential) := do
  let batches ← signers.foldlM (Batches.add host) Batches.empty
  batches.verifiers.forM (canonicalBatch host batches)
  batches.slots.mapM (slotCredential batches)

def fingerprints (credentials : List Credential) : Except DocFailure (List Bytes32) :=
  credentials.mapM fun c =>
    (c.fingerprint host.sha256).mapError fun _ => .refused .docInvalid

/-! ### Compiling -/

/-- Bytes as a document, fail closed. -/
def parse (docJson : Bytes) : Except DocFailure Ir.PolicyDoc := do
  let json ← orFail (Utf8.decode docJson) (.refused .docNotUtf8)
  (Ir.fromJson host.lexer json).mapError fun _ => .refused .docParse

def lowerFailure : Compile.LowerError → DocFailure
  | .trapped => .trapped
  | _ => .refused .docCompile

/-- The wasm hash of the plan is metadata for off-chain plans. -/
def unpinned : Bytes32 := BytesN.fill 0

def compileParsed (doc : Ir.PolicyDoc) : Except DocFailure CompiledDoc := do
  (Ir.validate host.hexDecode doc).mapError fun _ => .refused .docInvalid
  let network ← orFail doc.network (.refused .wrongNetwork)
  require (host.sha256 (Ir.utf8 network) = host.networkId) (.refused .wrongNetwork)
  require (¬(maxDocSigners < doc.signers.length ∨ maxDocRules < doc.rules.length ∨
      doc.rules.any (fun r => maxRuleNameBytes < (Ir.utf8 r.name).length) = true))
    (.refused .docTooLarge)
  let plan ← (Compile.compile host.lowerHost doc unpinned).mapError lowerFailure
  let rules ← plan.rules.mapM (toCompiled host)
  let canonical := Ir.utf8 (Ir.canonicalJson doc)
  require (canonical.length ≤ maxDocCanonicalBytes) (.refused .docTooLarge)
  let recovery ← doc.recovery.toList.mapM (toCompiledRecovery host)
  let credentials ← canonicalCredentials host doc.signers
  let fingerprints ← fingerprints host credentials
  pure
    { docHash := host.sha256 canonical
      canonical := canonical
      fingerprints := fingerprints
      rules := rules
      recovery := recovery }

def compileDoc (docJson : Bytes) : Except DocFailure CompiledDoc := do
  compileParsed host (← parse host docJson)

/-! ### Deriving a recovery target -/

def toSignerMethod : Credential → Ir.SignerMethod
  | .delegated address => .delegated (Utf8.lossy (host.addressToString address))
  | .external verifier key =>
      .external (Utf8.lossy (host.addressToString verifier)) (host.hexEncode key)

def toReplacement (r : Replacement) : Ir.Replacement :=
  { signerId := Utf8.lossy r.signerId, method := toSignerMethod host r.credential }

def toRotation (enrollment : ZkEnrollment) : Ir.ZkRotation :=
  { enrollmentId := host.hexEncode enrollment.id.bytes
    commitment := host.hexEncode enrollment.commitment.bytes }

def deriveAction : RecoveryAction → Except DocFailure Ir.DeriveAction
  | .lostKey => pure .lostKey
  | .compromise => pure .compromise
  | _ => .error (.refused .replacementRefused)

def deriveFailure : Ir.DeriveError → DocFailure
  | .notEnrolled => .refused .notEnrolled
  | .zkEnrollmentMismatch => .refused .zkEnrollmentMismatch
  | _ => .refused .replacementRefused

def rotationOf : List ZkEnrollment → Except DocFailure (Option Ir.ZkRotation)
  | [] => pure none
  | [enrollment] => pure (some (toRotation host enrollment))
  | _ => .error (.refused .zkEnrollmentMismatch)

def deriveTarget (sourceJson currentJson : Bytes) (action : RecoveryAction)
    (replacements : ReplacementSet) : Except DocFailure DerivedTarget := do
  let action ← deriveAction action
  let source ← parse host sourceJson
  let current ← parse host currentJson
  let declared := replacements.signers.map (toReplacement host)
  let rotation ← rotationOf host replacements.zkEnrollment
  let target ← (Ir.deriveTarget source current action declared rotation).mapError deriveFailure
  let compiled ← compileParsed host target
  require (adminSurvives compiled.rules = true) (.refused .adminLockout)
  let replacedSlots := source.signers.filter fun s =>
    declared.any fun r => r.signerId = s.id
  let recovery ← orFail compiled.recovery.head? (.refused .notEnrolled)
  let replaced ← canonicalCredentials host replacedSlots
  pure
    { canonical := compiled.canonical
      docHash := compiled.docHash
      configHash := recovery.configHash
      fingerprints := compiled.fingerprints
      replaced := replaced }

end

end Perch.Document
