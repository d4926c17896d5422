/-
What a guardian approval is on the wire, and the checks a relay makes on one
without the chain.

The entry is the Stellar library's to decode; what is read from it is here.
An approval authorizes one call of a recovery controller, of one argument:
the digest of the statement it approves.
-/

import Perch.PerchRelay.Statement

namespace Perch.PerchRelay

open Machine Machine.Js

/-! ### The library's types -/

inductive ScVal
  | void
  | u32 (value : UInt32)
  | u64 (value : UInt64)
  | bytes (value : Bytes)
  | symbol (name : String)
  | address (strkey : Text)
  | vec (items : Option (List ScVal))
  | map (entries : List (ScVal × ScVal))
  | other

structure AddressCredentials where
  address : Text
  signatureExpirationLedger : UInt32
  signature : ScVal

inductive Delegate
  | node (address : Text) (signature : ScVal) (nestedDelegates : List Delegate)

inductive Credentials
  | sourceAccount
  | address (credentials : AddressCredentials)
  | addressV2 (credentials : AddressCredentials)
  | addressWithDelegates (credentials : AddressCredentials) (delegates : List Delegate)

structure InvokeContract where
  contractAddress : Text
  functionName : String
  args : List ScVal

inductive AuthorizedFunction
  | contractFn (call : InvokeContract)
  | other

/-- A signed authorization entry.  Of its sub-invocations only their number
is looked at. -/
structure AuthorizationEntry where
  credentials : Credentials
  function : AuthorizedFunction
  subInvocations : Nat

structure Sdk where
  strKey : StrKey
  isValidEd25519PublicKey : Text → Bool
  decodeEntry : Text → Option AuthorizationEntry
  decodeScVal : Text → Option ScVal
  encodeScVal : ScVal → Text
  /-- `Address.fromString`, as a value. -/
  addressValue : Text → Except Text ScVal
  hash : Bytes → Bytes
  /-- What an entry's signer signs, up to an expiration, on a network. -/
  authorizationPreimage : AuthorizationEntry → UInt32 → Text → Bytes
  /-- The signatures a value holds: each one's key and signature, where it has them. -/
  signatures : ScVal → Option (List (Option Bytes × Option Bytes))
  rawPublicKey : Text → Bytes
  verify : Text → Bytes → Bytes → Bool

/-! ### Parsed approvals -/

inductive ApprovalFunction
  | submitGuardian
  | approveChange
deriving DecidableEq

def ApprovalFunction.name : ApprovalFunction → String
  | submitGuardian => "submit_guardian"
  | approveChange => "approve_change"

def approvalFunction (name : String) : Option ApprovalFunction :=
  if name = "submit_guardian" then some .submitGuardian
  else if name = "approve_change" then some .approveChange
  else none

inductive ApprovalCredentials
  | address
  | addressV2
  | addressWithDelegates
deriving DecidableEq

structure ParsedApproval where
  guardian : Text
  function : ApprovalFunction
  digest : Text
  expiresAt : UInt32
  entry : Text
  credentials : ApprovalCredentials
  delegates : List Text
deriving DecidableEq

def unsigned : ScVal → Bool
  | .void => true
  | .vec items => (items.getD []).isEmpty
  | _ => false

mutual

def Delegate.anySigned : Delegate → Bool
  | .node _ signature nested => !unsigned signature || delegatesSigned nested

def delegatesSigned : List Delegate → Bool
  | [] => false
  | delegate :: rest => delegate.anySigned || delegatesSigned rest

end

mutual

def Delegate.addresses : Delegate → List Text
  | .node address _ nested => address :: delegateAddresses nested

def delegateAddresses : List Delegate → List Text
  | [] => []
  | delegate :: rest => delegate.addresses ++ delegateAddresses rest

end

/-- The credentials' kind, the top-level ones, and the delegates. -/
def Credentials.parts : Credentials →
    Option (ApprovalCredentials × AddressCredentials × List Delegate)
  | .sourceAccount => none
  | .address credentials => some (.address, credentials, [])
  | .addressV2 credentials => some (.addressV2, credentials, [])
  | .addressWithDelegates credentials delegates =>
      some (.addressWithDelegates, credentials, delegates)

def refuse {α : Type} (message : String) : Except Failure α := .error (.approval message)

/-- Decode and check a signed approval entry for a controller and a digest. -/
def parseApproval (sdk : Sdk) (entryXdr controller digest : Text) :
    Except Failure ParsedApproval := do
  require (sdk.strKey.isValidContract controller = true) (.approval "bad controller id")
  require (isHex32 digest = true) (.approval "digest must be 64 lowercase hex characters")
  let entry ← orFail (sdk.decodeEntry entryXdr) (.approval "not a SorobanAuthorizationEntry")
  let (credentials, address, delegates) ←
    orFail entry.credentials.parts (.approval "the entry must carry address credentials")
  require ((unsigned address.signature && !delegatesSigned delegates) = false)
    (.approval "the entry is not signed")
  require (entry.subInvocations = 0) (.approval "an approval authorizes exactly one call")
  let call ← match entry.function with
    | .contractFn call => .ok call
    | .other => refuse "the entry does not authorize a contract call"
  require (call.contractAddress = controller) (.approval "the entry authorizes another contract")
  let function ← orFail (approvalFunction call.functionName)
    (.approval ("the entry authorizes " ++ call.functionName ++ ", not a guardian approval"))
  let approved ← match call.args with
    | [.bytes approved] => .ok approved
    | _ => refuse "an approval authorizes exactly the statement digest"
  require (hexText approved = digest) (.approval "the entry approves another statement")
  pure { guardian := address.address, function, digest,
         expiresAt := address.signatureExpirationLedger, entry := entryXdr, credentials,
         delegates := delegateAddresses delegates }

/-- Whether an approval is a `G...` guardian's own signature on a network:
exactly one, by the guardian's key, over the entry's authorization payload. -/
def signedByGuardianKey (sdk : Sdk) (approval : ParsedApproval) (networkPassphrase : Text) : Bool :=
  if sdk.isValidEd25519PublicKey approval.guardian = false ∨
      approval.credentials = .addressWithDelegates then false
  else
    match sdk.decodeEntry approval.entry with
    | none => false
    | some entry =>
        match entry.credentials.parts with
        | none => false
        | some (_, address, _) =>
            let payload := sdk.hash
              (sdk.authorizationPreimage entry address.signatureExpirationLedger networkPassphrase)
            match sdk.signatures address.signature with
            | some [(some publicKey, some signature)] =>
                publicKey = sdk.rawPublicKey approval.guardian &&
                  sdk.verify approval.guardian payload signature
            | _ => false

def fourTexts : Value → Option (List Text)
  | .array [.string a, .string b, .string c, .string d] => some [a, b, c, d]
  | _ => none

def namesGuardian (approval : ParsedApproval) (vals : List ScVal) : Bool :=
  match vals.getLast? with
  | some (.address guardian) => guardian = approval.guardian
  | _ => false

/-- Decode the controller call an approval is for: the first argument is the
account, and the last the entry's guardian. -/
def parseCallArgs (sdk : Sdk) (approval : ParsedApproval) (args : Value) :
    Except Failure (List ScVal) := do
  let texts ← orFail (fourTexts args)
    (.approval (approval.function.name ++ " takes four arguments, base64 ScVal"))
  let vals ← orFail (texts.mapM sdk.decodeScVal) (.approval "an argument is not an ScVal")
  match vals.head? with
  | some (.address _) => .ok ()
  | _ => refuse "the first argument must be the account"
  require (namesGuardian approval vals = true) (.approval "the last argument must be the entry's guardian")
  pure vals

/-! ### The call a statement commits to -/

def setChange : Perch.PerchJs.ConfigChange → ScVal
  | .remove => .vec (some [.symbol "Remove"])
  | .set hash => .vec (some [.symbol "Set", .bytes hash])

/-- `EvidenceDomain`, as the integer it is. -/
def evidenceDomain : Recovery.RecoveryAction → UInt32
  | .cancel => 1
  | _ => 0

def scvU64 (n : Int) : ScVal := .u64 (UInt64.ofNat (wrapped 8 n))

def attemptOf : Perch.PerchJs.StatementSubject → Option Int
  | .lostKey fields | .compromise fields => some fields.attemptId
  | .cancel attemptId _ => some attemptId
  | .reconfigure _ | .upgrade _ _ => none

/-- The change a statement is evidence for, as the controller's argument. -/
def changeOf : Perch.PerchJs.StatementSubject → Option ScVal
  | .reconfigure change => some (.vec (some [.symbol "Reconfigure", setChange change]))
  | .upgrade requestId wasmHash =>
      some (.vec (some [.symbol "Upgrade",
        .map [(.symbol "request_id", scvU64 requestId), (.symbol "wasm_hash", .bytes wasmHash)]]))
  | .lostKey _ | .compromise _ | .cancel _ _ => none

/-- The controller call a statement commits to, for an approval by a guardian.
Any other pairing of statement and function is refused. -/
def callArgsFor (sdk : Sdk) (s : Perch.PerchJs.RecoveryStatement) (fn : ApprovalFunction)
    (guardian : Text) : Except Failure (List Text) := do
  let account ← (sdk.addressValue s.account).mapError .library
  let who ← (sdk.addressValue guardian).mapError .library
  let vals ← match fn with
    | .submitGuardian => do
        let attemptId ← orFail (attemptOf s.subject) (.approval
          ("a " ++ actionName s.subject.action ++
            " statement is approved through approve_change, not submit_guardian"))
        pure [account, scvU64 attemptId, .u32 (evidenceDomain s.subject.action), who]
    | .approveChange => do
        let subject ← orFail (changeOf s.subject) (.approval
          ("a " ++ actionName s.subject.action ++
            " statement is approved through submit_guardian, not approve_change"))
        pure [account, subject, .u32 (UInt32.ofNat (wrapped 4 s.validUntilLedger.truncated)), who]
  pure (vals.map sdk.encodeScVal)

def statementDigest (sdk : Sdk) (s : Perch.PerchJs.RecoveryStatement) : Except Failure Text := do
  pure (hexText (sdk.hash (← encodeStatement sdk.strKey s)))

/-- The call an approval is for, rebuilt from the statement it signs. -/
def statementCall (sdk : Sdk) (json : Value) (approval : ParsedApproval)
    (controller networkPassphrase : Text) : Except Failure (List Text) := do
  let s ← parseStatement sdk.strKey json
  require (s.controller = controller) (.approval "the statement is for another controller")
  require (s.networkId = sdk.hash (encodeText networkPassphrase))
    (.approval "the statement is for another network")
  let digest ← statementDigest sdk s
  require (digest = approval.digest)
    (.approval "the statement does not hash to the approved digest")
  callArgsFor sdk s approval.function approval.guardian

end Perch.PerchRelay
