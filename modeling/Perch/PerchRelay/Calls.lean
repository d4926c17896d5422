/-
The call a relay rebuilds from a statement, against the controller.

A guardian's entry covers one digest and no other argument.  The controller
builds the statement from the call it is given, and asks the guardian for that
statement's digest; the relay goes the other way, from the statement to the
call.  Here the two are shown to be inverse over every reachable state.
-/

import Perch.PerchRelay.Approval
import Perch.Recovery.Window

namespace Perch.PerchRelay

open Machine Machine.Js Document
open PerchJs (AttemptFields RecoveryStatement)
open Recovery (Attempt Deployment Env EvidenceDomain History Run Storage)

/-! ### A guardian's call, as the controller runs it -/

inductive GuardianCall
  | submitGuardian (account : Address) (attemptId : UInt64) (domain : EvidenceDomain)
      (guardian : Address)
  | approveChange (account : Address) (subject : Recovery.StatementSubject) (validUntil : UInt32)
      (guardian : Address)
deriving DecidableEq

namespace GuardianCall

def function : GuardianCall → ApprovalFunction
  | submitGuardian _ _ _ _ => .submitGuardian
  | approveChange _ _ _ _ => .approveChange

def guardian : GuardianCall → Address
  | submitGuardian _ _ _ guardian | approveChange _ _ _ guardian => guardian

def call : GuardianCall → Recovery.Call
  | submitGuardian account attemptId domain guardian =>
      .submitGuardian account attemptId domain guardian
  | approveChange account subject validUntil guardian =>
      .approveChange account subject validUntil guardian

/-- The statement the call builds: the entry point's own steps, up to it. -/
def builds (d : Deployment) (e : Env) (s : Storage) :
    GuardianCall → Except Recovery.Failure Recovery.RecoveryStatement
  | submitGuardian account attemptId domain guardian => do
      let config ← Recovery.requireConfig s account
      let set ← orFail config.guardians (.refused .modeHasNoGuardians)
      require (guardian ∈ set.guardians) (.refused .notAGuardian)
      let attempt ← Recovery.loadLive e.sequence s account attemptId
      require (domain = .initiate → attempt.state = .collecting) (.refused .attemptNotCollecting)
      require (guardian ∉ attempt.counted domain) (.refused .alreadyCounted)
      Recovery.attemptStatement d account config (attempt.countGuardian guardian domain) domain
  | approveChange account subject validUntil guardian => do
      let config ← Recovery.requireConfig s account
      let set ← orFail config.guardians (.refused .modeHasNoGuardians)
      require (guardian ∈ set.guardians) (.refused .notAGuardian)
      Recovery.refuseInWindow e.sequence s account
      Recovery.changeStatementFor d s account config subject validUntil

def uncounted (s : Storage) (digest : Bytes32) : GuardianCall → Except Recovery.Failure Unit
  | submitGuardian _ _ _ _ => .ok ()
  | approveChange account _ _ guardian =>
      require (guardian ∉ (Recovery.changeEvidence s account digest).guardians)
        (.refused .alreadyCounted)

/-- The digest the controller requires the guardian to have authorized. -/
def requires (d : Deployment) (e : Env) (s : Storage) (call : GuardianCall) :
    Except Recovery.Failure Bytes32 := do
  let statement ← call.builds d e s
  Recovery.checkFresh e statement
  let digest ← Recovery.digest d statement
  call.uncounted s digest
  pure digest

variable {d : Deployment} {e : Env} {s : Storage}

private theorem bind_rest {ε α γ : Type} {first : Except ε α} {next : α → Except ε γ}
    {asked : Except ε γ → α → Except ε γ} (steps : ∀ a, ∃ rest, next a = asked rest a) :
    ∃ rest, first >>= next = first >>= asked rest := by
  cases first with
  | error failure => exact ⟨.error failure, rfl⟩
  | ok a => exact steps a

/-- A call is what it requires of the guardian, then the guardian's
authorization, and then the rest. -/
theorem execute_requires (call : GuardianCall) :
    ∃ rest : Except Recovery.Failure Recovery.Outcome,
      Recovery.execute d e s call.call = call.requires d e s >>= fun digest =>
        require (e.requireAuthForArgs call.guardian digest = true) .trapped >>= fun _ => rest := by
  cases call with
  | submitGuardian account attemptId domain guardian =>
      simp only [GuardianCall.call, Recovery.execute, Recovery.submitGuardian, requires, builds,
        bind_assoc]
      apply bind_rest
      intro config
      apply bind_rest
      intro set
      apply bind_rest
      intro member
      apply bind_rest
      intro attempt
      apply bind_rest
      intro phase
      apply bind_rest
      intro fresh
      apply bind_rest
      intro statement
      apply bind_rest
      intro current
      apply bind_rest
      intro digest
      exact ⟨_, rfl⟩
  | approveChange account subject validUntil guardian =>
      simp only [GuardianCall.call, Recovery.execute, Recovery.approveChange, requires, builds,
        bind_assoc]
      apply bind_rest
      intro config
      apply bind_rest
      intro set
      apply bind_rest
      intro member
      apply bind_rest
      intro quiet
      apply bind_rest
      intro statement
      apply bind_rest
      intro current
      apply bind_rest
      intro digest
      apply bind_rest
      intro fresh
      exact ⟨_, rfl⟩

end GuardianCall

/-! ### The call's arguments, as values -/

/-- A struct: a map from its field names, in their order. -/
def structVal (fields : List (String × ScVal)) : ScVal :=
  .map (fields.map fun (name, value) => (.symbol name, value))

/-- A case of an enumeration: its name, then what it carries. -/
def variantVal (name : String) (carried : List ScVal) : ScVal :=
  .vec (some (.symbol name :: carried))

def attemptSubjectVal (subject : Recovery.AttemptSubject) : ScVal :=
  structVal [("attempt_id", .u64 subject.attemptId),
    ("replacements_hash", .bytes subject.replacementsHash.bytes),
    ("source_doc_hash", .bytes subject.sourceDocHash.bytes),
    ("target_doc_hash", .bytes subject.targetDocHash.bytes)]

def configChangeVal : Recovery.ConfigChange → ScVal
  | .remove => variantVal "Remove" []
  | .set configHash => variantVal "Set" [.bytes configHash.bytes]

def subjectVal : Recovery.StatementSubject → ScVal
  | .lostKey subject => variantVal "LostKey" [attemptSubjectVal subject]
  | .compromise subject => variantVal "Compromise" [attemptSubjectVal subject]
  | .cancel subject =>
      variantVal "Cancel" [structVal [("attempt_id", .u64 subject.attemptId),
        ("attempt_statement", .bytes subject.attemptStatement.bytes)]]
  | .reconfigure change => variantVal "Reconfigure" [configChangeVal change]
  | .upgrade subject =>
      variantVal "Upgrade" [structVal [("request_id", .u64 subject.requestId),
        ("wasm_hash", .bytes subject.wasmHash.bytes)]]

def domainVal : EvidenceDomain → ScVal
  | .initiate => .u32 0
  | .cancel => .u32 1

def GuardianCall.args (spelling : Address → Text) : GuardianCall → List ScVal
  | submitGuardian account attemptId domain guardian =>
      [.address (spelling account), .u64 attemptId, domainVal domain, .address (spelling guardian)]
  | approveChange account subject validUntil guardian =>
      [.address (spelling account), subjectVal subject, .u32 validUntil,
        .address (spelling guardian)]

/-- What is relied on of the library: it hashes as the controller does, and
reads the strkeys it writes. -/
structure Sdk.Documented (sdk : Sdk) (spelling : Address → Text) (sha256 : Sha256) : Prop where
  strKey : sdk.strKey.Documented
  hash_eq : ∀ message, sdk.hash message = (sha256 message).bytes
  addressValue_spelling : ∀ address,
    sdk.addressValue (spelling address) = .ok (.address (spelling address))
  spelling_contract : ∀ id : Bytes32,
    spelling (.contract id) = ascii (strkey contractVersion id.bytes)

/-! ### From the statement back to the call -/

/-- The pairing of subjects and functions, and the two middle arguments. -/
inductive Argued (s : Recovery.RecoveryStatement) : ApprovalFunction → ScVal → ScVal → Prop
  | lostKey (subject : Recovery.AttemptSubject) (same : s.subject = .lostKey subject) :
      Argued s .submitGuardian (.u64 subject.attemptId) (domainVal .initiate)
  | compromise (subject : Recovery.AttemptSubject) (same : s.subject = .compromise subject) :
      Argued s .submitGuardian (.u64 subject.attemptId) (domainVal .initiate)
  | cancel (subject : Recovery.CancelSubject) (same : s.subject = .cancel subject) :
      Argued s .submitGuardian (.u64 subject.attemptId) (domainVal .cancel)
  | reconfigure (change : Recovery.ConfigChange) (same : s.subject = .reconfigure change) :
      Argued s .approveChange (subjectVal (.reconfigure change)) (.u32 s.timing.validUntilLedger)
  | upgrade (subject : Recovery.UpgradeSubject) (same : s.subject = .upgrade subject) :
      Argued s .approveChange (subjectVal (.upgrade subject)) (.u32 s.timing.validUntilLedger)

section

variable {sdk : Sdk} {spelling : Address → Text} {sha256 : Sha256}
  (documented : sdk.Documented spelling sha256)

include documented in
theorem addressValue_spelled {text : Text} {address : Address}
    (spelled : PerchJs.SpellsContract text address) :
    sdk.addressValue text = .ok (.address (spelling address)) := by
  obtain ⟨id, rfl, rfl⟩ := spelled
  rw [← documented.spelling_contract, documented.addressValue_spelling]

theorem scvU64_toNat (n : UInt64) : scvU64 n.toNat = .u64 n := by
  have fits := n.toNat_lt
  rw [scvU64, wrapped_of_lt (by omega), UInt64.ofNat_toNat]

variable {js : RecoveryStatement} {statement : Recovery.RecoveryStatement}
  {fn : ApprovalFunction} {first second : ScVal}

include documented in
/-- The relay rebuilds the call whose arguments the statement was built from. -/
theorem callArgsFor_argued (same : js.Represents statement)
    (argued : Argued statement fn first second) (guardian : Address) :
    callArgsFor sdk js fn (spelling guardian) =
      .ok ([.address (spelling statement.account), first, second,
        .address (spelling guardian)].map sdk.encodeScVal) := by
  have account := addressValue_spelled documented same.account
  have who := documented.addressValue_spelling guardian
  have represented := same.subject
  have fits := statement.timing.validUntilLedger.toNat_lt
  have limit : UInt32.ofNat (wrapped 4 js.validUntilLedger.truncated) =
      statement.timing.validUntilLedger := by
    rw [same.validUntilLedger, Number.truncated_ofNat, wrapped_of_lt (by omega),
      UInt32.ofNat_toNat]
  cases argued with
  | lostKey subject kind =>
      rw [kind] at represented
      obtain ⟨fields, held, rfl⟩ := represented
      simp only [callArgsFor, account, who, held, attemptOf, Except.mapError, orFail, ok_bind,
        pure_bind, scvU64_toNat]
      rfl
  | compromise subject kind =>
      rw [kind] at represented
      obtain ⟨fields, held, rfl⟩ := represented
      simp only [callArgsFor, account, who, held, attemptOf, Except.mapError, orFail, ok_bind,
        pure_bind, scvU64_toNat]
      rfl
  | cancel subject kind =>
      rw [kind] at represented
      have held : js.subject = _ := represented
      simp only [callArgsFor, account, who, held, attemptOf, Except.mapError, orFail, ok_bind,
        pure_bind, scvU64_toNat]
      rfl
  | reconfigure change kind =>
      rw [kind] at represented
      cases change with
      | remove =>
          have held : js.subject = _ := represented
          simp only [callArgsFor, account, who, held, changeOf, Except.mapError, orFail, ok_bind,
            pure_bind, limit]
          rfl
      | set configHash =>
          have held : js.subject = _ := represented
          simp only [callArgsFor, account, who, held, changeOf, Except.mapError, orFail, ok_bind,
            pure_bind, limit]
          rfl
  | upgrade subject kind =>
      rw [kind] at represented
      have held : js.subject = _ := represented
      simp only [callArgsFor, account, who, held, changeOf, Except.mapError, orFail, ok_bind,
        pure_bind, scvU64_toNat, limit]
      rfl

/-- An attempt's statement names no change, and a change's no attempt. -/
theorem unnamed_of_argued (same : js.Represents statement)
    (argued : Argued statement fn first second) :
    (fn = .submitGuardian → changeOf js.subject = none) ∧
      (fn = .approveChange → attemptOf js.subject = none) := by
  have action := same.subject.action_eq
  cases argued with
  | lostKey subject kind | compromise subject kind | cancel subject kind =>
      rw [kind] at action
      refine ⟨fun _ => ?_, nofun⟩
      cases held : js.subject <;> rw [held] at action <;> first | rfl | cases action
  | reconfigure change kind | upgrade subject kind =>
      rw [kind] at action
      refine ⟨nofun, fun _ => ?_⟩
      cases held : js.subject <;> rw [held] at action <;> first | rfl | cases action

theorem callArgsFor_other (same : js.Represents statement)
    (argued : Argued statement fn first second) {other : ApprovalFunction} (differs : other ≠ fn)
    (guardian : Text) : ∃ failure, callArgsFor sdk js other guardian = .error failure := by
  obtain ⟨noChange, noAttempt⟩ := unnamed_of_argued same argued
  cases made : callArgsFor sdk js other guardian with
  | error failure => exact ⟨failure, rfl⟩
  | ok texts =>
      simp only [callArgsFor, bind_eq_ok] at made
      obtain ⟨account, _, who, _, made⟩ := made
      cases fn with
      | submitGuardian =>
          cases other with
          | submitGuardian => exact absurd rfl differs
          | approveChange =>
              rw [noChange rfl] at made
              cases made
      | approveChange =>
          cases other with
          | submitGuardian =>
              rw [noAttempt rfl] at made
              cases made
          | approveChange => exact absurd rfl differs

end

/-! ### From the call to the statement -/

namespace GuardianCall

variable {d : Deployment} {history : History} {now : UInt32} {s : Storage}
  {statement : Recovery.RecoveryStatement}

theorem initiation_argued (account : Address) (config : Recovery.CompiledRecoveryConfig)
    (a : Attempt) :
    Argued (Recovery.initiationStatement d account config a) .submitGuardian (.u64 a.id)
      (domainVal .initiate) := by
  cases action : a.action with
  | compromise =>
      apply Argued.compromise ⟨a.id, a.sourceDocHash, a.targetDocHash, a.replacementsHash⟩
      rw [Recovery.initiationStatement, action]
      rfl
  | _ =>
      apply Argued.lostKey ⟨a.id, a.sourceDocHash, a.targetDocHash, a.replacementsHash⟩
      rw [Recovery.initiationStatement, action]
      rfl

/-- In a reachable state, the statement a call builds names the call's own
account and middle arguments. -/
theorem builds_argued (run : Run d history now s) (e : Env) (spelling : Address → Text)
    {call : GuardianCall} (built : call.builds d e s = .ok statement) :
    ∃ first second, Argued statement call.function first second ∧
      call.args spelling = [.address (spelling statement.account), first, second,
        .address (spelling call.guardian)] := by
  cases call with
  | submitGuardian account attemptId domain guardian =>
      simp only [builds, bind_eq_ok, require_eq_ok, Recovery.loadLive_eq_ok] at built
      obtain ⟨config, _, set, _, _, _, attempt, ⟨loaded, _⟩, _, _, _, _, built⟩ := built
      have own : attempt.id = attemptId := (run.sound account).keyed _ _ (.of_load loaded)
      subst own
      cases domain with
      | initiate =>
          obtain rfl : Recovery.initiationStatement _ _ _ _ = statement := Except.ok.inj built
          exact ⟨_, _, initiation_argued account config (attempt.countGuardian guardian .initiate),
            rfl⟩
      | cancel =>
          simp only [Recovery.attemptStatement, bind_eq_ok, pure_eq_ok] at built
          obtain ⟨initiation, _, rfl⟩ := built
          exact ⟨_, _, .cancel ⟨attempt.id, initiation⟩ rfl, rfl⟩
  | approveChange account subject validUntil guardian =>
      simp only [builds, Recovery.changeStatementFor, bind_eq_ok, require_eq_ok,
        pure_eq_ok] at built
      obtain ⟨config, _, set, _, _, _, _, _, _, change, rfl⟩ := built
      refine ⟨subjectVal subject, .u32 validUntil, ?_, rfl⟩
      cases subject with
      | reconfigure configChange => exact .reconfigure configChange rfl
      | upgrade upgrade => exact .upgrade upgrade rfl
      | _ => cases change

theorem requires_eq_ok {e : Env} {call : GuardianCall} {required : Bytes32}
    (asked : call.requires d e s = .ok required) :
    ∃ statement encoded, call.builds d e s = .ok statement ∧ statement.encode = .ok encoded ∧
      d.sha256 encoded = required := by
  simp only [requires, bind_eq_ok, Recovery.digest_eq_ok, Recovery.RecoveryStatement.digest,
    pure_eq_ok] at asked
  obtain ⟨statement, built, _, _, _, ⟨encoded, encodes, rfl⟩, _, _, rfl⟩ := asked
  exact ⟨statement, encoded, built, encodes, rfl⟩

end GuardianCall

/-! ### The relay against the controller's state -/

def hashedEncodings (sdk : Sdk) (json : Value) (d : Deployment) (e : Env) (s : Storage)
    (call : GuardianCall) : Set Bytes :=
  { encoded | (∃ js, parseStatement sdk.strKey json = .ok js ∧
      encodeStatement sdk.strKey js = .ok encoded) ∨
    ∃ statement, call.builds d e s = .ok statement ∧ statement.encode = .ok encoded }

/-- With no collision between the two, a statement that hashes to the digest
the controller requires is the statement it built. -/
theorem represents_required {sdk : Sdk} {spelling : Address → Text} {d : Deployment}
    (documented : sdk.Documented spelling d.sha256) {e : Env} {s : Storage} {call : GuardianCall}
    {json : Value} {js : RecoveryStatement} {required : Bytes32}
    (collisionFree : Set.InjOn d.sha256 (hashedEncodings sdk json d e s call))
    (parsed : parseStatement sdk.strKey json = .ok js)
    (asked : call.requires d e s = .ok required)
    (hashed : statementDigest sdk js = .ok (hexText required.bytes)) :
    ∃ statement, call.builds d e s = .ok statement ∧ js.Represents statement := by
  obtain ⟨statement, encoded, built, encodes, rfl⟩ := GuardianCall.requires_eq_ok asked
  obtain ⟨read, same⟩ := parseStatement_represents documented.strKey parsed
  obtain ⟨encoded', encodes', _⟩ := same.encodeStatement_eq
  have written := encodeStatement_eq documented.strKey same encodes'
  rw [statementDigest, written, ok_bind, pure_eq_ok, documented.hash_eq] at hashed
  have digests : d.sha256 encoded' = d.sha256 encoded :=
    BytesN.ext_bytes (hexText_injective hashed)
  have equal : encoded' = encoded :=
    collisionFree (.inl ⟨js, parsed, written⟩) (.inr ⟨statement, built, encodes⟩) digests
  subst equal
  obtain rfl : read = statement := Recovery.RecoveryStatement.encode_injective encodes' encodes
  exact ⟨read, built, same⟩

/-- The relay's rebuilt call is the one the guardian signed for.  The call a
statement was built from is what the relay makes of that statement, which it
also reads back from its JSON; and where a statement is accepted for a digest
that some call of the approved function makes the controller require of that
guardian, what is rebuilt is that call. -/
theorem statementCall_signed {sdk : Sdk} {spelling : Address → Text} {d : Deployment}
    (documented : sdk.Documented spelling d.sha256) {history : History} {now : UInt32}
    {s : Storage} (run : Run d history now s) (e : Env) (call : GuardianCall) :
    (∀ statement, call.builds d e s = .ok statement →
      (∀ digest, Recovery.digest d statement = .ok digest →
        ∃ js : RecoveryStatement, js.Represents statement) ∧
      ∀ js : RecoveryStatement, js.Represents statement →
        callArgsFor sdk js call.function (spelling call.guardian) =
          .ok ((call.args spelling).map sdk.encodeScVal) ∧
        (∀ fn, fn ≠ call.function → ∀ guardian,
          ∃ failure, callArgsFor sdk js fn guardian = .error failure) ∧
        parseStatement sdk.strKey (statementJson js) = .ok js) ∧
    ∀ json approval controller networkPassphrase texts,
      statementCall sdk json approval controller networkPassphrase = .ok texts →
      approval.function = call.function → approval.guardian = spelling call.guardian →
      ∀ required, call.requires d e s = .ok required →
        approval.digest = hexText required.bytes →
        Set.InjOn d.sha256 (hashedEncodings sdk json d e s call) →
        texts = (call.args spelling).map sdk.encodeScVal := by
  have rebuilt : ∀ statement, call.builds d e s = .ok statement →
      ∀ js : RecoveryStatement, js.Represents statement →
        callArgsFor sdk js call.function (spelling call.guardian) =
          .ok ((call.args spelling).map sdk.encodeScVal) := by
    intro statement built js same
    obtain ⟨first, second, argued, args⟩ := GuardianCall.builds_argued run e spelling built
    rw [args]
    exact callArgsFor_argued documented same argued call.guardian
  constructor
  · intro statement built
    constructor
    · intro digest hashed
      simp only [Recovery.digest_eq_ok, Recovery.RecoveryStatement.digest,
        Recovery.RecoveryStatement.encode, bind_eq_ok, orFail_eq_ok, contractId_eq_some] at hashed
      obtain ⟨_, ⟨account, isAccount, controller, isController, _⟩, _⟩ := hashed
      exact PerchJs.exists_represents_iff.mpr ⟨account, controller, isAccount, isController⟩
    · intro js same
      obtain ⟨first, second, argued, _⟩ := GuardianCall.builds_argued run e spelling built
      exact ⟨rebuilt statement built js same,
        fun fn differs guardian => callArgsFor_other same argued differs guardian,
        parseStatement_statementJson documented.strKey same⟩
  · intro json approval controller networkPassphrase texts rebuilds function guardian required asked
      digest collisionFree
    simp only [statementCall, bind_eq_ok, require_eq_ok] at rebuilds
    obtain ⟨js, parsed, _, _, _, _, hashed, digested, _, agreed, rebuilds⟩ := rebuilds
    rw [agreed, digest] at digested
    obtain ⟨statement, built, same⟩ := represents_required documented collisionFree parsed asked
      digested
    rw [function, guardian, rebuilt statement built js same] at rebuilds
    exact (Except.ok.inj rebuilds).symm

/-! ### A call to evaluate on -/

namespace CallSample

def passphrase : Text := utf16 "Test SDF Network ; September 2015"

def deployment : Deployment :=
  { Recovery.Sample.deployment with networkId := Recovery.Sample.sha256 (encodeText passphrase) }

def begun : History × Storage :=
  (Recovery.controller deployment).play [] .empty (Recovery.Sample.calls.take 2)

theorem run : Run deployment begun.1 101 begun.2 :=
  Execution.refl.play (by decide)

def spelling (address : Address) : Text := ascii (localAddressToString address)

def sdk : Sdk where
  strKey := walletStrKey
  isValidEd25519PublicKey _ := false
  decodeEntry _ := none
  decodeScVal _ := none
  encodeScVal value :=
    match value with
    | .address strkey =>
        utf16 (if strkey = spelling Recovery.Sample.account then
          "AAAAEgAAAAEBAQEBAQEBAQEBAQEBAQEBAQEBAQEBAQEBAQEBAQEBAQ=="
        else "AAAAEgAAAAAAAAAAAwMDAwMDAwMDAwMDAwMDAwMDAwMDAwMDAwMDAwMDAwM=")
    | .u64 _ => utf16 "AAAABQAAAAAAAAAA"
    | _ => utf16 "AAAAAwAAAAA="
  addressValue text := .ok (.address text)
  hash message := (Recovery.Sample.sha256 message).bytes
  authorizationPreimage _ _ _ := []
  signatures _ := none
  rawPublicKey _ := []
  verify _ _ _ := false

theorem documented : sdk.Documented spelling deployment.sha256 where
  strKey := walletStrKey_documented
  hash_eq _ := rfl
  addressValue_spelling _ := rfl
  spelling_contract _ := rfl

def call : GuardianCall :=
  .submitGuardian Recovery.Sample.account 0 .initiate Recovery.Sample.guardian

/-- The statement the call builds, as a wallet holds it. -/
def js : RecoveryStatement where
  networkId := deployment.networkId.bytes
  account := spelling Recovery.Sample.account
  controller := spelling deployment.address
  epoch := 1
  configHash := List.replicate 32 10
  delayLedgers := Number.ofNat 10
  expiryLedgers := Number.ofNat 100
  validUntilLedger := Number.ofNat 201
  subject := .lostKey
    { attemptId := 0
      sourceDocHash := (Recovery.Sample.sha256 Recovery.Sample.source).bytes
      targetDocHash := (Recovery.Sample.sha256 [123, 32, 125]).bytes
      replacementsHash :=
        hexBytes (utf16 "9c492e61087bc1260a6a1c56bf635544588ce54bf78f94d6c94db701c9b3087a") }


def digest : Bytes32 :=
  ⟨hexBytes (utf16 "e2cf90fd018365f7715cd9720fb0475b0de1b24025e50d55704701af19393917"), by decide⟩

def approval : ParsedApproval where
  guardian := spelling Recovery.Sample.guardian
  function := .submitGuardian
  digest := hexText digest.bytes
  expiresAt := 200
  entry := []
  credentials := .address
  delegates := []

def encoded : Except Failure Bytes := encodeStatement walletStrKey js

def argTexts : List Text :=
  ["AAAAEgAAAAEBAQEBAQEBAQEBAQEBAQEBAQEBAQEBAQEBAQEBAQEBAQ==", "AAAABQAAAAAAAAAA", "AAAAAwAAAAA=",
    "AAAAEgAAAAAAAAAAAwMDAwMDAwMDAwMDAwMDAwMDAwMDAwMDAwMDAwMDAwM="].map utf16

theorem requires_digest :
    call.requires deployment (Recovery.Sample.env 102) begun.2 = .ok digest := by
  decide +kernel

theorem rebuilds :
    statementCall sdk (statementJson js) approval (spelling deployment.address) passphrase =
      .ok argTexts := by
  decide +kernel

theorem hashed_encoded {x : Bytes}
    (hashed : x ∈ hashedEncodings sdk (statementJson js) deployment (Recovery.Sample.env 102)
      begun.2 call) : encoded.toOption = some x := by
  have relay : ∀ read ∈ (parseStatement sdk.strKey (statementJson js)).toOption,
      encodeStatement sdk.strKey read = encoded := by decide +kernel
  have controller :
      ∀ built ∈ (call.builds deployment (Recovery.Sample.env 102) begun.2).toOption,
        built.encode.toOption = encoded.toOption := by decide +kernel
  rcases hashed with ⟨read, parsed, encodes⟩ | ⟨statement, built, encodes⟩
  · rw [← relay read (by rw [parsed]; rfl), encodes]
    rfl
  · rw [← controller statement (by rw [built]; rfl), encodes]
    rfl

end CallSample

theorem statementCall_signed_sample :
    CallSample.call.requires CallSample.deployment (Recovery.Sample.env 102) CallSample.begun.2 =
        .ok CallSample.digest ∧
      statementCall CallSample.sdk (statementJson CallSample.js) CallSample.approval
          (CallSample.spelling CallSample.deployment.address) CallSample.passphrase =
        .ok ((CallSample.call.args CallSample.spelling).map CallSample.sdk.encodeScVal) := by
  have collisionFree : Set.InjOn CallSample.deployment.sha256
      (hashedEncodings CallSample.sdk (statementJson CallSample.js) CallSample.deployment
        (Recovery.Sample.env 102) CallSample.begun.2 CallSample.call) := by
    intro x hashed y hashed' _
    exact Option.some.inj
      ((CallSample.hashed_encoded hashed).symm.trans (CallSample.hashed_encoded hashed'))
  have same := (statementCall_signed CallSample.documented CallSample.run (Recovery.Sample.env 102)
    CallSample.call).2 _ _ _ _ _ CallSample.rebuilds rfl rfl _ CallSample.requires_digest rfl
    collisionFree
  rw [← same]
  exact ⟨CallSample.requires_digest, CallSample.rebuilds⟩

end Perch.PerchRelay
