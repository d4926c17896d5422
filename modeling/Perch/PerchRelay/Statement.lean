/-
The recovery statement as the relay holds it.

A statement reaches the relay as JSON: hashes in lower-case hexadecimal, 64-bit
ids as decimal texts.  The relay reads it back, encodes it itself, and compares
the digest with what a guardian signed.
-/

import Perch.PerchJs.Statement

namespace Perch.PerchRelay

open Machine Machine.Js Document
open PerchJs (AttemptFields ConfigChange StatementSubject RecoveryStatement)
open Recovery (RecoveryAction)

/-- The strkey library: which texts are a contract's, and whose. -/
structure StrKey where
  isValidContract : Text → Bool
  decodeContract : Text → Except Text Bytes

/-- What the relay relies on: the strkeys of contracts are valid and decode. -/
structure StrKey.Documented (strKey : StrKey) : Prop where
  isValidContract_iff : ∀ text, strKey.isValidContract text = true ↔
    ∃ id : Bytes32, text = ascii (strkey contractVersion id.bytes)
  decodeContract_strkey : ∀ id : Bytes32,
    strKey.decodeContract (ascii (strkey contractVersion id.bytes)) = .ok id.bytes

inductive Failure
  /-- An `ApprovalError`. -/
  | approval (message : String)
  /-- What the strkey library throws. -/
  | library (message : Text)
deriving DecidableEq

def actionName : RecoveryAction → String
  | .lostKey => "lost-key"
  | .compromise => "compromise"
  | .cancel => "cancel"
  | .reconfigure => "reconfigure"
  | .upgrade => "upgrade"

def actionCode : RecoveryAction → UInt8
  | .lostKey => 1
  | .compromise => 2
  | .cancel => 3
  | .reconfigure => 4
  | .upgrade => 5

/-! ### Reading fields -/

def isHex32 (text : Text) : Bool := text.length = 64 && text.all isLowerHex

def bytes32 (v : Value) (field : String) : Except Failure Bytes :=
  let refused := Failure.approval ("statement " ++ field ++ " must be 64 hex characters")
  match v with
  | .string text => if isHex32 text then .ok (hexBytes text) else .error refused
  | _ => .error refused

def u32 (v : Value) (field : String) : Except Failure Number :=
  let refused := Failure.approval ("statement " ++ field ++ " must be a u32")
  match v with
  | .number n => if n.isInteger && n.within 0 0xFFFFFFFF then .ok n else .error refused
  | _ => .error refused

/-- `BigInt` of a safe integer that is not negative, or of decimal digits. -/
def bigIntOf : Value → Option Int
  | .number n => if n.isSafeInteger && 0 ≤ n.truncated then some n.truncated else none
  | .string text => if text ≠ [] && text.all isDecimal then some (decimalValue text) else none
  | _ => none

def u64 (v : Value) (field : String) : Except Failure Int :=
  match bigIntOf v with
  | none => .error (.approval
      ("statement " ++ field ++ " must be a u64 (a number or a decimal string)"))
  | some n =>
      if 0xFFFFFFFFFFFFFFFF < n then .error (.approval ("statement " ++ field ++ " must be a u64"))
      else .ok n

def contract (strKey : StrKey) (v : Value) (field : String) : Except Failure Text :=
  let refused := Failure.approval ("statement " ++ field ++ " must be a C... address")
  match v with
  | .string text => if strKey.isValidContract text then .ok text else .error refused
  | _ => .error refused

/-! ### Statements as JSON -/

def hexOf (b : Bytes) : Value := .string (hexText b)

def bigIntText (n : Int) : Value := .string (decimalText n)

def attemptJson (fields : AttemptFields) : Value :=
  record [("attempt_id", bigIntText fields.attemptId),
    ("source_doc_hash", hexOf fields.sourceDocHash),
    ("target_doc_hash", hexOf fields.targetDocHash),
    ("replacements_hash", hexOf fields.replacementsHash)]

def subjectJson : StatementSubject → Value
  | .lostKey fields | .compromise fields => attemptJson fields
  | .cancel attemptId attemptStatement =>
      record [("attempt_id", bigIntText attemptId), ("attempt_statement", hexOf attemptStatement)]
  | .reconfigure .remove => record [("change", .string (utf16 "remove"))]
  | .reconfigure (.set hash) =>
      record [("change", .string (utf16 "set")), ("new_config_hash", hexOf hash)]
  | .upgrade requestId wasmHash =>
      record [("request_id", bigIntText requestId), ("wasm_hash", hexOf wasmHash)]

def statementJson (s : RecoveryStatement) : Value :=
  record [("network_id", hexOf s.networkId),
    ("account", .string s.account),
    ("controller", .string s.controller),
    ("config_epoch", bigIntText s.epoch),
    ("config_hash", hexOf s.configHash),
    ("delay_ledgers", .number s.delayLedgers),
    ("expiry_ledgers", .number s.expiryLedgers),
    ("valid_until_ledger", .number s.validUntilLedger),
    ("action", .string (utf16 (actionName s.subject.action))),
    ("subject", subjectJson s.subject)]

def parseAction (v : Value) : Option RecoveryAction :=
  if v.isText "lost-key" then some .lostKey
  else if v.isText "compromise" then some .compromise
  else if v.isText "cancel" then some .cancel
  else if v.isText "reconfigure" then some .reconfigure
  else if v.isText "upgrade" then some .upgrade
  else none

def parseAttempt (s : Value) : Except Failure AttemptFields := do
  let attemptId ← u64 (s.get "attempt_id") "subject.attempt_id"
  let sourceDocHash ← bytes32 (s.get "source_doc_hash") "subject.source_doc_hash"
  let targetDocHash ← bytes32 (s.get "target_doc_hash") "subject.target_doc_hash"
  let replacementsHash ← bytes32 (s.get "replacements_hash") "subject.replacements_hash"
  pure { attemptId, sourceDocHash, targetDocHash, replacementsHash }

def parseSubject (action : Option RecoveryAction) (s : Value) :
    Except Failure StatementSubject :=
  match action with
  | some .lostKey => do pure (.lostKey (← parseAttempt s))
  | some .compromise => do pure (.compromise (← parseAttempt s))
  | some .cancel => do
      let attemptId ← u64 (s.get "attempt_id") "subject.attempt_id"
      let attemptStatement ← bytes32 (s.get "attempt_statement") "subject.attempt_statement"
      pure (.cancel attemptId attemptStatement)
  | some .reconfigure =>
      let change := s.get "change"
      if change.isText "remove" then pure (.reconfigure .remove)
      else if change.isText "set" then do
        pure (.reconfigure (.set (← bytes32 (s.get "new_config_hash") "subject.new_config_hash")))
      else .error (.approval "statement subject.change must be set or remove")
  | some .upgrade => do
      let requestId ← u64 (s.get "request_id") "subject.request_id"
      let wasmHash ← bytes32 (s.get "wasm_hash") "subject.wasm_hash"
      pure (.upgrade requestId wasmHash)
  | none => .error (.approval
      "statement action must be lost-key, compromise, cancel, reconfigure, or upgrade")

def parseStatement (strKey : StrKey) (json : Value) : Except Failure RecoveryStatement := do
  require (json.isObject = true) (.approval "statement must be an object")
  require ((json.get "subject").isObject = true)
    (.approval "statement subject must be an object")
  let subject ← parseSubject (parseAction (json.get "action")) (json.get "subject")
  let networkId ← bytes32 (json.get "network_id") "network_id"
  let account ← contract strKey (json.get "account") "account"
  let controller ← contract strKey (json.get "controller") "controller"
  let epoch ← u64 (json.get "config_epoch") "config_epoch"
  let configHash ← bytes32 (json.get "config_hash") "config_hash"
  let delayLedgers ← u32 (json.get "delay_ledgers") "delay_ledgers"
  let expiryLedgers ← u32 (json.get "expiry_ledgers") "expiry_ledgers"
  let validUntilLedger ← u32 (json.get "valid_until_ledger") "valid_until_ledger"
  pure { networkId, account, controller, epoch, configHash, delayLedgers, expiryLedgers,
         validUntilLedger, subject }

/-! ### Writing -/

/-- The parts written so far.  Only lengths are checked: numbers wrap. -/
structure Writer where
  parts : List Bytes

namespace Writer

def empty : Writer := ⟨[]⟩

def bytes (w : Writer) (b : Bytes) : Writer := ⟨w.parts ++ [b]⟩

def sized (w : Writer) (b : Bytes) (len : Nat) : Except Failure Writer :=
  if b.length ≠ len then
    .error (.approval ("expected " ++ Nat.repr len ++ " bytes"))
  else .ok (w.bytes b)

def u8 (w : Writer) (n : UInt8) : Writer := w.bytes [n]

def u32 (w : Writer) (n : Number) : Writer := w.bytes (beBytes 4 (wrapped 4 n.truncated))

def u64 (w : Writer) (n : Int) : Writer := w.bytes (beBytes 8 (wrapped 8 n))

def done (w : Writer) : Bytes := w.parts.flatten

@[simp] theorem done_empty : empty.done = [] := rfl

@[simp] theorem done_bytes (w : Writer) (b : Bytes) : (w.bytes b).done = w.done ++ b := by
  simp [done, bytes]

@[simp] theorem done_u8 (w : Writer) (n : UInt8) : (w.u8 n).done = w.done ++ [n] :=
  done_bytes w [n]

theorem sized_of_length {w : Writer} {b : Bytes} {len : Nat} (size : b.length = len) :
    w.sized b len = .ok (w.bytes b) := if_neg (not_not.mpr size)

theorem u32_ofNat (w : Writer) (n : UInt32) :
    w.u32 (Number.ofNat n.toNat) = w.bytes (beBytes 4 n.toNat) := by
  have fits := n.toNat_lt
  rw [u32, Number.truncated_ofNat, wrapped_of_lt (by omega)]

theorem u64_natCast (w : Writer) (n : UInt64) : w.u64 n.toNat = w.bytes (beBytes 8 n.toNat) := by
  have fits := n.toNat_lt
  rw [u64, wrapped_of_lt (by omega)]

end Writer

def contractId (strKey : StrKey) (strkey : Text) : Except Failure Bytes :=
  (strKey.decodeContract strkey).mapError .library

def encodeAttempt (w : Writer) (fields : AttemptFields) : Except Failure Writer := do
  let w ← (w.u64 fields.attemptId).sized fields.sourceDocHash 32
  let w ← w.sized fields.targetDocHash 32
  w.sized fields.replacementsHash 32

def encodeSubject (w : Writer) : StatementSubject → Except Failure Writer
  | .lostKey fields | .compromise fields => encodeAttempt w fields
  | .cancel attemptId attemptStatement => (w.u64 attemptId).sized attemptStatement 32
  | .reconfigure .remove => .ok ((w.u8 0).bytes (List.replicate 32 0))
  | .reconfigure (.set hash) => (w.u8 1).sized hash 32
  | .upgrade requestId wasmHash => (w.u64 requestId).sized wasmHash 32

def encodeStatement (strKey : StrKey) (s : RecoveryStatement) : Except Failure Bytes := do
  let w := ((Writer.empty.bytes (encodeText (utf16 "perch/recovery/statement"))).u8 2).u8
    (actionCode s.subject.action)
  let w ← w.sized s.networkId 32
  let w ← w.sized (← contractId strKey s.account) 32
  let w ← w.sized (← contractId strKey s.controller) 32
  let w ← (w.u64 s.epoch).sized s.configHash 32
  let w := ((w.u32 s.delayLedgers).u32 s.expiryLedgers).u32 s.validUntilLedger
  let w ← encodeSubject w s.subject
  pure w.done

/-! ### The relay against the controller -/

variable {strKey : StrKey}

theorem contractId_eq (documented : strKey.Documented) {text : Text} {address : Address}
    (spelled : PerchJs.SpellsContract text address) :
    ∃ id : Bytes32, Perch.contractId address = some id ∧ contractId strKey text = .ok id.bytes := by
  obtain ⟨id, rfl, rfl⟩ := spelled
  refine ⟨id, rfl, ?_⟩
  rw [contractId, documented.decodeContract_strkey]
  rfl

theorem encodeAttempt_eq (w : Writer) {fields : AttemptFields} {subject : Recovery.AttemptSubject}
    (same : fields.Represents subject) :
    ∃ w', encodeAttempt w fields = .ok w' ∧ w'.done = w.done ++ subject.encode := by
  cases same
  simp only [encodeAttempt, Writer.u64_natCast, ok_bind, Writer.sized_of_length (BytesN.size _)]
  refine ⟨_, rfl, ?_⟩
  simp only [Writer.done_bytes, Recovery.AttemptSubject.encode, List.append_assoc]

theorem encodeSubject_eq (w : Writer) {js : StatementSubject}
    {subject : Recovery.StatementSubject} (same : js.Represents subject) :
    ∃ w', encodeSubject w js = .ok w' ∧ w'.done = w.done ++ subject.encode := by
  cases subject with
  | lostKey subject =>
      obtain ⟨fields, rfl, same⟩ := same
      exact encodeAttempt_eq w same
  | compromise subject =>
      obtain ⟨fields, rfl, same⟩ := same
      exact encodeAttempt_eq w same
  | cancel subject =>
      cases same
      simp only [encodeSubject, Writer.u64_natCast, Writer.sized_of_length (BytesN.size _)]
      refine ⟨_, rfl, ?_⟩
      simp only [Writer.done_bytes, Recovery.StatementSubject.encode, List.append_assoc]
  | reconfigure change =>
      cases change with
      | remove =>
          cases same
          refine ⟨_, rfl, ?_⟩
          simp only [Writer.done_bytes, Writer.done_u8, List.append_assoc]
          rfl
      | set hash =>
          cases same
          simp only [encodeSubject, Writer.sized_of_length (BytesN.size _)]
          refine ⟨_, rfl, ?_⟩
          simp only [Writer.done_bytes, Writer.done_u8, List.append_assoc]
          rfl
  | upgrade subject =>
      cases same
      simp only [encodeSubject, Writer.u64_natCast, Writer.sized_of_length (BytesN.size _)]
      refine ⟨_, rfl, ?_⟩
      simp only [Writer.done_bytes, Recovery.StatementSubject.encode, List.append_assoc]

theorem encodeStatement_eq (documented : strKey.Documented) {js : RecoveryStatement}
    {statement : Recovery.RecoveryStatement} (same : js.Represents statement) {encoded : Bytes}
    (encodes : statement.encode = .ok encoded) : encodeStatement strKey js = .ok encoded := by
  obtain ⟨account, accountId, accountRead⟩ := contractId_eq documented same.account
  obtain ⟨controller, controllerId, controllerRead⟩ := contractId_eq documented same.controller
  have code : actionCode js.subject.action = statement.action.code := by
    rw [same.subject.action_eq]
    rfl
  rw [Recovery.RecoveryStatement.encode, accountId, controllerId] at encodes
  obtain rfl : _ = encoded := Except.ok.inj encodes
  simp only [encodeStatement, accountRead, controllerRead, same.networkId, same.epoch,
    same.configHash, same.delayLedgers, same.expiryLedgers, same.validUntilLedger,
    Writer.u64_natCast, Writer.u32_ofNat, Writer.sized_of_length (BytesN.size _), ok_bind]
  obtain ⟨w, written, bytes⟩ := encodeSubject_eq _ same.subject
  rw [written, ok_bind, bytes]
  simp only [Writer.done_bytes, Writer.done_u8, Writer.done_empty, encodeText_utf16, code,
    List.append_assoc, List.nil_append]
  rfl

/-! ### Reading back -/

theorem bytes32_hexOf (hash : Bytes32) (field : String) :
    bytes32 (hexOf hash.bytes) field = .ok hash.bytes := by
  have shaped : isHex32 (hexText hash.bytes) = true := by
    simp only [isHex32, hexText_length, hash.size, hexText_lower, Bool.and_true, decide_eq_true_eq]
  simp only [bytes32, hexOf, shaped, if_true, hexBytes_hexText]

/-- Every 64-bit number reads back from its decimal text, past what a number
can hold exactly. -/
theorem u64_bigIntText (n : UInt64) (field : String) :
    u64 (bigIntText n.toNat) field = .ok n.toNat := by
  obtain ⟨digits, some, value⟩ := decimalText_natCast n.toNat
  have fits := n.toNat_lt
  have read : bigIntOf (bigIntText n.toNat) = .some (n.toNat : Int) := by
    simp only [bigIntOf, bigIntText, digits, value, ne_eq, some, not_false_eq_true, decide_true,
      Bool.and_self, if_true]
  rw [u64, read]
  exact if_neg (by omega)

theorem u32_ofNat (n : UInt32) (field : String) :
    u32 (.number (Number.ofNat n.toNat)) field = .ok (Number.ofNat n.toNat) := by
  have fits := n.toNat_lt
  have inside : (Number.ofNat n.toNat).within 0 0xFFFFFFFF = true :=
    Number.within_ofNat (show n.toNat ≤ 0xFFFFFFFF by omega)
  simp only [u32, Number.isInteger_ofNat, inside, Bool.and_self, if_true]

theorem contract_spelled (documented : strKey.Documented) {text : Text} {address : Address}
    (spelled : PerchJs.SpellsContract text address) (field : String) :
    contract strKey (.string text) field = .ok text := by
  obtain ⟨id, rfl, rfl⟩ := spelled
  have valid := (documented.isValidContract_iff _).mpr ⟨id, rfl⟩
  simp only [contract, valid, if_true]

theorem parseAction_name (action : RecoveryAction) :
    parseAction (.string (utf16 (actionName action))) = some action := by
  cases action <;> simp [parseAction, actionName, isText_utf16]

theorem parseAttempt_json {fields : AttemptFields} {subject : Recovery.AttemptSubject}
    (same : fields.Represents subject) : parseAttempt (attemptJson fields) = .ok fields := by
  cases same
  simp [parseAttempt, attemptJson, get_record, List.lookup_cons, bytes32_hexOf, u64_bigIntText]

theorem parseSubject_json {js : StatementSubject} {subject : Recovery.StatementSubject}
    (same : js.Represents subject) :
    parseSubject (some js.action) (subjectJson js) = .ok js := by
  cases subject with
  | lostKey subject =>
      obtain ⟨fields, rfl, same⟩ := same
      simp [StatementSubject.action, parseSubject, subjectJson, parseAttempt_json same]
  | compromise subject =>
      obtain ⟨fields, rfl, same⟩ := same
      simp [StatementSubject.action, parseSubject, subjectJson, parseAttempt_json same]
  | cancel subject =>
      cases same
      simp [StatementSubject.action, parseSubject, subjectJson, get_record, List.lookup_cons,
        bytes32_hexOf, u64_bigIntText]
  | reconfigure change =>
      cases change with
      | remove =>
          cases same
          simp [StatementSubject.action, parseSubject, subjectJson, get_record,
            isText_utf16]
      | set hash =>
          cases same
          simp [StatementSubject.action, parseSubject, subjectJson, get_record, List.lookup_cons,
            isText_utf16, bytes32_hexOf]
  | upgrade subject =>
      cases same
      simp [StatementSubject.action, parseSubject, subjectJson, get_record, List.lookup_cons,
        bytes32_hexOf, u64_bigIntText]

theorem isObject_subjectJson (js : StatementSubject) : (subjectJson js).isObject = true := by
  cases js with
  | reconfigure change => cases change <;> rfl
  | _ => rfl

/-- A statement the relay writes as JSON reads back as it was. -/
theorem parseStatement_statementJson (documented : strKey.Documented) {js : RecoveryStatement}
    {statement : Recovery.RecoveryStatement} (same : js.Represents statement) :
    parseStatement strKey (statementJson js) = .ok js := by
  have member (key : String) : (statementJson js).get key = _ := get_record _ key
  have whole : (statementJson js).isObject = true := rfl
  simp only [parseStatement, member, whole]
  simp [List.lookup_cons, isObject_subjectJson, parseAction_name, parseSubject_json same.subject,
    same.networkId, same.epoch, same.configHash, same.delayLedgers, same.expiryLedgers,
    same.validUntilLedger, bytes32_hexOf, u64_bigIntText, u32_ofNat,
    contract_spelled documented same.account, contract_spelled documented same.controller]
  rw [← same.networkId, ← same.epoch, ← same.configHash, ← same.delayLedgers,
    ← same.expiryLedgers, ← same.validUntilLedger]

/-! ### What is read is a statement -/

theorem bytes32_eq_ok {v : Value} {field : String} {read : Bytes}
    (parsed : bytes32 v field = .ok read) : ∃ hash : Bytes32, read = hash.bytes := by
  cases v with
  | string text =>
      simp only [bytes32] at parsed
      split at parsed
      · rename_i shaped
        simp only [isHex32, Bool.and_eq_true, decide_eq_true_eq] at shaped
        cases parsed
        exact ⟨⟨hexBytes text, hexBytes_length shaped.1 shaped.2⟩, rfl⟩
      · cases parsed
  | _ => cases parsed

theorem u32_eq_ok {v : Value} {field : String} {read : Number} (parsed : u32 v field = .ok read) :
    ∃ n : UInt32, read = Number.ofNat n.toNat := by
  cases v with
  | number number =>
      simp only [u32] at parsed
      split at parsed
      · rename_i shaped
        simp only [Bool.and_eq_true] at shaped
        have same : number = read := Except.ok.inj parsed
        subst same
        have inside : number.within 0 ((0xFFFFFFFF : Nat) : Int) = true := shaped.2
        obtain ⟨n, bound, rfl⟩ := Number.eq_ofNat shaped.1 inside
        refine ⟨UInt32.ofNat n, ?_⟩
        rw [UInt32.toNat_ofNat', Nat.mod_eq_of_lt (by omega)]
      · cases parsed
  | _ => cases parsed

theorem bigIntOf_nonneg {v : Value} {read : Int} (known : bigIntOf v = some read) : 0 ≤ read := by
  cases v with
  | number number =>
      simp only [bigIntOf] at known
      split at known
      · rename_i shaped
        simp only [Bool.and_eq_true, decide_eq_true_eq] at shaped
        cases known
        exact shaped.2
      · cases known
  | string text =>
      simp only [bigIntOf] at known
      split at known
      · cases known
        exact Int.natCast_nonneg _
      · cases known
  | _ => cases known

theorem u64_eq_ok {v : Value} {field : String} {read : Int} (parsed : u64 v field = .ok read) :
    ∃ n : UInt64, read = n.toNat := by
  rw [u64] at parsed
  cases known : bigIntOf v with
  | none =>
      rw [known] at parsed
      cases parsed
  | some value =>
      have lower := bigIntOf_nonneg known
      simp only [known] at parsed
      split at parsed
      · cases parsed
      · rename_i upper
        have same : value = read := Except.ok.inj parsed
        subst same
        refine ⟨UInt64.ofNat value.toNat, ?_⟩
        rw [UInt64.toNat_ofNat', Nat.mod_eq_of_lt (by omega), Int.toNat_of_nonneg lower]

theorem contract_eq_ok (documented : strKey.Documented) {v : Value} {field : String} {read : Text}
    (parsed : contract strKey v field = .ok read) :
    ∃ id : Bytes32, PerchJs.SpellsContract read (.contract id) := by
  cases v with
  | string text =>
      simp only [contract] at parsed
      split at parsed
      · rename_i valid
        cases parsed
        obtain ⟨id, spelled⟩ := (documented.isValidContract_iff _).mp valid
        exact ⟨id, id, rfl, spelled⟩
      · cases parsed
  | _ => cases parsed

theorem parseAttempt_represents {s : Value} {fields : AttemptFields}
    (parsed : parseAttempt s = .ok fields) :
    ∃ subject : Recovery.AttemptSubject, fields.Represents subject := by
  simp only [parseAttempt, bind_eq_ok, pure_eq_ok] at parsed
  obtain ⟨id, idRead, source, sourceRead, target, targetRead, set, setRead, rfl⟩ := parsed
  obtain ⟨id, rfl⟩ := u64_eq_ok idRead
  obtain ⟨source, rfl⟩ := bytes32_eq_ok sourceRead
  obtain ⟨target, rfl⟩ := bytes32_eq_ok targetRead
  obtain ⟨set, rfl⟩ := bytes32_eq_ok setRead
  exact ⟨⟨id, source, target, set⟩, rfl⟩

theorem parseSubject_represents {action : Option RecoveryAction} {s : Value}
    {js : StatementSubject} (parsed : parseSubject action s = .ok js) :
    ∃ subject : Recovery.StatementSubject, js.Represents subject := by
  cases action with
  | none => cases parsed
  | some action =>
      cases action with
      | lostKey =>
          simp only [parseSubject, bind_eq_ok, pure_eq_ok] at parsed
          obtain ⟨fields, read, rfl⟩ := parsed
          obtain ⟨subject, same⟩ := parseAttempt_represents read
          exact ⟨.lostKey subject, fields, rfl, same⟩
      | compromise =>
          simp only [parseSubject, bind_eq_ok, pure_eq_ok] at parsed
          obtain ⟨fields, read, rfl⟩ := parsed
          obtain ⟨subject, same⟩ := parseAttempt_represents read
          exact ⟨.compromise subject, fields, rfl, same⟩
      | cancel =>
          simp only [parseSubject, bind_eq_ok, pure_eq_ok] at parsed
          obtain ⟨id, idRead, hash, hashRead, rfl⟩ := parsed
          obtain ⟨id, rfl⟩ := u64_eq_ok idRead
          obtain ⟨hash, rfl⟩ := bytes32_eq_ok hashRead
          exact ⟨.cancel ⟨id, hash⟩, rfl⟩
      | reconfigure =>
          simp only [parseSubject] at parsed
          split at parsed
          · cases parsed
            exact ⟨.reconfigure .remove, rfl⟩
          · split at parsed
            · simp only [bind_eq_ok, pure_eq_ok] at parsed
              obtain ⟨hash, hashRead, rfl⟩ := parsed
              obtain ⟨hash, rfl⟩ := bytes32_eq_ok hashRead
              exact ⟨.reconfigure (.set hash), rfl⟩
            · cases parsed
      | upgrade =>
          simp only [parseSubject, bind_eq_ok, pure_eq_ok] at parsed
          obtain ⟨id, idRead, hash, hashRead, rfl⟩ := parsed
          obtain ⟨id, rfl⟩ := u64_eq_ok idRead
          obtain ⟨hash, rfl⟩ := bytes32_eq_ok hashRead
          exact ⟨.upgrade ⟨id, hash⟩, rfl⟩

/-- Whatever the relay reads as a statement is one the controller has. -/
theorem parseStatement_represents (documented : strKey.Documented) {json : Value}
    {js : RecoveryStatement} (parsed : parseStatement strKey json = .ok js) :
    ∃ statement : Recovery.RecoveryStatement, js.Represents statement := by
  simp only [parseStatement, bind_eq_ok, pure_eq_ok, require_eq_ok] at parsed
  obtain ⟨_, _, _, _, subject, subjectRead, network, networkRead, account, accountRead, controller,
    controllerRead, epoch, epochRead, hash, hashRead, delay, delayRead, expiry, expiryRead, limit,
    limitRead, rfl⟩ := parsed
  obtain ⟨subject, same⟩ := parseSubject_represents subjectRead
  obtain ⟨network, rfl⟩ := bytes32_eq_ok networkRead
  obtain ⟨account, accountSpelled⟩ := contract_eq_ok documented accountRead
  obtain ⟨controller, controllerSpelled⟩ := contract_eq_ok documented controllerRead
  obtain ⟨epoch, rfl⟩ := u64_eq_ok epochRead
  obtain ⟨hash, rfl⟩ := bytes32_eq_ok hashRead
  obtain ⟨delay, rfl⟩ := u32_eq_ok delayRead
  obtain ⟨expiry, rfl⟩ := u32_eq_ok expiryRead
  obtain ⟨limit, rfl⟩ := u32_eq_ok limitRead
  exact ⟨⟨network, .contract account, .contract controller, ⟨epoch, hash⟩,
      ⟨delay, expiry, limit⟩, subject⟩,
    { networkId := rfl
      account := accountSpelled
      controller := controllerSpelled
      epoch := rfl
      configHash := rfl
      delayLedgers := rfl
      expiryLedgers := rfl
      validUntilLedger := rfl
      subject := same }⟩

/-- Every statement of two contracts can be held by the wallet and the relay;
what they then encode is what the controller does, and what the relay writes
as JSON reads back. -/
theorem statement_encoders_agree (documented : strKey.Documented)
    {statement : Recovery.RecoveryStatement} {account controller : Bytes32}
    (isAccount : statement.account = .contract account)
    (isController : statement.controller = .contract controller) :
    (∃ js : RecoveryStatement, js.Represents statement) ∧
      ∀ js : RecoveryStatement, js.Represents statement →
        (∃ encoded, statement.encode = .ok encoded ∧ PerchJs.encodeStatement js = .ok encoded ∧
          encodeStatement strKey js = .ok encoded) ∧
        parseStatement strKey (statementJson js) = .ok js := by
  constructor
  · exact PerchJs.exists_represents_iff.mpr ⟨account, controller, isAccount, isController⟩
  · intro js same
    obtain ⟨encoded, encodes, wallet⟩ := same.encodeStatement_eq
    exact ⟨⟨encoded, encodes, wallet, encodeStatement_eq documented same encodes⟩,
      parseStatement_statementJson documented same⟩

def walletStrKey : StrKey where
  isValidContract text :=
    match PerchJs.addressPayload text with
    | .ok (.contract, _) => true
    | _ => false
  decodeContract text :=
    match PerchJs.contractId text with
    | .ok id => .ok id
    | .error _ => .error (utf16 "invalid version byte")

theorem walletStrKey_documented : walletStrKey.Documented where
  isValidContract_iff text := by
    constructor
    · intro valid
      simp only [walletStrKey] at valid
      split at valid
      next payload decoded =>
        obtain ⟨size, spelled⟩ := PerchJs.addressPayload_eq_ok.mp decoded
        exact ⟨⟨payload, size⟩, spelled⟩
      next => cases valid
    · rintro ⟨id, rfl⟩
      have decoded := PerchJs.addressPayload_strkey .contract id.size
      change (match PerchJs.addressPayload (ascii (strkey PerchJs.AddressTag.contract.version
        id.bytes)) with
        | .ok (.contract, _) => true
        | _ => false) = true
      rw [decoded]
  decodeContract_strkey id := by
    simp only [walletStrKey, PerchJs.contractId_strkey id.size]

/-- An upgrade whose request id and epoch are past what a number holds exactly. -/
def sampleStatement : Recovery.RecoveryStatement where
  networkId := ⟨List.replicate 32 1, by decide⟩
  account := .contract ⟨List.replicate 32 2, by decide⟩
  controller := .contract ⟨List.replicate 32 3, by decide⟩
  config := { epoch := 0xFFFFFFFFFFFFFFFF, configHash := ⟨List.replicate 32 4, by decide⟩ }
  timing := { delayLedgers := 100, expiryLedgers := 500, validUntilLedger := 0xFFFFFFFF }
  subject := .upgrade
    { requestId := 9007199254740993, wasmHash := ⟨List.replicate 32 5, by decide⟩ }

theorem statement_encoders_agree_past_safe_integers :
    (∃ js : RecoveryStatement, js.Represents sampleStatement) ∧
      ∀ js : RecoveryStatement, js.Represents sampleStatement →
        (∃ encoded, sampleStatement.encode = .ok encoded ∧
          PerchJs.encodeStatement js = .ok encoded ∧
          encodeStatement walletStrKey js = .ok encoded) ∧
        parseStatement walletStrKey (statementJson js) = .ok js :=
  statement_encoders_agree walletStrKey_documented rfl rfl

end Perch.PerchRelay
