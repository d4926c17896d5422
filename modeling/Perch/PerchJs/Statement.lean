/-
The recovery statement as a guardian's wallet builds it.

The wallet recomputes the bytes a digest stands for rather than trust the
digest it is handed.  Every field is checked for its width before it is
written, and anything that does not fit is refused.
-/

import Perch.PerchJs.Strkey
import Perch.Recovery.Statement

namespace Perch.PerchJs

open Machine Machine.Js Document

structure AttemptFields where
  attemptId : Int
  sourceDocHash : Bytes
  targetDocHash : Bytes
  replacementsHash : Bytes
deriving DecidableEq

inductive ConfigChange
  | set (hash : Bytes)
  | remove
deriving DecidableEq

inductive StatementSubject
  | lostKey (fields : AttemptFields)
  | compromise (fields : AttemptFields)
  | cancel (attemptId : Int) (attemptStatement : Bytes)
  | reconfigure (change : ConfigChange)
  | upgrade (requestId : Int) (wasmHash : Bytes)
deriving DecidableEq

/-- Ids are `bigint`s, timings are numbers, and addresses are texts. -/
structure RecoveryStatement where
  networkId : Bytes
  account : Text
  controller : Text
  epoch : Int
  configHash : Bytes
  delayLedgers : Number
  expiryLedgers : Number
  validUntilLedger : Number
  subject : StatementSubject
deriving DecidableEq

def StatementSubject.action : StatementSubject → Recovery.RecoveryAction
  | .lostKey _ => .lostKey
  | .compromise _ => .compromise
  | .cancel _ _ => .cancel
  | .reconfigure _ => .reconfigure
  | .upgrade _ _ => .upgrade

def statementDomain : Text := utf16 "perch/recovery/statement"

def statementVersion : UInt8 := 2

def actionCode : Recovery.RecoveryAction → UInt8
  | .lostKey => 1
  | .compromise => 2
  | .cancel => 3
  | .reconfigure => 4
  | .upgrade => 5

/-! ### Writing -/

structure Writer where
  parts : List Bytes

namespace Writer

def empty : Writer := ⟨[]⟩

def bytes (w : Writer) (b : Bytes) : Writer := ⟨w.parts ++ [b]⟩

def sized (w : Writer) (b : Bytes) (len : Nat) : Except Failure Writer :=
  if b.length ≠ len then .error (.wrongLength len b.length) else .ok (w.bytes b)

def u8 (w : Writer) (v : UInt8) : Writer := w.bytes [v]

def u32 (w : Writer) (v : Number) : Except Failure Writer :=
  if v.isInteger && v.within 0 0xFFFFFFFF then
    .ok (w.bytes (beBytes 4 (wrapped 4 v.truncated)))
  else .error (.notU32 v)

def u64 (w : Writer) (v : Int) : Except Failure Writer :=
  if v < 0 ∨ 2 ^ 64 ≤ v then .error (.notU64 v) else .ok (w.bytes (beBytes 8 (wrapped 8 v)))

def done (w : Writer) : Bytes := w.parts.flatten

@[simp] theorem done_empty : empty.done = [] := rfl

@[simp] theorem done_bytes (w : Writer) (b : Bytes) : (w.bytes b).done = w.done ++ b := by
  simp [done, bytes]

@[simp] theorem done_u8 (w : Writer) (v : UInt8) : (w.u8 v).done = w.done ++ [v] :=
  done_bytes w [v]

theorem sized_of_length {w : Writer} {b : Bytes} {len : Nat} (size : b.length = len) :
    w.sized b len = .ok (w.bytes b) := if_neg (not_not.mpr size)

theorem u32_ofNat (w : Writer) (n : UInt32) :
    w.u32 (Number.ofNat n.toNat) = .ok (w.bytes (beBytes 4 n.toNat)) := by
  have fits := n.toNat_lt
  have inside : (Number.ofNat n.toNat).within 0 0xFFFFFFFF = true :=
    Number.within_ofNat (show n.toNat ≤ 0xFFFFFFFF by omega)
  rw [u32, Number.isInteger_ofNat, inside, Number.truncated_ofNat, wrapped_of_lt (by omega)]
  rfl

theorem u64_natCast (w : Writer) (n : UInt64) :
    w.u64 n.toNat = .ok (w.bytes (beBytes 8 n.toNat)) := by
  have fits := n.toNat_lt
  rw [u64, wrapped_of_lt (by omega), if_neg (by omega)]

end Writer

def encodeAttempt (w : Writer) (fields : AttemptFields) : Except Failure Writer := do
  let w ← w.u64 fields.attemptId
  let w ← w.sized fields.sourceDocHash 32
  let w ← w.sized fields.targetDocHash 32
  w.sized fields.replacementsHash 32

def encodeSubject (w : Writer) : StatementSubject → Except Failure Writer
  | .lostKey fields | .compromise fields => encodeAttempt w fields
  | .cancel attemptId attemptStatement => do
      let w ← w.u64 attemptId
      w.sized attemptStatement 32
  | .reconfigure .remove => .ok ((w.u8 0).bytes (List.replicate 32 0))
  | .reconfigure (.set hash) => (w.u8 1).sized hash 32
  | .upgrade requestId wasmHash => do
      let w ← w.u64 requestId
      w.sized wasmHash 32

def encodeStatement (s : RecoveryStatement) : Except Failure Bytes := do
  let w := ((Writer.empty.bytes (encodeText statementDomain)).u8 statementVersion).u8
    (actionCode s.subject.action)
  let w ← w.sized s.networkId 32
  let w ← w.sized (← contractId s.account) 32
  let w ← w.sized (← contractId s.controller) 32
  let w ← w.u64 s.epoch
  let w ← w.sized s.configHash 32
  let w ← w.u32 s.delayLedgers
  let w ← w.u32 s.expiryLedgers
  let w ← w.u32 s.validUntilLedger
  let w ← encodeSubject w s.subject
  pure w.done

/-! ### The statement a wallet's statement stands for -/

def AttemptFields.Represents (fields : AttemptFields) (subject : Recovery.AttemptSubject) : Prop :=
  fields = { attemptId := subject.attemptId.toNat
             sourceDocHash := subject.sourceDocHash.bytes
             targetDocHash := subject.targetDocHash.bytes
             replacementsHash := subject.replacementsHash.bytes }

def StatementSubject.Represents (js : StatementSubject) : Recovery.StatementSubject → Prop
  | .lostKey subject => ∃ fields : AttemptFields, js = .lostKey fields ∧ fields.Represents subject
  | .compromise subject =>
      ∃ fields : AttemptFields, js = .compromise fields ∧ fields.Represents subject
  | .cancel subject => js = .cancel subject.attemptId.toNat subject.attemptStatement.bytes
  | .reconfigure .remove => js = .reconfigure .remove
  | .reconfigure (.set hash) => js = .reconfigure (.set hash.bytes)
  | .upgrade subject => js = .upgrade subject.requestId.toNat subject.wasmHash.bytes

def SpellsContract (text : Text) (address : Address) : Prop :=
  ∃ id : Bytes32, address = .contract id ∧ text = ascii (strkey contractVersion id.bytes)

/-- One statement, as the wallet and the relay hold it and as the controller does. -/
structure RecoveryStatement.Represents (js : RecoveryStatement)
    (statement : Recovery.RecoveryStatement) : Prop where
  networkId : js.networkId = statement.networkId.bytes
  account : SpellsContract js.account statement.account
  controller : SpellsContract js.controller statement.controller
  epoch : js.epoch = statement.config.epoch.toNat
  configHash : js.configHash = statement.config.configHash.bytes
  delayLedgers : js.delayLedgers = Number.ofNat statement.timing.delayLedgers.toNat
  expiryLedgers : js.expiryLedgers = Number.ofNat statement.timing.expiryLedgers.toNat
  validUntilLedger : js.validUntilLedger = Number.ofNat statement.timing.validUntilLedger.toNat
  subject : js.subject.Represents statement.subject

/-- Exactly the statements of two contracts can be held on all sides. -/
theorem exists_represents_iff {statement : Recovery.RecoveryStatement} :
    (∃ js : RecoveryStatement, js.Represents statement) ↔
      ∃ account controller, statement.account = .contract account ∧
        statement.controller = .contract controller := by
  constructor
  · rintro ⟨js, same⟩
    obtain ⟨account, isAccount, _⟩ := same.account
    obtain ⟨controller, isController, _⟩ := same.controller
    exact ⟨account, controller, isAccount, isController⟩
  · rintro ⟨account, controller, isAccount, isController⟩
    have subject : ∃ js : StatementSubject, js.Represents statement.subject := by
      cases statement.subject with
      | lostKey subject => exact ⟨_, _, rfl, rfl⟩
      | compromise subject => exact ⟨_, _, rfl, rfl⟩
      | cancel subject => exact ⟨_, rfl⟩
      | reconfigure change =>
          cases change with
          | remove => exact ⟨_, rfl⟩
          | set hash => exact ⟨_, rfl⟩
      | upgrade subject => exact ⟨_, rfl⟩
    obtain ⟨js, represents⟩ := subject
    exact ⟨{ networkId := _, account := _, controller := _, epoch := _, configHash := _,
             delayLedgers := _, expiryLedgers := _, validUntilLedger := _, subject := js },
      { networkId := rfl
        account := ⟨account, isAccount, rfl⟩
        controller := ⟨controller, isController, rfl⟩
        epoch := rfl
        configHash := rfl
        delayLedgers := rfl
        expiryLedgers := rfl
        validUntilLedger := rfl
        subject := represents }⟩

theorem SpellsContract.contractId_eq {text : Text} {address : Address}
    (spelled : SpellsContract text address) :
    ∃ id : Bytes32, Perch.contractId address = some id ∧ contractId text = .ok id.bytes := by
  obtain ⟨id, rfl, rfl⟩ := spelled
  exact ⟨id, rfl, contractId_strkey id.size⟩

theorem StatementSubject.Represents.action_eq {js : StatementSubject}
    {subject : Recovery.StatementSubject} (same : js.Represents subject) :
    js.action = subject.action := by
  cases subject with
  | lostKey subject =>
      obtain ⟨fields, rfl, _⟩ := same
      rfl
  | compromise subject =>
      obtain ⟨fields, rfl, _⟩ := same
      rfl
  | cancel subject =>
      cases same
      rfl
  | reconfigure change =>
      cases change <;> cases same <;> rfl
  | upgrade subject =>
      cases same
      rfl

theorem encodeAttempt_eq (w : Writer) {fields : AttemptFields} {subject : Recovery.AttemptSubject}
    (same : fields.Represents subject) :
    ∃ w', encodeAttempt w fields = .ok w' ∧ w'.done = w.done ++ subject.encode := by
  cases same
  simp only [encodeAttempt, Writer.u64_natCast, ok_bind, Writer.sized_of_length (BytesN.size _)]
  refine ⟨_, rfl, ?_⟩
  simp only [Writer.done_bytes, Recovery.AttemptSubject.encode, List.append_assoc]

theorem encodeSubject_eq (w : Writer) {js : StatementSubject}
    {subject : Recovery.StatementSubject} (same : js.Represents subject) :
    ∃ w', encodeSubject w js = .ok w' ∧ w'.done = w.done ++ subject.encode := by
  cases subject with
  | lostKey subject =>
      obtain ⟨fields, rfl, same⟩ := same
      exact encodeAttempt_eq w same
  | compromise subject =>
      obtain ⟨fields, rfl, same⟩ := same
      exact encodeAttempt_eq w same
  | cancel subject =>
      cases same
      simp only [encodeSubject, Writer.u64_natCast, ok_bind, Writer.sized_of_length (BytesN.size _)]
      refine ⟨_, rfl, ?_⟩
      simp only [Writer.done_bytes, Recovery.StatementSubject.encode, List.append_assoc]
  | reconfigure change =>
      cases change with
      | remove =>
          cases same
          refine ⟨_, rfl, ?_⟩
          simp only [Writer.done_bytes, Writer.done_u8, List.append_assoc]
          rfl
      | set hash =>
          cases same
          simp only [encodeSubject, Writer.sized_of_length (BytesN.size _)]
          refine ⟨_, rfl, ?_⟩
          simp only [Writer.done_bytes, Writer.done_u8, List.append_assoc]
          rfl
  | upgrade subject =>
      cases same
      simp only [encodeSubject, Writer.u64_natCast, ok_bind, Writer.sized_of_length (BytesN.size _)]
      refine ⟨_, rfl, ?_⟩
      simp only [Writer.done_bytes, Recovery.StatementSubject.encode, List.append_assoc]

theorem RecoveryStatement.Represents.encodeStatement_eq {js : RecoveryStatement}
    {statement : Recovery.RecoveryStatement} (same : js.Represents statement) :
    ∃ encoded, statement.encode = .ok encoded ∧ encodeStatement js = .ok encoded := by
  obtain ⟨account, accountId, accountRead⟩ := same.account.contractId_eq
  obtain ⟨controller, controllerId, controllerRead⟩ := same.controller.contractId_eq
  have domain : encodeText statementDomain = Recovery.statementDomain := encodeText_utf16 _
  have code : actionCode js.subject.action = statement.action.code := by
    rw [same.subject.action_eq]
    rfl
  refine ⟨_, by rw [Recovery.RecoveryStatement.encode, accountId, controllerId]; rfl, ?_⟩
  simp only [encodeStatement, accountRead, controllerRead, same.networkId, same.epoch,
    same.configHash, same.delayLedgers, same.expiryLedgers, same.validUntilLedger,
    Writer.u64_natCast, Writer.u32_ofNat, Writer.sized_of_length (BytesN.size _), ok_bind]
  obtain ⟨w, written, bytes⟩ := encodeSubject_eq _ same.subject
  rw [written, ok_bind, pure_eq_ok, bytes]
  simp only [Writer.done_bytes, Writer.done_u8, Writer.done_empty, domain, code,
    List.append_assoc, List.nil_append]
  rfl

end Perch.PerchJs
