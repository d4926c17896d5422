/-
The recovery statement: what every piece of evidence is bound to.

The encoding is fixed-width per action, and the action byte selects the
subject layout, so two statements with one encoding are equal.  The digest is
SHA-256 of the encoding.
-/

import Perch.Machine.BigEndian
import Perch.Machine.Fallible
import Perch.Recovery.Interface

namespace Perch.Recovery

open Machine

def statementDomain : Bytes := "perch/recovery/statement".toUTF8.data.toList

def statementVersion : UInt8 := 2

def RecoveryAction.code : RecoveryAction → UInt8
  | .lostKey => 1
  | .compromise => 2
  | .cancel => 3
  | .reconfigure => 4
  | .upgrade => 5

def StatementSubject.action : StatementSubject → RecoveryAction
  | .lostKey _ => .lostKey
  | .compromise _ => .compromise
  | .cancel _ => .cancel
  | .reconfigure _ => .reconfigure
  | .upgrade _ => .upgrade

def RecoveryStatement.action (statement : RecoveryStatement) : RecoveryAction :=
  statement.subject.action

def AttemptSubject.encode (subject : AttemptSubject) : Bytes :=
  beBytes 8 subject.attemptId.toNat ++ subject.sourceDocHash.bytes ++
    subject.targetDocHash.bytes ++ subject.replacementsHash.bytes

def StatementSubject.encode : StatementSubject → Bytes
  | .lostKey subject | .compromise subject => subject.encode
  | .cancel subject => beBytes 8 subject.attemptId.toNat ++ subject.attemptStatement.bytes
  | .reconfigure .remove => 0 :: List.replicate 32 0
  | .reconfigure (.set hash) => 1 :: hash.bytes
  | .upgrade subject => beBytes 8 subject.requestId.toNat ++ subject.wasmHash.bytes

def RecoveryStatement.encode (statement : RecoveryStatement) : Except StatementError Bytes := do
  let account ← orFail (contractId statement.account) .accountNotContract
  let controller ← orFail (contractId statement.controller) .controllerNotContract
  pure (statementDomain ++ [statementVersion, statement.action.code] ++
    statement.networkId.bytes ++ account.bytes ++ controller.bytes ++
    beBytes 8 statement.config.epoch.toNat ++ statement.config.configHash.bytes ++
    beBytes 4 statement.timing.delayLedgers.toNat ++
    beBytes 4 statement.timing.expiryLedgers.toNat ++
    beBytes 4 statement.timing.validUntilLedger.toNat ++ statement.subject.encode)

def RecoveryStatement.digest (sha256 : Sha256) (statement : RecoveryStatement) :
    Except StatementError Bytes32 := do
  let encoded ← statement.encode
  pure (sha256 encoded)

/-- Evidence is acceptable through `validUntilLedger`; a bound the provider
chose may also reach no further than `expiryLedgers` past `now`. -/
def RecoveryStatement.checkFresh (statement : RecoveryStatement) (now : UInt32) :
    Except StatementError Unit := do
  let limit := statement.timing.validUntilLedger
  require (now ≤ limit) .evidenceExpired
  let providerChosen := statement.action = .reconfigure ∨ statement.action = .upgrade
  require (¬(providerChosen ∧ statement.timing.expiryLedgers < limit - now)) .evidenceWindowTooLong

/-! ### Injectivity of the encoding -/

private theorem append_pieces {left right leftRest rightRest : Bytes}
    (widths : left.length = right.length)
    (same : left ++ leftRest = right ++ rightRest) : left = right ∧ leftRest = rightRest :=
  List.append_inj same widths

private theorem bytesN_pieces {n : Nat} {left right : BytesN n} {leftRest rightRest : Bytes}
    (same : left.bytes ++ leftRest = right.bytes ++ rightRest) :
    left = right ∧ leftRest = rightRest := by
  obtain ⟨head, tail⟩ := append_pieces (left.size.trans right.size.symm) same
  exact ⟨BytesN.ext_bytes head, tail⟩

private theorem uint64_pieces {left right : UInt64} {leftRest rightRest : Bytes}
    (same : beBytes 8 left.toNat ++ leftRest = beBytes 8 right.toNat ++ rightRest) :
    left = right ∧ leftRest = rightRest := by
  obtain ⟨head, tail⟩ := append_pieces (by simp) same
  exact ⟨beBytes_uint64_injective head, tail⟩

private theorem uint32_pieces {left right : UInt32} {leftRest rightRest : Bytes}
    (same : beBytes 4 left.toNat ++ leftRest = beBytes 4 right.toNat ++ rightRest) :
    left = right ∧ leftRest = rightRest := by
  obtain ⟨head, tail⟩ := append_pieces (by simp) same
  exact ⟨beBytes_uint32_injective head, tail⟩

theorem RecoveryAction.code_injective {left right : RecoveryAction}
    (same : left.code = right.code) : left = right := by
  cases left <;> cases right <;> first | rfl | exact absurd same (by decide)

theorem AttemptSubject.encode_injective {left right : AttemptSubject}
    (same : left.encode = right.encode) : left = right := by
  cases left
  cases right
  simp only [AttemptSubject.encode, List.append_assoc] at same
  obtain ⟨ids, same⟩ := uint64_pieces same
  obtain ⟨sources, same⟩ := bytesN_pieces same
  obtain ⟨targets, same⟩ := bytesN_pieces same
  have replacements := BytesN.ext_bytes same
  subst ids sources targets replacements
  rfl

theorem StatementSubject.encode_injective {left right : StatementSubject}
    (actions : left.action = right.action) (same : left.encode = right.encode) :
    left = right := by
  cases left with
  | lostKey subject =>
      cases right with
      | lostKey other => exact congrArg _ (AttemptSubject.encode_injective same)
      | _ => cases actions
  | compromise subject =>
      cases right with
      | compromise other => exact congrArg _ (AttemptSubject.encode_injective same)
      | _ => cases actions
  | cancel subject =>
      cases right with
      | cancel other =>
          cases subject
          cases other
          obtain ⟨ids, same⟩ := uint64_pieces same
          have hashes := BytesN.ext_bytes same
          subst ids hashes
          rfl
      | _ => cases actions
  | reconfigure change =>
      cases right with
      | reconfigure other =>
          cases change <;> cases other <;>
            simp only [StatementSubject.encode, List.cons.injEq] at same
          · rfl
          · exact absurd same.1 (by decide)
          · exact absurd same.1 (by decide)
          · cases BytesN.ext_bytes same.2
            rfl
      | _ => cases actions
  | upgrade subject =>
      cases right with
      | upgrade other =>
          cases subject
          cases other
          obtain ⟨ids, same⟩ := uint64_pieces same
          have hashes := BytesN.ext_bytes same
          subst ids hashes
          rfl
      | _ => cases actions

/-- The canonical encoding determines the statement. -/
theorem RecoveryStatement.encode_injective {left right : RecoveryStatement} {encoded : Bytes}
    (leftEncodes : left.encode = .ok encoded) (rightEncodes : right.encode = .ok encoded) :
    left = right := by
  obtain ⟨network, account, controller, ⟨epoch, hash⟩, ⟨delay, expiry, limit⟩, subject⟩ := left
  obtain ⟨network', account', controller', ⟨epoch', hash'⟩, ⟨delay', expiry', limit'⟩, subject'⟩ :=
    right
  simp only [encode, bind_eq_ok, orFail_eq_ok, contractId_eq_some, pure_eq_ok]
    at leftEncodes rightEncodes
  obtain ⟨accountId, rfl, controllerId, rfl, rfl⟩ := leftEncodes
  obtain ⟨accountId', rfl, controllerId', rfl, same⟩ := rightEncodes
  simp only [List.append_assoc, List.append_cancel_left_eq, List.cons_append, List.nil_append,
    List.cons.injEq, true_and] at same
  obtain ⟨actions, same⟩ := same
  obtain ⟨networks, same⟩ := bytesN_pieces same
  obtain ⟨accounts, same⟩ := bytesN_pieces same
  obtain ⟨controllers, same⟩ := bytesN_pieces same
  obtain ⟨epochs, same⟩ := uint64_pieces same
  obtain ⟨hashes, same⟩ := bytesN_pieces same
  obtain ⟨delays, same⟩ := uint32_pieces same
  obtain ⟨expiries, same⟩ := uint32_pieces same
  obtain ⟨limits, same⟩ := uint32_pieces same
  have subjects :=
    StatementSubject.encode_injective (RecoveryAction.code_injective actions) same
  change subject' = subject at subjects
  subst networks accounts controllers epochs hashes delays expiries limits subjects
  rfl

/-! ### Freshness -/

theorem RecoveryStatement.checkFresh_eq_ok {statement : RecoveryStatement} {now : UInt32} :
    statement.checkFresh now = .ok () ↔
      now ≤ statement.timing.validUntilLedger ∧
        (statement.action = .reconfigure ∨ statement.action = .upgrade →
          statement.timing.validUntilLedger.toNat ≤
            now.toNat + statement.timing.expiryLedgers.toNat) := by
  simp only [checkFresh, bind_eq_ok, require_eq_ok, exists_const, not_and]
  apply and_congr_right
  intro fresh
  have window : statement.timing.expiryLedgers < statement.timing.validUntilLedger - now ↔
      now.toNat + statement.timing.expiryLedgers.toNat <
        statement.timing.validUntilLedger.toNat := by
    rw [UInt32.lt_iff_toNat_lt, UInt32.toNat_sub_of_le _ _ fresh]
    have order := UInt32.le_iff_toNat_le.mp fresh
    omega
  simp only [window, not_lt]

end Perch.Recovery
