/-
Credentials and replacement sets as the wallet encodes them.

The wallet orders ids by the bytes it will write, and refuses a list that is
not in that order.  Its sort gives that order or finds an id twice.
-/

import Perch.Machine.Lists
import Perch.Machine.Utf8
import Perch.PerchJs.Statement
import Perch.Recovery.Encoding

namespace Perch.PerchJs

open Machine Machine.Js Document

inductive Credential
  | delegated (address : Text)
  | external (verifier : Text) (key : Bytes)
deriving DecidableEq

structure Replacement where
  signerId : Text
  credential : Credential
deriving DecidableEq

structure ZkEnrollment where
  id : Bytes
  commitment : Bytes
deriving DecidableEq

structure ReplacementSet where
  signers : List Replacement
  zkEnrollment : Option ZkEnrollment
deriving DecidableEq

inductive ReplacementFailure
  | codec (failure : Failure)
  | notAscending
  | repeatedId (signerId : Text)
deriving DecidableEq

def ReplacementFailure.message (numberText : Number → Text) : ReplacementFailure → Text
  | codec failure => failure.message numberText
  | notAscending => utf16 "replacement ids must be strictly ascending"
  | repeatedId signerId => utf16 "repeated replacement id " ++ signerId

def encodeCredential : Credential → Except Failure Bytes
  | .delegated address => do
      let (tag, payload) ← addressPayload address
      pure (((Writer.empty.u8 1).u8 tag.code).bytes payload).done
  | .external verifier key => do
      let (tag, payload) ← addressPayload verifier
      let w ← (((Writer.empty.u8 2).u8 tag.code).bytes payload).u32 (Number.ofNat key.length)
      pure (w.bytes key).done

/-- The first bytes that differ decide, then the lengths. -/
def lessThan : Bytes → Bytes → Bool
  | x :: a, y :: b => if x ≠ y then x < y else lessThan a b
  | a, b => a.length < b.length

def compareIds (a b : Bytes) : Int :=
  if lessThan a b = true then -1 else if lessThan b a = true then 1 else 0

/-- The first item that does not follow the one before it. -/
def firstRepeat : List (Replacement × Bytes) → Option Replacement
  | first :: second :: rest =>
      if lessThan first.2 second.2 = true then firstRepeat (second :: rest) else some second.1
  | _ => none

/-- The replacements in the order of their ids' bytes; `Array.sort` is stable. -/
def sortedReplacements (signers : List Replacement) : List (Replacement × Bytes) :=
  (signers.map fun s => (s, encodeText s.signerId)).mergeSort fun a b => compareIds a.2 b.2 ≤ 0

def sortReplacements (r : ReplacementSet) : Except ReplacementFailure ReplacementSet :=
  match firstRepeat (sortedReplacements r.signers) with
  | some s => .error (.repeatedId s.signerId)
  | none => .ok { r with signers := (sortedReplacements r.signers).map (·.1) }

def writeReplacements (w : Writer) (previous : Option Bytes) :
    List Replacement → Except ReplacementFailure Writer
  | [] => .ok w
  | r :: rest => do
      let id := encodeText r.signerId
      require (∀ p ∈ previous, lessThan p id = true) .notAscending
      let w ← (w.u32 (Number.ofNat id.length)).mapError .codec
      let credential ← (encodeCredential r.credential).mapError .codec
      writeReplacements ((w.bytes id).bytes credential) (some id) rest

def encodeReplacementSet (r : ReplacementSet) : Except ReplacementFailure Bytes := do
  let w ← (Writer.empty.u32 (Number.ofNat r.signers.length)).mapError .codec
  let w ← writeReplacements w none r.signers
  match r.zkEnrollment with
  | some z => do
      let w ← ((w.u8 1).sized z.id 32).mapError .codec
      let w ← (w.sized z.commitment 32).mapError .codec
      pure w.done
  | none => pure (w.u8 0).done

/-! ### The set a wallet's set stands for -/

/-- An address, and its strkey; a text that is no `G...` or `C...` strkey is
for an address of another kind. -/
def SpellsAddress (text : Text) : Address → Prop
  | .account key => text = ascii (strkey accountVersion key.bytes)
  | .contract id => text = ascii (strkey contractVersion id.bytes)
  | .other _ => ∀ (tag : AddressTag) (payload : Bytes), payload.length = 32 →
      text ≠ ascii (strkey tag.version payload)

inductive Credential.Represents : Credential → Recovery.Credential → Prop
  | delegated {text : Text} {address : Address} (spelled : SpellsAddress text address) :
      Credential.Represents (.delegated text) (.delegated address)
  | external {text : Text} {verifier : Address} {key : Bytes}
      (spelled : SpellsAddress text verifier) :
      Credential.Represents (.external text key) (.external verifier key)

structure Replacement.Represents (js : Replacement) (r : Recovery.Replacement) : Prop where
  signerId : r.signerId = encodeText js.signerId
  credential : js.credential.Represents r.credential

structure ReplacementSet.Represents (js : ReplacementSet) (set : Recovery.ReplacementSet) :
    Prop where
  signers : List.Forall₂ Replacement.Represents js.signers set.signers
  zkEnrollment : set.zkEnrollment.map (fun z => ZkEnrollment.mk z.id.bytes z.commitment.bytes) =
    js.zkEnrollment.toList

/-! ### Order -/

theorem lessThan_eq (a b : Bytes) : lessThan a b = Recovery.bytesLt a b := by
  induction a generalizing b with
  | nil => cases b <;> simp [lessThan, Recovery.bytesLt]
  | cons x a ih =>
      cases b with
      | nil => simp [lessThan, Recovery.bytesLt]
      | cons y b => rw [lessThan, Recovery.bytesLt, ih]

theorem compareIds_le {a b : Bytes} :
    compareIds a b ≤ 0 ↔ Recovery.bytesLt b a = false := by
  unfold compareIds
  rw [lessThan_eq, lessThan_eq]
  by_cases below : Recovery.bytesLt a b = true
  · simp [below, Recovery.bytesLt_asymm below]
  · by_cases above : Recovery.bytesLt b a = true
    · simp [below, above]
    · simp [below, above]

theorem firstRepeat_eq_none {keyed : List (Replacement × Bytes)} :
    firstRepeat keyed = none ↔
      (keyed.map (·.2)).IsChain fun a b => Recovery.bytesLt a b = true := by
  induction keyed with
  | nil => exact ⟨fun _ => .nil, fun _ => rfl⟩
  | cons first rest ih =>
      cases rest with
      | nil => exact ⟨fun _ => .singleton _, fun _ => rfl⟩
      | cons second rest =>
          rw [firstRepeat, List.map_cons, List.map_cons, List.isChain_cons_cons, ← lessThan_eq]
          by_cases follows : lessThan first.2 second.2 = true
          · rw [if_pos follows, ih, List.map_cons]
            exact ⟨fun chain => ⟨follows, chain⟩, fun chain => chain.2⟩
          · rw [if_neg follows]
            exact ⟨(nomatch ·), fun chain => absurd chain.1 follows⟩

theorem firstRepeat_mem {keyed : List (Replacement × Bytes)} {s : Replacement}
    (found : firstRepeat keyed = some s) : s ∈ keyed.map (·.1) := by
  induction keyed with
  | nil => cases found
  | cons first rest ih =>
      cases rest with
      | nil => cases found
      | cons second rest =>
          rw [firstRepeat] at found
          split at found
          · exact List.mem_cons_of_mem _ (ih found)
          · cases found
            exact List.mem_cons_of_mem _ List.mem_cons_self

/-! ### Sorting -/

theorem sortedReplacements_perm (signers : List Replacement) :
    ((sortedReplacements signers).map (·.1)).Perm signers := by
  have sorted := (List.mergeSort_perm (signers.map fun s => (s, encodeText s.signerId))
    fun a b => compareIds a.2 b.2 ≤ 0).map (·.1)
  rw [List.map_map] at sorted
  have same : ((fun item : Replacement × Bytes => item.1) ∘
      fun s : Replacement => (s, encodeText s.signerId)) = id := rfl
  rw [same, List.map_id] at sorted
  exact sorted

theorem sortedReplacements_keys (signers : List Replacement) :
    (sortedReplacements signers).map (·.2) =
      ((sortedReplacements signers).map (·.1)).map fun s => encodeText s.signerId := by
  rw [List.map_map]
  apply List.map_congr_left
  intro item member
  have keyed := (List.mergeSort_perm _ _).mem_iff.mp member
  obtain ⟨s, -, rfl⟩ := List.mem_map.mp keyed
  rfl

theorem compareIds_trans (a b c : Replacement × Bytes)
    (first : decide (compareIds a.2 b.2 ≤ 0) = true)
    (second : decide (compareIds b.2 c.2 ≤ 0) = true) :
    decide (compareIds a.2 c.2 ≤ 0) = true := by
  rw [decide_eq_true_eq, compareIds_le, Bool.eq_false_iff] at first second ⊢
  intro above
  rcases Recovery.bytesLt_trichotomy c.2 b.2 with below | same | follows
  · exact second below
  · rw [same] at above
    exact first above
  · exact first (Recovery.bytesLt_trans follows above)

theorem compareIds_total (a b : Replacement × Bytes) :
    (decide (compareIds a.2 b.2 ≤ 0) || decide (compareIds b.2 a.2 ≤ 0)) = true := by
  rw [Bool.or_eq_true, decide_eq_true_eq, decide_eq_true_eq, compareIds_le, compareIds_le]
  by_cases above : Recovery.bytesLt b.2 a.2 = true
  · exact .inr (Recovery.bytesLt_asymm above)
  · exact .inl (Bool.eq_false_iff.mpr above)

theorem sortedReplacements_pairwise (signers : List Replacement) :
    ((sortedReplacements signers).map (·.2)).Pairwise fun a b => Recovery.bytesLt b a = false := by
  rw [List.pairwise_map]
  have sorted : (sortedReplacements signers).Pairwise fun a b =>
      decide (compareIds a.2 b.2 ≤ 0) = true := by
    apply List.pairwise_mergeSort
    · exact compareIds_trans
    · exact compareIds_total
  refine sorted.imp ?_
  intro a b ordered
  exact compareIds_le.mp (of_decide_eq_true ordered)

/-- Ids that differ are put in the order the encoding asks for; an id that
occurs twice is refused. -/
theorem sortReplacements_spec (r : ReplacementSet) :
    ((r.signers.map fun s => encodeText s.signerId).Nodup ∧
      ∃ out, sortReplacements r = .ok out ∧ out.signers.Perm r.signers ∧
        out.zkEnrollment = r.zkEnrollment ∧
        Recovery.IdsAscend (out.signers.map fun s => encodeText s.signerId)) ∨
    (¬(r.signers.map fun s => encodeText s.signerId).Nodup ∧
      ∃ s ∈ r.signers, sortReplacements r = .error (.repeatedId s.signerId)) := by
  have shuffled := sortedReplacements_perm r.signers
  have ids := shuffled.map fun s => encodeText s.signerId
  rw [← sortedReplacements_keys] at ids
  by_cases distinct : (r.signers.map fun s => encodeText s.signerId).Nodup
  · left
    refine ⟨distinct, ?_⟩
    have ascend : Recovery.IdsAscend ((sortedReplacements r.signers).map (·.2)) := by
      have different := ids.nodup_iff.mpr distinct
      refine (sortedReplacements_pairwise r.signers).imp₂ ?_ different
      intro a b notAbove apart
      rcases Recovery.bytesLt_trichotomy a b with below | same | above
      · exact below
      · exact absurd same apart
      · rw [above] at notAbove
        cases notAbove
    have kept := firstRepeat_eq_none.mpr (Recovery.idsAscend_iff.mp ascend)
    refine ⟨{ r with signers := (sortedReplacements r.signers).map (·.1) },
      by rw [sortReplacements, kept], shuffled, rfl, ?_⟩
    rw [sortedReplacements_keys] at ascend
    exact ascend
  · right
    refine ⟨distinct, ?_⟩
    cases found : firstRepeat (sortedReplacements r.signers) with
    | none =>
        have ascend := Recovery.idsAscend_iff.mpr (firstRepeat_eq_none.mp found)
        refine absurd (ids.nodup_iff.mp ?_) distinct
        refine ascend.imp ?_
        rintro a _ below rfl
        rw [Recovery.bytesLt_irrefl] at below
        cases below
    | some s =>
        refine ⟨s, ?_, by rw [sortReplacements, found]⟩
        exact shuffled.mem_iff.mp (firstRepeat_mem found)

/-! ### Encoding -/

theorem Number.within_ofNat_iff {n : Nat} (high : Nat) :
    (Number.ofNat n).within 0 high = true ↔ n ≤ high := by
  simp [Number.ofNat, Number.within]

theorem Writer.u32_eq_ok {w w' : Writer} {n : Nat} :
    w.u32 (Number.ofNat n) = .ok w' ↔ n < 2 ^ 32 ∧ w' = w.bytes (beBytes 4 n) := by
  have inside : (Number.ofNat n).within 0 0xFFFFFFFF = true ↔ n < 2 ^ 32 := by
    refine (Number.within_ofNat_iff 0xFFFFFFFF).trans ?_
    omega
  unfold Writer.u32
  rw [Number.isInteger_ofNat, Bool.true_and, Number.truncated_ofNat]
  by_cases small : n < 2 ^ 32
  · rw [if_pos (inside.mpr small), wrapped_of_lt (by omega), Except.ok.injEq, eq_comm]
    exact ⟨fun same => ⟨small, same⟩, fun both => both.2⟩
  · rw [if_neg (fun within => small (inside.mp within))]
    exact ⟨(nomatch ·), fun both => absurd both.1 small⟩

theorem Writer.sized_eq_ok {w w' : Writer} {b : Bytes} {len : Nat} :
    w.sized b len = .ok w' ↔ b.length = len ∧ w' = w.bytes b := by
  unfold Writer.sized
  by_cases size : b.length = len
  · rw [if_neg (not_not.mpr size), Except.ok.injEq, eq_comm]
    exact ⟨fun same => ⟨size, same⟩, fun both => both.2⟩
  · rw [if_pos size]
    exact ⟨(nomatch ·), fun both => absurd both.1 size⟩

theorem SpellsAddress.account_payload {text : Text} {key : Bytes32}
    (spelled : SpellsAddress text (.account key)) :
    addressPayload text = .ok (.account, key.bytes) := by
  have spelling : text = ascii (strkey AddressTag.account.version key.bytes) := spelled
  rw [spelling]
  exact addressPayload_strkey .account key.size

theorem SpellsAddress.contract_payload {text : Text} {id : Bytes32}
    (spelled : SpellsAddress text (.contract id)) :
    addressPayload text = .ok (.contract, id.bytes) := by
  have spelling : text = ascii (strkey AddressTag.contract.version id.bytes) := spelled
  rw [spelling]
  exact addressPayload_strkey .contract id.size

/-- The wallet reads the tagged address the contracts hold. -/
theorem SpellsAddress.tagged {text : Text} {address : Address}
    (spelled : SpellsAddress text address) {tagged : Bytes} :
    (∃ tag payload, addressPayload text = .ok (tag, payload) ∧ tag.code :: payload = tagged) ↔
      taggedAddress address = some tagged := by
  constructor
  · rintro ⟨tag, payload, decoded, rfl⟩
    cases address with
    | account key =>
        rw [spelled.account_payload] at decoded
        cases decoded
        rfl
    | contract id =>
        rw [spelled.contract_payload] at decoded
        cases decoded
        rfl
    | other xdr =>
        obtain ⟨size, same⟩ := addressPayload_eq_ok.mp decoded
        exact absurd same (spelled tag payload size)
  · intro supported
    cases address with
    | account key =>
        cases supported
        exact ⟨.account, key.bytes, spelled.account_payload, rfl⟩
    | contract id =>
        cases supported
        exact ⟨.contract, id.bytes, spelled.contract_payload, rfl⟩
    | other xdr => cases supported

theorem Credential.Represents.encode_eq {js : Credential} {credential : Recovery.Credential}
    (same : js.Represents credential) (sized : credential.Sized) {encoded : Bytes} :
    encodeCredential js = .ok encoded ↔ credential.encode = .ok encoded := by
  rw [Recovery.Credential.encode_eq_ok]
  cases same with
  | delegated spelled =>
      simp only [encodeCredential, bind_eq_ok, pure_eq_ok, Prod.exists, Writer.done_bytes,
        Writer.done_u8, Writer.done_empty, Recovery.Credential.address, ← spelled.tagged]
      constructor
      · rintro ⟨tag, payload, decoded, rfl⟩
        exact ⟨_, ⟨tag, payload, decoded, rfl⟩, rfl⟩
      · rintro ⟨_, ⟨tag, payload, decoded, rfl⟩, rfl⟩
        exact ⟨tag, payload, decoded, rfl⟩
  | external spelled =>
      have sized : _ < 2 ^ 32 := sized
      simp only [encodeCredential, bind_eq_ok, pure_eq_ok, Prod.exists, Writer.u32_eq_ok, sized,
        true_and, Recovery.Credential.address, ← spelled.tagged]
      constructor
      · rintro ⟨tag, payload, decoded, _, rfl, rfl⟩
        refine ⟨_, ⟨tag, payload, decoded, rfl⟩, ?_⟩
        simp only [Writer.done_bytes, Writer.done_u8, Writer.done_empty, List.append_assoc]
        rfl
      · rintro ⟨_, ⟨tag, payload, decoded, rfl⟩, rfl⟩
        refine ⟨tag, payload, decoded, _, rfl, ?_⟩
        simp only [Writer.done_bytes, Writer.done_u8, Writer.done_empty, List.append_assoc]
        rfl

theorem writeReplacements_iff {js : List Replacement} {replacements : List Recovery.Replacement}
    (same : List.Forall₂ Replacement.Represents js replacements)
    (sized : ∀ r ∈ replacements, r.Sized) {w : Writer} {previous : Option Bytes} {out : Bytes} :
    (∃ w', writeReplacements w previous js = .ok w' ∧ w'.done = out) ↔
      ∃ body, Recovery.encodeReplacements previous replacements = .ok body ∧
        w.done ++ body = out := by
  induction same generalizing w previous out with
  | nil =>
      simp only [writeReplacements, Recovery.encodeReplacements, Except.ok.injEq, pure_eq_ok,
        exists_eq_left', List.append_nil]
  | @cons first r rest replacements head _ ih =>
      rw [List.forall_mem_cons] at sized
      obtain ⟨⟨short, sizedCredential⟩, sized⟩ := sized
      rw [head.signerId] at short
      simp only [writeReplacements, Recovery.encodeReplacements, bind_eq_ok, require_eq_ok,
        mapError_eq_ok, Writer.u32_eq_ok, head.credential.encode_eq sizedCredential, pure_eq_ok,
        short, true_and, lessThan_eq, head.signerId]
      constructor
      · rintro ⟨w', ⟨_, follows, _, rfl, credential, encodes, written⟩, rfl⟩
        obtain ⟨body, listed, done⟩ := (ih sized).mp ⟨w', written, rfl⟩
        refine ⟨_, ⟨(), follows, credential, encodes, body, listed, rfl⟩, ?_⟩
        rw [← done]
        simp only [Writer.done_bytes, List.append_assoc]
      · rintro ⟨_, ⟨_, follows, credential, encodes, body, listed, rfl⟩, rfl⟩
        obtain ⟨w', written, done⟩ := (ih sized
          (w := (((w.bytes (beBytes 4 (encodeText first.signerId).length)).bytes
            (encodeText first.signerId)).bytes credential))).mpr ⟨body, listed, rfl⟩
        refine ⟨w', ⟨(), follows, _, rfl, credential, encodes, written⟩, ?_⟩
        rw [done]
        simp only [Writer.done_bytes, List.append_assoc]

theorem ReplacementSet.Represents.encode_eq {js : ReplacementSet} {set : Recovery.ReplacementSet}
    (same : js.Represents set) (sized : set.Sized) {encoded : Bytes} :
    encodeReplacementSet js = .ok encoded ↔ set.encode = .ok encoded := by
  obtain ⟨signers, enrollment⟩ := js
  obtain ⟨replacements, enrollments⟩ := set
  obtain ⟨listed, enrolled⟩ := same
  change List.Forall₂ _ signers replacements at listed
  obtain ⟨few, sized⟩ := sized
  change replacements.length < 2 ^ 32 at few
  have count : signers.length = replacements.length := listed.length_eq
  have written : ∀ out, (∃ w', writeReplacements
        (Writer.empty.bytes (beBytes 4 signers.length)) none signers = .ok w' ∧ w'.done = out) ↔
      ∃ body, Recovery.encodeReplacements none replacements = .ok body ∧
        beBytes 4 replacements.length ++ body = out := by
    intro out
    rw [writeReplacements_iff listed sized, Writer.done_bytes, Writer.done_empty, count]
    rfl
  cases enrollment with
  | none =>
      obtain rfl : enrollments = [] := List.map_eq_nil_iff.mp enrolled
      simp only [encodeReplacementSet, Recovery.ReplacementSet.encode, bind_eq_ok, mapError_eq_ok,
        Writer.u32_eq_ok, pure_eq_ok, count, few, true_and, Writer.done_u8]
      constructor
      · rintro ⟨_, rfl, w', write, rfl⟩
        rw [← count] at write
        obtain ⟨body, encodes, done⟩ := (written _).mp ⟨w', write, rfl⟩
        exact ⟨body, encodes, _, rfl, by rw [done]⟩
      · rintro ⟨body, encodes, _, rfl, rfl⟩
        obtain ⟨w', write, done⟩ := (written _).mpr ⟨body, encodes, rfl⟩
        rw [count] at write
        exact ⟨_, rfl, w', write, by rw [done]⟩
  | some z =>
      obtain ⟨e, rfl, rfl⟩ : ∃ e : Recovery.ZkEnrollment, enrollments = [e] ∧
          z = ⟨e.id.bytes, e.commitment.bytes⟩ := by
        obtain ⟨e, rest, rfl, found, none⟩ := List.map_eq_cons_iff.mp enrolled
        exact ⟨e, by rw [List.map_eq_nil_iff.mp none], found.symm⟩
      simp only [encodeReplacementSet, Recovery.ReplacementSet.encode, bind_eq_ok, mapError_eq_ok,
        Writer.u32_eq_ok, Writer.sized_eq_ok, pure_eq_ok, count, few, true_and, e.id.size,
        e.commitment.size]
      constructor
      · rintro ⟨_, rfl, w', write, _, rfl, _, rfl, rfl⟩
        rw [← count] at write
        obtain ⟨body, encodes, done⟩ := (written _).mp ⟨w', write, rfl⟩
        refine ⟨body, encodes, _, rfl, ?_⟩
        rw [done]
        simp only [Writer.done_bytes, Writer.done_u8, List.append_assoc, List.cons_append,
          List.nil_append]
      · rintro ⟨body, encodes, _, rfl, rfl⟩
        obtain ⟨w', write, done⟩ := (written _).mpr ⟨body, encodes, rfl⟩
        rw [count] at write
        refine ⟨_, rfl, w', write, _, rfl, _, rfl, ?_⟩
        simp only [Writer.done_bytes, Writer.done_u8, done, List.append_assoc, List.cons_append,
          List.nil_append]

/-! ### Which sets there are -/

theorem exists_spelled (text : Text) : ∃ address, SpellsAddress text address := by
  cases decoded : addressPayload text with
  | ok read =>
      obtain ⟨tag, payload⟩ := read
      obtain ⟨size, rfl⟩ := addressPayload_eq_ok.mp decoded
      cases tag with
      | account => exact ⟨.account ⟨payload, size⟩, rfl⟩
      | contract => exact ⟨.contract ⟨payload, size⟩, rfl⟩
  | error failure =>
      refine ⟨.other [], fun tag payload size same => ?_⟩
      rw [addressPayload_eq_ok.mpr ⟨size, same⟩] at decoded
      cases decoded

theorem exists_text {address : Address} (supported : (taggedAddress address).isSome = true) :
    ∃ text, SpellsAddress text address := by
  cases address with
  | account key => exact ⟨_, rfl⟩
  | contract id => exact ⟨_, rfl⟩
  | other xdr => cases supported

theorem exists_credential (js : Credential) : ∃ credential, js.Represents credential := by
  cases js with
  | delegated text =>
      obtain ⟨address, spelled⟩ := exists_spelled text
      exact ⟨_, .delegated spelled⟩
  | external text key =>
      obtain ⟨address, spelled⟩ := exists_spelled text
      exact ⟨_, .external spelled⟩

theorem writeReplacements_represents {js : List Replacement} {w w' : Writer}
    {previous : Option Bytes} (written : writeReplacements w previous js = .ok w') :
    ∃ replacements, List.Forall₂ Replacement.Represents js replacements ∧
      ∀ r ∈ replacements, r.Sized := by
  induction js generalizing w previous with
  | nil => exact ⟨[], .nil, fun r member => absurd member List.not_mem_nil⟩
  | cons first rest ih =>
      simp only [writeReplacements, bind_eq_ok, require_eq_ok, mapError_eq_ok,
        Writer.u32_eq_ok] at written
      obtain ⟨_, -, _, ⟨short, rfl⟩, encoded, encodes, written⟩ := written
      obtain ⟨replacements, listed, sized⟩ := ih written
      obtain ⟨credential, represents⟩ := exists_credential first.credential
      have sizedCredential : credential.Sized := by
        generalize first.credential = js at represents encodes
        cases represents with
        | delegated => exact trivial
        | external spelled =>
            simp only [encodeCredential, bind_eq_ok, Prod.exists, Writer.u32_eq_ok] at encodes
            obtain ⟨_, _, _, _, ⟨fits, -⟩, -⟩ := encodes
            exact fits
      refine ⟨⟨encodeText first.signerId, credential⟩ :: replacements,
        .cons ⟨rfl, represents⟩ listed, ?_⟩
      rw [List.forall_mem_cons]
      exact ⟨⟨short, sizedCredential⟩, sized⟩

/-- What the wallet encodes is a set of the contracts'. -/
theorem encodeReplacementSet_represents {js : ReplacementSet} {encoded : Bytes}
    (encodes : encodeReplacementSet js = .ok encoded) :
    ∃ set, js.Represents set ∧ set.Sized := by
  simp only [encodeReplacementSet, bind_eq_ok, mapError_eq_ok, Writer.u32_eq_ok] at encodes
  obtain ⟨_, ⟨few, rfl⟩, w, written, enrolled⟩ := encodes
  obtain ⟨replacements, listed, sized⟩ := writeReplacements_represents written
  have count := listed.length_eq
  rw [count] at few
  obtain ⟨signers, enrollment⟩ := js
  cases enrollment with
  | none => exact ⟨⟨replacements, []⟩, ⟨listed, rfl⟩, few, sized⟩
  | some z =>
      simp only [bind_eq_ok, mapError_eq_ok, Writer.sized_eq_ok] at enrolled
      obtain ⟨_, ⟨idSize, -⟩, _, ⟨commitmentSize, -⟩, -⟩ := enrolled
      exact ⟨⟨replacements, [⟨⟨z.id, idSize⟩, ⟨z.commitment, commitmentSize⟩⟩]⟩, ⟨listed, rfl⟩, few,
        sized⟩

/-- What the contracts encode under text ids is a set of the wallet's. -/
theorem exists_represents {set : Recovery.ReplacementSet} {encoded : Bytes}
    (encodes : set.encode = .ok encoded)
    (textual : ∀ r ∈ set.signers, (Utf8.decode r.signerId).isSome = true) :
    ∃ js : ReplacementSet, js.Represents set := by
  obtain ⟨-, supported, once⟩ := Recovery.ReplacementSet.encode_accepts.mp ⟨encoded, encodes⟩
  have each : ∀ r ∈ set.signers, ∃ js : Replacement, js.Represents r := by
    intro r member
    obtain ⟨s, decoded⟩ := Option.isSome_iff_exists.mp (textual r member)
    have spelled : r.signerId = encodeText (utf16 s) := by
      rw [encodeText_utf16, Utf8.encode_decode decoded]
    obtain ⟨text, spells⟩ := exists_text (supported r member)
    cases credential : r.credential with
    | delegated address =>
        rw [credential] at spells
        refine ⟨⟨utf16 s, .delegated text⟩, spelled, ?_⟩
        rw [credential]
        exact .delegated spells
    | external verifier key =>
        rw [credential] at spells
        refine ⟨⟨utf16 s, .external text key⟩, spelled, ?_⟩
        rw [credential]
        exact .external spells
  obtain ⟨signers, enrollments⟩ := set
  obtain ⟨js, listed⟩ := exists_aligned each
  match enrollments, once with
  | [], _ => exact ⟨⟨js, none⟩, listed, rfl⟩
  | [z], _ => exact ⟨⟨js, some ⟨z.id.bytes, z.commitment.bytes⟩⟩, listed, rfl⟩
  | _ :: _ :: _, once => exact absurd once (by simp)

theorem codec_avoids {α : Type} (computed : Except Failure α) :
    Avoids (· = ReplacementFailure.notAscending) (computed.mapError .codec) :=
  Avoids.mapError fun _ => nofun

theorem writeReplacements_avoids {signers : List Replacement} {w : Writer}
    {previous : Option Bytes}
    (ascend : (previous.toList ++ signers.map fun s => encodeText s.signerId).IsChain
      fun a b => Recovery.bytesLt a b = true) :
    Avoids (· = ReplacementFailure.notAscending) (writeReplacements w previous signers) := by
  induction signers generalizing w previous with
  | nil => exact Avoids.ok w
  | cons first rest ih =>
      have follows : (∀ p ∈ previous, lessThan p (encodeText first.signerId) = true) ∧
          (encodeText first.signerId :: rest.map fun s => encodeText s.signerId).IsChain
            fun a b => Recovery.bytesLt a b = true := by
        cases previous with
        | none => exact ⟨nofun, ascend⟩
        | some p =>
            obtain ⟨below, chain⟩ := List.isChain_cons_cons.mp ascend
            refine ⟨fun q same => ?_, chain⟩
            cases same
            rw [lessThan_eq]
            exact below
      apply Avoids.bind
      · exact Avoids.require fun unmet => absurd follows.1 unmet
      · intro _ _
        apply Avoids.bind (codec_avoids _)
        intro w _
        apply Avoids.bind (codec_avoids _)
        intro credential _
        exact ih follows.2

theorem encodeReplacementSet_ascending {js : ReplacementSet}
    (ascend : Recovery.IdsAscend (js.signers.map fun s => encodeText s.signerId)) :
    encodeReplacementSet js ≠ .error .notAscending := by
  suffices avoids : Avoids (· = ReplacementFailure.notAscending) (encodeReplacementSet js) from
    fun refused => avoids _ refused rfl
  have chain := Recovery.idsAscend_iff.mp ascend
  apply Avoids.bind (codec_avoids _)
  intro w _
  apply Avoids.bind
  · exact writeReplacements_avoids chain
  intro w _
  cases js.zkEnrollment with
  | none => exact Avoids.pure _
  | some z =>
      apply Avoids.bind (codec_avoids _)
      intro w _
      apply Avoids.bind (codec_avoids _)
      intro w _
      exact Avoids.pure _

/-- Encodings of credentials and replacement sets are uniquely decodable, a set
is refused exactly for its order, an address or a second enrollment, and the
wallet encodes the same sets the same way and sorts them into that order. -/
theorem replacement_encodings :
    (∀ (first second : Recovery.Credential) (a b : Bytes), first.Sized → second.Sized →
        first.encode = .ok a → second.encode = .ok b → a <+: b → first = second) ∧
    (∀ credential : Recovery.Credential, (∃ a, credential.encode = .ok a) ↔
        ∃ payload, credential.address = .account payload ∨
          credential.address = .contract payload) ∧
    (∀ (first second : Recovery.ReplacementSet) (a : Bytes), first.Sized → second.Sized →
        first.encode = .ok a → second.encode = .ok a → first = second) ∧
    (∀ set : Recovery.ReplacementSet, (∃ failure, set.encode = .error failure) ↔
        ¬Recovery.IdsAscend set.ids ∨
          (∃ r ∈ set.signers, taggedAddress r.credential.address = none) ∨
          1 < set.zkEnrollment.length) ∧
    ((∀ a b, Recovery.bytesLt a b = true ↔ a < b) ∧
      (∀ a, Recovery.bytesLt a a = false) ∧
      (∀ a b c, Recovery.bytesLt a b = true → Recovery.bytesLt b c = true →
        Recovery.bytesLt a c = true) ∧
      ∀ a b, Recovery.bytesLt a b = true ∨ a = b ∨ Recovery.bytesLt b a = true) ∧
    (∀ (js : ReplacementSet) (set : Recovery.ReplacementSet), js.Represents set → set.Sized →
        ∀ encoded, encodeReplacementSet js = .ok encoded ↔ set.encode = .ok encoded) ∧
    (∀ (js : ReplacementSet) (encoded : Bytes), encodeReplacementSet js = .ok encoded →
        ∃ set, js.Represents set ∧ set.Sized) ∧
    (∀ (set : Recovery.ReplacementSet) (encoded : Bytes), set.encode = .ok encoded →
        (∀ r ∈ set.signers, (Utf8.decode r.signerId).isSome = true) →
        ∃ js : ReplacementSet, js.Represents set) ∧
    ∀ js : ReplacementSet,
      ((js.signers.map fun s => encodeText s.signerId).Nodup ∧
        ∃ out, sortReplacements js = .ok out ∧ out.signers.Perm js.signers ∧
          out.zkEnrollment = js.zkEnrollment ∧
          Recovery.IdsAscend (out.signers.map fun s => encodeText s.signerId) ∧
          encodeReplacementSet out ≠ .error .notAscending) ∨
      (¬(js.signers.map fun s => encodeText s.signerId).Nodup ∧
        ∃ s ∈ js.signers, sortReplacements js = .error (.repeatedId s.signerId)) := by
  refine ⟨?_, ?_, ?_, ?_, ⟨fun a b => Recovery.bytesLt_iff, Recovery.bytesLt_irrefl,
    fun a b c => Recovery.bytesLt_trans, Recovery.bytesLt_trichotomy⟩, ?_, ?_, ?_, ?_⟩
  · intro first second a b sized sized' encodes encodes' initial
    exact (Recovery.Credential.coded_prefixFree.of_isPrefix ⟨sized, encodes⟩ ⟨sized', encodes'⟩
      initial).1
  · intro credential
    rw [Recovery.Credential.encode_supported]
    cases credential.address with
    | account key => exact ⟨fun _ => ⟨key, .inl rfl⟩, fun _ => rfl⟩
    | contract id => exact ⟨fun _ => ⟨id, .inr rfl⟩, fun _ => rfl⟩
    | other xdr =>
        refine ⟨(nomatch ·), ?_⟩
        rintro ⟨_, known | known⟩
        · cases known
        · cases known
  · intro first second a sized sized' encodes encodes'
    exact Recovery.ReplacementSet.encode_prefixFree.injective ⟨sized, encodes⟩ ⟨sized', encodes'⟩
  · intro set
    have refused : (∃ failure, set.encode = .error failure) ↔
        ¬∃ encoded, set.encode = .ok encoded := by
      cases set.encode <;> simp
    rw [refused, Recovery.ReplacementSet.encode_accepts, not_and_or, not_and_or, not_le]
    simp only [not_forall, exists_prop, Option.not_isSome_iff_eq_none]
  · intro js set same sized encoded
    exact same.encode_eq sized
  · intro js encoded encodes
    exact encodeReplacementSet_represents encodes
  · intro set encoded encodes textual
    exact exists_represents encodes textual
  · intro js
    rcases sortReplacements_spec js
        with ⟨distinct, out, sorts, shuffled, enrolled, ascend⟩ | repeats
    · exact .inl ⟨distinct, out, sorts, shuffled, enrolled, ascend,
        encodeReplacementSet_ascending ascend⟩
    · exact .inr repeats

/-- The first two ids are in the order of UTF-16 units, not in that of bytes. -/
def unsortedReplacements : ReplacementSet where
  signers :=
    [⟨utf16 "😀", .delegated (utf16 "G")⟩, ⟨utf16 "ﬀ", .external (utf16 "C") [1, 2]⟩,
      ⟨utf16 "a", .delegated (utf16 "G")⟩]
  zkEnrollment := none

theorem replacement_encodings_sample : ∃ out,
    sortReplacements unsortedReplacements = .ok out ∧
      out.signers.Perm unsortedReplacements.signers ∧
      Recovery.IdsAscend (out.signers.map fun s => encodeText s.signerId) := by
  obtain ⟨_, _, _, _, _, _, _, _, sorted⟩ := replacement_encodings
  rcases sorted unsortedReplacements with ⟨_, out, sorts, shuffled, _, ascend, _⟩ | ⟨repeated, _⟩
  · exact ⟨out, sorts, shuffled, ascend⟩
  · exact absurd (by decide +kernel) repeated

end Perch.PerchJs
