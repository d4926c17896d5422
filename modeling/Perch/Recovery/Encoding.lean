/-
How credentials and replacement sets are told apart by their encodings.

A credential says its own length, and a set says how many replacements it has,
so no encoding continues another.  The order a set's ids are in is the only
order its encoder takes.
-/

import Perch.Machine.PrefixFree
import Perch.Recovery.Credential

namespace Perch.Recovery

open Machine

/-! ### Order -/

theorem bytesLt_iff {a b : Bytes} : bytesLt a b = true ↔ a < b := by
  induction a generalizing b with
  | nil =>
      cases b with
      | nil => simp [bytesLt]
      | cons y b => simp [bytesLt]
  | cons x a ih =>
      cases b with
      | nil => simp [bytesLt]
      | cons y b =>
          rw [bytesLt, List.cons_lt_cons_iff]
          by_cases same : x = y
          · subst same
            rw [if_neg (not_not.mpr rfl), ih]
            simp [UInt8.lt_irrefl]
          · simp [same]

theorem bytesLt_trans {a b c : Bytes} (first : bytesLt a b = true) (second : bytesLt b c = true) :
    bytesLt a c = true :=
  bytesLt_iff.mpr (List.lt_trans (bytesLt_iff.mp first) (bytesLt_iff.mp second))

theorem bytesLt_irrefl (a : Bytes) : bytesLt a a = false := by
  rw [Bool.eq_false_iff, Ne, bytesLt_iff]
  exact List.lt_irrefl a

theorem bytesLt_asymm {a b : Bytes} (below : bytesLt a b = true) : bytesLt b a = false := by
  rw [Bool.eq_false_iff]
  intro above
  have cycle := bytesLt_trans below above
  rw [bytesLt_irrefl] at cycle
  cases cycle

theorem bytesLt_trichotomy (a b : Bytes) : bytesLt a b = true ∨ a = b ∨ bytesLt b a = true := by
  rw [bytesLt_iff, bytesLt_iff]
  by_cases below : a < b
  · exact .inl below
  · by_cases above : b < a
    · exact .inr (.inr above)
    · exact .inr (.inl (List.le_antisymm (List.not_lt.mp above) (List.not_lt.mp below)))

instance : Trans (fun a b : Bytes => bytesLt a b = true) (fun a b : Bytes => bytesLt a b = true)
    (fun a b : Bytes => bytesLt a b = true) := ⟨bytesLt_trans⟩

def IdsAscend (ids : List Bytes) : Prop := ids.Pairwise fun a b => bytesLt a b = true

theorem idsAscend_iff {ids : List Bytes} :
    IdsAscend ids ↔ ids.IsChain fun a b => bytesLt a b = true :=
  List.isChain_iff_pairwise.symm

/-! ### Credentials -/

def Credential.Sized : Credential → Prop
  | .delegated _ => True
  | .external _ key => key.length < 2 ^ 32

def Credential.address : Credential → Address
  | .delegated address => address
  | .external verifier _ => verifier

theorem taggedAddress_prefixFree :
    PrefixFree fun (address : Address) (a : Bytes) => taggedAddress address = some a := by
  apply PrefixFree.of_length 33
  · intro address a tagged
    cases address with
    | account key =>
        cases tagged
        exact congrArg (· + 1) key.size
    | contract id =>
        cases tagged
        exact congrArg (· + 1) id.size
    | other => cases tagged
  · intro first second a tagged tagged'
    cases first with
    | account key =>
        cases tagged
        cases second with
        | account key' =>
            have bytes := (List.cons.inj (Option.some.inj tagged')).2
            rw [BytesN.ext_bytes bytes]
        | contract => exact absurd (List.cons.inj (Option.some.inj tagged')).1 (by decide)
        | other => cases tagged'
    | contract id =>
        cases tagged
        cases second with
        | account => exact absurd (List.cons.inj (Option.some.inj tagged')).1 (by decide)
        | contract id' =>
            have bytes := (List.cons.inj (Option.some.inj tagged')).2
            rw [BytesN.ext_bytes bytes]
        | other => cases tagged'
    | other => cases tagged

theorem Credential.encode_eq_ok {credential : Credential} {encoded : Bytes} :
    credential.encode = .ok encoded ↔
      ∃ tagged, taggedAddress credential.address = some tagged ∧
        (match credential with
          | .delegated _ => 1 :: tagged
          | .external _ key => 2 :: (tagged ++ (beBytes 4 key.length ++ key))) = encoded := by
  cases credential with
  | delegated address =>
      simp only [Credential.encode, bind_eq_ok, orFail_eq_ok, pure_eq_ok, Credential.address]
  | external verifier key =>
      simp only [Credential.encode, bind_eq_ok, orFail_eq_ok, pure_eq_ok, Credential.address,
        List.append_assoc, List.cons_append]

theorem Credential.encode_supported {credential : Credential} :
    (∃ encoded, credential.encode = .ok encoded) ↔
      (taggedAddress credential.address).isSome = true := by
  rw [Option.isSome_iff_exists]
  constructor
  · rintro ⟨encoded, encodes⟩
    obtain ⟨tagged, supported, -⟩ := Credential.encode_eq_ok.mp encodes
    exact ⟨tagged, supported⟩
  · rintro ⟨tagged, supported⟩
    exact ⟨_, Credential.encode_eq_ok.mpr ⟨tagged, supported, rfl⟩⟩

def Credential.Coded (credential : Credential) (a : Bytes) : Prop :=
  credential.Sized ∧ credential.encode = .ok a

theorem Credential.coded_prefixFree : PrefixFree Credential.Coded := by
  rintro x y a b s t ⟨sized, encodes⟩ ⟨sized', encodes'⟩ same
  obtain ⟨tagged, supported, rfl⟩ := Credential.encode_eq_ok.mp encodes
  obtain ⟨tagged', supported', rfl⟩ := Credential.encode_eq_ok.mp encodes'
  cases x with
  | delegated address =>
      cases y with
      | external => exact absurd (List.cons.inj same).1 (by decide)
      | delegated other =>
          obtain ⟨addresses, words, rest⟩ :=
            taggedAddress_prefixFree supported supported' (List.cons.inj same).2
          have addresses : address = other := addresses
          subst addresses words
          exact ⟨rfl, rfl, rest⟩
  | external verifier key =>
      cases y with
      | delegated => exact absurd (List.cons.inj same).1 (by decide)
      | external other key' =>
          have tails := (List.cons.inj same).2
          change tagged ++ (beBytes 4 key.length ++ key) ++ s =
            tagged' ++ (beBytes 4 key'.length ++ key') ++ t at tails
          rw [List.append_assoc tagged, List.append_assoc tagged'] at tails
          obtain ⟨verifiers, words, tails⟩ := taggedAddress_prefixFree supported supported' tails
          obtain ⟨keys, -, rest⟩ :=
            framed_prefixFree 4 (x := key) (y := key') ⟨sized, rfl⟩ ⟨sized', rfl⟩ tails
          have verifiers : verifier = other := verifiers
          subst verifiers words keys
          exact ⟨rfl, rfl, rest⟩

/-! ### Replacement sets -/

def Replacement.Sized (r : Replacement) : Prop :=
  r.signerId.length < 2 ^ 32 ∧ r.credential.Sized

def Replacement.Coded (r : Replacement) (a : Bytes) : Prop :=
  ∃ credential, r.credential.encode = .ok credential ∧
    a = beBytes 4 r.signerId.length ++ r.signerId ++ credential

def ReplacementSet.Sized (set : ReplacementSet) : Prop :=
  set.signers.length < 2 ^ 32 ∧ ∀ r ∈ set.signers, r.Sized

def EnrollmentCoded : List ZkEnrollment → Bytes → Prop
  | [], a => a = [0]
  | [z], a => a = 1 :: z.id.bytes ++ z.commitment.bytes
  | _, _ => False

def ReplacementSet.ids (set : ReplacementSet) : List Bytes := set.signers.map (·.signerId)

theorem encodeReplacements_eq_ok {replacements : List Replacement} {prev : Option Bytes}
    {body : Bytes} :
    encodeReplacements prev replacements = .ok body ↔
      (prev.toList ++ replacements.map (·.signerId)).IsChain (fun a b => bytesLt a b = true) ∧
        Repeated Replacement.Coded replacements body := by
  induction replacements generalizing prev body with
  | nil =>
      rw [repeated_nil, encodeReplacements, pure_eq_ok]
      cases prev with
      | none => exact ⟨fun same => ⟨.nil, same.symm⟩, fun coded => coded.2.symm⟩
      | some p => exact ⟨fun same => ⟨.singleton p, same.symm⟩, fun coded => coded.2.symm⟩
  | cons r rest ih =>
      have chained : (prev.toList ++ (r :: rest).map (·.signerId)).IsChain
            (fun a b => bytesLt a b = true) ↔
          (∀ p ∈ prev, bytesLt p r.signerId = true) ∧
            (r.signerId :: rest.map (·.signerId)).IsChain (fun a b => bytesLt a b = true) := by
        cases prev with
        | none => simp
        | some p => simp [List.isChain_cons_cons]
      rw [chained, repeated_cons]
      simp only [encodeReplacements, bind_eq_ok, require_eq_ok, pure_eq_ok, ih]
      constructor
      · rintro ⟨_, follows, credential, encodes, tail, ⟨ascend, repeated⟩, rfl⟩
        exact ⟨⟨follows, ascend⟩, _, tail, ⟨credential, encodes, rfl⟩, repeated, rfl⟩
      · rintro ⟨⟨follows, ascend⟩, _, tail, ⟨credential, encodes, rfl⟩, repeated, rfl⟩
        exact ⟨(), follows, credential, encodes, tail, ⟨ascend, repeated⟩, rfl⟩

theorem ReplacementSet.encode_eq_ok {set : ReplacementSet} {encoded : Bytes} :
    set.encode = .ok encoded ↔
      IdsAscend set.ids ∧ ∃ body enrollment, Repeated Replacement.Coded set.signers body ∧
        EnrollmentCoded set.zkEnrollment enrollment ∧
        encoded = beBytes 4 set.signers.length ++ body ++ enrollment := by
  obtain ⟨signers, enrollments⟩ := set
  rw [idsAscend_iff]
  constructor
  · intro encodes
    cases enrollments with
    | nil =>
        simp only [ReplacementSet.encode, bind_eq_ok, encodeReplacements_eq_ok,
          pure_eq_ok] at encodes
        obtain ⟨body, ⟨ascend, repeated⟩, _, rfl, rfl⟩ := encodes
        exact ⟨ascend, body, _, repeated, rfl, rfl⟩
    | cons z more =>
        cases more with
        | nil =>
            simp only [ReplacementSet.encode, bind_eq_ok, encodeReplacements_eq_ok,
              pure_eq_ok] at encodes
            obtain ⟨body, ⟨ascend, repeated⟩, _, rfl, rfl⟩ := encodes
            exact ⟨ascend, body, _, repeated, rfl, rfl⟩
        | cons =>
            simp only [ReplacementSet.encode, bind_eq_ok, encodeReplacements_eq_ok] at encodes
            obtain ⟨body, -, _, refused, -⟩ := encodes
            cases refused
  · rintro ⟨ascend, body, enrollment, repeated, coded, rfl⟩
    cases enrollments with
    | nil =>
        cases coded
        simp only [ReplacementSet.encode, bind_eq_ok, encodeReplacements_eq_ok, pure_eq_ok]
        exact ⟨body, ⟨ascend, repeated⟩, _, rfl, rfl⟩
    | cons z more =>
        cases more with
        | nil =>
            cases coded
            simp only [ReplacementSet.encode, bind_eq_ok, encodeReplacements_eq_ok, pure_eq_ok]
            exact ⟨body, ⟨ascend, repeated⟩, _, rfl, rfl⟩
        | cons => cases coded

/-- A set is encoded exactly when its ids ascend, its addresses are supported,
and it enrolls at most once. -/
theorem ReplacementSet.encode_accepts {set : ReplacementSet} :
    (∃ encoded, set.encode = .ok encoded) ↔
      IdsAscend set.ids ∧
        (∀ r ∈ set.signers, (taggedAddress r.credential.address).isSome = true) ∧
        set.zkEnrollment.length ≤ 1 := by
  have coded : ∀ r : Replacement, (∃ word, r.Coded word) ↔
      (taggedAddress r.credential.address).isSome = true := by
    intro r
    rw [← Credential.encode_supported]
    exact ⟨fun ⟨_, credential, encodes, _⟩ => ⟨credential, encodes⟩,
      fun ⟨credential, encodes⟩ => ⟨_, credential, encodes, rfl⟩⟩
  have enrolled : (∃ enrollment, EnrollmentCoded set.zkEnrollment enrollment) ↔
      set.zkEnrollment.length ≤ 1 := by
    match set.zkEnrollment with
    | [] => simp [EnrollmentCoded]
    | [z] => simp [EnrollmentCoded]
    | _ :: _ :: _ => simp [EnrollmentCoded]
  simp only [ReplacementSet.encode_eq_ok, ← coded, ← exists_repeated, ← enrolled]
  constructor
  · rintro ⟨_, ascend, body, enrollment, repeated, coded, -⟩
    exact ⟨ascend, ⟨body, repeated⟩, enrollment, coded⟩
  · rintro ⟨ascend, ⟨body, repeated⟩, enrollment, coded⟩
    exact ⟨_, ascend, body, enrollment, repeated, coded, rfl⟩

/-! ### Decoding -/

theorem replacement_prefixFree :
    PrefixFree fun (r : Replacement) (a : Bytes) => r.Sized ∧ r.Coded a := by
  rintro x y a b s t ⟨sized, credential, encodes, rfl⟩ ⟨sized', credential', encodes', rfl⟩ same
  rw [List.append_assoc _ credential, List.append_assoc _ credential'] at same
  obtain ⟨ids, frames, same⟩ := framed_prefixFree 4 (x := x.signerId) (y := y.signerId)
    ⟨sized.1, rfl⟩ ⟨sized'.1, rfl⟩ same
  obtain ⟨credentials, words, rest⟩ :=
    Credential.coded_prefixFree ⟨sized.2, encodes⟩ ⟨sized'.2, encodes'⟩ same
  have whole : x = y := by
    cases x
    cases y
    cases ids
    cases credentials
    rfl
  subst whole words
  exact ⟨rfl, rfl, rest⟩

theorem enrollment_prefixFree : PrefixFree EnrollmentCoded := by
  intro x y a b s t coded coded' same
  match x, y with
  | [], [] =>
      cases coded
      cases coded'
      exact ⟨rfl, rfl, (List.cons.inj same).2⟩
  | [], [_] =>
      cases coded
      cases coded'
      exact absurd (List.cons.inj same).1 (by decide)
  | [_], [] =>
      cases coded
      cases coded'
      exact absurd (List.cons.inj same).1 (by decide)
  | [z], [z'] =>
      cases coded
      cases coded'
      have tails := (List.cons.inj same).2
      change z.id.bytes ++ z.commitment.bytes ++ s =
          z'.id.bytes ++ z'.commitment.bytes ++ t at tails
      rw [List.append_assoc, List.append_assoc] at tails
      obtain ⟨ids, tails⟩ := List.append_inj tails (z.id.size.trans z'.id.size.symm)
      obtain ⟨commitments, rest⟩ :=
        List.append_inj tails (z.commitment.size.trans z'.commitment.size.symm)
      cases z
      cases z'
      cases BytesN.ext_bytes ids
      cases BytesN.ext_bytes commitments
      exact ⟨rfl, rfl, rest⟩
  | _ :: _ :: _, _ => cases coded
  | _, _ :: _ :: _ => cases coded'

/-- No set's encoding is, or continues, another's. -/
theorem ReplacementSet.encode_prefixFree :
    PrefixFree fun (set : ReplacementSet) (a : Bytes) => set.Sized ∧ set.encode = .ok a := by
  rintro x y a b s t ⟨⟨few, sized⟩, encodes⟩ ⟨⟨few', sized'⟩, encodes'⟩ same
  obtain ⟨-, body, enrollment, repeated, coded, rfl⟩ := ReplacementSet.encode_eq_ok.mp encodes
  obtain ⟨-, body', enrollment', repeated', coded', rfl⟩ := ReplacementSet.encode_eq_ok.mp encodes'
  have listed {items : List Replacement} {words : Bytes} (few : items.length < 2 ^ 32)
      (sized : ∀ r ∈ items, r.Sized) (repeated : Repeated Replacement.Coded items words) :
      Counted 4 (fun (r : Replacement) (a : Bytes) => r.Sized ∧ r.Coded a) items
        (beBytes 4 items.length ++ words) := by
    refine ⟨few, words, ?_, rfl⟩
    obtain ⟨pieces, aligned, rfl⟩ := repeated
    refine ⟨pieces, ?_, rfl⟩
    exact (List.forall₂_and_left _ _ |>.mpr ⟨sized, aligned⟩)
  rw [List.append_assoc _ enrollment, List.append_assoc _ enrollment'] at same
  obtain ⟨signers, frames, same⟩ := replacement_prefixFree.counted 4
    (listed few sized repeated) (listed few' sized' repeated') same
  obtain ⟨enrollments, words, rest⟩ := enrollment_prefixFree coded coded' same
  have whole : x = y := by
    cases x
    cases y
    cases signers
    cases enrollments
    rfl
  rw [frames, words]
  exact ⟨whole, rfl, rest⟩

end Perch.Recovery
