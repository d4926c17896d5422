/-
Credentials, as validation tells them apart.

Two ways to write one key are one credential.  The signers of a valid document
have different ones, so that its signer ids and their credentials stand for
each other.
-/

import Perch.Compile.Totality
import Perch.Machine.Quorum

namespace Perch.Analyze

open Machine Ir Compile Document Program

/-! ### Credentials -/

/-- A credential, as validation tells them apart: by the key, not its spelling. -/
inductive SigningKey
  | external (verifier : String) (key : Bytes)
  | delegated (address : String)
deriving DecidableEq

section Credentials

variable (hexDecode : String → Option Bytes)

def keyOf : SignerSpec → Option SigningKey
  | .external verifier key => (hexDecode key).map (.external verifier)
  | .delegated address => some (.delegated address)

def declKey (decl : SignerDecl) : Option SigningKey := keyOf hexDecode (signerSpec decl.method)

def declaredKey (doc : PolicyDoc) (id : String) : Option SigningKey :=
  (doc.signers.find? fun decl => decl.id = id).bind (declKey hexDecode)

def keysOf (doc : PolicyDoc) (ids : List String) : List SigningKey :=
  ids.filterMap (declaredKey hexDecode doc)

/-- Whether a signer signed, given the credentials that authenticated. -/
def signedWith (held : SigningKey → Bool) (spec : SignerSpec) : Bool :=
  (keyOf hexDecode spec).any held

def seenKeys (seen : SeenSigners) : List SigningKey :=
  seen.keys.map (fun entry => .external entry.1.1 entry.1.2) ++
    seen.delegated.map fun entry => .delegated entry.1

variable {hexDecode}

theorem validateMethod_fresh {seen : SeenSigners} {decl : SignerDecl}
    (silent : validateMethod hexDecode seen decl.id decl.method = []) :
    ∃ key, declKey hexDecode decl = some key ∧ key ∉ seenKeys seen ∧
      key :: seenKeys seen ⊆ seenKeys (seen.insert hexDecode decl) := by
  cases method : decl.method with
  | external verifier text =>
      rw [method, validateMethod, List.append_eq_nil_iff] at silent
      obtain ⟨decoded, _⟩ := silent
      cases read : hexDecode text with
      | none => simp [read] at decoded
      | some bytes =>
          rw [read] at decoded
          simp only [List.append_eq_nil_iff] at decoded
          have fresh : seen.keys.lookup (verifier, bytes) = none := by
            cases found : seen.keys.lookup (verifier, bytes) with
            | none => rfl
            | some first => simp [found] at decoded
          refine ⟨.external verifier bytes, ?_, ?_, ?_⟩
          · simp [declKey, method, signerSpec, keyOf, read]
          · intro earlier
            simp only [seenKeys, List.mem_append, List.mem_map, SigningKey.external.injEq,
              reduceCtorEq, and_false, exists_false, or_false] at earlier
            obtain ⟨entry, member, sameVerifier, sameKey⟩ := earlier
            have different := List.lookup_eq_none_iff.mp fresh entry member
            simp [← sameVerifier, ← sameKey] at different
          · intro key member
            simp only [seenKeys, SeenSigners.insert, method, read, List.map_append, List.map_cons,
              List.map_nil, List.mem_append, List.mem_cons, List.not_mem_nil, or_false] at member ⊢
            tauto
  | delegated address =>
      rw [method, validateMethod, List.append_eq_nil_iff] at silent
      have fresh : seen.delegated.lookup address = none := by
        cases found : seen.delegated.lookup address with
        | none => rfl
        | some first => simp [found] at silent
      refine ⟨.delegated address, ?_, ?_, ?_⟩
      · simp [declKey, method, signerSpec, keyOf]
      · intro earlier
        simp only [seenKeys, List.mem_append, List.mem_map, SigningKey.delegated.injEq,
          reduceCtorEq, and_false, exists_false, false_or] at earlier
        obtain ⟨entry, member, same⟩ := earlier
        have different := List.lookup_eq_none_iff.mp fresh entry member
        simp [← same] at different
      · intro key member
        simp only [seenKeys, SeenSigners.insert, method, List.map_append, List.map_cons,
          List.map_nil, List.mem_append, List.mem_cons, List.not_mem_nil, or_false] at member ⊢
        tauto

theorem validateSigners_keys {position : Nat} {seen : SeenSigners} {signers : List SignerDecl}
    (silent : validateSigners hexDecode position seen signers = []) :
    (signers.map (declKey hexDecode)).Nodup ∧
      ∀ decl ∈ signers, ∃ key, declKey hexDecode decl = some key ∧ key ∉ seenKeys seen := by
  induction signers generalizing position seen with
  | nil => simp
  | cons decl rest ih =>
      simp only [validateSigners, List.append_eq_nil_iff] at silent
      obtain ⟨⟨_, method⟩, more⟩ := silent
      obtain ⟨key, declared, fresh, remembered⟩ := validateMethod_fresh method
      obtain ⟨distinct, later⟩ := ih more
      constructor
      · rw [List.map_cons, List.nodup_cons]
        refine ⟨?_, distinct⟩
        intro again
        obtain ⟨other, member, same⟩ := List.mem_map.mp again
        obtain ⟨key', declared', unseen⟩ := later other member
        rw [declared, declared', Option.some.injEq] at same
        exact unseen (remembered (same ▸ List.mem_cons_self))
      · intro other member
        rcases List.mem_cons.mp member with rfl | further
        · exact ⟨key, declared, fresh⟩
        · obtain ⟨key', declared', unseen⟩ := later other further
          exact ⟨key', declared', fun earlier =>
            unseen (remembered (List.mem_cons_of_mem _ earlier))⟩

variable {doc : PolicyDoc} {rule : Rule}

structure KnownSigners (hexDecode : String → Option Bytes) (doc : PolicyDoc) : Prop where
  ids : (doc.signers.map SignerDecl.id).Nodup
  keys : (doc.signers.map (declKey hexDecode)).Nodup
  declared : ∀ decl ∈ doc.signers, ∃ key, declKey hexDecode decl = some key

theorem KnownSigners.declaredKey_eq (known : KnownSigners hexDecode doc) {decl : SignerDecl}
    (member : decl ∈ doc.signers) : declaredKey hexDecode doc decl.id = declKey hexDecode decl := by
  unfold declaredKey
  cases found : doc.signers.find? fun other => other.id = decl.id with
  | none => simpa using List.find?_eq_none.mp found decl member
  | some other =>
      have same : other.id = decl.id := by simpa using List.find?_some found
      rw [List.inj_on_of_nodup_map known.ids (List.mem_of_find?_eq_some found) member same]
      rfl

theorem KnownSigners.exists_key (known : KnownSigners hexDecode doc) {id : String}
    (declared : id ∈ doc.signers.map SignerDecl.id) :
    ∃ key, declaredKey hexDecode doc id = some key := by
  obtain ⟨decl, member, rfl⟩ := List.mem_map.mp declared
  rw [known.declaredKey_eq member]
  exact known.declared decl member

theorem KnownSigners.declaredKey_injective (known : KnownSigners hexDecode doc) {id id' : String}
    (declared : id ∈ doc.signers.map SignerDecl.id)
    (declared' : id' ∈ doc.signers.map SignerDecl.id)
    (same : declaredKey hexDecode doc id = declaredKey hexDecode doc id') : id = id' := by
  obtain ⟨decl, member, rfl⟩ := List.mem_map.mp declared
  obtain ⟨decl', member', rfl⟩ := List.mem_map.mp declared'
  rw [known.declaredKey_eq member, known.declaredKey_eq member'] at same
  rw [List.inj_on_of_nodup_map known.keys member member' same]

/-- An id signs with the credential declared under it. -/
theorem KnownSigners.signs_iff (known : KnownSigners hexDecode doc) {held : SigningKey → Bool}
    {asked : Question} (signed : asked.signed = signedWith hexDecode held) {id : String}
    (declared : id ∈ doc.signers.map SignerDecl.id) :
    Signs doc asked id ↔ (declaredKey hexDecode doc id).any held = true := by
  obtain ⟨decl, member, rfl⟩ := List.mem_map.mp declared
  rw [known.declaredKey_eq member]
  constructor
  · rintro ⟨other, member', same, signs⟩
    rw [List.inj_on_of_nodup_map known.ids member' member same, signed] at signs
    exact signs
  · intro signs
    refine ⟨decl, member, rfl, ?_⟩
    rw [signed]
    exact signs

/-- As many of the credentials are held as of the ids that stand for them. -/
theorem keysOf_filter_length {ids : List String} (held : SigningKey → Bool)
    (each : ∀ id ∈ ids, ∃ key, declaredKey hexDecode doc id = some key) :
    ((keysOf hexDecode doc ids).filter held).length =
      (ids.filter fun id => (declaredKey hexDecode doc id).any held).length := by
  induction ids with
  | nil => rfl
  | cons id rest ih =>
      obtain ⟨key, declared⟩ := each id List.mem_cons_self
      have others := ih fun id member => each id (List.mem_cons_of_mem _ member)
      unfold keysOf at others ⊢
      rw [List.filterMap_cons_some declared, List.filter_cons, List.filter_cons, declared,
        Option.any_some]
      split
      · rw [List.length_cons, List.length_cons, others]
      · exact others

theorem declared_of_key {id : String} {key : SigningKey}
    (found : declaredKey hexDecode doc id = some key) : id ∈ doc.signers.map SignerDecl.id := by
  obtain ⟨decl, named, _⟩ := Option.bind_eq_some_iff.mp found
  have same : decl.id = id := by simpa using List.find?_some named
  exact same ▸ List.mem_map_of_mem (List.mem_of_find?_eq_some named)

theorem KnownSigners.keysOf_nodup (known : KnownSigners hexDecode doc) {ids : List String}
    (distinct : ids.Nodup) : (keysOf hexDecode doc ids).Nodup := by
  refine List.Nodup.filterMap ?_ distinct
  intro id id' key first second
  exact known.declaredKey_injective (declared_of_key first) (declared_of_key second)
    (first.trans second.symm)

theorem KnownSigners.held_card (known : KnownSigners hexDecode doc) {ids : List String}
    (distinct : ids.Nodup) (declared : ∀ id ∈ ids, id ∈ doc.signers.map SignerDecl.id)
    (held : SigningKey → Bool) :
    ((keysOf hexDecode doc ids).toFinset.filter fun key => held key = true).card =
      (ids.filter fun id => (declaredKey hexDecode doc id).any held).length := by
  have each := fun id member => known.exists_key (declared id member)
  rw [← keysOf_filter_length held each,
    ← List.toFinset_card_of_nodup ((known.keysOf_nodup distinct).filter _), List.toFinset_filter]

theorem quorum_valid {declared ids : List String} {least : UInt32}
    (valid : validatePrincipals hexDecode rule.name declared rule.principals = [])
    (bounded : declared.length < 4294967296) (asks : quorum rule = .ok (ids, least)) :
    ids.Nodup ∧ (∀ id ∈ ids, id ∈ declared) ∧ 1 ≤ least.toNat ∧
      ((∃ m, rule.principals = .threshold ids m ∧ least = m) ∨
        rule.principals = .all ids ∧ least.toNat = ids.length) := by
  cases kind : rule.principals with
  | all signers =>
      simp only [quorum, kind, Except.ok.injEq, Prod.mk.injEq] at asks
      obtain ⟨rfl, rfl⟩ := asks
      rw [kind] at valid
      obtain ⟨nonempty, distinct, known⟩ := validatePrincipalSigners_eq_nil valid
      have fits := (List.subperm_of_subset distinct known).length_le
      have size : (UInt32.ofNat signers.length).toNat = signers.length :=
        UInt32.toNat_ofNat_of_lt' (fits.trans_lt bounded)
      have some := List.length_pos_iff.mpr nonempty
      exact ⟨distinct, known, by omega, .inr ⟨rfl, size⟩⟩
  | threshold signers m =>
      simp only [quorum, kind, Except.ok.injEq, Prod.mk.injEq] at asks
      obtain ⟨rfl, rfl⟩ := asks
      rw [kind] at valid
      simp only [validatePrincipals, List.append_eq_nil_iff, reportIf_eq_nil, not_or] at valid
      obtain ⟨listed, positive, _⟩ := valid
      obtain ⟨_, distinct, known⟩ := validatePrincipalSigners_eq_nil listed
      have nonzero : m.toNat ≠ 0 := fun zero => positive (UInt32.toNat_inj.mp zero)
      exact ⟨distinct, known, by omega, .inl ⟨m, rfl, rfl⟩⟩
  | selfAuthenticating policy params ack => simp [quorum, kind] at asks

open Classical in
/-- Principals are met when enough of their credentials are held. -/
theorem principals_iff {ids : List String} {least : UInt32}
    (known : KnownSigners hexDecode doc) (addressable : doc.signers.length < 4294967296)
    (valid : validatePrincipals hexDecode rule.name (doc.signers.map SignerDecl.id)
      rule.principals = [])
    (asks : quorum rule = .ok (ids, least)) {held : SigningKey → Bool} {asked : Question}
    (signed : asked.signed = signedWith hexDecode held) :
    PrincipalsMean doc asked rule.principals ↔
      least.toNat ≤
        ((keysOf hexDecode doc ids).toFinset.filter fun key => held key = true).card := by
  obtain ⟨distinct, declared, _, kind⟩ := quorum_valid valid (by rwa [List.length_map]) asks
  have same : ids.filter (fun id => decide (Signs doc asked id)) =
      ids.filter fun id => (declaredKey hexDecode doc id).any held := by
    apply List.filter_congr
    intro id member
    rw [Bool.eq_iff_iff, decide_eq_true_iff]
    exact known.signs_iff signed (declared id member)
  rw [known.held_card distinct declared held, ← same]
  rcases kind with ⟨m, threshold, rfl⟩ | ⟨every, size⟩
  · rw [threshold, PrincipalsMean, signed_card distinct]
  · rw [every, PrincipalsMean, size]
    have fewer := List.length_filter_le (fun id => decide (Signs doc asked id)) ids
    constructor
    · intro all
      rw [List.length_filter_eq_length_iff.mpr (by simpa using all)]
    · intro enough
      have all := List.length_filter_eq_length_iff.mp (Nat.le_antisymm fewer enough)
      simpa using all

/-- What validation establishes of one rule of a document. -/
structure SoundRule (hexDecode : String → Option Bytes) (doc : PolicyDoc) (rule : Rule) : Prop where
  known : KnownSigners hexDecode doc
  valid : validateRule hexDecode (doc.signers.map SignerDecl.id) rule = []

theorem soundRule_of_valid (valid : validate hexDecode doc = .ok ()) (member : rule ∈ doc.rules) :
    SoundRule hexDecode doc rule := by
  obtain ⟨_, signers, rules, _⟩ := violations_eq_nil.mp (validate_eq_ok.mp valid)
  obtain ⟨keys, declared⟩ := validateSigners_keys signers
  refine ⟨⟨(validateSigners_eq_nil signers).1, keys, ?_⟩,
    ((validateRules_eq_nil rules).2 rule member).2.2⟩
  intro decl listed
  obtain ⟨key, known, _⟩ := declared decl listed
  exact ⟨key, known⟩

end Credentials

end Perch.Analyze
