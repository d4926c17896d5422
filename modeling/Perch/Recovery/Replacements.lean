/-
The replacements that are hashed and the replacements that are made.

The controller orders and hashes a set's signer ids as byte strings; the
compiler decodes each of them, loses what is not text, and matches the
document's ids.  The two views of one id agree when the bytes are text.
-/

import Perch.Document.Spelling
import Perch.Recovery.Transition

namespace Perch.Recovery

open Machine Document

/-! ### Accepting a set -/

def perchCompiler (host : CompilerHost) : DocCompiler where
  compileDoc docJson := (compileDoc host docJson).toOption
  deriveTarget source current action replacements :=
    (deriveTarget host source current action replacements).toOption

/-- What `begin` has settled of a replacement set it accepts: its hash, the
target derived with it, and that every replaced credential leaves. -/
structure Accepted (host : CompilerHost) (source current : Bytes) (action : RecoveryAction)
    (set : ReplacementSet) (hash : Bytes32) (derived : DerivedTarget) : Prop where
  hashed : set.hash host.sha256 = .ok hash
  derives : deriveTarget host source current action set = .ok derived
  leaves : ∃ replaced, derived.replaced.mapM (Credential.fingerprint host.sha256) = .ok replaced ∧
    replacedCredentialsLeave replaced derived.fingerprints = true

/-- `begin` stores the hash of a set only when the set is accepted. -/
theorem beginAttempt_accepted {host : CompilerHost} {d : Deployment} {e : Env} {s s' : Storage}
    {account : Address} {action : RecoveryAction} {set : ReplacementSet} {id : UInt64}
    (known : action = .lostKey ∨ action = .compromise) (sameHash : d.sha256 = host.sha256)
    (compiles : ∀ compiler, (e.account account).docCompiler = some compiler →
      e.docCompiler compiler = perchCompiler host)
    (begun : beginAttempt d e s account action set = .ok (id, s')) :
    ∃ source current derived a next, (e.account account).appliedDoc = some (some current) ∧
      Accepted host source current action set a.replacementsHash derived ∧
      s'.slice account = { (s.slice account).put e a with nextAttempt := next } := by
  have transition := (beginAttempt_slice known begun).2
  obtain ⟨config, derived, a, next, started, stored⟩ : ∃ config derived a next,
      Begun d e account (s.slice account) action set config derived a ∧
        s'.slice account = { (s.slice account).put e a with nextAttempt := next } := by
    generalize called : beginCall account action set = call at transition
    generalize s'.slice account = m' at transition
    cases transition with
    | @begun action' set' config derived a next started known' =>
        rcases known with rfl | rfl
        · rcases known' with rfl | rfl
          · cases called
            exact ⟨config, derived, a, next, started, rfl⟩
          · cases called
        · rcases known' with rfl | rfl
          · cases called
          · cases called
            exact ⟨config, derived, a, next, started, rfl⟩
  obtain ⟨current, source, compiler, applied, runs, -, derives⟩ := started.source
  rw [compiles compiler runs] at derives
  have hashed := started.hashed
  have leaves := started.leaves
  rw [sameHash] at hashed leaves
  exact ⟨source, current, derived, a, next, applied,
    { hashed := hashed
      derives := toOption_eq_some.mp derives
      leaves := leaves }, stored⟩

/-! ### Ids as text -/

def ReplacementSet.Textual (set : ReplacementSet) : Prop :=
  ∀ r ∈ set.signers, (Utf8.decode r.signerId).isSome = true

/-- Every id of the set is the bytes of a declared, replaceable one. -/
def NamesSigners (source current : Ir.PolicyDoc) (set : ReplacementSet) : Prop :=
  ∀ r ∈ set.signers, ∃ recovery decl, current.recovery = some recovery ∧
    decl ∈ source.signers ∧ decl.id ∈ recovery.replaceable ∧ r.signerId = Ir.utf8 decl.id

theorem utf8_lossy {bytes : Bytes} (text : (Utf8.decode bytes).isSome = true) :
    Ir.utf8 (Utf8.lossy bytes) = bytes := by
  obtain ⟨s, decoded⟩ := Option.isSome_iff_exists.mp text
  have encoded := Utf8.encode_decode decoded
  rw [← encoded, Utf8.lossy_encode]
  rfl

section Derived

variable {host : CompilerHost} {source current : Bytes} {action : RecoveryAction}
  {set : ReplacementSet} {hash : Bytes32} {derived : DerivedTarget}

/-- An accepted set lists declared, replaceable ids, as the compiler reads
them. -/
theorem lossy_of_derives {sourceDoc currentDoc target : Ir.PolicyDoc} {compiled : CompiledDoc}
    (derivation : Derivation host sourceDoc currentDoc action set target compiled derived)
    {r : Replacement} (member : r ∈ set.signers) :
    ∃ recovery decl, currentDoc.recovery = some recovery ∧ decl ∈ sourceDoc.signers ∧
      decl.id ∈ recovery.replaceable ∧ Utf8.lossy r.signerId = decl.id := by
  obtain ⟨act, rotation, -, -, derives⟩ := derivation.derives
  obtain ⟨recovery, _, enrolled, derivable, -⟩ := Ir.deriveTarget_eq_ok.mp derives
  have listed := List.mem_map_of_mem (f := toReplacement host) member
  obtain ⟨decl, found, -⟩ := derivable.declared _ listed
  have own : decl.id = Utf8.lossy r.signerId := Ir.declared_id found
  refine ⟨recovery, decl, enrolled, List.mem_of_find?_eq_some found, ?_, own.symm⟩
  rw [own]
  exact derivable.replaceable _ listed

/-- The ids are those of signers exactly when they are text. -/
theorem namesSigners_iff {sourceDoc currentDoc target : Ir.PolicyDoc} {compiled : CompiledDoc}
    (derivation : Derivation host sourceDoc currentDoc action set target compiled derived) :
    NamesSigners sourceDoc currentDoc set ↔ set.Textual := by
  constructor
  · intro names r member
    obtain ⟨_, decl, -, -, -, same⟩ := names r member
    rw [same, Ir.utf8, Utf8.decode_encode]
    rfl
  · intro textual r member
    obtain ⟨recovery, decl, enrolled, declares, listed, read⟩ := lossy_of_derives derivation member
    refine ⟨recovery, decl, enrolled, declares, listed, ?_⟩
    rw [← read, utf8_lossy (textual r member)]

/-! ### One target, one set -/

/-- What a signer contributes to the credentials reported replaced and to those
of the target is the same credential, so a replaced one leaves only if its
declaration changes. -/
theorem listed_of_sameTarget {sourceDoc currentDoc target : Ir.PolicyDoc}
    {compiled compiled' : CompiledDoc} {action' : RecoveryAction} {other : ReplacementSet}
    {derived' : DerivedTarget}
    (derivation : Derivation host sourceDoc currentDoc action set target compiled derived)
    (derivation' : Derivation host sourceDoc currentDoc action' other target compiled' derived')
    (leaves : ∃ replaced,
      derived.replaced.mapM (Credential.fingerprint host.sha256) = .ok replaced ∧
        replacedCredentialsLeave replaced derived.fingerprints = true)
    {r : Replacement} (member : r ∈ set.signers) :
    ∃ q ∈ other.signers, Utf8.lossy q.signerId = Utf8.lossy r.signerId := by
  by_contra absent
  have unlisted : ∀ q ∈ other.signers.map (toReplacement host),
      q.signerId ≠ Utf8.lossy r.signerId := by
    intro q listed same
    obtain ⟨raw, member', rfl⟩ := List.mem_map.mp listed
    exact absent ⟨raw, member', same⟩
  obtain ⟨act, rotation, -, -, derives⟩ := derivation.derives
  obtain ⟨act', rotation', -, -, derives'⟩ := derivation'.derives
  obtain ⟨recovery, _, -, derivable, -⟩ := Ir.deriveTarget_eq_ok.mp derives
  obtain ⟨recovery', _, -, -, -, made⟩ := Ir.deriveTarget_eq_ok.mp derives'
  have listed := List.mem_map_of_mem (f := toReplacement host) member
  obtain ⟨decl, found, -⟩ := derivable.declared _ listed
  have own : decl.id = Utf8.lossy r.signerId := Ir.declared_id found
  -- The other set leaves the declaration in the target.
  have stays : Ir.declared target.signers (Utf8.lossy r.signerId) = some decl := by
    rw [made]
    exact (Ir.declared_replaceAll_of_unlisted unlisted).trans found
  have inTarget : decl ∈ target.signers := List.mem_of_find?_eq_some stays
  -- This set reports its credential replaced.
  have inReplaced : decl ∈ replacedSigners host sourceDoc set := by
    unfold replacedSigners
    rw [List.mem_filter]
    refine ⟨List.mem_of_find?_eq_some found, ?_⟩
    rw [List.any_eq_true]
    exact ⟨_, listed, decide_eq_true own.symm⟩
  obtain ⟨credential, reported, spelled⟩ :=
    exists_of_mem_left (canonicalCredentials_eq_ok derivation.replaced) inReplaced
  have shape := compileParsed_eq_ok derivation.compiles
  obtain ⟨credentials, canonical, fingerprinted⟩ := shape.fingerprints
  obtain ⟨credential', declares, spelled'⟩ :=
    exists_of_mem_left (canonicalCredentials_eq_ok canonical) inTarget
  obtain rfl : credential' = credential := Except.ok.inj (spelled'.symm.trans spelled)
  obtain ⟨print, kept, printed⟩ := exists_of_mem_left (mapM_eq_ok fingerprinted) declares
  obtain ⟨replaced, prints, gone⟩ := leaves
  obtain ⟨print', lost, printed'⟩ := exists_of_mem_left (mapM_eq_ok prints) reported
  rw [mapError_eq_ok] at printed
  obtain rfl : print' = print := Except.ok.inj (printed'.symm.trans printed)
  rw [derivation.fingerprints] at gone
  unfold replacedCredentialsLeave at gone
  rw [List.all_eq_true] at gone
  exact of_decide_eq_true (gone print' lost) kept

end Derived

theorem encodeReplacements_credential {replacements : List Replacement} {prev : Option Bytes}
    {encoded : Bytes} (encodes : encodeReplacements prev replacements = .ok encoded)
    {r : Replacement} (member : r ∈ replacements) : ∃ bytes, r.credential.encode = .ok bytes := by
  induction replacements generalizing prev encoded with
  | nil => cases member
  | cons first rest ih =>
      simp only [encodeReplacements, bind_eq_ok] at encodes
      obtain ⟨_, -, bytes, credential, _, later, -⟩ := encodes
      rcases List.mem_cons.mp member with rfl | member
      · exact ⟨bytes, credential⟩
      · exact ih later member

theorem ReplacementSet.credential_encodes {set : ReplacementSet} {sha256 : Sha256} {hash : Bytes32}
    (hashed : set.hash sha256 = .ok hash) {r : Replacement} (member : r ∈ set.signers) :
    ∃ bytes, r.credential.encode = .ok bytes := by
  simp only [ReplacementSet.hash, ReplacementSet.encode, bind_eq_ok] at hashed
  obtain ⟨_, ⟨_, encodes, -⟩, -⟩ := hashed
  exact encodeReplacements_credential encodes member

theorem rotationOf_injective {host : CompilerHost} (spells : Spells host)
    {first second : List ZkEnrollment} {rotation : Option Ir.ZkRotation}
    (read : rotationOf host first = .ok rotation) (read' : rotationOf host second = .ok rotation) :
    first = second := by
  cases first with
  | nil =>
      obtain rfl := Except.ok.inj read
      cases second with
      | nil => rfl
      | cons enrollment rest => cases rest <;> cases read'
  | cons enrollment rest =>
      cases rest with
      | cons => cases read
      | nil =>
          obtain rfl := Except.ok.inj read
          cases second with
          | nil => cases read'
          | cons enrollment' rest' =>
              cases rest' with
              | cons => cases read'
              | nil =>
                  have same := Option.some.inj (Except.ok.inj read')
                  rw [spells.rotation_injective same]

section Unique

variable {host : CompilerHost} (spells : Spells host) {sourceDoc currentDoc target : Ir.PolicyDoc}
  {action action' : RecoveryAction} {set set' : ReplacementSet} {compiled compiled' : CompiledDoc}
  {derived derived' : DerivedTarget}
  (derivation : Derivation host sourceDoc currentDoc action set target compiled derived)
  (derivation' : Derivation host sourceDoc currentDoc action' set' target compiled' derived')

include derivation in
theorem ordered_of_derives (textual : set.Textual) :
    set.signers.Pairwise fun a b => a.signerId < b.signerId := by
  obtain ⟨act, rotation, -, -, derives⟩ := derivation.derives
  obtain ⟨_, _, -, derivable, -⟩ := Ir.deriveTarget_eq_ok.mp derives
  have ordered := derivable.ascending
  rw [List.map_map, List.pairwise_map] at ordered
  refine ordered.imp_of_mem ?_
  intro a b memberA memberB less
  change Ir.utf8 (Utf8.lossy a.signerId) < Ir.utf8 (Utf8.lossy b.signerId) at less
  rw [utf8_lossy (textual a memberA), utf8_lossy (textual b memberB)] at less
  exact less

include spells derivation derivation' in
/-- Two replacements of one id make one target only if they are the same. -/
theorem replacement_unique {hash hash' : Bytes32} (hashed : set.hash host.sha256 = .ok hash)
    (hashed' : set'.hash host.sha256 = .ok hash') {r q : Replacement} (member : r ∈ set.signers)
    (member' : q ∈ set'.signers) (same : q.signerId = r.signerId) : q = r := by
  obtain ⟨act, rotation, -, -, derives⟩ := derivation.derives
  obtain ⟨act', rotation', -, -, derives'⟩ := derivation'.derives
  have made := (Ir.Target.of_derives derives).replaced _
    (List.mem_map_of_mem (f := toReplacement host) member)
  have made' := (Ir.Target.of_derives derives').replaced _
    (List.mem_map_of_mem (f := toReplacement host) member')
  have ids : (toReplacement host q).signerId = (toReplacement host r).signerId :=
    congrArg Utf8.lossy same
  rw [ids, made] at made'
  have methods : toSignerMethod host q.credential = toSignerMethod host r.credential :=
    (congrArg Ir.SignerDecl.method (Option.some.inj made')).symm
  obtain ⟨_, encodes⟩ := ReplacementSet.credential_encodes hashed member
  obtain ⟨_, encodes'⟩ := ReplacementSet.credential_encodes hashed' member'
  have credentials := spells.method_injective encodes' encodes methods
  cases q
  cases r
  cases same
  cases credentials
  rfl

include spells derivation derivation' in
theorem enrollment_unique : set.zkEnrollment = set'.zkEnrollment := by
  obtain ⟨act, rotation, -, read, derives⟩ := derivation.derives
  obtain ⟨act', rotation', -, read', derives'⟩ := derivation'.derives
  obtain ⟨recovery, mode, enrolled, rotates, made⟩ := (Ir.Target.of_derives derives).recovery
  obtain ⟨recovery', mode', enrolled', rotates', made'⟩ := (Ir.Target.of_derives derives').recovery
  obtain rfl : recovery = recovery' := Option.some.inj (enrolled.symm.trans enrolled')
  have modes : mode = mode' :=
    congrArg Ir.RecoveryConfig.mode (Option.some.inj (made.symm.trans made'))
  subst modes
  rw [← rotates.rotation_unique rotates'] at read'
  exact rotationOf_injective spells read read'

include spells derivation derivation' in
theorem set_unique {hash hash' : Bytes32} (hashed : set.hash host.sha256 = .ok hash)
    (hashed' : set'.hash host.sha256 = .ok hash') (textual : set.Textual)
    (textual' : set'.Textual)
    (listed : ∀ r ∈ set.signers, ∃ q ∈ set'.signers,
      Utf8.lossy q.signerId = Utf8.lossy r.signerId)
    (listed' : ∀ q ∈ set'.signers, ∃ r ∈ set.signers,
      Utf8.lossy r.signerId = Utf8.lossy q.signerId) : set = set' := by
  have ids {first second : Bytes} (text : (Utf8.decode first).isSome = true)
      (text' : (Utf8.decode second).isSome = true)
      (same : Utf8.lossy first = Utf8.lossy second) : first = second := by
    rw [← utf8_lossy text, same, utf8_lossy text']
  have signers : set.signers = set'.signers := by
    have : Std.Antisymm fun a b : Replacement => a.signerId < b.signerId :=
      ⟨fun a b less more => absurd more (List.lt_asymm less)⟩
    have : Std.Irrefl fun a b : Replacement => a.signerId < b.signerId :=
      ⟨fun a => List.lt_irrefl a.signerId⟩
    apply List.Pairwise.eq_of_mem_iff (ordered_of_derives derivation textual)
      (ordered_of_derives derivation' textual')
    intro r
    constructor
    · intro member
      obtain ⟨q, member', same⟩ := listed r member
      have own := ids (textual' q member') (textual r member) same
      rw [← replacement_unique spells derivation derivation' hashed hashed' member member' own]
      exact member'
    · intro member
      obtain ⟨q, member', same⟩ := listed' r member
      have own := ids (textual q member') (textual' r member) same
      rw [← replacement_unique spells derivation' derivation hashed' hashed member member' own]
      exact member'
  have enrollments := enrollment_unique spells derivation derivation'
  cases set
  cases set'
  cases signers
  cases enrollments
  rfl

end Unique

/-- Of accepted sets, the ids are those of declared, replaceable signers, and
one target has one set and one hash, exactly when the ids are text.  They
always are where no such signer's id holds the replacement character. -/
theorem accepted_exact {host : CompilerHost} (spells : Spells host) {source current : Bytes}
    {action action' : RecoveryAction} {set set' : ReplacementSet} {hash hash' : Bytes32}
    {derived derived' : DerivedTarget}
    (accepted : Accepted host source current action set hash derived)
    (accepted' : Accepted host source current action' set' hash' derived') :
    ∃ sourceDoc currentDoc, parse host source = .ok sourceDoc ∧
      parse host current = .ok currentDoc ∧
      ((NamesSigners sourceDoc currentDoc set ∧ NamesSigners sourceDoc currentDoc set' ∧
          (derived.canonical = derived'.canonical → set = set' ∧ hash = hash')) ↔
        set.Textual ∧ set'.Textual) ∧
      ((∀ recovery decl, currentDoc.recovery = some recovery → decl ∈ sourceDoc.signers →
          decl.id ∈ recovery.replaceable → Utf8.replacementCharacter ∉ decl.id.toList) →
        set.Textual) := by
  obtain ⟨sourceDoc, currentDoc, target, compiled, parsed, parsed', derivation⟩ :=
    deriveTarget_eq_ok accepted.derives
  obtain ⟨sourceDoc', currentDoc', target', compiled', reparsed, reparsed', derivation'⟩ :=
    deriveTarget_eq_ok accepted'.derives
  obtain rfl : sourceDoc' = sourceDoc := Except.ok.inj (reparsed.symm.trans parsed)
  obtain rfl : currentDoc' = currentDoc := Except.ok.inj (reparsed'.symm.trans parsed')
  refine ⟨sourceDoc', currentDoc', parsed, parsed', ?_, ?_⟩
  · rw [namesSigners_iff derivation, namesSigners_iff derivation']
    constructor
    · rintro ⟨textual, textual', -⟩
      exact ⟨textual, textual'⟩
    · rintro ⟨textual, textual'⟩
      refine ⟨textual, textual', fun sameCanonical => ?_⟩
      obtain rfl : target = target' := by
        have shape := compileParsed_eq_ok derivation.compiles
        have shape' := compileParsed_eq_ok derivation'.compiles
        rw [derivation.canonical, derivation'.canonical, shape.canonical,
          shape'.canonical] at sameCanonical
        have version := (violations_eq_nil.mp shape.valid).1
        have version' := (violations_eq_nil.mp shape'.valid).1
        have read := Ir.fromJson_canonicalJson Ir.jsonReader_conforms version
        rw [utf8_injective sameCanonical,
          Ir.fromJson_canonicalJson Ir.jsonReader_conforms version'] at read
        exact (Except.ok.inj read).symm
      have same : set = set' :=
        set_unique spells derivation derivation' accepted.hashed accepted'.hashed textual textual'
          (fun r member => listed_of_sameTarget derivation derivation' accepted.leaves member)
          (fun q member => listed_of_sameTarget derivation' derivation accepted'.leaves member)
      refine ⟨same, ?_⟩
      have hashed := accepted.hashed
      rw [same, accepted'.hashed] at hashed
      exact (Except.ok.inj hashed).symm
  · intro clean r member
    obtain ⟨recovery, decl, enrolled, declares, listed, read⟩ := lossy_of_derives derivation member
    have lossless := clean recovery decl enrolled declares listed
    rw [← read, Utf8.lossy, String.toList_ofList] at lossless
    have encoded := Utf8.encode_lossyChars lossless
    rw [← utf8_ofList, Ir.utf8] at encoded
    rw [← encoded, Utf8.decode_encode]
    rfl

section Sample

/-- A document whose replaceable signer is named by the replacement
character. -/
def respelledDoc : Ir.PolicyDoc where
  version := 1
  network := some "T"
  signers :=
    [{ id := "a"
       method := .delegated "GAAQCAIBAEAQCAIBAEAQCAIBAEAQCAIBAEAQCAIBAEAQCAIBAEAQDZ7H" },
     { id := "\ufffd"
       method := .delegated "GABQGAYDAMBQGAYDAMBQGAYDAMBQGAYDAMBQGAYDAMBQGAYDAMBQHGPC" }]
  rules :=
    [{ name := "admin", scope := .selfAdmin, principals := .all ["a"], functions := none
       args := none, notAfterLedger := none, cap := none }]
  recovery := some
    { profile := .protectedProfile
      mode := .guardianOnly
        { guardians := ["GAEQSCIJBEEQSCIJBEEQSCIJBEEQSCIJBEEQSCIJBEEQSCIJBEEQSH7S"], quorum := 1 }
      controller := "CACQKBIFAUCQKBIFAUCQKBIFAUCQKBIFAUCQKBIFAUCQKBIFAUCQLC2U"
      baseline := none
      replaceable := ["\ufffd"]
      delayLedgers := 10
      expiryLedgers := 20
      maxCancels := 1 }

def respelledJson : Bytes := Ir.utf8 (Ir.canonicalJson respelledDoc)

/-- One new key for the signer these bytes are read as. -/
def respelledSet (signerId : Bytes) : ReplacementSet where
  signers :=
    [{ signerId := signerId, credential := .delegated (.account (BytesN.fill 7)) }]
  zkEnrollment := []

def respelledCheck : Except DocFailure DerivedTarget := do
  let derived ← deriveTarget (localHost "T") respelledJson respelledJson .lostKey
    (respelledSet [0xEF, 0xBF, 0xBD])
  let replaced ← (derived.replaced.mapM (Credential.fingerprint localSha256)).mapError
    fun _ => .trapped
  require (replacedCredentialsLeave replaced derived.fingerprints = true) .trapped
  pure derived

set_option maxRecDepth 16384 in
theorem respelledCheck_ok : respelledCheck.toOption.isSome = true := by
  have read : parse (localHost "T") respelledJson = .ok respelledDoc :=
    parse_canonical Ir.jsonReader_conforms rfl
  simp only [respelledCheck, deriveTarget, read, compileParsed, Ir.canonicalJson, utf8_ofList]
  decide +kernel

/-- Bytes that are no text are read as the same id. -/
theorem respelled_same (action : RecoveryAction) (source current : Bytes) :
    deriveTarget (localHost "T") source current action (respelledSet [0xFF]) =
      deriveTarget (localHost "T") source current action (respelledSet [0xEF, 0xBF, 0xBD]) := by
  have same : toReplacement (localHost "T")
        { signerId := [0xFF], credential := .delegated (.account (BytesN.fill 7)) } =
      toReplacement (localHost "T")
        { signerId := [0xEF, 0xBF, 0xBD]
          credential := .delegated (.account (BytesN.fill 7)) } := by
    unfold toReplacement
    rw [show Utf8.lossy [0xFF] = Utf8.lossy [0xEF, 0xBF, 0xBD] by decide]
  unfold deriveTarget respelledSet
  simp only [List.map_cons, List.map_nil, same]

/-- Two sets for one target, with two hashes; the id of one is no signer's. -/
theorem replacements_respelled :
    ∃ hash hash' derived,
      Accepted (localHost "T") respelledJson respelledJson .lostKey (respelledSet [0xFF]) hash
        derived ∧
      Accepted (localHost "T") respelledJson respelledJson .lostKey
        (respelledSet [0xEF, 0xBF, 0xBD]) hash' derived ∧
      parse (localHost "T") respelledJson = .ok respelledDoc ∧
      ¬NamesSigners respelledDoc respelledDoc (respelledSet [0xFF]) ∧ hash ≠ hash' := by
  obtain ⟨derived, checked⟩ := Option.isSome_iff_exists.mp respelledCheck_ok
  have checked := toOption_eq_some.mp checked
  simp only [respelledCheck, bind_eq_ok, mapError_eq_ok, require_eq_ok, pure_eq_ok] at checked
  obtain ⟨target, derives, replaced, printed, _, leave, rfl⟩ := checked
  have hashes : ∀ id : Bytes, id = [0xFF] ∨ id = [0xEF, 0xBF, 0xBD] →
      ∃ hash, (respelledSet id).hash localSha256 = .ok hash := by
    rintro id (rfl | rfl)
    · exact ⟨_, rfl⟩
    · exact ⟨_, rfl⟩
  obtain ⟨hash, hashed⟩ := hashes [0xFF] (.inl rfl)
  obtain ⟨hash', hashed'⟩ := hashes [0xEF, 0xBF, 0xBD] (.inr rfl)
  refine ⟨hash, hash', target, ?_, ?_, parse_canonical Ir.jsonReader_conforms rfl, ?_, ?_⟩
  · exact
      { hashed := hashed
        derives := (respelled_same _ _ _).trans derives
        leaves := ⟨replaced, printed, leave⟩ }
  · exact
      { hashed := hashed'
        derives := derives
        leaves := ⟨replaced, printed, leave⟩ }
  · intro names
    obtain ⟨_, decl, -, declares, -, same⟩ := names _ List.mem_cons_self
    have apart : ∀ other ∈ respelledDoc.signers, [0xFF] ≠ Ir.utf8 other.id := by decide
    exact apart decl declares same
  · rintro rfl
    have apart : ((respelledSet [0xFF]).hash localSha256).toOption ≠
        ((respelledSet [0xEF, 0xBF, 0xBD]).hash localSha256).toOption := by decide +kernel
    rw [hashed, hashed'] at apart
    exact apart rfl

theorem accepted_exact_respelled : ∃ hash derived,
    Accepted (localHost "T") respelledJson respelledJson .lostKey
      (respelledSet [0xEF, 0xBF, 0xBD]) hash derived ∧
    NamesSigners respelledDoc respelledDoc (respelledSet [0xEF, 0xBF, 0xBD]) := by
  obtain ⟨_, hash, derived, -, accepted, parsed, -⟩ := replacements_respelled
  obtain ⟨sourceDoc, currentDoc, read, read', exact, -⟩ :=
    accepted_exact (localHost_spells "T") accepted accepted
  obtain rfl : sourceDoc = respelledDoc := Except.ok.inj (read.symm.trans parsed)
  obtain rfl : currentDoc = respelledDoc := Except.ok.inj (read'.symm.trans parsed)
  have textual : (respelledSet [0xEF, 0xBF, 0xBD]).Textual := by
    intro r member
    rw [List.mem_singleton.mp member]
    decide
  exact ⟨hash, derived, accepted, (exact.mpr ⟨textual, textual⟩).1⟩

end Sample

end Perch.Recovery
