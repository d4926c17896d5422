/-
The authorization payload as the wallet writes it.

The host reads a map's keys in its own order and refuses any other, so the
signers are sorted before they are written, by a comparator over what their
strkeys decode to.  A signer that occurs twice is refused.
-/

import Perch.Machine.Comparator
import Perch.Machine.PrefixFree
import Perch.PerchJs.Replacements
import Perch.PerchJs.Snapshot

namespace Perch.PerchJs

open Machine Machine.Js Document

inductive XdrFailure
  | codec (failure : Failure)
  | notARuleId (id : Number)
  | repeatedSigner
deriving DecidableEq

def XdrFailure.message (numberText : Number → Text) : XdrFailure → Text
  | codec failure => failure.message numberText
  | notARuleId id => utf16 "not a rule id: " ++ numberText id
  | repeatedSigner => utf16 "repeated signer"

/-! ### Writing -/

structure XdrWriter where
  parts : List Bytes

namespace XdrWriter

def empty : XdrWriter := ⟨[]⟩

def u32 (w : XdrWriter) (v : Number) : Except XdrFailure XdrWriter :=
  if v.isInteger && v.within 0 0xFFFFFFFF then
    .ok ⟨w.parts ++ [beBytes 4 (wrapped 4 v.truncated)]⟩
  else .error (.codec (.notU32 v))

def padding (length : Nat) : Nat := (4 - length % 4) % 4

/-- Bytes of any length: the length, the bytes, and zeros up to a multiple of four. -/
def opaqueBytes (w : XdrWriter) (b : Bytes) : Except XdrFailure XdrWriter := do
  let w ← w.u32 (.ofNat b.length)
  let w : XdrWriter := ⟨w.parts ++ [b]⟩
  let pad := padding b.length
  pure (if pad = 0 then w else ⟨w.parts ++ [List.replicate pad 0]⟩)

def fixed (w : XdrWriter) (b : Bytes) : XdrWriter := ⟨w.parts ++ [b]⟩

def done (w : XdrWriter) : Bytes := w.parts.flatten

end XdrWriter

def scU32 (w : XdrWriter) (v : Number) : Except XdrFailure XdrWriter := do
  let w ← w.u32 (.ofNat 3)
  w.u32 v

def scSymbol (w : XdrWriter) (s : String) : Except XdrFailure XdrWriter := do
  let w ← w.u32 (.ofNat 15)
  w.opaqueBytes (encodeText (utf16 s))

def scBytes (w : XdrWriter) (b : Bytes) : Except XdrFailure XdrWriter := do
  let w ← w.u32 (.ofNat 13)
  w.opaqueBytes b

/-- An account's address is a public key, whose only arm is ed25519. -/
def scAddress (w : XdrWriter) (strkey : Text) : Except XdrFailure XdrWriter := do
  let (tag, payload) ← (addressPayload strkey).mapError .codec
  let w ← w.u32 (.ofNat 18)
  let w ← w.u32 (.ofNat tag.code.toNat)
  match tag with
  | .account => do
      let w ← w.u32 (.ofNat 0)
      pure (w.fixed payload)
  | .contract => pure (w.fixed payload)

def scSigner (w : XdrWriter) : SignerKey → Except XdrFailure XdrWriter
  | .delegated address => do
      let w ← w.u32 (.ofNat 16)
      let w ← w.u32 (.ofNat 1)
      let w ← w.u32 (.ofNat 2)
      let w ← scSymbol w "Delegated"
      scAddress w address
  | .external verifier key => do
      let w ← w.u32 (.ofNat 16)
      let w ← w.u32 (.ofNat 1)
      let w ← w.u32 (.ofNat 3)
      let w ← scSymbol w "External"
      let w ← scAddress w verifier
      scBytes w key

def checkRuleIds (ruleIds : List Number) : Except XdrFailure Unit :=
  forM ruleIds fun id =>
    require ((id.isInteger && id.within 0 0xFFFFFFFF) = true) (.notARuleId id)

def writeRuleIds (w : XdrWriter) : List Number → Except XdrFailure XdrWriter
  | [] => .ok w
  | id :: rest => do
      let w ← scU32 w id
      writeRuleIds w rest

def ruleIdsXdr (ruleIds : List Number) : Except XdrFailure Bytes := do
  checkRuleIds ruleIds
  let w ← XdrWriter.empty.u32 (.ofNat 16)
  let w ← w.u32 (.ofNat 1)
  let w ← w.u32 (.ofNat ruleIds.length)
  let w ← writeRuleIds w ruleIds
  pure w.done

/-! ### The host's order -/

def compareBytes : Bytes → Bytes → Int
  | a :: as, b :: bs => if a ≠ b then (a.toNat : Int) - b.toNat else compareBytes as bs
  | as, bs => (as.length : Int) - bs.length

/-- `||` on numbers. -/
def orElse (first second : Int) : Int := if first = 0 then second else first

def compareAddress (a b : Text) : Except Failure Int := do
  let (tag, payload) ← addressPayload a
  let (tag', payload') ← addressPayload b
  pure (orElse ((tag.code.toNat : Int) - tag'.code.toNat) (compareBytes payload payload'))

/-- The host's order of two signers: by variant, then field by field. -/
def compareSigners : SignerKey → SignerKey → Except Failure Int
  | .delegated _, .external _ _ => .ok (-1)
  | .external _ _, .delegated _ => .ok 1
  | .delegated address, .delegated address' => compareAddress address address'
  | .external verifier key, .external verifier' key' => do
      let order ← compareAddress verifier verifier'
      pure (orElse order (compareBytes key key'))

/-! ### The payload -/

structure SignerEntry where
  signer : SignerKey
  signature : Bytes
deriving DecidableEq

structure AuthPayload where
  contextRuleIds : List Number
  signers : List SignerEntry
deriving DecidableEq

def compareEntries (a b : SignerEntry) : Except XdrFailure Int :=
  (compareSigners a.signer b.signer).mapError .codec

def refuseRepeats : List SignerEntry → Except XdrFailure Unit
  | previous :: next :: rest => do
      let order ← compareEntries previous next
      require (order ≠ 0) .repeatedSigner
      refuseRepeats (next :: rest)
  | _ => .ok ()

def writeSigners (w : XdrWriter) : List SignerEntry → Except XdrFailure XdrWriter
  | [] => .ok w
  | entry :: rest => do
      let w ← scSigner w entry.signer
      let w ← scBytes w entry.signature
      writeSigners w rest

/-- The payload as a host value: a map from the field names, in their order. -/
def authPayloadXdr (payload : AuthPayload) : Except XdrFailure Bytes := do
  checkRuleIds payload.contextRuleIds
  let signers ← sortWith compareEntries payload.signers
  refuseRepeats signers
  let w ← XdrWriter.empty.u32 (.ofNat 17)
  let w ← w.u32 (.ofNat 1)
  let w ← w.u32 (.ofNat 2)
  let w ← scSymbol w "context_rule_ids"
  let ids ← ruleIdsXdr payload.contextRuleIds
  let w := w.fixed ids
  let w ← scSymbol w "signers"
  let w ← w.u32 (.ofNat 17)
  let w ← w.u32 (.ofNat 1)
  let w ← w.u32 (.ofNat signers.length)
  let w ← writeSigners w signers
  pure w.done

/-! ### Who a signer is -/

/-- What a strkey decodes to: the kind's tag, then the payload. -/
def addressIdentity (strkey : Text) : ℕ ×ₗ List ℕ :=
  match addressPayload strkey with
  | .ok (tag, payload) => toLex (tag.code.toNat, payload.map UInt8.toNat)
  | .error _ => toLex (0, [])

/-- Variant, then address, then key bytes, in the order the host compares them. -/
abbrev SignerIdentity := ℕ ×ₗ (ℕ ×ₗ List ℕ) ×ₗ List ℕ

namespace SignerKey

def identity : SignerKey → SignerIdentity
  | delegated address => toLex (0, toLex (addressIdentity address, []))
  | external verifier key => toLex (1, toLex (addressIdentity verifier, key.map UInt8.toNat))

def address : SignerKey → Text
  | delegated address | external address _ => address

def key : SignerKey → Bytes
  | delegated _ => []
  | external _ key => key

def Valid (signer : SignerKey) : Prop := ∃ decoded, addressPayload signer.address = .ok decoded

end SignerKey

theorem compareBytes_signs (a b : Bytes) :
    Signs (a.map UInt8.toNat) (b.map UInt8.toNat) (compareBytes a b) := by
  induction a generalizing b with
  | nil =>
      cases b with
      | nil => exact .same rfl rfl
      | cons y ys =>
          apply Signs.below
          · simp only [compareBytes, List.length_nil, List.length_cons]
            omega
          · exact List.nil_lt_cons _ _
  | cons x xs ih =>
      cases b with
      | nil =>
          apply Signs.above
          · simp only [compareBytes, List.length_nil, List.length_cons]
            omega
          · exact List.nil_lt_cons _ _
      | cons y ys =>
          rw [compareBytes]
          by_cases same : x = y
          · subst same
            rw [if_neg (not_not.mpr rfl), List.map_cons, List.map_cons]
            cases ih ys with
            | below negative before =>
                exact .below negative (List.cons_lt_cons_iff.mpr (.inr ⟨rfl, before⟩))
            | same zero equal => exact .same zero (congrArg _ equal)
            | above positive after =>
                exact .above positive (List.cons_lt_cons_iff.mpr (.inr ⟨rfl, after⟩))
          · rw [if_pos same, List.map_cons, List.map_cons]
            have apart : x.toNat ≠ y.toNat := fun equal => same (UInt8.toNat_inj.mp equal)
            rcases Nat.lt_or_gt_of_ne apart with before | after
            · exact .below (by omega) (List.cons_lt_cons_iff.mpr (.inl before))
            · exact .above (by omega) (List.cons_lt_cons_iff.mpr (.inl after))

theorem compareAddress_signs {a b : Text} {decoded decoded' : AddressTag × Bytes}
    (valid : addressPayload a = .ok decoded) (valid' : addressPayload b = .ok decoded') :
    ∃ n, compareAddress a b = .ok n ∧ Signs (addressIdentity a) (addressIdentity b) n := by
  rw [compareAddress, valid, valid', addressIdentity, valid, addressIdentity, valid']
  exact ⟨_, rfl, (signs_sub _ _).orElse (compareBytes_signs _ _)⟩

theorem compareSigners_signs {a b : SignerKey} (valid : a.Valid) (valid' : b.Valid) :
    ∃ n, compareSigners a b = .ok n ∧ Signs a.identity b.identity n := by
  obtain ⟨_, decoded⟩ := valid
  obtain ⟨_, decoded'⟩ := valid'
  cases a with
  | delegated address =>
      cases b with
      | delegated address' =>
          obtain ⟨n, answered, signs⟩ := compareAddress_signs decoded decoded'
          exact ⟨n, answered, (signs.outer []).inner 0⟩
      | external verifier key =>
          exact ⟨-1, rfl, .below (by decide) (Prod.Lex.toLex_lt_toLex.mpr (.inl Nat.zero_lt_one))⟩
  | external verifier key =>
      cases b with
      | delegated address =>
          exact ⟨1, rfl, .above (by decide) (Prod.Lex.toLex_lt_toLex.mpr (.inl Nat.zero_lt_one))⟩
      | external verifier' key' =>
          obtain ⟨n, answered, signs⟩ := compareAddress_signs decoded decoded'
          refine ⟨orElse n (compareBytes key key'), ?_,
            (signs.orElse (compareBytes_signs key key')).inner 1⟩
          have same : compareAddress verifier verifier' = .ok n := answered
          rw [compareSigners, same]
          rfl

/-- Two strkeys that decode to one address are one text, so an identity names
one signer. -/
theorem addressIdentity_injective {a b : Text} {decoded decoded' : AddressTag × Bytes}
    (valid : addressPayload a = .ok decoded) (valid' : addressPayload b = .ok decoded')
    (same : addressIdentity a = addressIdentity b) : a = b := by
  obtain ⟨tag, payload⟩ := decoded
  obtain ⟨tag', payload'⟩ := decoded'
  rw [addressIdentity, valid, addressIdentity, valid'] at same
  have parts := Prod.mk.inj (toLex.injective same)
  have tags : tag = tag' := by
    cases tag <;> cases tag' <;> first | rfl | exact absurd parts.1 (by decide)
  have payloads : payload = payload' :=
    List.map_injective_iff.mpr (fun _ _ => UInt8.toNat_inj.mp) parts.2
  subst tags payloads
  rw [(addressPayload_eq_ok.mp valid).2, (addressPayload_eq_ok.mp valid').2]

theorem SignerKey.identity_inj {a b : SignerKey} (valid : a.Valid) (valid' : b.Valid) :
    a.identity = b.identity ↔ a = b := by
  constructor
  · intro same
    obtain ⟨_, decoded⟩ := valid
    obtain ⟨_, decoded'⟩ := valid'
    have variants := Prod.mk.inj (toLex.injective same)
    have fields := Prod.mk.inj (toLex.injective variants.2)
    cases a with
    | delegated address =>
        cases b with
        | delegated address' =>
            have addresses : address = address' :=
              addressIdentity_injective decoded decoded' fields.1
            rw [addresses]
        | external verifier key => exact absurd variants.1 Nat.zero_ne_one
    | external verifier key =>
        cases b with
        | delegated address => exact absurd variants.1 Nat.one_ne_zero
        | external verifier' key' =>
            have keys : key = key' :=
              List.map_injective_iff.mpr (fun _ _ => UInt8.toNat_inj.mp) fields.2
            have verifiers : verifier = verifier' :=
              addressIdentity_injective decoded decoded' fields.1
            rw [keys, verifiers]
  · exact congrArg SignerKey.identity

/-! ### What is written -/

/-- A step that appends these bytes where the lengths in them fit, and throws
where one does not. -/
structure Writes (step : XdrWriter → Except XdrFailure XdrWriter) (fits : Prop) (bytes : Bytes) :
    Prop where
  written : fits → ∀ w, ∃ w', step w = .ok w' ∧ w'.done = w.done ++ bytes
  refused : ¬fits → ∀ w, ∃ failure, step w = .error failure

namespace Writes

variable {step next : XdrWriter → Except XdrFailure XdrWriter} {fits fits' : Prop}
  {bytes bytes' : Bytes}

theorem andThen (first : Writes step fits bytes) (second : Writes next fits' bytes') :
    Writes (fun w => step w >>= next) (fits ∧ fits') (bytes ++ bytes') := by
  constructor
  · intro both w
    obtain ⟨middle, stepped, size⟩ := first.written both.1 w
    obtain ⟨final, nexted, size'⟩ := second.written both.2 middle
    exact ⟨final, by rw [stepped, ok_bind, nexted], by rw [size', size, List.append_assoc]⟩
  · intro neither w
    by_cases fit : fits
    · obtain ⟨middle, stepped, _⟩ := first.written fit w
      obtain ⟨failure, refused⟩ := second.refused (fun fit' => neither ⟨fit, fit'⟩) middle
      exact ⟨failure, by rw [stepped, ok_bind, refused]⟩
    · obtain ⟨failure, refused⟩ := first.refused fit w
      exact ⟨failure, by rw [refused]; rfl⟩

/-- A step that always fits adds no condition. -/
theorem after (first : Writes step True bytes) (second : Writes next fits' bytes') :
    Writes (fun w => step w >>= next) fits' (bytes ++ bytes') := by
  have both := first.andThen second
  rwa [true_and] at both

theorem u32 (n : Nat) : Writes (·.u32 (.ofNat n)) (n < 2 ^ 32) (beBytes 4 n) := by
  have inside : (Number.ofNat n).within 0 0xFFFFFFFF = true ↔ n < 2 ^ 32 := by
    apply (Number.within_ofNat_iff 0xFFFFFFFF).trans
    omega
  constructor
  · intro small w
    refine ⟨⟨w.parts ++ [beBytes 4 n]⟩, ?_, by simp [XdrWriter.done]⟩
    rw [XdrWriter.u32, Number.isInteger_ofNat, inside.mpr small, Number.truncated_ofNat,
      wrapped_of_lt (by omega)]
    rfl
  · intro large w
    refine ⟨.codec (.notU32 (.ofNat n)), ?_⟩
    rw [XdrWriter.u32, Number.isInteger_ofNat, Bool.eq_false_iff.mpr (mt inside.mp large)]
    rfl

theorem u32_of_lt {n : Nat} (small : n < 2 ^ 32) :
    Writes (·.u32 (.ofNat n)) True (beBytes 4 n) := by
  have written := Writes.u32 n
  rwa [eq_true small] at written

theorem fixed (b : Bytes) : Writes (fun w => .ok (w.fixed b)) True b where
  written _ w := ⟨_, rfl, by simp [XdrWriter.fixed, XdrWriter.done]⟩
  refused impossible := absurd trivial impossible

end Writes

/-! ### The bytes of each value -/

def opaqueXdr (b : Bytes) : Bytes :=
  beBytes 4 b.length ++ (b ++ List.replicate (XdrWriter.padding b.length) 0)

def symbolXdr (s : String) : Bytes := beBytes 4 15 ++ opaqueXdr (encodeText (utf16 s))

def bytesXdr (b : Bytes) : Bytes := beBytes 4 13 ++ opaqueXdr b

def addressXdr (strkey : Text) : Bytes :=
  match addressPayload strkey with
  | .ok (.account, payload) => beBytes 4 18 ++ (beBytes 4 0 ++ (beBytes 4 0 ++ payload))
  | .ok (.contract, payload) => beBytes 4 18 ++ (beBytes 4 1 ++ payload)
  | .error _ => []

def signerXdr : SignerKey → Bytes
  | .delegated address =>
      beBytes 4 16 ++ (beBytes 4 1 ++
        (beBytes 4 2 ++ (symbolXdr "Delegated" ++ addressXdr address)))
  | .external verifier key =>
      beBytes 4 16 ++ (beBytes 4 1 ++ (beBytes 4 3 ++ (symbolXdr "External" ++
        (addressXdr verifier ++ bytesXdr key))))

def entryXdr (entry : SignerEntry) : Bytes := signerXdr entry.signer ++ bytesXdr entry.signature

def ruleId (id : UInt32) : Number := .ofNat id.toNat

def ruleIdXdr (id : UInt32) : Bytes := beBytes 4 3 ++ beBytes 4 id.toNat

def idsXdr (ids : List UInt32) : Bytes :=
  beBytes 4 16 ++ (beBytes 4 1 ++ (beBytes 4 ids.length ++ ids.flatMap ruleIdXdr))

def payloadXdr (ids : List UInt32) (listed : List SignerEntry) : Bytes :=
  beBytes 4 17 ++ (beBytes 4 1 ++ (beBytes 4 2 ++ (symbolXdr "context_rule_ids" ++ (idsXdr ids ++
    (symbolXdr "signers" ++ (beBytes 4 17 ++ (beBytes 4 1 ++ (beBytes 4 listed.length ++
      listed.flatMap entryXdr))))))))

def SignerEntry.Fits (entry : SignerEntry) : Prop :=
  entry.signer.key.length < 2 ^ 32 ∧ entry.signature.length < 2 ^ 32

theorem opaqueBytes_writes (b : Bytes) :
    Writes (·.opaqueBytes b) (b.length < 2 ^ 32) (opaqueXdr b) := by
  have rest : Writes (fun w => .ok
      (if XdrWriter.padding b.length = 0 then ⟨w.parts ++ [b]⟩
      else ⟨(w.parts ++ [b]) ++ [List.replicate (XdrWriter.padding b.length) 0]⟩)) True
      (b ++ List.replicate (XdrWriter.padding b.length) 0) := by
    constructor
    · intro _ w
      refine ⟨_, rfl, ?_⟩
      split
      · rename_i none
        simp [XdrWriter.done, none]
      · simp [XdrWriter.done]
    · exact fun impossible => absurd trivial impossible
  have both := (Writes.u32 b.length).andThen rest
  rw [and_true] at both
  exact both

theorem scSymbol_writes {s : String} (short : (encodeText (utf16 s)).length < 2 ^ 32) :
    Writes (scSymbol · s) True (symbolXdr s) := by
  have text := opaqueBytes_writes (encodeText (utf16 s))
  rw [eq_true short] at text
  exact (Writes.u32_of_lt (by decide)).after text

theorem scBytes_writes (b : Bytes) : Writes (scBytes · b) (b.length < 2 ^ 32) (bytesXdr b) :=
  (Writes.u32_of_lt (by decide)).after (opaqueBytes_writes b)

theorem scAddress_writes {strkey : Text} {decoded : AddressTag × Bytes}
    (valid : addressPayload strkey = .ok decoded) :
    Writes (scAddress · strkey) True (addressXdr strkey) := by
  obtain ⟨tag, payload⟩ := decoded
  cases tag with
  | account =>
      have unfolded : (scAddress · strkey) = fun w => w.u32 (.ofNat 18) >>= fun w =>
          w.u32 (.ofNat 0) >>= fun w => w.u32 (.ofNat 0) >>= fun w => .ok (w.fixed payload) := by
        funext w
        rw [scAddress, valid]
        rfl
      rw [unfolded, addressXdr, valid]
      exact (Writes.u32_of_lt (by decide)).after ((Writes.u32_of_lt (by decide)).after
        ((Writes.u32_of_lt (by decide)).after (Writes.fixed payload)))
  | contract =>
      have unfolded : (scAddress · strkey) = fun w => w.u32 (.ofNat 18) >>= fun w =>
          w.u32 (.ofNat 1) >>= fun w => .ok (w.fixed payload) := by
        funext w
        rw [scAddress, valid]
        rfl
      rw [unfolded, addressXdr, valid]
      exact (Writes.u32_of_lt (by decide)).after ((Writes.u32_of_lt (by decide)).after
        (Writes.fixed payload))

theorem scSigner_writes {signer : SignerKey} (valid : signer.Valid) :
    Writes (scSigner · signer) (signer.key.length < 2 ^ 32) (signerXdr signer) := by
  obtain ⟨_, decoded⟩ := valid
  cases signer with
  | delegated address =>
      have short : (SignerKey.delegated address).key.length < 2 ^ 32 := Nat.two_pow_pos 32
      rw [eq_true short]
      exact (Writes.u32_of_lt (by decide)).after ((Writes.u32_of_lt (by decide)).after
        ((Writes.u32_of_lt (by decide)).after ((scSymbol_writes (by decide)).after
          (scAddress_writes decoded))))
  | external verifier key =>
      exact (Writes.u32_of_lt (by decide)).after ((Writes.u32_of_lt (by decide)).after
        ((Writes.u32_of_lt (by decide)).after ((scSymbol_writes (by decide)).after
          ((scAddress_writes decoded).after (scBytes_writes key)))))

theorem Writes.nothing : Writes (fun w => .ok w) True [] where
  written _ w := ⟨w, rfl, (List.append_nil _).symm⟩
  refused impossible := absurd trivial impossible

theorem writeSigners_writes {entries : List SignerEntry}
    (valid : ∀ entry ∈ entries, entry.signer.Valid) :
    Writes (writeSigners · entries) (∀ entry ∈ entries, entry.Fits)
      (entries.flatMap entryXdr) := by
  induction entries with
  | nil =>
      rw [eq_true (List.forall_mem_nil _)]
      exact Writes.nothing
  | cons entry rest ih =>
      have tail := ih fun other member => valid other (List.mem_cons_of_mem _ member)
      have head := scSigner_writes (valid entry List.mem_cons_self)
      have whole := head.andThen ((scBytes_writes entry.signature).andThen tail)
      rw [List.forall_mem_cons, List.flatMap_cons, entryXdr, SignerEntry.Fits, and_assoc,
        List.append_assoc]
      exact whole

theorem writeRuleIds_writes (ids : List UInt32) :
    Writes (writeRuleIds · (ids.map ruleId)) True (ids.flatMap ruleIdXdr) := by
  induction ids with
  | nil => exact Writes.nothing
  | cons id rest ih =>
      have fits := id.toNat_lt
      have head := (Writes.u32_of_lt (n := 3) (by decide)).after
        (Writes.u32_of_lt (n := id.toNat) (by omega))
      exact head.after ih

theorem checkRuleIds_words (ids : List UInt32) : checkRuleIds (ids.map ruleId) = .ok () := by
  induction ids with
  | nil => rfl
  | cons id rest ih =>
      have fits := id.toNat_lt
      have inside : (ruleId id).within 0 0xFFFFFFFF = true :=
        (Number.within_ofNat_iff 0xFFFFFFFF).mpr (by omega)
      have whole : (ruleId id).isInteger = true := Number.isInteger_ofNat id.toNat
      have passed : require (((ruleId id).isInteger && (ruleId id).within 0 0xFFFFFFFF) = true)
          (XdrFailure.notARuleId (ruleId id)) = .ok () := by
        rw [whole, inside]
        rfl
      rw [checkRuleIds, List.map_cons, List.forM_cons, passed]
      exact ih

theorem Writes.taken {step : XdrWriter → Except XdrFailure XdrWriter} {fits : Prop} {bytes : Bytes}
    (writes : Writes step fits bytes) :
    (fits → (step .empty >>= fun w => pure w.done) = .ok bytes) ∧
      (¬fits → ∃ failure, (step .empty >>= fun w => pure w.done) = .error failure) := by
  constructor
  · intro fit
    obtain ⟨w, stepped, appended⟩ := writes.written fit .empty
    rw [stepped, ok_bind, appended]
    rfl
  · intro unfit
    obtain ⟨failure, refused⟩ := writes.refused unfit .empty
    exact ⟨failure, by rw [refused]; rfl⟩

theorem ruleIdsXdr_words (ids : List UInt32) :
    (ids.length < 2 ^ 32 → ruleIdsXdr (ids.map ruleId) = .ok (idsXdr ids)) ∧
      (¬ids.length < 2 ^ 32 → ∃ failure, ruleIdsXdr (ids.map ruleId) = .error failure) := by
  have count := Writes.u32 (ids.map ruleId).length
  rw [List.length_map] at count
  have writes := (Writes.u32_of_lt (n := 16) (by decide)).after
    ((Writes.u32_of_lt (n := 1) (by decide)).after (count.andThen (writeRuleIds_writes ids)))
  have whole := writes.taken
  simp only [bind_assoc, and_true] at whole
  rw [ruleIdsXdr, checkRuleIds_words, ok_bind, List.length_map]
  exact whole

theorem ruleIds_writes (ids : List UInt32) :
    Writes (fun w => ruleIdsXdr (ids.map ruleId) >>= fun written => .ok (w.fixed written))
      (ids.length < 2 ^ 32) (idsXdr ids) := by
  obtain ⟨short, long⟩ := ruleIdsXdr_words ids
  constructor
  · intro fit w
    rw [short fit]
    exact (Writes.fixed (idsXdr ids)).written trivial w
  · intro unfit w
    obtain ⟨failure, refused⟩ := long unfit
    exact ⟨failure, by rw [refused]; rfl⟩

theorem payload_writes (ids : List UInt32) {listed : List SignerEntry}
    (valid : ∀ entry ∈ listed, entry.signer.Valid) :
    Writes (fun w => do
        let w ← w.u32 (.ofNat 17)
        let w ← w.u32 (.ofNat 1)
        let w ← w.u32 (.ofNat 2)
        let w ← scSymbol w "context_rule_ids"
        let w ← ruleIdsXdr (ids.map ruleId) >>= fun written => .ok (w.fixed written)
        let w ← scSymbol w "signers"
        let w ← w.u32 (.ofNat 17)
        let w ← w.u32 (.ofNat 1)
        let w ← w.u32 (.ofNat listed.length)
        writeSigners w listed)
      (ids.length < 2 ^ 32 ∧ listed.length < 2 ^ 32 ∧ ∀ entry ∈ listed, entry.Fits)
      (payloadXdr ids listed) := by
  have entries := (Writes.u32 listed.length).andThen (writeSigners_writes valid)
  have signers := (scSymbol_writes (s := "signers") (by decide)).after
    ((Writes.u32_of_lt (n := 17) (by decide)).after
      ((Writes.u32_of_lt (n := 1) (by decide)).after entries))
  have fields := (scSymbol_writes (s := "context_rule_ids") (by decide)).after
    ((ruleIds_writes ids).andThen signers)
  exact (Writes.u32_of_lt (by decide)).after ((Writes.u32_of_lt (by decide)).after
    ((Writes.u32_of_lt (by decide)).after fields))

/-! ### The bytes determine what was written -/

private theorem word_pieces {n m : Nat} {rest rest' : Bytes}
    (same : beBytes 4 n ++ rest = beBytes 4 m ++ rest') :
    beBytes 4 n = beBytes 4 m ∧ rest = rest' :=
  List.append_inj same (by simp)

theorem opaqueXdr_prefixFree :
    PrefixFree fun (b : Bytes) a => b.length < 2 ^ 32 ∧ a = opaqueXdr b := by
  intro x y a b s t ⟨fits, first⟩ ⟨fits', second⟩ same
  subst first second
  simp only [opaqueXdr, List.append_assoc] at same
  obtain ⟨counts, same⟩ := word_pieces same
  have sizes : x.length = y.length := beBytes_injective (by omega) (by omega) counts
  obtain ⟨payloads, same⟩ := List.append_inj same sizes
  subst payloads
  exact ⟨rfl, rfl, List.append_cancel_left same⟩

theorem bytesXdr_prefixFree :
    PrefixFree fun (b : Bytes) a => b.length < 2 ^ 32 ∧ a = bytesXdr b := by
  intro x y a b s t ⟨fits, first⟩ ⟨fits', second⟩ same
  subst first second
  simp only [bytesXdr, List.append_assoc, List.append_cancel_left_eq] at same
  obtain ⟨payloads, _, rest⟩ := opaqueXdr_prefixFree ⟨fits, rfl⟩ ⟨fits', rfl⟩ same
  subst payloads
  exact ⟨rfl, rfl, rest⟩

theorem addressXdr_prefixFree :
    PrefixFree fun (strkey : Text) a =>
      (∃ decoded, addressPayload strkey = .ok decoded) ∧ a = addressXdr strkey := by
  intro x y a b s t ⟨⟨decoded, valid⟩, first⟩ ⟨⟨decoded', valid'⟩, second⟩ same
  subst first second
  obtain ⟨tag, payload⟩ := decoded
  obtain ⟨tag', payload'⟩ := decoded'
  have spelled := addressPayload_eq_ok.mp valid
  have spelled' := addressPayload_eq_ok.mp valid'
  have sizes : payload.length = payload'.length := spelled.1.trans spelled'.1.symm
  simp only [addressXdr, valid, valid'] at same ⊢
  cases tag with
  | account =>
      cases tag' with
      | account =>
          simp only [List.append_assoc, List.append_cancel_left_eq] at same
          obtain ⟨payloads, rest⟩ := List.append_inj same sizes
          subst payloads
          exact ⟨by rw [spelled.2, spelled'.2], rfl, rest⟩
      | contract =>
          simp only [List.append_assoc, List.append_cancel_left_eq] at same
          exact absurd (word_pieces same).1 (by decide)
  | contract =>
      cases tag' with
      | account =>
          simp only [List.append_assoc, List.append_cancel_left_eq] at same
          exact absurd (word_pieces same).1 (by decide)
      | contract =>
          simp only [List.append_assoc, List.append_cancel_left_eq] at same
          obtain ⟨payloads, rest⟩ := List.append_inj same sizes
          subst payloads
          exact ⟨by rw [spelled.2, spelled'.2], rfl, rest⟩

theorem signerXdr_prefixFree :
    PrefixFree fun (signer : SignerKey) a =>
      (signer.Valid ∧ signer.key.length < 2 ^ 32) ∧ a = signerXdr signer := by
  intro x y a b s t ⟨⟨valid, fits⟩, first⟩ ⟨⟨valid', fits'⟩, second⟩ same
  subst first second
  cases x with
  | delegated address =>
      cases y with
      | delegated address' =>
          simp only [signerXdr, List.append_assoc, List.append_cancel_left_eq] at same
          obtain ⟨addresses, _, rest⟩ := addressXdr_prefixFree ⟨valid, rfl⟩ ⟨valid', rfl⟩ same
          have texts : address = address' := addresses
          subst texts
          exact ⟨rfl, rfl, rest⟩
      | external verifier key =>
          simp only [signerXdr, List.append_assoc, List.append_cancel_left_eq] at same
          exact absurd (word_pieces same).1 (by decide)
  | external verifier key =>
      cases y with
      | delegated address =>
          simp only [signerXdr, List.append_assoc, List.append_cancel_left_eq] at same
          exact absurd (word_pieces same).1 (by decide)
      | external verifier' key' =>
          simp only [signerXdr, List.append_assoc, List.append_cancel_left_eq] at same
          obtain ⟨verifiers, _, same⟩ := addressXdr_prefixFree ⟨valid, rfl⟩ ⟨valid', rfl⟩ same
          obtain ⟨keys, _, rest⟩ := bytesXdr_prefixFree ⟨fits, rfl⟩ ⟨fits', rfl⟩ same
          have texts : verifier = verifier' := verifiers
          have bytes : key = key' := keys
          subst texts bytes
          exact ⟨rfl, rfl, rest⟩

def SignerEntry.Coded (entry : SignerEntry) (a : Bytes) : Prop :=
  (entry.signer.Valid ∧ entry.Fits) ∧ a = entryXdr entry

theorem entryXdr_prefixFree : PrefixFree SignerEntry.Coded := by
  intro x y a b s t ⟨⟨valid, fits⟩, first⟩ ⟨⟨valid', fits'⟩, second⟩ same
  subst first second
  simp only [entryXdr, List.append_assoc] at same
  obtain ⟨signers, _, same⟩ :=
    signerXdr_prefixFree ⟨⟨valid, fits.1⟩, rfl⟩ ⟨⟨valid', fits'.1⟩, rfl⟩ same
  obtain ⟨signatures, _, rest⟩ := bytesXdr_prefixFree ⟨fits.2, rfl⟩ ⟨fits'.2, rfl⟩ same
  cases x
  cases y
  cases signers
  cases signatures
  exact ⟨rfl, rfl, rest⟩

theorem ruleIdXdr_prefixFree : PrefixFree fun (id : UInt32) a => a = ruleIdXdr id := by
  apply PrefixFree.of_length 8
  · intro id a coded
    rw [coded]
    simp [ruleIdXdr]
  · intro x y a first second
    have same : ruleIdXdr x = ruleIdXdr y := first.symm.trans second
    exact beBytes_uint32_injective (List.append_cancel_left same)

/-- The bytes determine the ids and the entries, in the order they stand. -/
theorem payloadXdr_injective {ids ids' : List UInt32} {listed listed' : List SignerEntry}
    (few : ids.length < 2 ^ 32) (few' : ids'.length < 2 ^ 32) (short : listed.length < 2 ^ 32)
    (short' : listed'.length < 2 ^ 32)
    (coded : ∀ entry ∈ listed, entry.signer.Valid ∧ entry.Fits)
    (coded' : ∀ entry ∈ listed', entry.signer.Valid ∧ entry.Fits)
    (same : payloadXdr ids listed = payloadXdr ids' listed') : ids = ids' ∧ listed = listed' := by
  have words (ids : List UInt32) (few : ids.length < 2 ^ 32) :
      Counted 4 (fun (id : UInt32) a => a = ruleIdXdr id) ids
        (beBytes 4 ids.length ++ ids.flatMap ruleIdXdr) :=
    ⟨by omega, _, repeated_flatMap fun _ _ => rfl, rfl⟩
  have entries (listed : List SignerEntry) (short : listed.length < 2 ^ 32)
      (coded : ∀ entry ∈ listed, entry.signer.Valid ∧ entry.Fits) :
      Counted 4 SignerEntry.Coded listed
        (beBytes 4 listed.length ++ listed.flatMap entryXdr) :=
    ⟨by omega, _, repeated_flatMap fun entry member => ⟨coded entry member, rfl⟩, rfl⟩
  simp only [payloadXdr, idsXdr, List.append_assoc, List.append_cancel_left_eq] at same
  rw [← List.append_assoc, ← List.append_assoc (beBytes 4 ids'.length)] at same
  obtain ⟨sameIds, _, same⟩ :=
    ruleIdXdr_prefixFree.counted 4 (words ids few) (words ids' few') same
  simp only [List.append_cancel_left_eq] at same
  exact ⟨sameIds, (entryXdr_prefixFree.counted 4).injective (entries listed short coded)
    (same ▸ entries listed' short' coded')⟩

/-! ### Every payload -/

namespace AuthPayload

/-- The rule ids are 32-bit numbers, and the addresses are strkeys. -/
structure Typed (payload : AuthPayload) : Prop where
  ids : ∃ ids : List UInt32, payload.contextRuleIds = ids.map ruleId
  signers : ∀ entry ∈ payload.signers, entry.signer.Valid

def Repeats (payload : AuthPayload) : Prop := ¬(payload.signers.map SignerEntry.signer).Nodup

def TooLong (payload : AuthPayload) : Prop :=
  ¬(payload.contextRuleIds.length < 2 ^ 32 ∧ payload.signers.length < 2 ^ 32 ∧
    ∀ entry ∈ payload.signers, entry.Fits)

end AuthPayload

def SignerEntry.identity (entry : SignerEntry) : SignerIdentity := entry.signer.identity

theorem compareEntries_fits {a b : SignerEntry} (valid : a.signer.Valid) (valid' : b.signer.Valid) :
    Fits SignerEntry.identity compareEntries a b := by
  obtain ⟨n, answered, signs⟩ := compareSigners_signs valid valid'
  exact ⟨n, by rw [compareEntries, answered]; rfl, signs⟩

/-- Signers that can be read are distinct exactly if their identities are. -/
theorem nodup_identity {entries : List SignerEntry}
    (valid : ∀ entry ∈ entries, entry.signer.Valid) :
    (entries.map SignerEntry.identity).Nodup ↔ (entries.map SignerEntry.signer).Nodup := by
  rw [List.Nodup, List.Nodup, List.pairwise_map, List.pairwise_map]
  apply List.Pairwise.iff_of_mem
  intro a b member member'
  exact not_congr (SignerKey.identity_inj (valid a member) (valid b member'))

theorem refuseRepeats_ascending {entries : List SignerEntry}
    (valid : ∀ entry ∈ entries, entry.signer.Valid)
    (ascends : entries.Pairwise fun a b => a.identity < b.identity) :
    refuseRepeats entries = .ok () := by
  induction entries with
  | nil => rfl
  | cons previous rest ih =>
      cases rest with
      | nil => rfl
      | cons next rest =>
          obtain ⟨before, ascends⟩ := List.pairwise_cons.mp ascends
          obtain ⟨n, answered, signs⟩ := compareEntries_fits (valid previous (by simp))
            (valid next (by simp))
          have negative := signs.neg_iff.mpr (before next List.mem_cons_self)
          have tail := ih (fun entry member => valid entry (List.mem_cons_of_mem _ member)) ascends
          rw [refuseRepeats, answered, ok_bind, tail]
          have apart : n ≠ 0 := by omega
          simp [apart, require]

theorem refuseRepeats_repeated {entries : List SignerEntry}
    (valid : ∀ entry ∈ entries, entry.signer.Valid)
    (sorted : entries.Pairwise fun a b => a.identity ≤ b.identity)
    (repeated : ¬(entries.map SignerEntry.identity).Nodup) :
    refuseRepeats entries = .error .repeatedSigner := by
  induction entries with
  | nil => exact absurd List.nodup_nil repeated
  | cons previous rest ih =>
      cases rest with
      | nil => exact absurd (List.nodup_singleton _) repeated
      | cons next rest =>
          obtain ⟨below, sorted⟩ := List.pairwise_cons.mp sorted
          obtain ⟨n, answered, signs⟩ := compareEntries_fits (valid previous (by simp))
            (valid next (by simp))
          rw [refuseRepeats, answered, ok_bind]
          by_cases same : previous.identity = next.identity
          · have zero := signs.zero_iff.mpr same
            simp [zero, require]
          · have apart : n ≠ 0 := mt signs.zero_iff.mp same
            have later : ¬((next :: rest).map SignerEntry.identity).Nodup := by
              intro distinct
              apply repeated
              rw [List.map_cons, List.nodup_cons]
              refine ⟨?_, distinct⟩
              intro member
              obtain ⟨other, member, equal⟩ := List.mem_map.mp member
              have first := lt_of_le_of_ne (below next List.mem_cons_self) same
              rcases List.mem_cons.mp member with rfl | member
              · exact same equal.symm
              · have second := (List.pairwise_cons.mp sorted).1 other member
                exact absurd equal.symm (first.trans_le second).ne
            have tail := ih (fun entry member => valid entry (List.mem_cons_of_mem _ member)) sorted
              later
            rw [tail]
            simp [apart, require]

def AuthPayload.listed (payload : AuthPayload) : List SignerEntry :=
  payload.signers.insertionSort fun a b => a.identity ≤ b.identity

theorem AuthPayload.listed_perm (payload : AuthPayload) : payload.listed.Perm payload.signers :=
  List.perm_insertionSort _ _

section

variable {payload : AuthPayload} (valid : ∀ entry ∈ payload.signers, entry.signer.Valid)

include valid

theorem sorted_listed : sortWith compareEntries payload.signers = .ok payload.listed :=
  sortWith_eq fun a member b member' => compareEntries_fits (valid a member) (valid b member')

theorem valid_listed : ∀ entry ∈ payload.listed, entry.signer.Valid := fun entry member =>
  valid entry (payload.listed_perm.mem_iff.mp member)

theorem ascending_listed (distinct : (payload.signers.map SignerEntry.signer).Nodup) :
    payload.listed.Pairwise fun a b => a.identity < b.identity :=
  insertionSort_ascends ((nodup_identity valid).mpr distinct)

variable {ids : List UInt32} (words : payload.contextRuleIds = ids.map ruleId)

include words

/-- Entries of different signers are written, unless a length is too large. -/
theorem authPayloadXdr_distinct (distinct : (payload.signers.map SignerEntry.signer).Nodup) :
    (¬payload.TooLong → authPayloadXdr payload = .ok (payloadXdr ids payload.listed)) ∧
      (payload.TooLong → ∃ failure, authPayloadXdr payload = .error failure) := by
  have shuffled := payload.listed_perm
  have fits : (ids.length < 2 ^ 32 ∧ payload.listed.length < 2 ^ 32 ∧
      ∀ entry ∈ payload.listed, entry.Fits) ↔ ¬payload.TooLong := by
    rw [AuthPayload.TooLong, not_not, words, List.length_map, shuffled.length_eq]
    simp only [shuffled.mem_iff]
  have whole := (payload_writes ids (valid_listed valid)).taken
  simp only [bind_assoc, ok_bind, fits, not_not] at whole
  rw [authPayloadXdr, words, checkRuleIds_words, ok_bind, sorted_listed valid, ok_bind,
    refuseRepeats_ascending (valid_listed valid) (ascending_listed valid distinct), ok_bind]
  exact whole

theorem authPayloadXdr_repeated (repeated : payload.Repeats) :
    authPayloadXdr payload = .error .repeatedSigner := by
  have shuffled := payload.listed_perm
  have sorted : payload.listed.Pairwise fun a b => a.identity ≤ b.identity := by
    have : Std.Total fun a b : SignerEntry => a.identity ≤ b.identity :=
      ⟨fun a b => le_total a.identity b.identity⟩
    have : IsTrans SignerEntry fun a b => a.identity ≤ b.identity := ⟨fun _ _ _ => le_trans⟩
    exact List.pairwise_insertionSort _ _
  have again : ¬(payload.listed.map SignerEntry.identity).Nodup := by
    rw [(shuffled.map SignerEntry.identity).nodup_iff, nodup_identity valid]
    exact repeated
  rw [authPayloadXdr, words, checkRuleIds_words, ok_bind, sorted_listed valid, ok_bind,
    refuseRepeats_repeated (valid_listed valid) sorted again]
  rfl

theorem authPayloadXdr_throws_iff :
    (∃ failure, authPayloadXdr payload = .error failure) ↔ payload.Repeats ∨ payload.TooLong := by
  by_cases repeated : payload.Repeats
  · exact iff_of_true ⟨_, authPayloadXdr_repeated valid words repeated⟩ (.inl repeated)
  · obtain ⟨short, long⟩ := authPayloadXdr_distinct valid words (not_not.mp repeated)
    constructor
    · intro ⟨failure, thrown⟩
      by_contra fine
      rw [short fun large => fine (.inr large)] at thrown
      cases thrown
    · intro condition
      exact long (condition.resolve_left repeated)

theorem authPayloadXdr_eq_ok {encoded : Bytes} (made : authPayloadXdr payload = .ok encoded) :
    ¬payload.Repeats ∧ ¬payload.TooLong ∧ encoded = payloadXdr ids payload.listed := by
  have fine : ¬(payload.Repeats ∨ payload.TooLong) := by
    intro condition
    obtain ⟨failure, thrown⟩ := (authPayloadXdr_throws_iff valid words).mpr condition
    rw [made] at thrown
    cases thrown
  obtain ⟨distinct, short⟩ := not_or.mp fine
  have written := (authPayloadXdr_distinct valid words (not_not.mp distinct)).1 short
  exact ⟨distinct, short, Except.ok.inj (made.symm.trans written)⟩

end

def Precedes (a b : { signer : SignerKey // signer.Valid }) : Prop :=
  ∃ n < 0, compareSigners a.1 b.1 = .ok n

theorem precedes_iff {a b : { signer : SignerKey // signer.Valid }} :
    Precedes a b ↔ a.1.identity < b.1.identity := by
  obtain ⟨n, answered, signs⟩ := compareSigners_signs a.2 b.2
  rw [← signs.neg_iff, Precedes, answered]
  constructor
  · intro ⟨m, negative, same⟩
    cases same
    exact negative
  · exact fun negative => ⟨n, negative, rfl⟩

theorem precedes_strictTotalOrder : IsStrictTotalOrder _ Precedes where
  trichotomous a b := by
    intro notBefore notAfter
    rw [precedes_iff] at notBefore notAfter
    exact Subtype.ext ((SignerKey.identity_inj a.2 b.2).mp
      (le_antisymm (not_lt.mp notAfter) (not_lt.mp notBefore)))
  irrefl a before := lt_irrefl _ (precedes_iff.mp before)
  trans a b c before after :=
    precedes_iff.mpr ((precedes_iff.mp before).trans (precedes_iff.mp after))

/-- The payload is canonical.  It is refused exactly where a signer occurs twice
or a length does not fit 32 bits; what is written does not depend on the
order of the entries, lists them in the host's, and is no other payload's. -/
theorem authPayloadXdr_canonical {payload : AuthPayload} (typed : payload.Typed) :
    ((∃ failure, authPayloadXdr payload = .error failure) ↔
      payload.Repeats ∨ payload.TooLong) ∧
    (∀ encoded, authPayloadXdr payload = .ok encoded →
      (∀ other : AuthPayload, other.contextRuleIds = payload.contextRuleIds →
        other.signers.Perm payload.signers → authPayloadXdr other = .ok encoded) ∧
      (∃ ids listed, payload.contextRuleIds = ids.map ruleId ∧ listed.Perm payload.signers ∧
        listed.Pairwise (fun a b => a.identity < b.identity) ∧
        encoded = payloadXdr ids listed) ∧
      ∀ other : AuthPayload, other.Typed → authPayloadXdr other = .ok encoded →
        other.contextRuleIds = payload.contextRuleIds ∧ other.signers.Perm payload.signers) ∧
    IsStrictTotalOrder _ Precedes ∧
    ∀ a b : SignerKey, a.Valid → b.Valid → ∃ n, compareSigners a b = .ok n ∧
      (n < 0 ↔ a.identity < b.identity) ∧ (n = 0 ↔ a = b) := by
  obtain ⟨⟨ids, words⟩, valid⟩ := typed
  refine ⟨authPayloadXdr_throws_iff valid words, ?_, precedes_strictTotalOrder, ?_⟩
  · intro encoded made
    obtain ⟨repeated, short, rfl⟩ := authPayloadXdr_eq_ok valid words made
    have distinct : (payload.signers.map SignerEntry.signer).Nodup := not_not.mp repeated
    refine ⟨?_, ⟨ids, payload.listed, words, payload.listed_perm,
      ascending_listed valid distinct, rfl⟩, ?_⟩
    · intro other sameIds shuffled
      have valid' : ∀ entry ∈ other.signers, entry.signer.Valid := fun entry member =>
        valid entry (shuffled.mem_iff.mp member)
      have distinct' : (other.signers.map SignerEntry.signer).Nodup :=
        (shuffled.map _).nodup_iff.mpr distinct
      have short' : ¬other.TooLong := by
        rw [AuthPayload.TooLong, sameIds, shuffled.length_eq]
        simp only [shuffled.mem_iff]
        exact short
      have arranged : other.listed = payload.listed :=
        ascending_unique
          (other.listed_perm.trans (shuffled.trans payload.listed_perm.symm))
          (ascending_listed valid' distinct') (ascending_listed valid distinct)
      rw [(authPayloadXdr_distinct valid' (sameIds.trans words) distinct').1 short', arranged]
    · intro other typed' made'
      obtain ⟨⟨ids', words'⟩, valid'⟩ := typed'
      obtain ⟨_, short', same⟩ := authPayloadXdr_eq_ok valid' words' made'
      have sizes := not_not.mp short
      have sizes' := not_not.mp short'
      rw [words, List.length_map, ← payload.listed_perm.length_eq] at sizes
      rw [words', List.length_map, ← other.listed_perm.length_eq] at sizes'
      obtain ⟨sameIds, sameListed⟩ := payloadXdr_injective sizes.1 sizes'.1 sizes.2.1 sizes'.2.1
        (fun entry member => ⟨valid_listed valid entry member,
          sizes.2.2 entry (payload.listed_perm.mem_iff.mp member)⟩)
        (fun entry member => ⟨valid_listed valid' entry member,
          sizes'.2.2 entry (other.listed_perm.mem_iff.mp member)⟩) same
      constructor
      · rw [words, words', sameIds]
      · exact other.listed_perm.symm.trans (sameListed ▸ payload.listed_perm)
  · intro a b validA validB
    obtain ⟨n, answered, signs⟩ := compareSigners_signs validA validB
    exact ⟨n, answered, signs.neg_iff,
      signs.zero_iff.trans (SignerKey.identity_inj validA validB)⟩

def sampleVerifier : Text := ascii (strkey contractVersion (List.replicate 32 7))

theorem sampleVerifier_decoded :
    addressPayload sampleVerifier = .ok (.contract, List.replicate 32 7) :=
  addressPayload_strkey .contract (by decide)

def sampleDelegate : Text := ascii (strkey accountVersion (List.replicate 32 9))

theorem sampleDelegate_decoded :
    addressPayload sampleDelegate = .ok (.account, List.replicate 32 9) :=
  addressPayload_strkey .account (by decide)

def samplePair : AuthPayload where
  contextRuleIds := [ruleId 0xFFFFFFFF]
  signers :=
    [⟨.external sampleVerifier (List.replicate 33 0), [1, 2]⟩, ⟨.delegated sampleDelegate, []⟩]

theorem samplePair_typed : samplePair.Typed where
  ids := ⟨[0xFFFFFFFF], rfl⟩
  signers entry member := by
    simp only [samplePair, List.mem_cons, List.not_mem_nil, or_false] at member
    rcases member with rfl | rfl
    · exact ⟨_, sampleVerifier_decoded⟩
    · exact ⟨_, sampleDelegate_decoded⟩

/-- Two signers are written in one way, whichever comes first. -/
theorem authPayloadXdr_canonical_pair : ∃ encoded,
    authPayloadXdr samplePair = .ok encoded ∧
      authPayloadXdr { samplePair with signers := samplePair.signers.reverse } = .ok encoded := by
  obtain ⟨throws, canonical, _⟩ := authPayloadXdr_canonical samplePair_typed
  have distinct : ¬samplePair.Repeats := by simp [AuthPayload.Repeats, samplePair]
  have short : ¬samplePair.TooLong := by
    simp [AuthPayload.TooLong, samplePair, SignerEntry.Fits, SignerKey.key]
  cases made : authPayloadXdr samplePair with
  | error failure =>
      rcases throws.mp ⟨failure, made⟩ with repeated | long
      · exact absurd repeated distinct
      · exact absurd long short
  | ok encoded =>
      exact ⟨encoded, rfl, (canonical encoded made).1 _ rfl (List.reverse_perm _)⟩

def keyOf (length : Nat) : AuthPayload where
  contextRuleIds := [ruleId 0xFFFFFFFF]
  signers := [⟨.external sampleVerifier (List.replicate length 0), []⟩]

theorem keyOf_typed (length : Nat) : (keyOf length).Typed where
  ids := ⟨[0xFFFFFFFF], rfl⟩
  signers entry member := by
    rw [keyOf, List.mem_singleton] at member
    rw [member]
    exact ⟨_, sampleVerifier_decoded⟩

theorem keyOf_distinct (length : Nat) : ¬(keyOf length).Repeats :=
  not_not.mpr (List.nodup_singleton _)

theorem keyOf_tooLong {length : Nat} : (keyOf length).TooLong ↔ ¬length < 2 ^ 32 := by
  apply not_congr
  constructor
  · intro fits
    have bound := (fits.2.2 _ List.mem_cons_self).1
    rw [SignerKey.key, List.length_replicate] at bound
    exact bound
  · intro small
    refine ⟨Nat.one_lt_two_pow (by decide), Nat.one_lt_two_pow (by decide), ?_⟩
    intro entry member
    rw [keyOf, List.mem_singleton] at member
    rw [member]
    exact ⟨by rwa [SignerKey.key, List.length_replicate], Nat.two_pow_pos 32⟩

/-- A key of 2 ^ 32 bytes is refused, although no signer occurs twice. -/
theorem authPayloadXdr_longKey :
    (keyOf (2 ^ 32)).Typed ∧
      ¬((∃ failure, authPayloadXdr (keyOf (2 ^ 32)) = .error failure) ↔
        (keyOf (2 ^ 32)).Repeats) := by
  refine ⟨keyOf_typed _, ?_⟩
  intro claimed
  have typed := keyOf_typed (2 ^ 32)
  obtain ⟨ids, words⟩ := typed.ids
  have thrown := (authPayloadXdr_throws_iff typed.signers words).mpr
    (.inr (keyOf_tooLong.mpr (Nat.lt_irrefl _)))
  exact keyOf_distinct _ (claimed.mp thrown)

end Perch.PerchJs
