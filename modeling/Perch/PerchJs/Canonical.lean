/-
The wallet's canonical form and its hashes.

The writer sorts an object's members by their keys' code units, leaves out the
undefined ones, and escapes one code point at a time.  Its text for a
document's canonical value, in UTF-8, is the canonical form itself.
-/

import Mathlib.Data.List.Lex
import Mathlib.Data.List.Sort
import Perch.Document.Compiler
import Perch.PerchJs.Schema

namespace Perch.PerchJs

open Machine Machine.Js

/-! ### Writing -/

inductive WriteFailure
  | null
  | notInteger (value : Number)
  | unserializable (kind : String)
  | noRecovery
deriving DecidableEq

def WriteFailure.message (numberText : Number → Text) : WriteFailure → Text
  | null => utf16 "canonical form must not contain null"
  | notInteger value => utf16 "non-integer number in canonical form: " ++ numberText value
  | unserializable kind => utf16 "unserializable value in canonical form: " ++ utf16 kind
  | noRecovery => utf16 "document has no recovery member"

/-- How a runtime writes numbers: integers below `10 ^ 21` in plain decimal. -/
def WritesIntegers (numberText : Number → Text) : Prop :=
  ∀ n : Int, n.natAbs < 10 ^ 21 → numberText (.finite n) = decimalText n

def hexDigits : List Char := "0123456789abcdef".toList

def hexDigit (nibble : Nat) : Char := hexDigits.getD nibble '0'

def writePoint : Point → Text
  | .lone unit => [unit]
  | .scalar ch =>
      if ch = '"' then utf16 "\\\""
      else if ch = '\\' then utf16 "\\\\"
      else if ch = '\x08' then utf16 "\\b"
      else if ch = '\t' then utf16 "\\t"
      else if ch = '\n' then utf16 "\\n"
      else if ch = '\x0c' then utf16 "\\f"
      else if ch = '\r' then utf16 "\\r"
      else if ch.toNat < 0x20 then
        utf16 "\\u00" ++ chars [hexDigit (ch.toNat / 16 % 16), hexDigit (ch.toNat % 16)]
      else charUnits ch

def writeString (s : Text) : Text := utf16 "\"" ++ (points s).flatMap writePoint ++ utf16 "\""

def join (parts : List Text) : Text := List.intercalate (utf16 ",") parts

def sortMembers {α : Type} (members : List (Text × α)) : List (Text × α) :=
  members.insertionSort fun a b => a.1 ≤ b.1

variable (numberText : Number → Text)

mutual

def write : Value → Except WriteFailure Text
  | .null => .error .null
  | .string s => .ok (writeString s)
  | .number n => if n.isInteger then .ok (numberText n) else .error (.notInteger n)
  | .bool b => .ok (utf16 (if b then "true" else "false"))
  | .array items => do
      let texts ← (writeItems items).mapM id
      pure (utf16 "[" ++ join texts ++ utf16 "]")
  | .object members => do
      let texts ← (sortMembers (writeMembers members)).mapM fun (key, text) => do
        pure (writeString key ++ utf16 ":" ++ (← text))
      pure (utf16 "\x7b" ++ join texts ++ utf16 "\x7d")
  | .undefined => .error (.unserializable "undefined")
  | .bigint _ => .error (.unserializable "bigint")

def writeItems : List Value → List (Except WriteFailure Text)
  | [] => []
  | item :: items => write item :: writeItems items

/-- Each member that is not `undefined`, with what writing it gives. -/
def writeMembers : List (Text × Value) → List (Text × Except WriteFailure Text)
  | [] => []
  | (_, .undefined) :: members => writeMembers members
  | (key, held) :: members => (key, write held) :: writeMembers members

end

/-- The canonical JSON form of a document, or of a fragment of one. -/
def canonicalJson (doc : Value) : Except WriteFailure Text := write numberText doc

def docPreimage (doc : Value) : Except WriteFailure Bytes := do
  pure (encodeText (← canonicalJson numberText doc))

def ruleHashDomain : Text := utf16 "perch/rule"

def configHashDomain : Text := utf16 "perch/recovery/config"

/-- What a fragment's hash is taken over: its domain tag, and its canonical form. -/
def taggedPreimage (tag : Text) (fragment : Value) : Except WriteFailure Bytes := do
  pure (encodeText tag ++ encodeText (← canonicalJson numberText fragment))

def rulePreimage (rule : Value) : Except WriteFailure Bytes :=
  taggedPreimage numberText ruleHashDomain rule

def configPreimage (doc : Value) : Except WriteFailure Bytes :=
  match doc.get "recovery" with
  | .undefined => .error .noRecovery
  | recovery => taggedPreimage numberText configHashDomain recovery

/-! ### The writer on canonical values -/

theorem chars_append (left right : List Char) :
    chars (left ++ right) = chars left ++ chars right := List.flatMap_append

theorem writePoint_scalar (c : Char) : writePoint (.scalar c) = chars (Ir.escapeChar c) := by
  rw [writePoint, Ir.escapeChar]
  split_ifs
  · rfl
  · rfl
  · rfl
  · rfl
  · rfl
  · rfl
  · rfl
  · exact (chars_append ['\\', 'u', '0', '0'] _).symm
  · exact (List.append_nil _).symm

theorem writeString_utf16 (s : String) :
    writeString (utf16 s) = chars (Ir.writeJsonString s) := by
  have escaped : ∀ characters : List Char,
      (characters.map Point.scalar).flatMap writePoint =
        chars (characters.flatMap Ir.escapeChar) := by
    intro characters
    induction characters with
    | nil => rfl
    | cons c rest ih =>
        rw [List.map_cons, List.flatMap_cons, ih, writePoint_scalar, List.flatMap_cons,
          chars_append]
  have read : points (utf16 s) = s.toList.map .scalar := points_chars _
  have split : '"' :: (s.toList.flatMap Ir.escapeChar ++ ['"']) =
      ['"'] ++ s.toList.flatMap Ir.escapeChar ++ ['"'] := rfl
  rw [writeString, read, escaped, Ir.writeJsonString, split, chars_append, chars_append]
  rfl

theorem join_chars (parts : List (List Char)) :
    join (parts.map chars) = chars (Json.joined parts) := by
  induction parts with
  | nil => rfl
  | cons part rest ih =>
      cases rest with
      | nil => simp [join, Json.joined]
      | cons next rest =>
          have separated : join (chars part :: chars next :: rest.map chars) =
              chars part ++ (chars [','] ++ join (chars next :: rest.map chars)) := by
            simp only [join, List.intercalate, List.intersperse_cons_cons, List.flatten_cons]
            rfl
          have joined : Json.joined (part :: next :: rest) =
              part ++ ([','] ++ Json.joined (next :: rest)) := Json.joined_cons (by simp)
          rw [List.map_cons, List.map_cons, separated, joined, chars_append, chars_append, ← ih,
            List.map_cons]

theorem map_toNat_lt_iff {left right : Text} :
    left.map UInt16.toNat < right.map UInt16.toNat ↔ left < right := by
  induction left generalizing right with
  | nil => cases right <;> simp
  | cons unit rest ih =>
      cases right with
      | nil => simp
      | cons other more =>
          simp only [List.map_cons, List.cons_lt_cons_iff, ih, UInt16.toNat_inj,
            UInt16.lt_iff_toNat_lt]

theorem utf16_le_iff (a b : String) :
    utf16 a ≤ utf16 b ↔ Ir.encodeUtf16 a ≤ Ir.encodeUtf16 b := by
  have values : ∀ s : String, Ir.encodeUtf16 s = (utf16 s).map UInt16.toNat := by
    intro s
    rw [Ir.encodeUtf16, utf16, chars, List.map_flatMap]
    apply List.flatMap_congr
    intro c _
    have bound : c.toNat < 0x110000 := by
      rcases c.valid with low | ⟨_, high⟩
      · exact Nat.lt_trans low (by decide)
      · exact high
    by_cases small : c.toNat < 0x10000
    · rw [charUnits_of_lt small, List.map_singleton, toNat_of_bmp small]
      exact if_pos small
    · have high : (0xD800 + (c.toNat - 0x10000) / 0x400) % 2 ^ 16 =
          0xD800 + (c.toNat - 0x10000) / 0x400 := Nat.mod_eq_of_lt (by omega)
      have low : (0xDC00 + (c.toNat - 0x10000) % 0x400) % 2 ^ 16 =
          0xDC00 + (c.toNat - 0x10000) % 0x400 := Nat.mod_eq_of_lt (by omega)
      have units : charUnits c = [_, _] := if_neg small
      rw [units, List.map_cons, List.map_singleton, UInt16.toNat_ofNat', UInt16.toNat_ofNat',
        high, low]
      exact if_neg small
  rw [values, values, ← not_lt, map_toNat_lt_iff]
  rfl

theorem sortMembers_map {α β : Type} (entries : List (String × α)) (render : α → β) :
    sortMembers (entries.map fun entry => (utf16 entry.1, render entry.2)) =
      (Ir.sortKeys entries).map fun entry => (utf16 entry.1, render entry.2) := by
  rw [sortMembers, Ir.sortKeys]
  symm
  apply List.map_insertionSort
  intro a _ b _
  exact (utf16_le_iff a.1 b.1).symm

section Writing

variable {numberText : Number → Text}

mutual

/-- The wallet writes a canonical value as it is written on chain. -/
theorem write_cvValue (writes : WritesIntegers numberText) :
    ∀ cv, write numberText (cvValue cv) = .ok (chars (Ir.writeValue cv))
  | .str s => by rw [cvValue, write, Ir.writeValue, writeString_utf16]
  | .u32 n => by
      have fits := n.toNat_lt
      have plain : numberText (.ofNat n.toNat) = decimalText n.toNat :=
        writes n.toNat (by omega)
      rw [cvValue, write, Number.isInteger_ofNat, if_pos rfl, plain, Ir.writeValue]
      simp [decimalText]
  | .arr items => by
      have texts : ((Ir.writeItems items).map fun text =>
          (.ok (chars text) : Except WriteFailure Text)).mapM id =
            .ok ((Ir.writeItems items).map chars) := by
        apply mapM_map_ok
        intro text
        rfl
      have brackets : '[' :: (Json.joined (Ir.writeItems items) ++ [']']) =
          ['['] ++ Json.joined (Ir.writeItems items) ++ [']'] := rfl
      rw [cvValue, write, writeItems_cvValues writes items, texts, ok_bind, join_chars,
        Ir.writeValue,
        brackets, chars_append, chars_append]
      rfl
  | .obj entries => by
      have texts : ((Ir.sortKeys (Ir.writeEntries entries)).map fun entry =>
          (utf16 entry.1, (.ok (chars entry.2) : Except WriteFailure Text))).mapM
            (fun (key, text) => do pure (writeString key ++ utf16 ":" ++ (← text))) =
          .ok (((Ir.sortKeys (Ir.writeEntries entries)).map fun (key, text) =>
            Ir.writeJsonString key ++ ':' :: text).map chars) := by
        rw [List.map_map]
        apply mapM_map_ok
        rintro ⟨key, text⟩
        have split : Ir.writeJsonString key ++ ':' :: text =
            Ir.writeJsonString key ++ [':'] ++ text := by simp
        simp only [ok_bind, Function.comp_apply, split, chars_append, writeString_utf16]
        rfl
      have braces (inner : List Char) : '\x7b' :: (inner ++ ['\x7d']) =
          ['\x7b'] ++ inner ++ ['\x7d'] := rfl
      rw [cvValue, write, writeMembers_cvMembers writes entries,
        sortMembers_map _ fun text => (.ok (chars text) : Except WriteFailure Text), texts, ok_bind,
        join_chars, Ir.writeValue, braces, chars_append, chars_append]
      rfl

theorem writeItems_cvValues (writes : WritesIntegers numberText) :
    ∀ items, writeItems numberText (cvValues items) =
    (Ir.writeItems items).map fun text => .ok (chars text)
  | [] => rfl
  | item :: items => by
      rw [cvValues, writeItems, write_cvValue writes item, writeItems_cvValues writes items,
        Ir.writeItems,
        List.map_cons]

theorem writeMembers_cvMembers (writes : WritesIntegers numberText) :
    ∀ entries, writeMembers numberText (cvMembers entries) =
    (Ir.writeEntries entries).map fun entry => (utf16 entry.1, .ok (chars entry.2))
  | [] => rfl
  | (key, cv) :: entries => by
      have kept : writeMembers numberText ((utf16 key, cvValue cv) :: cvMembers entries) =
          (utf16 key, write numberText (cvValue cv)) ::
            writeMembers numberText (cvMembers entries) := by
        cases cv <;> rfl
      rw [cvMembers, kept, write_cvValue writes cv, writeMembers_cvMembers writes entries,
        Ir.writeEntries,
        List.map_cons]

end

variable (writes : WritesIntegers numberText)
include writes

theorem docPreimage_cvValue (doc : Ir.PolicyDoc) :
    docPreimage numberText (cvValue (Ir.docToCv doc)) = .ok (Ir.utf8 (Ir.canonicalJson doc)) := by
  have text : utf16 (Ir.canonicalJson doc) = chars (Ir.writeValue (Ir.docToCv doc)) := by
    rw [utf16, Ir.canonicalJson, String.toList_ofList]
  rw [docPreimage, canonicalJson, write_cvValue writes, ok_bind, ← text, encodeText_utf16]
  rfl

theorem taggedPreimage_cvValue (tag : String) (cv : Ir.Cv) :
    taggedPreimage numberText (utf16 tag) (cvValue cv) =
      .ok (Ir.utf8 tag ++ Ir.utf8 (String.ofList (Ir.writeValue cv))) := by
  have text : utf16 (String.ofList (Ir.writeValue cv)) = chars (Ir.writeValue cv) := by
    rw [utf16, String.toList_ofList]
  rw [taggedPreimage, canonicalJson, write_cvValue writes, ok_bind, ← text, encodeText_utf16,
    encodeText_utf16]
  rfl

omit writes in
theorem get_cvValue (entries : List (String × Ir.Cv)) (key : String) :
    (cvValue (.obj entries)).get key = ((List.lookup key entries).map cvValue).getD .undefined := by
  have found : List.lookup (utf16 key) (cvMembers entries) =
      (List.lookup key entries).map cvValue := by
    induction entries with
    | nil => rfl
    | cons entry rest ih =>
        obtain ⟨name, cv⟩ := entry
        have tested : (utf16 key == utf16 name) = (key == name) := by
          rw [Bool.eq_iff_iff, beq_iff_eq, beq_iff_eq]
          exact ⟨utf16_injective, congrArg utf16⟩
        rw [cvMembers, List.lookup_cons, List.lookup_cons, tested, ih]
        cases key == name <;> rfl
  rw [cvValue, Value.get, lookup, found]

omit writes in
theorem get_rules (doc : Ir.PolicyDoc) :
    (cvValue (Ir.docToCv doc)).get "rules" =
      .array (doc.rules.map fun rule => cvValue (Ir.ruleToCv rule)) := by
  rw [Ir.docToCv, get_cvValue]
  cases doc.network <;> simp [Ir.optional, List.lookup_cons, cvValue, cvValues_eq_map]

omit writes in
theorem get_recovery (doc : Ir.PolicyDoc) :
    (cvValue (Ir.docToCv doc)).get "recovery" =
      (doc.recovery.map fun recovery => cvValue (Ir.recoveryToCv recovery)).getD .undefined := by
  rw [Ir.docToCv, get_cvValue]
  cases doc.network <;> cases doc.recovery <;> simp [Ir.optional, List.lookup_cons]

theorem configPreimage_cvValue (doc : Ir.PolicyDoc) :
    configPreimage numberText (cvValue (Ir.docToCv doc)) =
      match doc.recovery with
      | some recovery =>
          .ok (Document.configDomain ++ Ir.utf8 (Ir.recoveryCanonicalJson recovery))
      | none => .error .noRecovery := by
  rw [configPreimage, get_recovery]
  cases doc.recovery with
  | none => rfl
  | some recovery =>
      have written := taggedPreimage_cvValue writes "perch/recovery/config"
        (Ir.recoveryToCv recovery)
      have object : ∃ members, cvValue (Ir.recoveryToCv recovery) = .object members :=
        ⟨_, by rw [Ir.recoveryToCv, cvValue]⟩
      obtain ⟨members, object⟩ := object
      rw [object] at written
      rw [Option.map_some, Option.getD_some, object]
      exact written

/-- A lexer that reads JSON texts as the trees they stand for, and no other text. -/
def ReadsJson (lexer : Ir.JsonLexer) : Prop :=
  ∀ text tree, lexer text = .ok tree → JsonText.parse text.toList = some tree

/-- A text the parser accepts is accepted by the wallet, which hashes the same
bytes for the document, for each of its rules, and for its recovery member. -/
theorem canonical_bytes_agree {lexer : Ir.JsonLexer} {jsonParse : Text → Except Text Value}
    (lexes : ReadsJson lexer) (parses : JsonText.Documented jsonParse) {text : String}
    {doc : Ir.PolicyDoc} (accepted : Ir.fromJson lexer text = .ok doc) :
    ∃ js, parsePolicyDocJson jsonParse (utf16 text) = .ok js ∧
      docPreimage numberText js = .ok (Ir.utf8 (Ir.canonicalJson doc)) ∧
      (∃ rules, js.get "rules" = .array rules ∧
        List.Forall₂ (fun fragment rule => rulePreimage numberText fragment =
          .ok (Ir.ruleHashDomain ++ Ir.utf8 (Ir.ruleCanonicalJson rule))) rules doc.rules) ∧
      configPreimage numberText js =
        match doc.recovery with
        | some recovery =>
            .ok (Document.configDomain ++ Ir.utf8 (Ir.recoveryCanonicalJson recovery))
        | none => .error .noRecovery := by
  obtain ⟨number, reads, parsed⟩ := parses
  obtain ⟨tree, lexed⟩ : ∃ tree, lexer text = .ok tree := by
    simp only [Ir.fromJson, bind_eq_ok, mapError_eq_ok] at accepted
    obtain ⟨tree, lexed, _⟩ := accepted
    exact ⟨tree, lexed⟩
  obtain ⟨meant, supported⟩ := (Ir.fromJson_eq_ok lexed).mp accepted
  refine ⟨cvValue (Ir.docToCv doc), ?_, docPreimage_cvValue writes doc,
    ⟨_, get_rules doc, ?_⟩, configPreimage_cvValue writes doc⟩
  · rw [parsePolicyDocJson, parsed text tree (lexes text tree lexed)]
    change parsePolicyDoc (JsonText.toValue number tree) = _
    rw [parsePolicyDoc, doc_accepts reads meant supported]
    rfl
  · rw [List.forall₂_map_left_iff, List.forall₂_same]
    intro rule _
    exact taggedPreimage_cvValue writes "perch/rule" (Ir.ruleToCv rule)

end Writing

/-! ### The readers themselves, taken as the libraries -/

def textLexer : Ir.JsonLexer := fun text =>
  match JsonText.parse text.toList with
  | some tree => .ok tree
  | none => .error "malformed"

def decimalNumber (digits : String) : Number :=
  match Ir.parseUnsigned (2 ^ 53) digits with
  | some n => .ofNat n
  | none => .nan

def textJsonParse : Text → Except Text Value := fun text =>
  match JsonText.parse ((points text).map Point.encoded) with
  | some tree => .ok (JsonText.toValue decimalNumber tree)
  | none => .error (utf16 "Unexpected token")

def plainNumberText (n : Number) : Text := decimalText n.truncated

theorem textLexer_readsJson : ReadsJson textLexer := by
  intro text tree lexed
  rw [textLexer] at lexed
  split at lexed
  next read => rw [read, Except.ok.inj lexed]
  next => cases lexed

theorem textJsonParse_documented : JsonText.Documented textJsonParse := by
  refine ⟨decimalNumber, ?_, ?_⟩
  · intro digits n numeral small
    rw [decimalNumber, Ir.parseUnsigned_eq_some.mpr ⟨numeral, small⟩]
  · intro text tree read
    have scalars : (points (utf16 text)).map Point.encoded = text.toList := by
      rw [utf16, points_chars, List.map_map]
      exact List.map_id _
    rw [textJsonParse, scalars, read]

theorem plainNumberText_writesIntegers : WritesIntegers plainNumberText := by
  intro n _
  simp [plainNumberText, Number.truncated]

/-- Members out of order, blanks, and characters past the basic plane. -/
def sampleLines : List String :=
  ["\x7b \"signers\":[\x7b\"address\":\"G\",\"id\":\"\\ud83d\\ude00\"\x7d],\n",
    "\"rules\":[\x7b\"scope\":\x7b\"type\":\"self-admin\"\x7d,\"name\":\"admin\",",
    "\"principals\":\x7b\"type\":\"all\",\"signers\":[\"\\ud83d\\ude00\"]\x7d\x7d],\n",
    "\"recovery\":\x7b\"profile\":\"protected\",\"controller\":\"C\",",
    "\"mode\":\x7b\"type\":\"guardian-only\",\"guardians\":[\"G\"],\"quorum\":1\x7d,",
    "\"replaceable\":[\"\\ud83d\\ude00\"],\"delay-ledgers\":10,",
    "\"expiry-ledgers\":20,\"max-cancels\":1\x7d, \"version\":1 \x7d"]

def sampleText : String := String.ofList (sampleLines.flatMap String.toList)

def sampleDoc : Ir.PolicyDoc where
  version := 1
  network := none
  signers := [{ id := "😀", method := .delegated "G" }]
  rules :=
    [{ name := "admin", scope := .selfAdmin, principals := .all ["😀"], functions := none
       args := none, notAfterLedger := none, cap := none }]
  recovery :=
    some
      { profile := .protectedProfile
        mode := .guardianOnly { guardians := ["G"], quorum := 1 }
        controller := "C"
        baseline := none
        replaceable := ["😀"]
        delayLedgers := 10
        expiryLedgers := 20
        maxCancels := 1 }

set_option maxRecDepth 16384 in
theorem fromJson_sampleText : Ir.fromJson textLexer sampleText = .ok sampleDoc := by
  rw [Ir.fromJson, textLexer, sampleText, String.toList_ofList]
  decide +kernel

theorem canonical_bytes_agree_sample :
    ∃ js, parsePolicyDocJson textJsonParse (utf16 sampleText) = .ok js ∧
      docPreimage plainNumberText js = .ok (Ir.utf8 (Ir.canonicalJson sampleDoc)) ∧
      (∃ rules, js.get "rules" = .array rules ∧
        List.Forall₂ (fun fragment rule => rulePreimage plainNumberText fragment =
          .ok (Ir.ruleHashDomain ++ Ir.utf8 (Ir.ruleCanonicalJson rule))) rules
            sampleDoc.rules) ∧
      configPreimage plainNumberText js =
        match sampleDoc.recovery with
        | some recovery =>
            .ok (Document.configDomain ++ Ir.utf8 (Ir.recoveryCanonicalJson recovery))
        | none => .error .noRecovery :=
  canonical_bytes_agree plainNumberText_writesIntegers textLexer_readsJson
    textJsonParse_documented fromJson_sampleText

end Perch.PerchJs
