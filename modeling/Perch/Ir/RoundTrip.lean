/-
The canonical form reads back: parsing a document's canonical bytes gives the
document.

The text is taken apart first, into the tree it stands for, and the tree is
then walked by the parser.  Sorting the members does not matter to the walk,
because an object's keys are all different and are looked up by name.
-/

import Perch.Ir.Canon
import Perch.Ir.Parse
import Perch.Machine.Fallible

namespace Perch.Ir

open Machine

/-! ### Strings -/

theorem readCode_control (n : Nat) (control : n < 32) :
    Json.readCode '0' '0' (hexDigit (n / 16 % 16)) (hexDigit (n % 16)) = some (Char.ofNat n) := by
  revert n
  decide

theorem readString_escapeChar (c : Char) (rest : List Char) :
    Json.readString (escapeChar c ++ rest) = Json.consRead c (Json.readString rest) := by
  unfold escapeChar
  split_ifs with quote slash backspace tab newline feed return_ control
  · subst quote
    exact Json.readString_escape rest (by decide) rfl
  · subst slash
    exact Json.readString_escape rest (by decide) rfl
  · subst backspace
    exact Json.readString_escape rest (by decide) rfl
  · subst tab
    exact Json.readString_escape rest (by decide) rfl
  · subst newline
    exact Json.readString_escape rest (by decide) rfl
  · subst feed
    exact Json.readString_escape rest (by decide) rfl
  · subst return_
    exact Json.readString_escape rest (by decide) rfl
  · have code := readCode_control c.toNat control
    rw [Char.ofNat_toNat] at code
    exact Json.readString_code rest code
  · exact Json.readString_plain rest quote slash (not_lt.mp control)

theorem readString_written (chars rest : List Char) :
    Json.readString (chars.flatMap escapeChar ++ '"' :: rest) = some (chars, rest) := by
  induction chars with
  | nil => rfl
  | cons c chars ih =>
      rw [List.flatMap_cons, List.append_assoc, readString_escapeChar, ih]
      rfl

/-! ### Numbers -/

theorem toDigits_all_digits (n : Nat) : ∀ c ∈ Nat.toDigits 10 n, c.isDigit = true := by
  intro c member
  exact Nat.isDigit_of_mem_toDigits (by decide) (by decide) member

theorem delimiter_not_digit {rest : List Char} (delimited : Json.Delimited rest) :
    ∀ c ∈ rest.head?, c.isDigit = false ∧ c ≠ '.' ∧ c ≠ 'e' ∧ c ≠ 'E' := by
  intro c first
  rcases delimited c first with rfl | rfl | rfl <;> decide

theorem takeWhile_toDigits {n : Nat} {rest : List Char} (delimited : Json.Delimited rest) :
    (Nat.toDigits 10 n ++ rest).takeWhile Char.isDigit = Nat.toDigits 10 n := by
  rw [List.takeWhile_append_of_pos (toDigits_all_digits n)]
  cases rest with
  | nil => simp
  | cons c rest =>
      have stop := (delimiter_not_digit delimited c rfl).1
      rw [List.takeWhile_cons_of_neg (by simp [stop]), List.append_nil]

theorem dropWhile_toDigits {n : Nat} {rest : List Char} (delimited : Json.Delimited rest) :
    (Nat.toDigits 10 n ++ rest).dropWhile Char.isDigit = rest := by
  rw [List.dropWhile_append_of_pos (toDigits_all_digits n)]
  cases rest with
  | nil => rfl
  | cons c rest =>
      have stop := (delimiter_not_digit delimited c rfl).1
      rw [List.dropWhile_cons_of_neg (by simp [stop])]

theorem toDigits_head_zero {n : Nat} (zero : (Nat.toDigits 10 n).head? = some '0') :
    Nat.toDigits 10 n = ['0'] := by
  induction n using Nat.strongRecOn with
  | ind n ih =>
      by_cases small : n < 10
      · rw [Nat.toDigits_of_lt_base small] at zero ⊢
        simpa using zero
      · exfalso
        have split := Nat.toDigits_of_base_le (by decide) (not_lt.mp small)
        have front : (Nat.toDigits 10 (n / 10)).head? = some '0' := by
          rw [split, List.head?_append] at zero
          cases h : (Nat.toDigits 10 (n / 10)).head? with
          | none => exact absurd (List.head?_eq_none_iff.mp h) Nat.toDigits_ne_nil
          | some c => simpa [h] using zero
        have again := ih (n / 10) (by omega) front
        have back : Nat.ofDigitChars 10 (Nat.toDigits 10 (n / 10)) 0 = n / 10 :=
          Nat.ofDigitChars_ten_toDigits
        rw [again] at back
        have vanishes : n / 10 = 0 := back.symm
        omega

theorem readNumber_toDigits (n : Nat) {rest : List Char} (delimited : Json.Delimited rest) :
    Json.readNumber (Nat.toDigits 10 n ++ rest) =
      some (.number (String.ofList (Nat.toDigits 10 n)) true, rest) := by
  have noLeadingZero :
      ¬((Nat.toDigits 10 n).head? = some '0' ∧ 1 < (Nat.toDigits 10 n).length) := by
    intro both
    have whole := toDigits_head_zero both.1
    rw [whole] at both
    exact absurd both.2 (by decide)
  have integer : ¬rest.head?.any (fun c => c = '.' || c = 'e' || c = 'E') = true := by
    cases first : rest.head? with
    | none => simp
    | some c =>
        have stop := (delimiter_not_digit delimited c first).2
        simp [stop]
  rw [Json.readNumber, takeWhile_toDigits delimited, dropWhile_toDigits delimited,
    if_neg (by simp [Nat.toDigits_ne_nil, noLeadingZero, integer])]

/-! ### Values -/

mutual

/-- The tree a canonical value stands for, its members in canonical order. -/
def Cv.tree : Cv → Json
  | .str s => .string s
  | .u32 n => .number (String.ofList (Nat.toDigits 10 n.toNat)) true
  | .arr items => .array (treeItems items)
  | .obj entries => .object (sortKeys (treeEntries entries))

def treeItems : List Cv → List Json
  | [] => []
  | item :: items => item.tree :: treeItems items

def treeEntries : List (String × Cv) → List (String × Json)
  | [] => []
  | (key, value) :: entries => (key, value.tree) :: treeEntries entries

end

theorem writeItems_eq (items : List Cv) : writeItems items = items.map writeValue := by
  induction items with
  | nil => rfl
  | cons item items ih => rw [writeItems, ih, List.map_cons]

theorem writeEntries_eq (entries : List (String × Cv)) :
    writeEntries entries = entries.map fun entry => (entry.1, writeValue entry.2) := by
  induction entries with
  | nil => rfl
  | cons entry entries ih => rw [writeEntries, ih, List.map_cons]

theorem treeItems_eq (items : List Cv) : treeItems items = items.map Cv.tree := by
  induction items with
  | nil => rfl
  | cons item items ih => rw [treeItems, ih, List.map_cons]

theorem treeEntries_eq (entries : List (String × Cv)) :
    treeEntries entries = entries.map fun entry => (entry.1, entry.2.tree) := by
  induction entries with
  | nil => rfl
  | cons entry entries ih => rw [treeEntries, ih, List.map_cons]

theorem sortKeys_map {α β : Type} (value : α → β) (entries : List (String × α)) :
    sortKeys (entries.map fun entry => (entry.1, value entry.2)) =
      (sortKeys entries).map fun entry => (entry.1, value entry.2) := by
  symm
  apply List.map_insertionSort
  intro a _ b _
  exact Iff.rfl

inductive Cv.Nested : Nat → Cv → Prop
  | str (n : Nat) (s : String) : Nested (n + 1) (.str s)
  | u32 (n : Nat) (value : UInt32) : Nested (n + 1) (.u32 value)
  | arr {n : Nat} {items : List Cv} (each : ∀ item ∈ items, Nested n item) :
      Nested (n + 1) (.arr items)
  | obj {n : Nat} {entries : List (String × Cv)} (each : ∀ entry ∈ entries, Nested n entry.2) :
      Nested (n + 1) (.obj entries)

theorem means_str (n : Nat) (s : String) :
    Json.Means (n + 1) (writeJsonString s) (.string s) := by
  refine { starts := ⟨'"', _, rfl, by decide⟩, reads := ?_ }
  intro rest _
  rw [writeJsonString, List.cons_append, List.append_assoc, List.singleton_append, Json.readValue,
    readString_written]
  simp

theorem means_u32 (n : Nat) (value : UInt32) :
    Json.Means (n + 1) (Nat.toDigits 10 value.toNat) (Cv.u32 value).tree := by
  cases digits : Nat.toDigits 10 value.toNat with
  | nil => exact absurd digits Nat.toDigits_ne_nil
  | cons c tail =>
      have digit : c.isDigit = true := by
        apply toDigits_all_digits value.toNat
        rw [digits]
        exact List.mem_cons_self
      refine { starts := ⟨c, tail, rfl, ?_⟩, reads := ?_ }
      · intro close
        subst close
        exact absurd digit (by decide)
      · intro rest delimited
        have read := readNumber_toDigits value.toNat delimited
        rw [digits, List.cons_append] at read
        rw [Cv.tree, digits, List.cons_append, Json.readValue_digit digit, read]

/-- A canonical value's text stands for its tree. -/
theorem Cv.Nested.means {n : Nat} {value : Cv} (nested : Cv.Nested n value) :
    Json.Means n (writeValue value) value.tree := by
  induction nested with
  | str n s => exact means_str n s
  | u32 n value => exact means_u32 n value
  | @arr n items each ih =>
      rw [writeValue, Cv.tree, writeItems_eq, treeItems_eq]
      apply Json.Means.array
      rw [List.forall₂_map_left_iff, List.forall₂_map_right_iff, List.forall₂_same]
      exact ih
  | @obj n entries each ih =>
      rw [writeValue, Cv.tree, writeEntries_eq, treeEntries_eq, sortKeys_map, sortKeys_map,
        List.map_map]
      have members : Json.Means (n + 1)
          ('{' :: (Json.joined
            (((sortKeys entries).map fun entry =>
              (entry.1.toList.flatMap escapeChar, writeValue entry.2)).map
                fun text => Json.member text.1 text.2) ++ ['}']))
          (.object ((sortKeys entries).map fun entry => (entry.1, entry.2.tree))) := by
        apply Json.Means.object
        rw [List.forall₂_map_left_iff, List.forall₂_map_right_iff, List.forall₂_same]
        intro entry member
        have original := (List.perm_insertionSort _ entries).mem_iff.mp member
        exact ⟨ih entry original, fun rest => readString_written _ rest⟩
      have layout : ∀ entry : String × Cv,
          writeJsonString entry.1 ++ ':' :: writeValue entry.2 =
            Json.member (entry.1.toList.flatMap escapeChar) (writeValue entry.2) := by
        intro entry
        simp [writeJsonString, Json.member]
      rw [List.map_map] at members
      simpa [Function.comp_def, layout] using members

/-! ### Members -/

def found (name : String) (before : Option Json) (entry : String × Json) :
    Except ParseError (Option Json) :=
  if entry.1 = name then
    if before.isSome then jsonErr ("duplicate field `" ++ name ++ "`") else .ok (some entry.2)
  else .ok before

theorem foldlM_found_of_notMem {name : String} {rest : Members}
    (absent : name ∉ rest.map Prod.fst) (before : Option Json) :
    rest.foldlM (found name) before = .ok before := by
  induction rest with
  | nil => rfl
  | cons entry rest ih =>
      rw [List.map_cons, List.mem_cons, not_or] at absent
      rw [List.foldlM_cons, found, if_neg (Ne.symm absent.1)]
      exact ih absent.2

/-- With one occurrence of each key, a member is looked up by its name. -/
theorem field_eq_lookup {obj : Members} (distinct : (obj.map Prod.fst).Nodup) (name : String) :
    field obj name = .ok (obj.lookup name) := by
  change obj.foldlM (found name) none = _
  induction obj with
  | nil => rfl
  | cons entry rest ih =>
      rw [List.map_cons, List.nodup_cons] at distinct
      rw [List.foldlM_cons, List.lookup_cons, found]
      by_cases here : entry.1 = name
      · subst here
        rw [if_pos rfl, beq_self_eq_true]
        exact foldlM_found_of_notMem distinct.1 (some entry.2)
      · rw [if_neg here, beq_false_of_ne (Ne.symm here)]
        exact ih distinct.2

theorem lookup_eq_some_iff {α : Type} {entries : List (String × α)}
    (distinct : (entries.map Prod.fst).Nodup) (name : String) (value : α) :
    entries.lookup name = some value ↔ (name, value) ∈ entries := by
  induction entries with
  | nil => simp
  | cons entry rest ih =>
      rw [List.map_cons, List.nodup_cons] at distinct
      rw [List.lookup_cons]
      by_cases here : name = entry.1
      · subst here
        have notLater : (entry.1, value) ∉ rest := by
          intro later
          exact distinct.1 (List.mem_map.mpr ⟨_, later, rfl⟩)
        simp [Prod.ext_iff, notLater, eq_comm]
      · rw [beq_false_of_ne here]
        simp [here, ih distinct.2, Prod.ext_iff]

theorem lookup_sortKeys {α : Type} {entries : List (String × α)}
    (distinct : (entries.map Prod.fst).Nodup) (name : String) :
    (sortKeys entries).lookup name = entries.lookup name := by
  have permuted := List.perm_insertionSort
    (fun a b : String × α => encodeUtf16 a.1 ≤ encodeUtf16 b.1) entries
  have sortedDistinct : ((sortKeys entries).map Prod.fst).Nodup :=
    (permuted.map Prod.fst).nodup_iff.mpr distinct
  ext value
  rw [lookup_eq_some_iff sortedDistinct, lookup_eq_some_iff distinct]
  exact permuted.mem_iff

theorem lookup_map {α β : Type} (value : α → β) (entries : List (String × α)) (name : String) :
    (entries.map fun entry => (entry.1, value entry.2)).lookup name =
      (entries.lookup name).map value := by
  induction entries with
  | nil => rfl
  | cons entry rest ih =>
      rw [List.map_cons, List.lookup_cons, List.lookup_cons, ih]
      cases name == entry.1 <;> rfl

@[simp] theorem lookup_optional {α : Type} (key name : String) (value : α → Cv)
    (member : Option α) :
    (optional key value member).lookup name = if name = key then member.map value else none := by
  cases member with
  | none => simp [optional]
  | some present =>
      by_cases here : name = key
      · simp [optional, here]
      · simp [optional, here, List.lookup_cons, beq_false_of_ne here]

theorem denyUnknown_of_known {obj : Members} {known : List String}
    (each : ∀ entry ∈ obj, entry.1 ∈ known) : denyUnknown obj known = .ok () := by
  apply forM_eq_ok.mpr
  intro entry member
  exact if_pos (each entry member)

/-- Members laid out with keys from a list, each at most once. -/
structure Laid (known : List String) (entries : List (String × Cv)) : Prop where
  keys : (entries.map Prod.fst).Sublist known
  distinct : known.Nodup

namespace Laid

variable {known : List String} {entries : List (String × Cv)} (laid : Laid known entries)

include laid

theorem nodup : ((treeEntries entries).map Prod.fst).Nodup := by
  rw [treeEntries_eq, List.map_map]
  exact laid.keys.nodup laid.distinct

theorem deny : denyUnknown (sortKeys (treeEntries entries)) known = .ok () := by
  have each : ∀ entry ∈ sortKeys (treeEntries entries), entry.1 ∈ known := by
    intro entry member
    have original := (List.perm_insertionSort _ _).mem_iff.mp member
    rw [treeEntries_eq] at original
    obtain ⟨source, listed, rfl⟩ := List.mem_map.mp original
    exact laid.keys.subset (List.mem_map.mpr ⟨source, listed, rfl⟩)
  exact denyUnknown_of_known each

theorem field (name : String) :
    Ir.field (sortKeys (treeEntries entries)) name = .ok ((entries.lookup name).map Cv.tree) := by
  have sortedDistinct : ((sortKeys (treeEntries entries)).map Prod.fst).Nodup :=
    ((List.perm_insertionSort _ _).map Prod.fst).nodup_iff.mpr laid.nodup
  rw [field_eq_lookup sortedDistinct, lookup_sortKeys laid.nodup, treeEntries_eq, lookup_map]

theorem req (name : String) :
    reqField (sortKeys (treeEntries entries)) name =
      match entries.lookup name with
      | some value => .ok value.tree
      | none => jsonErr ("missing field `" ++ name ++ "`") := by
  rw [reqField, laid.field]
  cases entries.lookup name <;> rfl

theorem opt {α : Type} (name : String) (value : α → Cv) (member : Option α)
    (read : Json → Except ParseError α) (found : entries.lookup name = member.map value)
    (reads : ∀ present, read (value present).tree = .ok present) :
    optional? (sortKeys (treeEntries entries)) name read = .ok member := by
  have given : optField (sortKeys (treeEntries entries)) name =
      .ok ((member.map value).map Cv.tree) := by
    rw [optField, laid.field, found]
    cases member with
    | none => rfl
    | some present => cases shape : value present <;> simp [shape, Cv.tree]
  rw [optional?, given]
  cases member with
  | none => rfl
  | some present =>
      change some <$> read (value present).tree = .ok (some present)
      rw [reads present]
      rfl

end Laid

/-! ### The walk -/

theorem mapM_map_ok {ε α β : Type} (write : α → β) (read : β → Except ε α)
    (reads : ∀ value, read (write value) = .ok value) (values : List α) :
    (values.map write).mapM read = .ok values := by
  induction values with
  | nil => rfl
  | cons value values ih =>
      rw [List.map_cons, List.mapM_cons, reads, ih]
      rfl

@[simp] theorem asStr_tree (value ctx : String) : asStr (Cv.str value).tree ctx = .ok value := rfl

@[simp] theorem asArray_tree (items : List Cv) (ctx : String) :
    asArray (Cv.arr items).tree ctx = .ok (items.map Cv.tree) := by
  rw [Cv.tree, treeItems_eq]
  rfl

@[simp] theorem asObject_tree (entries : List (String × Cv)) (ctx : String) :
    asObject (Cv.obj entries).tree ctx = .ok (sortKeys (treeEntries entries)) := by
  rw [Cv.tree]
  rfl

@[simp] theorem asStrs_tree (values : List String) (ctx item : String) :
    asStrs (Cv.strs values).tree ctx item = .ok values := by
  rw [asStrs, Cv.strs, asArray_tree, List.map_map]
  exact mapM_map_ok (Cv.tree ∘ Cv.str) (fun e => asStr e item) (fun value => rfl) values

theorem parseUnsigned_toDigits {bound n : Nat} (small : n < bound) :
    parseUnsigned bound (String.ofList (Nat.toDigits 10 n)) = some n := by
  have digits : (Nat.toDigits 10 n).all Char.isDigit = true :=
    List.all_eq_true.mpr (toDigits_all_digits n)
  have value : Nat.ofDigitChars 10 (Nat.toDigits 10 n) 0 = n := Nat.ofDigitChars_ten_toDigits
  have plain : ∀ rest, Nat.toDigits 10 n ≠ '+' :: rest := by
    intro rest same
    have digit := toDigits_all_digits n '+' (same ▸ List.mem_cons_self)
    exact absurd digit (by decide)
  rw [parseUnsigned, String.toList_ofList]
  split
  · rename_i rest same
    exact absurd same (plain rest)
  · rw [if_pos ⟨Nat.toDigits_ne_nil, digits, value.symm ▸ small⟩, value]

@[simp] theorem asU32_tree (value : UInt32) (ctx : String) :
    asU32 (Cv.u32 value).tree ctx = .ok value := by
  rw [Cv.tree, asU32, parseUnsigned_toDigits value.toNat_lt]
  simp

theorem signerFromValue_tree (s : SignerDecl) :
    signerFromValue (signerToCv s).tree = .ok s := by
  obtain ⟨id, method⟩ := s
  cases method with
  | external verifier key =>
      have laid : Laid ["id", "verifier", "key"]
          [("id", .str id), ("verifier", .str verifier), ("key", .str key)] :=
        ⟨List.Sublist.refl _, by decide⟩
      simp [signerFromValue, signerToCv, laid.field, laid.deny, laid.req, List.lookup_cons]
  | delegated address =>
      have laid : Laid ["id", "address"] [("id", .str id), ("address", .str address)] :=
        ⟨List.Sublist.refl _, by decide⟩
      simp [signerFromValue, signerToCv, laid.field, laid.deny, laid.req, List.lookup_cons]

theorem scopeFromValue_tree (scope : Scope) :
    scopeFromValue (scopeToCv scope).tree = .ok scope := by
  cases scope with
  | contract address =>
      have laid : Laid ["type", "address"]
          [("type", .str "contract"), ("address", .str address)] :=
        ⟨List.Sublist.refl _, by decide⟩
      simp [scopeFromValue, scopeToCv, tag, laid.deny, laid.req, List.lookup_cons]
  | selfAdmin =>
      have laid : Laid ["type"] [("type", .str "self-admin")] :=
        ⟨List.Sublist.refl _, by decide⟩
      simp [scopeFromValue, scopeToCv, tag, laid.deny, laid.req, List.lookup_cons]

theorem principalsFromValue_tree (principals : Principals) :
    principalsFromValue (principalsToCv principals).tree = .ok principals := by
  cases principals with
  | all signers =>
      have laid : Laid ["type", "signers"] [("type", .str "all"), ("signers", .strs signers)] :=
        ⟨List.Sublist.refl _, by decide⟩
      simp [principalsFromValue, principalsToCv, tag, laid.deny, laid.req, List.lookup_cons]
  | threshold signers m =>
      have laid : Laid ["type", "signers", "m"]
          [("type", .str "threshold"), ("signers", .strs signers), ("m", .u32 m)] :=
        ⟨List.Sublist.refl _, by decide⟩
      simp [principalsFromValue, principalsToCv, tag, laid.deny, laid.req, List.lookup_cons]
  | selfAuthenticating policy installParamHex ack =>
      have laid : Laid ["type", "policy", "install-param-hex", "ack"]
          [("type", .str "self-authenticating"), ("policy", .str policy),
            ("install-param-hex", .str installParamHex), ("ack", .str ack)] :=
        ⟨List.Sublist.refl _, by decide⟩
      simp [principalsFromValue, principalsToCv, tag, laid.deny, laid.req, List.lookup_cons]

theorem predFromValue_tree (pred : ArgPred) : predFromValue (predToCv pred).tree = .ok pred := by
  cases pred with
  | isSelf =>
      have laid : Laid ["type"] [("type", .str "is-self")] := ⟨List.Sublist.refl _, by decide⟩
      simp [predFromValue, predToCv, tag, laid.deny, laid.req, List.lookup_cons]
  | addressEq address =>
      have laid : Laid ["type", "address"]
          [("type", .str "address-eq"), ("address", .str address)] :=
        ⟨List.Sublist.refl _, by decide⟩
      simp [predFromValue, predToCv, tag, laid.deny, laid.req, List.lookup_cons]
  | stringIn values =>
      have laid : Laid ["type", "values"]
          [("type", .str "string-in"), ("values", .strs values)] :=
        ⟨List.Sublist.refl _, by decide⟩
      simp [predFromValue, predToCv, tag, laid.deny, laid.req, List.lookup_cons]
  | stringPrefix initial =>
      have laid : Laid ["type", "prefix"]
          [("type", .str "string-prefix"), ("prefix", .str initial)] :=
        ⟨List.Sublist.refl _, by decide⟩
      simp [predFromValue, predToCv, tag, laid.deny, laid.req, List.lookup_cons]
  | u32Eq value =>
      have laid : Laid ["type", "value"] [("type", .str "u32-eq"), ("value", .u32 value)] :=
        ⟨List.Sublist.refl _, by decide⟩
      simp [predFromValue, predToCv, tag, laid.deny, laid.req, List.lookup_cons]

theorem argConstraintFromValue_tree (a : ArgConstraint) :
    argConstraintFromValue (argConstraintToCv a).tree = .ok a := by
  have laid : Laid ["index", "pred"] [("index", .u32 a.index), ("pred", predToCv a.pred)] :=
    ⟨List.Sublist.refl _, by decide⟩
  simp [argConstraintFromValue, argConstraintToCv, laid.deny, laid.req, List.lookup_cons,
    predFromValue_tree]

theorem keys_optional {α : Type} (key : String) (value : α → Cv) (member : Option α) :
    ((optional key value member).map Prod.fst).Sublist [key] := by
  cases member with
  | none => exact List.nil_sublist _
  | some present => exact List.Sublist.refl _

theorem capFromValue_tree (cap : CapConstraint) : capFromValue (capToCv cap).tree = .ok cap := by
  have laid : Laid ["token", "limit", "period-ledgers"]
      (optional "token" .str cap.token ++
        [("limit", .str cap.limit), ("period-ledgers", .u32 cap.periodLedgers)]) := by
    refine { keys := ?_, distinct := by decide }
    rw [List.map_append]
    exact (keys_optional _ _ _).append (List.Sublist.refl _)
  have token := laid.opt "token" .str cap.token (fun v => asStr v "cap token")
    (by simp [List.lookup_append, List.lookup_cons]) (fun _ => rfl)
  simp [capFromValue, capToCv, laid.deny, laid.req, token, List.lookup_append, List.lookup_cons]

theorem ruleFromValue_tree (r : Rule) : ruleFromValue (ruleToCv r).tree = .ok r := by
  have laid : Laid
      ["name", "scope", "principals", "functions", "args", "not-after-ledger", "cap"]
      ([("name", .str r.name), ("scope", scopeToCv r.scope),
          ("principals", principalsToCv r.principals)] ++
        optional "functions" .strs r.functions ++
        optional "args" (fun args => .arr (args.map argConstraintToCv)) r.args ++
        optional "not-after-ledger" .u32 r.notAfterLedger ++
        optional "cap" capToCv r.cap) := by
    refine { keys := ?_, distinct := by decide }
    simp only [List.map_append]
    exact ((((List.Sublist.refl _).append (keys_optional _ _ _)).append
      (keys_optional _ _ _)).append (keys_optional _ _ _)).append (keys_optional _ _ _)
  have functions := laid.opt "functions" .strs r.functions
    (fun v => asStrs v "functions" "function")
    (by simp [List.lookup_append, List.lookup_cons]) (fun _ => asStrs_tree _ _ _)
  have args := laid.opt "args" (fun args => .arr (args.map argConstraintToCv)) r.args
    (fun v => do (← asArray v "args").mapM argConstraintFromValue)
    (by simp [List.lookup_append, List.lookup_cons]) (by
      intro present
      rw [asArray_tree, List.map_map]
      exact mapM_map_ok _ _ argConstraintFromValue_tree present)
  have notAfterLedger := laid.opt "not-after-ledger" .u32 r.notAfterLedger
    (fun v => asU32 v "not-after-ledger")
    (by simp [List.lookup_append, List.lookup_cons]) (fun _ => asU32_tree _ _)
  have cap := laid.opt "cap" capToCv r.cap capFromValue
    (by simp [List.lookup_append, List.lookup_cons]) capFromValue_tree
  simp only [ruleFromValue, ruleToCv, asObject_tree, ok_bind, laid.deny, laid.req, functions,
    args, notAfterLedger, cap]
  simp [List.lookup_cons, scopeFromValue_tree, principalsFromValue_tree]

theorem recoveryModeFromValue_tree (mode : RecoveryMode) :
    recoveryModeFromValue (recoveryModeToCv mode).tree = .ok mode := by
  cases mode with
  | guardianOnly g =>
      have laid : Laid ["type", "guardians", "quorum"]
          (("type", .str "guardian-only") :: guardianFields g) :=
        ⟨List.Sublist.refl _, by decide⟩
      simp only [recoveryModeFromValue, recoveryModeToCv, guardianSetFromFields, tag,
        asObject_tree, ok_bind, laid.deny, laid.req]
      simp [guardianFields, List.lookup_cons]
  | zkOnly z =>
      have laid : Laid ["type", "adapter", "circuit-id", "pool", "enrollment-id", "commitment"]
          (("type", .str "zk-only") :: zkFields z) :=
        ⟨List.Sublist.refl _, by decide⟩
      simp only [recoveryModeFromValue, recoveryModeToCv, zkFactorFromFields, tag,
        asObject_tree, ok_bind, laid.deny, laid.req]
      simp [zkFields, List.lookup_cons]
  | combined g z =>
      have laid : Laid ["type", "guardians", "quorum", "adapter", "circuit-id", "pool",
            "enrollment-id", "commitment"]
          (("type", .str "combined") :: (guardianFields g ++ zkFields z)) :=
        ⟨List.Sublist.refl _, by decide⟩
      simp only [recoveryModeFromValue, recoveryModeToCv, guardianSetFromFields,
        zkFactorFromFields, tag, asObject_tree, ok_bind, laid.deny, laid.req]
      simp [guardianFields, zkFields, List.lookup_cons]

theorem baselineCommitmentFromValue_tree (b : BaselineCommitment) :
    baselineCommitmentFromValue (baselineToCv b).tree = .ok b := by
  have laid : Laid ["doc-hash"] [("doc-hash", .str b.docHash)] :=
    ⟨List.Sublist.refl _, by decide⟩
  simp [baselineCommitmentFromValue, baselineToCv, laid.deny, laid.req]

theorem recoveryProfileFromValue_tree (profile : RecoveryProfile) :
    recoveryProfileFromValue (Cv.str (recoveryProfileStr profile)).tree = .ok profile := by
  cases profile <;> simp [recoveryProfileFromValue, recoveryProfileStr]

theorem recoveryFromValue_tree (r : RecoveryConfig) :
    recoveryFromValue (recoveryToCv r).tree = .ok r := by
  have laid : Laid ["profile", "mode", "controller", "baseline", "replaceable", "delay-ledgers",
        "expiry-ledgers", "max-cancels"]
      ([("profile", .str (recoveryProfileStr r.profile)), ("mode", recoveryModeToCv r.mode),
          ("controller", .str r.controller)] ++
        optional "baseline" baselineToCv r.baseline ++
        [("replaceable", .strs r.replaceable), ("delay-ledgers", .u32 r.delayLedgers),
          ("expiry-ledgers", .u32 r.expiryLedgers), ("max-cancels", .u32 r.maxCancels)]) := by
    refine { keys := ?_, distinct := by decide }
    simp only [List.map_append]
    exact ((List.Sublist.refl _).append (keys_optional _ _ _)).append (List.Sublist.refl _)
  have baseline := laid.opt "baseline" baselineToCv r.baseline baselineCommitmentFromValue
    (by simp [List.lookup_append, List.lookup_cons]) baselineCommitmentFromValue_tree
  simp only [recoveryFromValue, recoveryToCv, asObject_tree, ok_bind, laid.deny, laid.req, baseline]
  simp [List.lookup_append, List.lookup_cons, recoveryProfileFromValue_tree,
    recoveryModeFromValue_tree]

theorem docFromValue_tree (doc : PolicyDoc) : docFromValue (docToCv doc).tree = .ok doc := by
  have laid : Laid ["version", "network", "signers", "rules", "recovery"]
      ([("version", .u32 doc.version)] ++
        optional "network" .str doc.network ++
        [("signers", .arr (doc.signers.map signerToCv)),
          ("rules", .arr (doc.rules.map ruleToCv))] ++
        optional "recovery" recoveryToCv doc.recovery) := by
    refine { keys := ?_, distinct := by decide }
    simp only [List.map_append]
    exact (((List.Sublist.refl _).append (keys_optional _ _ _)).append
      (List.Sublist.refl _)).append (keys_optional _ _ _)
  have network := laid.opt "network" .str doc.network (fun v => asStr v "network")
    (by simp [List.lookup_append, List.lookup_cons]) (fun _ => rfl)
  have recovery := laid.opt "recovery" recoveryToCv doc.recovery recoveryFromValue
    (by simp [List.lookup_append, List.lookup_cons]) recoveryFromValue_tree
  have signers := mapM_map_ok (Cv.tree ∘ signerToCv) signerFromValue signerFromValue_tree
    doc.signers
  have rules := mapM_map_ok (Cv.tree ∘ ruleToCv) ruleFromValue ruleFromValue_tree doc.rules
  simp only [docFromValue, docToCv, asObject_tree, ok_bind, laid.deny, laid.req, network, recovery]
  simp [List.lookup_append, List.lookup_cons, signers, rules]

/-! ### Nesting -/

@[simp] theorem nested_str (n : Nat) (s : String) : Cv.Nested (n + 1) (.str s) := .str n s

@[simp] theorem nested_u32 (n : Nat) (value : UInt32) : Cv.Nested (n + 1) (.u32 value) :=
  .u32 n value

@[simp] theorem nested_arr {α : Type} {n : Nat} {write : α → Cv} {values : List α} :
    Cv.Nested (n + 1) (.arr (values.map write)) ↔ ∀ value ∈ values, Cv.Nested n (write value) := by
  constructor
  · intro nested value member
    cases nested with
    | arr each => exact each _ (List.mem_map.mpr ⟨value, member, rfl⟩)
  · intro each
    apply Cv.Nested.arr
    intro item member
    obtain ⟨value, listed, rfl⟩ := List.mem_map.mp member
    exact each value listed

@[simp] theorem nested_strs (n : Nat) (values : List String) : Cv.Nested (n + 2) (.strs values) :=
  nested_arr.mpr fun value _ => .str n value

@[simp] theorem nested_obj {n : Nat} {entries : List (String × Cv)} :
    Cv.Nested (n + 1) (.obj entries) ↔ ∀ entry ∈ entries, Cv.Nested n entry.2 := by
  constructor
  · intro nested
    cases nested with
    | obj each => exact each
  · exact .obj

theorem forall_mem_optional {α : Type} {key : String} {value : α → Cv} {member : Option α}
    {property : String × Cv → Prop} :
    (∀ entry ∈ optional key value member, property entry) ↔
      ∀ present, member = some present → property (key, value present) := by
  cases member <;> simp [optional]

@[simp] theorem nested_pred (n : Nat) (pred : ArgPred) : Cv.Nested (n + 3) (predToCv pred) := by
  cases pred <;> simp [predToCv]

@[simp] theorem nested_argConstraint (n : Nat) (a : ArgConstraint) :
    Cv.Nested (n + 4) (argConstraintToCv a) := by
  simp [argConstraintToCv]

@[simp] theorem nested_scope (n : Nat) (scope : Scope) : Cv.Nested (n + 2) (scopeToCv scope) := by
  cases scope <;> simp [scopeToCv]

@[simp] theorem nested_principals (n : Nat) (principals : Principals) :
    Cv.Nested (n + 3) (principalsToCv principals) := by
  cases principals <;> simp [principalsToCv]

@[simp] theorem nested_cap (n : Nat) (cap : CapConstraint) : Cv.Nested (n + 2) (capToCv cap) := by
  simp only [capToCv, nested_obj, List.forall_mem_append, forall_mem_optional]
  simp

@[simp] theorem nested_signer (n : Nat) (s : SignerDecl) : Cv.Nested (n + 2) (signerToCv s) := by
  obtain ⟨id, method⟩ := s
  cases method <;> simp [signerToCv]

@[simp] theorem nested_rule (n : Nat) (r : Rule) : Cv.Nested (n + 6) (ruleToCv r) := by
  simp only [ruleToCv, nested_obj, List.forall_mem_append, forall_mem_optional]
  simp

@[simp] theorem nested_mode (n : Nat) (mode : RecoveryMode) :
    Cv.Nested (n + 3) (recoveryModeToCv mode) := by
  cases mode <;> simp [recoveryModeToCv, guardianFields, zkFields]

@[simp] theorem nested_baseline (n : Nat) (b : BaselineCommitment) :
    Cv.Nested (n + 2) (baselineToCv b) := by
  simp [baselineToCv]

@[simp] theorem nested_recovery (n : Nat) (r : RecoveryConfig) :
    Cv.Nested (n + 4) (recoveryToCv r) := by
  simp only [recoveryToCv, nested_obj, List.forall_mem_append, forall_mem_optional]
  simp

theorem nested_doc (n : Nat) (doc : PolicyDoc) : Cv.Nested (n + 8) (docToCv doc) := by
  simp only [docToCv, nested_obj, List.forall_mem_append, forall_mem_optional]
  simp

/-! ### Reading the canonical form back -/

theorem read_written {value : Cv} {depth : Nat} (nested : Cv.Nested depth value) :
    Json.read depth (writeValue value) = some value.tree := by
  have read := nested.means.reads [] (by simp [Json.Delimited])
  rw [List.append_nil] at read
  rw [Json.read, read]

theorem checkVersion_tree {doc : PolicyDoc} (version : doc.version = 1) :
    checkVersion (docToCv doc).tree = .ok () := by
  have number : checkVersionMember ("version", (Cv.u32 doc.version).tree) = .ok () := by
    have small : doc.version.toNat < 18446744073709551616 :=
      doc.version.toNat_lt.trans (by decide)
    rw [Cv.tree, checkVersionMember, parseUnsigned_toDigits small, version]
    rfl
  rw [docToCv, Cv.tree]
  apply forM_eq_ok.mpr
  intro entry member
  have original := (List.perm_insertionSort _ _).mem_iff.mp member
  rw [treeEntries_eq] at original
  obtain ⟨source, listed, rfl⟩ := List.mem_map.mp original
  clear original member
  revert source
  simp only [List.forall_mem_append, forall_mem_optional, List.forall_mem_singleton,
    List.forall_mem_cons]
  refine ⟨⟨⟨number, ?_⟩, ?_⟩, ?_⟩
  all_goals simp [checkVersionMember, Cv.tree, recoveryToCv]

theorem lexer_canonicalJson {lexer : JsonLexer} (conforms : lexer.Conforms) (doc : PolicyDoc) :
    lexer (canonicalJson doc) = .ok (docToCv doc).tree := by
  apply conforms
  rw [canonicalJson, String.toList_ofList]
  exact read_written (nested_doc 56 doc)

/-- The canonical form of a version-1 document parses to the document. -/
theorem fromJson_canonicalJson {lexer : JsonLexer} (conforms : lexer.Conforms) {doc : PolicyDoc}
    (version : doc.version = 1) : fromJson lexer (canonicalJson doc) = .ok doc := by
  rw [fromJson, lexer_canonicalJson conforms doc]
  change (do checkVersion (docToCv doc).tree; docFromValue (docToCv doc).tree) = .ok doc
  rw [checkVersion_tree version, docFromValue_tree]
  rfl

/-! ### The layout of a canonical document -/

theorem documentKeys_sorted :
    (encodeUtf16 "network" ≤ encodeUtf16 "recovery" ∧
      encodeUtf16 "network" ≤ encodeUtf16 "rules") ∧
    (¬encodeUtf16 "rules" ≤ encodeUtf16 "recovery" ∧
      ¬encodeUtf16 "signers" ≤ encodeUtf16 "recovery" ∧
      ¬encodeUtf16 "signers" ≤ encodeUtf16 "rules") ∧
    ¬encodeUtf16 "version" ≤ encodeUtf16 "network" ∧
      ¬encodeUtf16 "version" ≤ encodeUtf16 "recovery" ∧
      ¬encodeUtf16 "version" ≤ encodeUtf16 "rules" ∧
      ¬encodeUtf16 "version" ≤ encodeUtf16 "signers" := by
  decide

def memberText (key : String) (value : List Char) : List Char :=
  writeJsonString key ++ ':' :: value

def arrayText (items : List (List Char)) : List Char := '[' :: (Json.joined items ++ [']'])

/-- A document's members, in the order they are written.  The recovery member
and every rule stand there with the bytes they have on their own. -/
def memberTexts (doc : PolicyDoc) : List (List Char) :=
  (doc.network.map fun network => memberText "network" (writeJsonString network)).toList ++
    (doc.recovery.map fun recovery =>
      memberText "recovery" (recoveryCanonicalJson recovery).toList).toList ++
    [memberText "rules" (arrayText (doc.rules.map fun rule => (ruleCanonicalJson rule).toList)),
      memberText "signers"
        (arrayText (doc.signers.map fun signer => writeValue (signerToCv signer))),
      memberText "version" (Nat.toDigits 10 doc.version.toNat)]

theorem canonicalJson_members (doc : PolicyDoc) :
    (canonicalJson doc).toList = '{' :: (Json.joined (memberTexts doc) ++ ['}']) := by
  obtain ⟨⟨networkRecovery, networkRules⟩, ⟨rulesRecovery, signersRecovery, signersRules⟩,
    versionNetwork, versionRecovery, versionRules, versionSigners⟩ := documentKeys_sorted
  obtain ⟨version, network, signers, rules, recovery⟩ := doc
  cases network <;> cases recovery <;>
    simp [canonicalJson, docToCv, writeValue, writeEntries_eq, writeItems_eq, optional, sortKeys,
      memberTexts, memberText, arrayText, recoveryCanonicalJson, ruleCanonicalJson,
      Function.comp_def, networkRecovery, networkRules, rulesRecovery, signersRecovery,
      signersRules, versionNetwork, versionRecovery, versionRules, versionSigners]

/-- The canonical form is read back, so it names one document; and the
fragments that are hashed on their own are the document's own bytes. -/
theorem canonicalJson_roundTrip {lexer : JsonLexer} (conforms : lexer.Conforms) :
    (∀ doc : PolicyDoc, doc.version = 1 → fromJson lexer (canonicalJson doc) = .ok doc) ∧
    (∀ first second : PolicyDoc, first.version = 1 → second.version = 1 →
      canonicalJson first = canonicalJson second → first = second) ∧
    (∀ doc : PolicyDoc, doc.version = 1 →
      (fromJson lexer (canonicalJson doc)).map canonicalJson = .ok (canonicalJson doc)) ∧
    (∀ doc : PolicyDoc,
      (canonicalJson doc).toList = '{' :: (Json.joined (memberTexts doc) ++ ['}'])) ∧
    (∀ (doc : PolicyDoc) (recovery : RecoveryConfig), doc.recovery = some recovery →
      memberText "recovery" (recoveryCanonicalJson recovery).toList ∈ memberTexts doc) ∧
    ∀ doc : PolicyDoc,
      memberText "rules" (arrayText (doc.rules.map fun rule => (ruleCanonicalJson rule).toList)) ∈
        memberTexts doc := by
  refine ⟨?_, ?_, ?_, canonicalJson_members, ?_, ?_⟩
  · intro doc version
    exact fromJson_canonicalJson conforms version
  · intro first second version version' same
    have read := fromJson_canonicalJson conforms version
    rw [same, fromJson_canonicalJson conforms version'] at read
    exact (Except.ok.inj read).symm
  · intro doc version
    rw [fromJson_canonicalJson conforms version]
    rfl
  · intro doc recovery held
    simp [memberTexts, held]
  · intro doc
    simp [memberTexts]

/-- Read with the reader itself: a document whose name holds a quote, a
control character and a letter outside ASCII. -/
theorem canonicalJson_roundTrip_reader :
    let doc : PolicyDoc :=
      { version := 1, network := some "n\"\x01é", signers := [], rules := [], recovery := none }
    fromJson jsonReader (canonicalJson doc) = .ok doc :=
  (canonicalJson_roundTrip jsonReader_conforms).1 _ rfl

/-- No two recovery members share a canonical form. -/
theorem recoveryCanonicalJson_injective {first second : RecoveryConfig}
    (same : recoveryCanonicalJson first = recoveryCanonicalJson second) : first = second := by
  have texts : writeValue (recoveryToCv first) = writeValue (recoveryToCv second) := by
    have lists := congrArg String.toList same
    rwa [recoveryCanonicalJson, recoveryCanonicalJson, String.toList_ofList,
      String.toList_ofList] at lists
  have firstRead := read_written (nested_recovery 0 first)
  rw [texts, read_written (nested_recovery 0 second)] at firstRead
  have walked := recoveryFromValue_tree first
  rw [← Option.some.inj firstRead, recoveryFromValue_tree] at walked
  exact (Except.ok.inj walked).symm

/-! ### Texts and trees -/

theorem Cv.Nested.mono {n m : Nat} {value : Cv} (nested : Cv.Nested n value) (deeper : n ≤ m) :
    Cv.Nested m value := by
  induction nested generalizing m with
  | str n s =>
      obtain ⟨m, rfl⟩ := Nat.exists_eq_add_one.mpr (Nat.lt_of_lt_of_le (Nat.succ_pos n) deeper)
      exact .str m s
  | u32 n value =>
      obtain ⟨m, rfl⟩ := Nat.exists_eq_add_one.mpr (Nat.lt_of_lt_of_le (Nat.succ_pos n) deeper)
      exact .u32 m value
  | @arr n items each ih =>
      obtain ⟨m, rfl⟩ := Nat.exists_eq_add_one.mpr (Nat.lt_of_lt_of_le (Nat.succ_pos n) deeper)
      exact .arr fun item member => ih item member (Nat.le_of_succ_le_succ deeper)
  | @obj n entries each ih =>
      obtain ⟨m, rfl⟩ := Nat.exists_eq_add_one.mpr (Nat.lt_of_lt_of_le (Nat.succ_pos n) deeper)
      exact .obj fun entry member => ih entry member (Nat.le_of_succ_le_succ deeper)

mutual

theorem exists_nested : ∀ value : Cv, ∃ n, Cv.Nested n value
  | .str s => ⟨1, .str 0 s⟩
  | .u32 value => ⟨1, .u32 0 value⟩
  | .arr items => by
      obtain ⟨n, each⟩ := exists_nestedItems items
      exact ⟨n + 1, .arr each⟩
  | .obj entries => by
      obtain ⟨n, each⟩ := exists_nestedEntries entries
      exact ⟨n + 1, .obj each⟩

theorem exists_nestedItems : ∀ items : List Cv, ∃ n, ∀ item ∈ items, Cv.Nested n item
  | [] => ⟨0, fun _ member => nomatch member⟩
  | item :: items => by
      obtain ⟨n, first⟩ := exists_nested item
      obtain ⟨m, rest⟩ := exists_nestedItems items
      refine ⟨max n m, ?_⟩
      rw [List.forall_mem_cons]
      exact ⟨first.mono (Nat.le_max_left n m),
        fun other member => (rest other member).mono (Nat.le_max_right n m)⟩

theorem exists_nestedEntries :
    ∀ entries : List (String × Cv), ∃ n, ∀ entry ∈ entries, Cv.Nested n entry.2
  | [] => ⟨0, fun _ member => nomatch member⟩
  | (_, value) :: entries => by
      obtain ⟨n, first⟩ := exists_nested value
      obtain ⟨m, rest⟩ := exists_nestedEntries entries
      refine ⟨max n m, ?_⟩
      rw [List.forall_mem_cons]
      exact ⟨first.mono (Nat.le_max_left n m),
        fun other member => (rest other member).mono (Nat.le_max_right n m)⟩

end

theorem tree_eq_of_writeValue {first second : Cv} (same : writeValue first = writeValue second) :
    first.tree = second.tree := by
  obtain ⟨n, nested⟩ := exists_nested first
  obtain ⟨m, nested'⟩ := exists_nested second
  have read := read_written (nested.mono (Nat.le_max_left n m))
  rw [same, read_written (nested'.mono (Nat.le_max_right n m))] at read
  exact (Option.some.inj read).symm

end Perch.Ir
