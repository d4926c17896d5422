/-
What the wallet's hashes identify.

The canonical text of a document is written with its strings escaped one code
point at a time, and then encoded in UTF-8, which keeps no lone surrogate.  So
its bytes determine the document when every string in it is made of characters,
none of them the replacement character, and not otherwise.
-/

import Perch.Document.Valid
import Perch.Machine.Shapes
import Perch.PerchJs.Canonical

namespace Perch.PerchJs

open Machine Machine.Js

/-! ### Values as JSON -/

mutual

/-- A value as JSON has it: without `undefined` members, and the others in a
fixed order. -/
def normal : Value → Value
  | .array items => .array (normalItems items)
  | .object members => .object (sortMembers (normalMembers members))
  | value => value

def normalItems : List Value → List Value
  | [] => []
  | item :: items => normal item :: normalItems items

def normalMembers : List (Text × Value) → List (Text × Value)
  | [] => []
  | (_, .undefined) :: members => normalMembers members
  | (key, value) :: members => (key, normal value) :: normalMembers members

end

mutual

def lossy : Value → Ir.Cv
  | .string text => .str (String.ofList (decoded text))
  | .number n => .u32 (UInt32.ofNat n.truncated.toNat)
  | .array items => .arr (lossyItems items)
  | .object members => .obj (lossyMembers members)
  | _ => .str ""

def lossyItems : List Value → List Ir.Cv
  | [] => []
  | item :: items => lossy item :: lossyItems items

def lossyMembers : List (Text × Value) → List (String × Ir.Cv)
  | [] => []
  | (_, .undefined) :: members => lossyMembers members
  | (key, value) :: members => (String.ofList (decoded key), lossy value) :: lossyMembers members

end

/-- The defined members, under the names their keys are. -/
def named (members : List (Text × Value)) : List (String × Value) :=
  (defined members).map fun member => (String.ofList (decoded member.1), member.2)

theorem normalItems_eq (items : List Value) : normalItems items = items.map normal := by
  induction items with
  | nil => rfl
  | cons item items ih => rw [normalItems, ih, List.map_cons]

theorem lossyItems_eq (items : List Value) : lossyItems items = items.map lossy := by
  induction items with
  | nil => rfl
  | cons item items ih => rw [lossyItems, ih, List.map_cons]

theorem normalMembers_eq (members : List (Text × Value)) :
    normalMembers members = (defined members).map fun member => (member.1, normal member.2) := by
  induction members with
  | nil => rfl
  | cons member members ih =>
      obtain ⟨key, value⟩ := member
      cases value <;> simp [normalMembers, ih, defined, Value.isUndefined]

theorem lossyMembers_eq (members : List (Text × Value)) :
    lossyMembers members = (named members).map fun entry => (entry.1, lossy entry.2) := by
  induction members with
  | nil => rfl
  | cons member members ih =>
      obtain ⟨key, value⟩ := member
      cases value <;> simp [lossyMembers, ih, named, defined, Value.isUndefined]

theorem writeItems_eq (numberText : Number → Text) (items : List Value) :
    writeItems numberText items = items.map (write numberText) := by
  induction items with
  | nil => rfl
  | cons item items ih => rw [writeItems, ih, List.map_cons]

theorem writeMembers_eq (numberText : Number → Text) (members : List (Text × Value)) :
    writeMembers numberText members =
      (defined members).map fun member => (member.1, write numberText member.2) := by
  induction members with
  | nil => rfl
  | cons member members ih =>
      obtain ⟨key, value⟩ := member
      cases value <;> simp [writeMembers, ih, defined, Value.isUndefined]

theorem defined_eq_named {members : List (Text × Value)}
    (names : ∀ member ∈ members, ∃ name, member.1 = utf16 name) :
    defined members = (named members).map fun entry => (utf16 entry.1, entry.2) := by
  rw [named, List.map_map]
  symm
  apply (List.map_congr_left _).trans (List.map_id _)
  intro member present
  obtain ⟨name, same⟩ := names member (List.mem_of_mem_filter present)
  have back : utf16 (String.ofList (decoded member.1)) = member.1 := by
    rw [same, decoded_utf16, String.ofList_toList]
  exact Prod.ext back rfl

/-! ### What is written of a string -/

theorem opens_writePoint (unit : UInt16) (rest : Text) (opens : isLow unit = false) :
    Opens ((points (unit :: rest)).flatMap writePoint) := by
  have scalar (c : Char) (more : Text) : Opens (writePoint (.scalar c) ++ more) := by
    have escaped : ∃ first others, Ir.escapeChar c = first :: others := by
      rw [Ir.escapeChar]
      split_ifs
      all_goals exact ⟨_, _, rfl⟩
    obtain ⟨first, others, escaped⟩ := escaped
    rw [writePoint_scalar, escaped, chars, List.flatMap_cons, List.append_assoc]
    exact opens_charUnits first _
  have alone (more : Text) : Opens (writePoint (point unit) ++ more) := by
    rw [point]
    split
    · intro first member
      obtain rfl := Option.mem_some.mp member
      exact opens
    · exact scalar _ more
  cases rest with
  | nil => exact alone []
  | cons next rest =>
      rw [points]
      split
      · exact scalar _ _
      · exact alone _

/-- Escaping works on what will be encoded. -/
theorem decoded_escaped (text : Text) :
    decoded ((points text).flatMap writePoint) = (decoded text).flatMap Ir.escapeChar := by
  have scalar (c : Char) (more : Text) :
      decoded (writePoint (.scalar c) ++ more) = Ir.escapeChar c ++ decoded more := by
    rw [writePoint_scalar, decoded_chars_append]
  have alone (unit : UInt16) (more : Text) (last : isHigh unit = true → Opens more) :
      decoded (writePoint (point unit) ++ more) =
        Ir.escapeChar (point unit).encoded ++ decoded more := by
    cases shape : point unit with
    | scalar c => exact scalar c more
    | lone surrogate =>
        have same : surrogate = unit := by
          have units := point_units unit
          rw [shape] at units
          exact List.singleton_inj.mp units
        rw [writePoint, same, List.singleton_append, decoded, points_cons last, shape, same]
        rfl
  fun_induction points text with
  | case1 => rfl
  | case2 unit =>
      have last : isHigh unit = true → Opens [] := by
        intro high next member
        cases member
      have written := alone unit [] last
      rw [List.append_nil] at written
      have single : decoded [unit] = [(point unit).encoded] := rfl
      rw [List.flatMap_singleton, written, single, List.flatMap_singleton, decoded_nil,
        List.append_nil]
  | case3 unit next rest isPair ih =>
      rw [List.flatMap_cons, scalar, ih, decoded, decoded, points, if_pos isPair, List.map_cons,
        List.flatMap_cons]
      rfl
  | case4 unit next rest isPair ih =>
      have last : isHigh unit = true → Opens ((points (next :: rest)).flatMap writePoint) := by
        intro high
        apply opens_writePoint
        rw [high, Bool.true_and, Bool.not_eq_true] at isPair
        exact isPair
      rw [List.flatMap_cons, alone unit _ last, ih, decoded, decoded, points, if_neg isPair,
        List.map_cons, List.flatMap_cons]

theorem decoded_writeString (text : Text) :
    decoded (writeString text) = Ir.writeJsonString (String.ofList (decoded text)) := by
  have quote : utf16 "\"" = charUnits '"' := List.flatMap_singleton ..
  have opening : charUnits '"' = chars ['"'] := (List.flatMap_singleton ..).symm
  have closing := decoded_between ((points text).flatMap writePoint) '"' []
  rw [List.append_nil, decoded_escaped, decoded_nil] at closing
  rw [writeString, quote, List.append_assoc]
  nth_rewrite 1 [opening]
  rw [decoded_chars_append, closing, Ir.writeJsonString, String.toList_ofList]
  rfl

theorem decoded_join (parts : List Text) :
    decoded (join parts) = Json.joined (parts.map decoded) := by
  induction parts with
  | nil => rfl
  | cons part rest ih =>
      cases rest with
      | nil => simp [join, Json.joined]
      | cons next rest =>
          have comma : utf16 "," = charUnits ',' := List.flatMap_singleton ..
          have separated : join (part :: next :: rest) =
              part ++ (charUnits ',' ++ join (next :: rest)) := by
            simp only [join, List.intercalate, List.intersperse_cons_cons, List.flatten_cons, comma]
          have joined : Json.joined ((part :: next :: rest).map decoded) =
              decoded part ++ ',' :: Json.joined ((next :: rest).map decoded) :=
            Json.joined_cons (by simp)
          rw [separated, decoded_between, ih, joined]

/-! ### What is written of a value -/

section Writing

variable {numberText : Number → Text}

def written (numberText : Number → Text) (value : Value) : Text :=
  match write numberText value with
  | .ok text => text
  | .error _ => []

/-- A plain value is written, and its bytes are those of its lossy reading. -/
structure Written (numberText : Number → Text) (value : Value) : Prop where
  succeeds : write numberText value = .ok (written numberText value)
  decodes : decoded (written numberText value) = Ir.writeValue (lossy value)

theorem Written.of_ok {value : Value} {text : Text} (succeeds : write numberText value = .ok text)
    (decodes : decoded text = Ir.writeValue (lossy value)) : Written numberText value := by
  have same : written numberText value = text := by rw [written, succeeds]
  constructor
  · rw [same, succeeds]
  · rw [same, decodes]

theorem plain_writes (writesIntegers : WritesIntegers numberText) {value : Value}
    (plain : Plain value) : Written numberText value := by
  induction plain with
  | string text =>
      apply Written.of_ok
      · rw [write]
      · rw [decoded_writeString, lossy, Ir.writeValue]
  | @number n small =>
      have digits : numberText (.ofNat n) = chars (Nat.toDigits 10 n) := by
        have text : numberText (.ofNat n) = decimalText n := writesIntegers n (by omega)
        rw [text]
        simp [decimalText]
      apply Written.of_ok
      · rw [write, Number.isInteger_ofNat, if_pos rfl]
      · have held : (UInt32.ofNat n).toNat = n := by
          rw [UInt32.toNat_ofNat']
          exact Nat.mod_eq_of_lt small
        rw [digits, decoded_chars, lossy, Ir.writeValue, Number.truncated_ofNat, Int.toNat_natCast,
          held]
  | @array items each ih =>
      have texts : (writeItems numberText items).mapM id =
          .ok (items.map (written numberText)) := by
        rw [writeItems_eq, List.map_congr_left fun item member => (ih item member).succeeds]
        apply mapM_map_ok
        intro item
        rfl
      have inner : (items.map (written numberText)).map decoded =
          items.map fun item => Ir.writeValue (lossy item) := by
        rw [List.map_map]
        exact List.map_congr_left fun item member => (ih item member).decodes
      have opening : utf16 "[" = chars ['['] := rfl
      have closing : utf16 "]" = charUnits ']' ++ [] := rfl
      apply Written.of_ok
      · rw [write, texts]
        rfl
      · rw [opening, closing, List.append_assoc, decoded_chars_append, decoded_between,
          decoded_join, inner, lossy, Ir.writeValue, Ir.writeItems_eq, lossyItems_eq, List.map_map]
        rfl
  | @object members names each ih =>
      have entries : ∀ entry ∈ Ir.sortKeys (named members), Written numberText entry.2 := by
        intro entry present
        have listed := (List.perm_insertionSort _ (named members)).mem_iff.mp present
        obtain ⟨member, held, rfl⟩ := List.mem_map.mp listed
        exact ih member held
      have texts : (sortMembers (writeMembers numberText members)).mapM
          (fun member => do pure (writeString member.1 ++ utf16 ":" ++ (← member.2))) =
          .ok ((Ir.sortKeys (named members)).map fun entry =>
            writeString (utf16 entry.1) ++ utf16 ":" ++ written numberText entry.2) := by
        have sorted : sortMembers (writeMembers numberText members) =
            (Ir.sortKeys (named members)).map fun entry =>
              (utf16 entry.1, (.ok (written numberText entry.2) : Except WriteFailure Text)) := by
          rw [writeMembers_eq, defined_eq_named names, List.map_map]
          apply (sortMembers_map (named members) (write numberText)).trans
          apply List.map_congr_left
          intro entry present
          rw [(entries entry present).succeeds]
        rw [sorted]
        apply mapM_map_ok
        intro entry
        rfl
      have inner : ((Ir.sortKeys (named members)).map fun entry =>
            writeString (utf16 entry.1) ++ utf16 ":" ++ written numberText entry.2).map decoded =
          (Ir.sortKeys (named members)).map fun entry =>
            Ir.writeJsonString entry.1 ++ ':' :: Ir.writeValue (lossy entry.2) := by
        have colon : utf16 ":" = charUnits ':' := List.flatMap_singleton ..
        rw [List.map_map]
        apply List.map_congr_left
        intro entry present
        rw [Function.comp_apply, colon, List.append_assoc, decoded_between, decoded_writeString,
          decoded_utf16, String.ofList_toList, (entries entry present).decodes]
      have canonical : Ir.sortKeys (Ir.writeEntries (lossyMembers members)) =
          (Ir.sortKeys (named members)).map fun entry =>
            (entry.1, Ir.writeValue (lossy entry.2)) := by
        rw [Ir.writeEntries_eq, lossyMembers_eq, List.map_map]
        exact Ir.sortKeys_map (fun value => Ir.writeValue (lossy value)) (named members)
      have opening : utf16 "\x7b" = chars ['\x7b'] := rfl
      have closing : utf16 "\x7d" = charUnits '\x7d' ++ [] := rfl
      apply Written.of_ok
      · rw [write]
        exact bind_eq_ok.mpr ⟨_, texts, rfl⟩
      · rw [opening, closing, List.append_assoc, decoded_chars_append, decoded_between,
          decoded_join, inner, lossy, Ir.writeValue, canonical, List.map_map]
        rfl

end Writing

/-! ### What its bytes determine -/

theorem map_transfer {α β γ : Type} {f : α → β} {g : α → γ} {left right : List α}
    (same : left.map f = right.map f)
    (each : ∀ a ∈ left, ∀ b ∈ right, f a = f b → g a = g b) : left.map g = right.map g := by
  induction left generalizing right with
  | nil =>
      cases right with
      | nil => rfl
      | cons b right => cases same
  | cons a left ih =>
      cases right with
      | nil => cases same
      | cons b right =>
          simp only [List.map_cons, List.cons.injEq] at same ⊢
          constructor
          · exact each a List.mem_cons_self b List.mem_cons_self same.1
          · exact ih same.2 fun a member b member' =>
              each a (List.mem_cons_of_mem _ member) b (List.mem_cons_of_mem _ member')

theorem normal_object {members : List (Text × Value)}
    (names : ∀ member ∈ members, ∃ name, member.1 = utf16 name) :
    normal (.object members) =
      .object ((Ir.sortKeys (named members)).map fun entry => (utf16 entry.1, normal entry.2)) := by
  rw [normal, normalMembers_eq, defined_eq_named names, List.map_map]
  exact congrArg Value.object (sortMembers_map (named members) normal)

theorem tree_object (members : List (Text × Value)) :
    (lossy (.object members)).tree =
      .object ((Ir.sortKeys (named members)).map fun entry => (entry.1, (lossy entry.2).tree)) := by
  rw [lossy, Ir.Cv.tree, Ir.treeEntries_eq, lossyMembers_eq, List.map_map]
  exact congrArg Json.object (Ir.sortKeys_map (fun value => (lossy value).tree) (named members))

theorem mem_named {members : List (Text × Value)} {entry : String × Value}
    (present : entry ∈ Ir.sortKeys (named members)) :
    ∃ member ∈ defined members, member.2 = entry.2 := by
  have listed := (List.perm_insertionSort _ (named members)).mem_iff.mp present
  obtain ⟨member, held, rfl⟩ := List.mem_map.mp listed
  exact ⟨member, held, rfl⟩

theorem plain_normal_eq {value other : Value} (plain : Plain value) (plain' : Plain other)
    (trees : (lossy value).tree = (lossy other).tree)
    (determined : ∀ text ∈ texts value, Determined text) : normal value = normal other := by
  induction plain generalizing other with
  | string text =>
      cases plain' with
      | string text' =>
          have same : decoded text' = decoded text := by
            simp only [lossy, Ir.Cv.tree, Json.string.injEq, String.ofList_inj] at trees
            exact trees.symm
          rw [(determined text List.mem_cons_self).unique same]
      | _ => cases trees
  | @number n small =>
      cases plain' with
      | @number m small' =>
          have values : ∀ k < 2 ^ 32,
              (UInt32.ofNat (Number.ofNat k).truncated.toNat).toNat = k := by
            intro k bound
            rw [Number.truncated_ofNat, Int.toNat_natCast, UInt32.toNat_ofNat']
            exact Nat.mod_eq_of_lt bound
          simp only [lossy, Ir.Cv.tree, Json.number.injEq, String.ofList_inj, and_true,
            values n small,
            values m small'] at trees
          have read := congrArg (Nat.ofDigitChars 10 · 0) trees
          simp only [Nat.ofDigitChars_ten_toDigits] at read
          rw [read]
      | _ => cases trees
  | @array items each ih =>
      cases plain' with
      | @array items' each' =>
          rw [lossy, lossy, Ir.Cv.tree, Ir.Cv.tree, Ir.treeItems_eq, Ir.treeItems_eq, lossyItems_eq,
            lossyItems_eq, List.map_map, List.map_map] at trees
          rw [normal, normal, normalItems_eq, normalItems_eq]
          congr 1
          apply map_transfer (Json.array.inj trees)
          intro item member item' member' same
          apply ih item member (each' item' member') same
          intro text present
          apply determined text
          rw [texts, textsOfItems_eq]
          exact List.mem_flatMap.mpr ⟨item, member, present⟩
      | _ => cases trees
  | @object members names each ih =>
      cases plain' with
      | @object members' names' each' =>
          rw [tree_object, tree_object] at trees
          rw [normal_object names, normal_object names']
          congr 1
          apply map_transfer (Json.object.inj trees)
          intro entry member entry' member' same
          obtain ⟨source, held, sourceEq⟩ := mem_named member
          obtain ⟨source', held', sourceEq'⟩ := mem_named member'
          obtain ⟨sameName, sameTree⟩ := Prod.mk.inj same
          have values : normal entry.2 = normal entry'.2 := by
            rw [← sourceEq, ← sourceEq'] at sameTree ⊢
            apply ih source held (each' source' held') sameTree
            intro text present
            apply determined text
            rw [texts, textsOfMembers_eq]
            exact List.mem_flatMap.mpr ⟨source, List.mem_of_mem_filter held, present⟩
          rw [sameName, values]
      | _ => cases trees

/-! ### What shares its bytes -/

theorem keeps_twin : Zod.Keeps twin := by
  intro name determined text
  constructor
  · intro same
    apply determined.unique
    rw [← same, decoded_twin]
  · intro same
    apply determined.unique
    rw [decoded_twin, same]

/-- A value and its twin are written alike. -/
theorem lossy_mapText {value : Value} (plain : Plain value) :
    lossy (mapText twin value) = lossy value := by
  induction plain with
  | string text => rw [mapText, lossy, lossy, decoded_twin]
  | number small => rfl
  | @array items each ih =>
      rw [mapText, lossy, lossy, mapItems_eq, lossyItems_eq, lossyItems_eq, List.map_map]
      congr 1
      exact List.map_congr_left ih
  | @object members names each ih =>
      rw [mapText, lossy, lossy, lossyMembers_eq, lossyMembers_eq, named, defined_mapMembers, named,
        List.map_map, List.map_map, List.map_map]
      congr 1
      apply List.map_congr_left
      intro member present
      exact Prod.ext rfl (ih member present)

theorem determined_of_normal {value : Value} (plain : Plain value)
    (same : normal (mapText twin value) = normal value) :
    ∀ text ∈ texts value, Determined text := by
  induction plain with
  | string text =>
      intro text' member
      rw [List.mem_singleton.mp member]
      exact determined_of_twin (Value.string.inj same)
  | number small =>
      intro text member
      cases member
  | @array items each ih =>
      intro text member
      rw [mapText, normal, normal, mapItems_eq, normalItems_eq, normalItems_eq,
        List.map_map] at same
      rw [texts, textsOfItems_eq] at member
      obtain ⟨item, present, held⟩ := List.mem_flatMap.mp member
      exact ih item present (List.map_inj_left.mp (Value.array.inj same) item present) text held
  | @object members names each ih =>
      intro text member
      have names' : ∀ member ∈ mapMembers twin members, ∃ name, member.1 = utf16 name := by
        intro member present
        rw [mapMembers_eq] at present
        obtain ⟨original, held, rfl⟩ := List.mem_map.mp present
        exact names original held
      have mapped : named (mapMembers twin members) =
          (named members).map fun entry => (entry.1, mapText twin entry.2) := by
        rw [named, defined_mapMembers, named, List.map_map, List.map_map]
        rfl
      have sorted : Ir.sortKeys (named (mapMembers twin members)) =
          (Ir.sortKeys (named members)).map fun entry => (entry.1, mapText twin entry.2) := by
        rw [mapped]
        exact Ir.sortKeys_map (mapText twin) (named members)
      rw [mapText, normal_object names', normal_object names, sorted, List.map_map] at same
      have pointwise := List.map_inj_left.mp (Value.object.inj same)
      rw [texts, textsOfMembers_eq] at member
      obtain ⟨source, present, held⟩ := List.mem_flatMap.mp member
      have definite : source ∈ defined members := by
        apply List.mem_filter.mpr ⟨present, _⟩
        cases shape : source.2 with
        | undefined =>
            rw [shape] at held
            cases held
        | _ => rfl
      have listed : (String.ofList (decoded source.1), source.2) ∈ Ir.sortKeys (named members) :=
        (List.perm_insertionSort _ (named members)).mem_iff.mpr
          (List.mem_map.mpr ⟨source, definite, rfl⟩)
      exact ih source definite (Prod.mk.inj (pointwise _ listed)).2 text held

/-! ### The schemas -/

section Schemas

open Zod

variable {f : Text → Text}

theorem fits_cons {key : String} {schema : Schema} {shape : Shape} (first : Fits f schema)
    (rest : ∀ field ∈ shape, Fits f field.2) :
    ∀ field ∈ (key, schema) :: shape, Fits f field.2 := by
  rw [List.forall_mem_cons]
  exact ⟨first, rest⟩

theorem fits_u32 : Fits f Schema.u32 := Fits.int

theorem fits_strings : Fits f (array string) := Fits.array Fits.string rfl

theorem fits_signerDecl : Fits f Schema.signerDecl := by
  apply Fits.union
  rw [List.forall_mem_cons, List.forall_mem_singleton]
  constructor
  · exact Fits.object (fits_cons Fits.string (fits_cons Fits.string (fits_cons Fits.string nofun)))
  · exact Fits.object (fits_cons Fits.string (fits_cons Fits.string nofun))

variable (keeps : Keeps f)
include keeps

theorem fits_scope : Fits f Schema.scope := by
  apply Fits.discriminatedUnion keeps
  simp only [List.forall_mem_cons, List.not_mem_nil, false_imp_iff, implies_true, and_true]
  constructor
  · exact Fits.variant keeps (by decide) (fits_cons Fits.string nofun)
  · exact Fits.variant keeps (by decide) nofun

theorem fits_principals : Fits f Schema.principals := by
  apply Fits.discriminatedUnion keeps
  simp only [List.forall_mem_cons, List.not_mem_nil, false_imp_iff, implies_true, and_true]
  refine ⟨?_, ?_, ?_⟩
  · exact Fits.variant keeps (by decide) (fits_cons fits_strings nofun)
  · exact Fits.variant keeps (by decide) (fits_cons fits_strings (fits_cons fits_u32 nofun))
  · exact Fits.variant keeps (by decide)
      (fits_cons Fits.string (fits_cons Fits.string (fits_cons Fits.string nofun)))

theorem fits_argPred : Fits f Schema.argPred := by
  apply Fits.discriminatedUnion keeps
  simp only [List.forall_mem_cons, List.not_mem_nil, false_imp_iff, implies_true, and_true]
  refine ⟨?_, ?_, ?_, ?_, ?_⟩
  · exact Fits.variant keeps (by decide) nofun
  · exact Fits.variant keeps (by decide) (fits_cons Fits.string nofun)
  · exact Fits.variant keeps (by decide) (fits_cons fits_strings nofun)
  · exact Fits.variant keeps (by decide) (fits_cons Fits.string nofun)
  · exact Fits.variant keeps (by decide) (fits_cons fits_u32 nofun)

theorem fits_argConstraint : Fits f Schema.argConstraint :=
  Fits.object (fits_cons fits_u32 (fits_cons (fits_argPred keeps) nofun))

omit keeps in
theorem fits_capConstraint : Fits f Schema.capConstraint :=
  Fits.object (fits_cons (Fits.optional Fits.string)
    (fits_cons Fits.string (fits_cons fits_u32 nofun)))

theorem fits_rule : Fits f Schema.rule :=
  Fits.object (fits_cons Fits.string (fits_cons (fits_scope keeps)
    (fits_cons (fits_principals keeps) (fits_cons (Fits.optional fits_strings)
      (fits_cons (Fits.optional (Fits.array (fits_argConstraint keeps) rfl))
        (fits_cons (Fits.optional fits_u32)
          (fits_cons (Fits.optional fits_capConstraint) nofun)))))))

omit keeps in
theorem fits_guardianFields {rest : Shape} (after : ∀ field ∈ rest, Fits f field.2) :
    ∀ field ∈ Schema.guardianFields ++ rest, Fits f field.2 :=
  fits_cons fits_strings (fits_cons fits_u32 after)

omit keeps in
theorem fits_zkFields : ∀ field ∈ Schema.zkFields, Fits f field.2 :=
  fits_cons Fits.string (fits_cons Fits.string (fits_cons Fits.string
    (fits_cons Fits.string (fits_cons Fits.string nofun))))

theorem fits_recoveryMode : Fits f Schema.recoveryMode := by
  apply Fits.discriminatedUnion keeps
  simp only [List.forall_mem_cons, List.not_mem_nil, false_imp_iff, implies_true, and_true]
  refine ⟨?_, ?_, ?_⟩
  · exact Fits.variant keeps (by decide) (fits_guardianFields nofun)
  · exact Fits.variant keeps (by decide) fits_zkFields
  · exact Fits.variant keeps (by decide) (fits_guardianFields fits_zkFields)

theorem fits_recoveryConfig : Fits f Schema.recoveryConfig :=
  Fits.object (fits_cons (Fits.oneOf keeps (by decide)) (fits_cons (fits_recoveryMode keeps)
    (fits_cons Fits.string
      (fits_cons (Fits.optional (Fits.object (fits_cons Fits.string nofun)))
        (fits_cons fits_strings (fits_cons fits_u32
          (fits_cons fits_u32 (fits_cons fits_u32 nofun))))))))

theorem fits_policyDocSchema : Fits f Schema.policyDocSchema :=
  Fits.object (fits_cons (Fits.literalNumber (by decide)) (fits_cons (Fits.optional Fits.string)
    (fits_cons (Fits.array fits_signerDecl rfl) (fits_cons (Fits.array (fits_rule keeps) rfl)
      (fits_cons (Fits.optional (fits_recoveryConfig keeps)) nofun)))))

end Schemas

/-! ### What a hash identifies -/

section Hashes

variable {numberText : Number → Text}

def Accepted (schema : Zod.Schema) (value : Value) : Prop :=
  Proper value ∧ (schema value).isSome = true

/-- No other accepted value has the same bytes hashed, as far as what is
hashed of them goes. -/
def Identifies (schema : Zod.Schema) (hashed : Value → Value)
    (preimage : Value → Except WriteFailure Bytes) (value : Value) : Prop :=
  (∃ bytes, preimage value = .ok bytes) ∧
    ∀ other, Accepted schema other → preimage other = preimage value →
      normal (hashed other) = normal (hashed value)

theorem Accepted.plain {schema : Zod.Schema} (fits : Zod.Fits twin schema)
    (required : schema .undefined = none) {value : Value} (accepted : Accepted schema value) :
    Plain value := by
  obtain ⟨read, taken⟩ := Option.isSome_iff_exists.mp accepted.2
  rcases fits.plain value read accepted.1 taken with absent | plain
  · rw [absent, required] at taken
    cases taken
  · exact plain

theorem Accepted.mapText {schema : Zod.Schema} (fits : Zod.Fits twin schema) {value : Value}
    (accepted : Accepted schema value) : Accepted schema (mapText twin value) := by
  constructor
  · exact accepted.1.mapText
  · rw [fits.natural, Option.isSome_map]
    exact accepted.2

def plainBytes (value : Value) : Bytes := Ir.utf8 (String.ofList (Ir.writeValue (lossy value)))

theorem plainBytes_injective {value other : Value} (plain : Plain value) (plain' : Plain other)
    (determined : ∀ text ∈ texts value, Determined text)
    (same : plainBytes other = plainBytes value) : normal other = normal value := by
  have texts := String.ofList_inj.mp (Document.utf8_injective same)
  exact (plain_normal_eq plain plain' (Ir.tree_eq_of_writeValue texts).symm determined).symm

theorem plainBytes_mapText {value : Value} (plain : Plain value) :
    plainBytes (mapText twin value) = plainBytes value := by
  rw [plainBytes, lossy_mapText plain, plainBytes]

theorem encodeText_written (writesIntegers : WritesIntegers numberText) {value : Value}
    (plain : Plain value) : encodeText (written numberText value) = plainBytes value := by
  rw [encodeText_decoded, (plain_writes writesIntegers plain).decodes]
  rfl

theorem docPreimage_plain (writesIntegers : WritesIntegers numberText) {value : Value}
    (plain : Plain value) : docPreimage numberText value = .ok (plainBytes value) := by
  rw [docPreimage, canonicalJson, (plain_writes writesIntegers plain).succeeds, ok_bind,
    encodeText_written writesIntegers plain]
  rfl

theorem taggedPreimage_plain (writesIntegers : WritesIntegers numberText) (tag : Text)
    {value : Value} (plain : Plain value) :
    taggedPreimage numberText tag value = .ok (encodeText tag ++ plainBytes value) := by
  rw [taggedPreimage, canonicalJson, (plain_writes writesIntegers plain).succeeds, ok_bind,
    encodeText_written writesIntegers plain]
  rfl

/-- A preimage made of a tag and a plain part identifies the part when its
texts are determined, and not otherwise. -/
theorem identifies_iff {schema : Zod.Schema} {hashed : Value → Value} (tag : Bytes)
    {preimage : Value → Except WriteFailure Bytes} (fits : Zod.Fits twin schema)
    (commutes : ∀ value, hashed (mapText twin value) = mapText twin (hashed value))
    (writes : ∀ value, Plain (hashed value) →
      preimage value = .ok (tag ++ plainBytes (hashed value)))
    (plain : ∀ value bytes, Accepted schema value → preimage value = .ok bytes →
      Plain (hashed value))
    {value : Value} (accepted : Accepted schema value) (here : Plain (hashed value)) :
    Identifies schema hashed preimage value ↔ ∀ text ∈ texts (hashed value), Determined text := by
  have written := writes value here
  constructor
  · intro identifies
    apply determined_of_normal here
    rw [← commutes]
    apply identifies.2 _ (accepted.mapText fits)
    have twinPlain : Plain (hashed (mapText twin value)) := by
      rw [commutes]
      exact here.mapText
    rw [writes _ twinPlain, written, commutes, plainBytes_mapText here]
  · intro determined
    refine ⟨⟨_, written⟩, ?_⟩
    intro other taken same
    rw [written] at same
    have there := plain other _ taken same
    rw [writes other there] at same
    exact plainBytes_injective here there determined
      (List.append_cancel_left (Except.ok.inj same))

theorem plain_get {value : Value} (plain : Plain value) {key : String}
    (present : value.get key ≠ .undefined) : Plain (value.get key) := by
  cases plain with
  | @object members names each =>
      have found : ∃ member ∈ members, member.2 = lookup members (utf16 key) := by
        rw [Value.get, lookup] at present
        cases held : List.lookup (utf16 key) members with
        | none =>
            rw [held] at present
            exact absurd rfl present
        | some value =>
            obtain ⟨before, after, split, _⟩ := List.lookup_eq_some_iff.mp held
            refine ⟨(utf16 key, value), ?_, ?_⟩
            · rw [split]
              simp
            · rw [lookup, held]
              rfl
      obtain ⟨member, listed, same⟩ := found
      rw [Value.get] at present ⊢
      rw [← same] at present ⊢
      apply each member
      apply List.mem_filter.mpr ⟨listed, _⟩
      cases shape : member.2 with
      | undefined => exact absurd shape present
      | _ => rfl
  | _ => exact absurd rfl present

theorem get_mapText (value : Value) (key : String) :
    (mapText twin value).get key = mapText twin (value.get key) := by
  cases value with
  | object members => exact lookup_mapMembers members (utf16 key)
  | _ => rfl

theorem configPreimage_of_present {d : Value} (present : d.get "recovery" ≠ .undefined) :
    configPreimage numberText d =
      taggedPreimage numberText configHashDomain (d.get "recovery") := by
  rw [configPreimage]
  cases held : d.get "recovery" with
  | undefined => exact absurd held present
  | _ => rfl

/-- When the hashes of documents, of their rules and of their recovery members
identify them. -/
structure HashesIdentify (numberText : Number → Text) : Prop where
  doc : ∀ d, Accepted Schema.policyDocSchema d →
    (Identifies Schema.policyDocSchema id (docPreimage numberText) d ↔
      ∀ text ∈ texts d, Determined text)
  rule : ∀ r, Accepted Schema.rule r →
    (Identifies Schema.rule id (rulePreimage numberText) r ↔ ∀ text ∈ texts r, Determined text)
  config : ∀ d, Accepted Schema.policyDocSchema d → d.get "recovery" ≠ .undefined →
    (Identifies Schema.policyDocSchema (·.get "recovery") (configPreimage numberText) d ↔
      ∀ text ∈ texts (d.get "recovery"), Determined text)

/-- The hashes identify what is made of characters other than the replacement
character, and nothing else. -/
theorem hashes_identify (writesIntegers : WritesIntegers numberText) :
    HashesIdentify numberText := by
  have fits := fits_policyDocSchema keeps_twin
  constructor
  · intro d accepted
    apply identifies_iff [] fits
    · intro value
      rfl
    · intro value plain
      exact docPreimage_plain writesIntegers plain
    · intro value _ taken _
      exact taken.plain fits rfl
    · exact accepted
    · exact accepted.plain fits rfl
  · intro r accepted
    have fitsRule := fits_rule keeps_twin
    apply identifies_iff (encodeText ruleHashDomain) fitsRule
    · intro value
      rfl
    · intro value plain
      exact taggedPreimage_plain writesIntegers ruleHashDomain plain
    · intro value _ taken _
      exact taken.plain fitsRule rfl
    · exact accepted
    · exact accepted.plain fitsRule rfl
  · intro d accepted present
    apply identifies_iff (encodeText configHashDomain) fits
    · intro value
      exact get_mapText value "recovery"
    · intro value plain
      have there : value.get "recovery" ≠ .undefined := by
        intro absent
        have undefinedPlain : Plain .undefined := absent ▸ plain
        cases undefinedPlain
      rw [configPreimage_of_present there]
      exact taggedPreimage_plain writesIntegers configHashDomain plain
    · intro value bytes taken returned
      apply plain_get (taken.plain fits rfl)
      intro absent
      rw [configPreimage, absent] at returned
      cases returned
    · exact accepted
    · exact plain_get (accepted.plain fits rfl) present

def networkDoc (network : Text) : Value :=
  record [("version", .number (.ofNat 1)), ("network", .string network), ("signers", .array []),
    ("rules", .array [])]

theorem networkDoc_accepted (network : Text) :
    Accepted Schema.policyDocSchema (networkDoc network) := by
  constructor
  · constructor
    · change (["version", "network", "signers", "rules"].map utf16).Nodup
      decide
    · intro member present
      simp only [List.map_cons, List.map_nil, List.mem_cons, List.not_mem_nil, or_false] at present
      rcases present with rfl | rfl | rfl | rfl
      · exact Proper.number _
      · exact Proper.string _
      · exact Proper.array nofun
      · exact Proper.array nofun
  · rfl

theorem hashes_identify_sample :
    Identifies Schema.policyDocSchema id (docPreimage plainNumberText)
      (networkDoc (utf16 "test")) := by
  apply ((hashes_identify plainNumberText_writesIntegers).doc _ (networkDoc_accepted _)).mpr
  intro text present
  obtain rfl : text = utf16 "test" := List.mem_singleton.mp present
  exact determined_utf16 (by decide)

/-- Two documents whose networks are different lone surrogates. -/
theorem docHash_collides :
    ¬ ∀ d d', Accepted Schema.policyDocSchema d → Accepted Schema.policyDocSchema d' →
      docPreimage plainNumberText d = docPreimage plainNumberText d' → normal d = normal d' := by
  intro injective
  have plain (network : Text) : Plain (networkDoc network) :=
    (networkDoc_accepted network).plain (fits_policyDocSchema keeps_twin) rfl
  have same : docPreimage plainNumberText (networkDoc [0xD800]) =
      docPreimage plainNumberText (networkDoc [0xDC00]) := by
    rw [docPreimage_plain plainNumberText_writesIntegers (plain _),
      docPreimage_plain plainNumberText_writesIntegers (plain _)]
    rfl
  have equal := injective _ _ (networkDoc_accepted [0xD800]) (networkDoc_accepted [0xDC00]) same
  have networks : (normal (networkDoc [0xD800])).get "network" =
      (normal (networkDoc [0xDC00])).get "network" := congrArg (·.get "network") equal
  have held (network : Text) : (normal (networkDoc network)).get "network" = .string network := rfl
  rw [held, held] at networks
  injection networks with units
  exact absurd units (by decide)

end Hashes

end Perch.PerchJs
