/-
Schemas that check a JavaScript value and return what they accept.

A strict object refuses members it does not name.  A member its schema reads
as `undefined` is carried over only when it was there.  A discriminated union
picks the one option whose literal the discriminator holds.
-/

import Perch.Machine.Js

namespace Perch.Machine.Zod

open Js

abbrev Schema := Value → Option Value

abbrev Shape := List (String × Schema)

def string : Schema
  | .string text => some (.string text)
  | _ => none

def int (low high : Int) : Schema
  | .number n => if n.isInteger && n.within low high then some (.number n) else none
  | _ => none

def literal (text : String) : Schema := fun v => if v.isText text then some v else none

def literalNumber (expected : Number) : Schema
  | .number n => if n = expected then some (.number n) else none
  | _ => none

def oneOf (texts : List String) : Schema := fun v =>
  if texts.any v.isText then some v else none

def array (item : Schema) : Schema
  | .array items => (items.mapM item).map .array
  | _ => none

def optional (inner : Schema) : Schema
  | .undefined => some .undefined
  | v => inner v

/-- `z.union`: the first option that accepts. -/
def union (options : List Schema) : Schema := fun v => options.findSome? fun option => option v

def fields (members : List (Text × Value)) : Shape → Option (List (Text × Value))
  | [] => some []
  | (key, schema) :: rest => do
      let held ← schema (lookup members (utf16 key))
      let more ← fields members rest
      match held with
      | .undefined =>
          if utf16 key ∈ members.map Prod.fst then some ((utf16 key, .undefined) :: more)
          else some more
      | held => some ((utf16 key, held) :: more)

def object (shape : Shape) : Schema
  | .object members =>
      if members.all fun entry => entry.1 ∈ shape.map fun field => utf16 field.1 then
        (fields members shape).map .object
      else none
  | _ => none

/-- A strict object with a literal discriminator, and the literal. -/
def variant (key tag : String) (shape : Shape) : String × Schema :=
  (tag, object ((key, literal tag) :: shape))

def discriminatedUnion (key : String) (variants : List (String × Schema)) : Schema
  | .object members =>
      match variants.find? fun variant => (lookup members (utf16 key)).isText variant.1 with
      | some variant => variant.2 (.object members)
      | none => none
  | _ => none

/-! ### Reading objects -/

variable {members : List (Text × Value)}

/-- What each field of a shape reads, the absent ones left out. -/
inductive Fields (members : List (Text × Value)) : Shape → List (Text × Value) → Prop
  | nil : Fields members [] []
  | present {key : String} {schema : Schema} {held : Value} {shape : Shape}
      {more : List (Text × Value)} (reads : schema (lookup members (utf16 key)) = some held)
      (defined : held ≠ .undefined) (rest : Fields members shape more) :
      Fields members ((key, schema) :: shape) ((utf16 key, held) :: more)
  | absent {key : String} {schema : Schema} {shape : Shape} {more : List (Text × Value)}
      (reads : schema (lookup members (utf16 key)) = some .undefined)
      (missing : utf16 key ∉ members.map Prod.fst) (rest : Fields members shape more) :
      Fields members ((key, schema) :: shape) more

theorem Fields.eq {shape : Shape} {read : List (Text × Value)}
    (each : Fields members shape read) : fields members shape = some read := by
  induction each with
  | nil => rfl
  | present reads defined _ ih =>
      simp only [fields, reads, ih, Option.bind_eq_bind, Option.bind_some]
  | absent reads missing _ ih =>
      simp only [fields, reads, ih, Option.bind_eq_bind, Option.bind_some, missing, if_false]

theorem object_eq {shape : Shape} {read : List (Text × Value)}
    (known : ∀ entry ∈ members, entry.1 ∈ shape.map fun field => utf16 field.1)
    (each : Fields members shape read) :
    object shape (.object members) = some (.object read) := by
  have strict : (members.all fun entry =>
      entry.1 ∈ shape.map fun field => utf16 field.1) = true := by
    simpa only [List.all_eq_true, decide_eq_true_eq] using known
  rw [object, strict, each.eq]
  rfl

theorem object_unknown {shape : Shape} {entry : Text × Value} (present : entry ∈ members)
    (unknown : entry.1 ∉ shape.map fun field => utf16 field.1) :
    object shape (.object members) = none := by
  apply if_neg
  intro strict
  exact unknown (of_decide_eq_true (List.all_eq_true.mp strict entry present))

theorem discriminatedUnion_eq {key tag : String} {variants : List (String × Schema)}
    {schema : Schema}
    (found : (variants.find? fun variant => tag == variant.1) = some (tag, schema))
    (tagged : lookup members (utf16 key) = .string (utf16 tag)) :
    discriminatedUnion key variants (.object members) = schema (.object members) := by
  simp only [discriminatedUnion, tagged, isText_utf16, found]

theorem array_eq {item : Schema} {items read : List Value}
    (each : List.Forall₂ (fun v r => item v = some r) items read) :
    array item (.array items) = some (.array read) := by
  have mapped : items.mapM item = some read := by
    induction each with
    | nil => rfl
    | cons head _ ih => simp [head, ih]
  rw [array, mapped]
  rfl

theorem literal_utf16 (text : String) :
    literal text (.string (utf16 text)) = some (.string (utf16 text)) := by
  rw [literal, isText_utf16, beq_self_eq_true]
  rfl

end Perch.Machine.Zod
