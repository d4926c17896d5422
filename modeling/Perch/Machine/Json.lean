/-
JSON trees, and the reading of compact JSON texts.

The reader covers the texts a canonical writer can produce: no insignificant
whitespace, and numbers that are plain integers.  Nesting is bounded, and a
value is read with whatever delimiter follows it left in place, so that what a
text means can be put together from what its parts mean.
-/

import Perch.Machine.Lists

namespace Perch.Machine

/-- A JSON tree.  Numbers keep their digits, and objects keep every member in
the order written, duplicates included. -/
inductive Json
  | null
  | bool (value : Bool)
  | number (digits : String) (isInt : Bool)
  | string (value : String)
  | array (items : List Json)
  | object (members : List (String × Json))

namespace Json

/-! ### Reading -/

def hexValue (c : Char) : Option Nat :=
  if '0' ≤ c ∧ c ≤ '9' then some (c.toNat - '0'.toNat)
  else if 'a' ≤ c ∧ c ≤ 'f' then some (c.toNat - 'a'.toNat + 10)
  else if 'A' ≤ c ∧ c ≤ 'F' then some (c.toNat - 'A'.toNat + 10)
  else none

/-- The character a four-digit escape stands for, outside the surrogates. -/
def readCode (a b c d : Char) : Option Char := do
  let code := ((← hexValue a) * 16 + (← hexValue b)) * 256 + (← hexValue c) * 16 + (← hexValue d)
  if code.isValidChar then some (Char.ofNat code) else none

def readEscape : Char → Option Char
  | '"' => some '"'
  | '\\' => some '\\'
  | '/' => some '/'
  | 'b' => some '\x08'
  | 'f' => some '\x0c'
  | 'n' => some '\n'
  | 'r' => some '\r'
  | 't' => some '\t'
  | _ => none

/-- The rest of a string literal, after its opening quote. -/
def readString : List Char → Option (List Char × List Char)
  | [] => none
  | '"' :: rest => some ([], rest)
  | '\\' :: 'u' :: a :: b :: c :: d :: rest => do
      let char ← readCode a b c d
      let (tail, rest) ← readString rest
      some (char :: tail, rest)
  | '\\' :: c :: rest => do
      let char ← readEscape c
      let (tail, rest) ← readString rest
      some (char :: tail, rest)
  | c :: rest => do
      guard (0x20 ≤ c.toNat)
      let (tail, rest) ← readString rest
      some (c :: tail, rest)

def consRead (char : Char) : Option (List Char × List Char) → Option (List Char × List Char) :=
  Option.map fun (tail, rest) => (char :: tail, rest)

theorem readString_plain {c : Char} (rest : List Char) (notQuote : c ≠ '"') (notSlash : c ≠ '\\')
    (plain : 0x20 ≤ c.toNat) : readString (c :: rest) = consRead c (readString rest) := by
  rw [readString]
  · simp only [plain, guard_true]
    cases readString rest <;> rfl
  · exact notQuote
  · intro _ _ _ _ _ same
    exact absurd same notSlash
  · intro _ _ same
    exact absurd same notSlash

theorem readString_escape {c char : Char} (rest : List Char) (short : c ≠ 'u')
    (escaped : readEscape c = some char) :
    readString ('\\' :: c :: rest) = consRead char (readString rest) := by
  rw [readString]
  · rw [escaped]
    cases readString rest <;> rfl
  · intro _ _ _ _ _ same
    exact absurd same short

theorem readString_code {a b c d char : Char} (rest : List Char)
    (code : readCode a b c d = some char) :
    readString ('\\' :: 'u' :: a :: b :: c :: d :: rest) = consRead char (readString rest) := by
  rw [readString, code]
  cases readString rest <;> rfl

def readNumber (chars : List Char) : Option (Json × List Char) :=
  let digits := chars.takeWhile Char.isDigit
  let rest := chars.dropWhile Char.isDigit
  if digits = [] ∨ (digits.head? = some '0' ∧ 1 < digits.length) ∨
      rest.head?.any (fun c => c = '.' || c = 'e' || c = 'E') = true then none
  else some (.number (String.ofList digits) true, rest)

/-- One or more items, separated by commas, up to a closing bracket. -/
def readSeq {α : Type} (item : List Char → Option (α × List Char)) (close : Char) :
    Nat → List Char → Option (List α × List Char)
  | 0, _ => none
  | fuel + 1, chars => do
      let (first, rest) ← item chars
      match rest with
      | [] => none
      | c :: rest =>
          if c = ',' then do
            let (more, rest) ← readSeq item close fuel rest
            some (first :: more, rest)
          else if c = close then some ([first], rest)
          else none

def readMember (value : List Char → Option (Json × List Char)) (chars : List Char) :
    Option ((String × Json) × List Char) := do
  let '"' :: rest := chars | none
  let (key, rest) ← readString rest
  let ':' :: rest := rest | none
  let (member, rest) ← value rest
  some ((String.ofList key, member), rest)

def readValue : Nat → List Char → Option (Json × List Char)
  | 0, _ => none
  | depth + 1, chars =>
      match chars with
      | [] => none
      | '"' :: rest => (readString rest).map fun (value, rest) =>
          (.string (String.ofList value), rest)
      | '[' :: ']' :: rest => some (.array [], rest)
      | '[' :: rest =>
          (readSeq (readValue depth) ']' rest.length rest).map fun (items, rest) =>
            (.array items, rest)
      | '{' :: '}' :: rest => some (.object [], rest)
      | '{' :: rest =>
          (readSeq (readMember (readValue depth)) '}' rest.length rest).map fun (members, rest) =>
            (.object members, rest)
      | chars => readNumber chars

theorem readValue_digit {c : Char} (digit : c.isDigit = true) (depth : Nat) (rest : List Char) :
    readValue (depth + 1) (c :: rest) = readNumber (c :: rest) := by
  have other : ∀ d : Char, d.isDigit = false → c ≠ d := by
    rintro d notDigit rfl
    exact absurd digit (by simp [notDigit])
  rw [readValue]
  · simp
  · intro _ same
    exact other '"' (by decide) (List.cons.inj same).1
  · intro _ same
    exact other '[' (by decide) (List.cons.inj same).1
  · intro _ same
    exact other '[' (by decide) (List.cons.inj same).1
  · intro _ same
    exact other '\x7b' (by decide) (List.cons.inj same).1
  · intro _ same
    exact other '\x7b' (by decide) (List.cons.inj same).1

def read (depth : Nat) (text : List Char) : Option Json :=
  match readValue depth text with
  | some (tree, []) => some tree
  | _ => none

/-! ### What a text means -/

/-- What may follow a value: a delimiter, or nothing. -/
def Delimited (rest : List Char) : Prop :=
  ∀ c ∈ rest.head?, c = ',' ∨ c = ']' ∨ c = '}'

/-- An item reader reads a text as a value, whatever delimiter follows. -/
def ReadsAs {α : Type} (item : List Char → Option (α × List Char)) (text : List Char) (value : α) :
    Prop :=
  ∀ rest, Delimited rest → item (text ++ rest) = some (value, rest)

structure Means (depth : Nat) (text : List Char) (tree : Json) : Prop where
  starts : ∃ first rest, text = first :: rest ∧ first ≠ ']'
  reads : ReadsAs (readValue depth) text tree

def joined : List (List Char) → List Char
  | [] => []
  | [text] => text
  | text :: rest => text ++ ',' :: joined rest

theorem joined_cons {text : List Char} {rest : List (List Char)} (more : rest ≠ []) :
    joined (text :: rest) = text ++ ',' :: joined rest := by
  cases rest with
  | nil => exact absurd rfl more
  | cons next rest => rfl

theorem length_le_joined {texts : List (List Char)} (nonempty : ∀ text ∈ texts, text ≠ []) :
    texts.length ≤ (joined texts).length := by
  induction texts with
  | nil => exact Nat.zero_le _
  | cons text rest ih =>
      have here : 0 < text.length :=
        List.length_pos_iff.mpr (nonempty text List.mem_cons_self)
      have there := ih fun other member => nonempty other (List.mem_cons_of_mem _ member)
      by_cases more : rest = []
      · subst more
        exact here
      · rw [joined_cons more]
        simp only [List.length_append, List.length_cons]
        omega

theorem readSeq_joined {α : Type} {item : List Char → Option (α × List Char)} {close : Char}
    (closes : close = ']' ∨ close = '}') {texts : List (List Char)} {values : List α}
    (aligned : List.Forall₂ (ReadsAs item) texts values) (more : texts ≠ []) {fuel : Nat}
    (enough : texts.length ≤ fuel) (rest : List Char) :
    readSeq item close fuel (joined texts ++ close :: rest) = some (values, rest) := by
  have notComma : close ≠ ',' := by
    rcases closes with rfl | rfl <;> decide
  induction aligned generalizing fuel with
  | nil => exact absurd rfl more
  | @cons text value texts values reads aligned ih =>
      obtain ⟨fuel, rfl⟩ : ∃ n, fuel = n + 1 := by
        cases fuel with
        | zero => simp at enough
        | succ n => exact ⟨n, rfl⟩
      by_cases last : texts = []
      · subst last
        cases aligned
        have delimited : Delimited (close :: rest) := by
          intro c found
          rw [List.head?_cons, Option.mem_some_iff] at found
          exact .inr (found ▸ closes)
        simp [readSeq, joined, reads _ delimited, notComma]
      · rw [joined_cons last, List.append_assoc, List.cons_append]
        have delimited : Delimited (',' :: (joined texts ++ close :: rest)) := by
          intro c found
          rw [List.head?_cons, Option.mem_some_iff] at found
          exact .inl found.symm
        have tail := ih last (Nat.le_of_succ_le_succ enough)
        simp [readSeq, reads _ delimited, tail]

/-- A whole bracketed sequence, up to what follows it. -/
theorem readSeq_whole {α : Type} {item : List Char → Option (α × List Char)} {close : Char}
    (closes : close = ']' ∨ close = '}') {texts : List (List Char)} {values : List α}
    (aligned : List.Forall₂ (ReadsAs item) texts values) (more : texts ≠ [])
    (nonempty : ∀ text ∈ texts, text ≠ []) (rest : List Char) :
    readSeq item close (joined texts ++ close :: rest).length (joined texts ++ close :: rest) =
      some (values, rest) := by
  apply readSeq_joined closes aligned more
  have bound := length_le_joined nonempty
  rw [List.length_append]
  omega

theorem joined_starts (texts : List (List Char)) (first : Char) (tail : List Char) :
    ∃ after, joined ((first :: tail) :: texts) = first :: after := by
  by_cases last : texts = []
  · subst last
    exact ⟨tail, rfl⟩
  · exact ⟨tail ++ ',' :: joined texts, joined_cons last⟩

theorem Means.array {depth : Nat} {texts : List (List Char)} {trees : List Json}
    (aligned : List.Forall₂ (Means depth) texts trees) :
    Means (depth + 1) ('[' :: (joined texts ++ [']'])) (.array trees) := by
  refine { starts := ⟨'[', _, rfl, by decide⟩, reads := ?_ }
  intro rest _
  have items : List.Forall₂ (ReadsAs (readValue depth)) texts trees :=
    List.Forall₂.imp (fun _ _ means => means.reads) aligned
  have nonempty : ∀ text ∈ texts, text ≠ [] := by
    intro text member
    obtain ⟨_, _, means⟩ := exists_of_mem_left aligned member
    obtain ⟨c, tail, same, _⟩ := means.starts
    exact same ▸ List.cons_ne_nil _ _
  cases aligned with
  | nil => rfl
  | @cons text tree texts trees first aligned =>
      obtain ⟨c, tail, rfl, notClose⟩ := first.starts
      have read := readSeq_whole (.inl rfl) items (List.cons_ne_nil _ _) nonempty rest
      obtain ⟨after, opening⟩ := joined_starts texts c tail
      rw [opening] at read
      rw [opening]
      simp only [List.cons_append, List.append_assoc, List.nil_append] at read ⊢
      rw [readValue, read]
      · rfl
      · simpa using notClose

def member (key value : List Char) : List Char := '"' :: (key ++ '"' :: ':' :: value)

theorem Means.object {depth : Nat} {members : List (List Char × List Char)}
    {trees : List (String × Json)}
    (aligned : List.Forall₂ (fun text tree => Means depth text.2 tree.2 ∧
      ∀ rest, readString (text.1 ++ '"' :: rest) = some (tree.1.toList, rest)) members trees) :
    Means (depth + 1) ('{' :: (joined (members.map fun text => member text.1 text.2) ++ ['}']))
      (.object trees) := by
  refine { starts := ⟨'{', _, rfl, by decide⟩, reads := ?_ }
  intro rest _
  have items : List.Forall₂ (ReadsAs (readMember (readValue depth)))
      (members.map fun text => member text.1 text.2) trees := by
    rw [List.forall₂_map_left_iff]
    refine List.Forall₂.imp ?_ aligned
    intro text tree means following delimited
    have value := means.1.reads following delimited
    simp only [member, List.cons_append, List.append_assoc, readMember]
    simp [means.2, value]
  have nonempty : ∀ text ∈ members.map (fun text => member text.1 text.2), text ≠ [] := by
    intro text listed
    obtain ⟨_, _, rfl⟩ := List.mem_map.mp listed
    exact List.cons_ne_nil _ _
  cases aligned with
  | nil => rfl
  | @cons text tree members trees first aligned =>
      have read := readSeq_whole (.inr rfl) items (List.cons_ne_nil _ _) nonempty rest
      obtain ⟨after, opening⟩ := joined_starts (members.map fun text => member text.1 text.2) '"'
        (text.1 ++ '"' :: ':' :: text.2)
      rw [List.map_cons, member, opening] at read
      rw [List.map_cons, member, opening]
      simp only [List.cons_append, List.append_assoc, List.nil_append] at read ⊢
      rw [readValue, read]
      · rfl
      · intro _ same
        cases same

end Json

end Perch.Machine
