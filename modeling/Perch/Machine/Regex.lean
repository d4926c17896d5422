/-
Regular expressions as patterns write them.

A pattern is read into its anchors, classes, groups and counted repetitions,
and means which stretches of a text it spans.  Spanning looks at what stands
before and after the stretch, so that anchors are expressions like any other,
and a text matches when some stretch of it is spanned.
-/

import Perch.Machine.Json

namespace Perch.Machine

inductive Regex
  | empty
  /-- `^` -/
  | start
  /-- `$` -/
  | finish
  /-- A character in one of the ranges. -/
  | chars (ranges : List (Char × Char))
  | seq (first second : Regex)
  /-- At least `least` times, and at most `most` times where there is a bound. -/
  | times (body : Regex) (least : Nat) (most : Option Nat)
deriving DecidableEq

namespace Regex

/-! ### Reading patterns -/

/-- The characters a pattern gives a meaning of its own, unless escaped. -/
def syntaxChars : List Char := "^$\\.*+?()[]\x7b\x7d|".toList

def readChar : List Char → Option (Char × List Char)
  | '\\' :: 'x' :: high :: low :: rest => do
      let high ← Json.hexValue high
      let low ← Json.hexValue low
      some (Char.ofNat (high * 16 + low), rest)
  | '\\' :: c :: rest => if c ∈ syntaxChars then some (c, rest) else none
  | c :: rest => some (c, rest)
  | [] => none

def readRanges : Nat → List Char → Option (List (Char × Char) × List Char)
  | 0, _ => none
  | _ + 1, ']' :: rest => some ([], rest)
  | fuel + 1, text => do
      let (first, rest) ← readChar text
      match rest with
      | '-' :: rest => do
          let (last, rest) ← readChar rest
          let (more, rest) ← readRanges fuel rest
          some ((first, last) :: more, rest)
      | rest => do
          let (more, rest) ← readRanges fuel rest
          some ((first, first) :: more, rest)

def readCount (text : List Char) : Option (Nat × List Char) :=
  match text.takeWhile Char.isDigit with
  | [] => none
  | digits => some (Nat.ofDigitChars 10 digits 0, text.dropWhile Char.isDigit)

/-- The bounds of a repetition, after its opening brace. -/
def readBounds (text : List Char) : Option (Nat × Option Nat × List Char) := do
  let (least, rest) ← readCount text
  match rest with
  | '\x7d' :: rest => some (least, some least, rest)
  | ',' :: '\x7d' :: rest => some (least, none, rest)
  | ',' :: rest => do
      let (most, rest) ← readCount rest
      match rest with
      | '\x7d' :: rest => some (least, some most, rest)
      | _ => none
  | _ => none

/-- An expression with the repetition that follows it, if one does. -/
def readTimes (body : Regex) : List Char → Option (Regex × List Char)
  | '?' :: rest => some (.times body 0 (some 1), rest)
  | '*' :: rest => some (.times body 0 none, rest)
  | '+' :: rest => some (.times body 1 none, rest)
  | '\x7b' :: rest => do
      let (least, most, rest) ← readBounds rest
      some (.times body least most, rest)
  | rest => some (body, rest)

/-- A sequence, up to the end or the bracket that closes it. -/
def readSequence : Nat → List Char → Option (Regex × List Char)
  | 0, _ => none
  | _ + 1, [] => some (.empty, [])
  | _ + 1, ')' :: rest => some (.empty, ')' :: rest)
  | fuel + 1, c :: rest => do
      let (body, rest) ← match c with
        | '^' => some (.start, rest)
        | '$' => some (.finish, rest)
        | '[' => (readRanges (fuel + 1) rest).map fun (ranges, rest) => (.chars ranges, rest)
        | '(' =>
            match readSequence fuel rest with
            | some (body, ')' :: rest) => some (body, rest)
            | _ => none
        | _ =>
            if c ≠ '\\' ∧ c ∈ syntaxChars then none
            else (readChar (c :: rest)).map fun (c, rest) => (.chars [(c, c)], rest)
      let (first, rest) ← readTimes body rest
      let (second, rest) ← readSequence fuel rest
      some (.seq first second, rest)

/-- The expression a pattern writes, if it is one of these. -/
def ofPattern (pattern : String) : Option Regex :=
  match readSequence (pattern.length + 1) pattern.toList with
  | some (regex, []) => some regex
  | _ => none

/-! ### Meaning -/

def inRanges (ranges : List (Char × Char)) (c : Char) : Bool :=
  ranges.any fun range => range.1.toNat ≤ c.toNat && c.toNat ≤ range.2.toNat

/-- A stretch of a text, with what stands before and after it. -/
abbrev Span := List Char → List Char → List Char → Prop

def Span.Then (first second : Span) : Span := fun before text after =>
  ∃ left right, text = left ++ right ∧ first before left (right ++ after) ∧
    second (before ++ left) right after

def Span.Times (body : Span) : Nat → Span
  | 0 => fun _ text _ => text = []
  | count + 1 => Span.Then body (Span.Times body count)

def Spans : Regex → Span
  | .empty => fun _ text _ => text = []
  | .start => fun before text _ => before = [] ∧ text = []
  | .finish => fun _ text after => text = [] ∧ after = []
  | .chars ranges => fun _ text _ => ∃ c, text = [c] ∧ inRanges ranges c = true
  | .seq first second => Span.Then first.Spans second.Spans
  | .times body least most => fun before text after =>
      ∃ count, least ≤ count ∧ (∀ bound ∈ most, count ≤ bound) ∧
        Span.Times body.Spans count before text after

/-- A pattern matches a text when it spans some stretch of it. -/
def Matches (pattern text : String) : Prop :=
  ∃ regex, ofPattern pattern = some regex ∧ ∃ before stretch after,
    text.toList = before ++ stretch ++ after ∧ regex.Spans before stretch after

/-! ### Rules -/

variable {ranges : List (Char × Char)} {text : List Char}

/-- An expression covers a text when it spans it wherever it stands. -/
def Covers (regex : Regex) (text : List Char) : Prop :=
  ∀ before after, regex.Spans before text after

theorem inRanges_single {low high c : Char} :
    inRanges [(low, high)] c = true ↔ low.toNat ≤ c.toNat ∧ c.toNat ≤ high.toNat := by
  simp [inRanges]

theorem covers_char {c : Char} (inside : inRanges ranges c = true) :
    (Regex.chars ranges).Covers [c] :=
  fun _ _ => ⟨c, rfl, inside⟩

/-- Repeating what covers stretches of one width covers every text that is cut
into such stretches. -/
theorem covers_times {body : Regex} {width least count : Nat} {most : Option Nat}
    {good : Char → Prop}
    (covers : ∀ piece, piece.length = width → (∀ c ∈ piece, good c) → body.Covers piece)
    (size : text.length = width * count) (each : ∀ c ∈ text, good c) (enough : least ≤ count)
    (few : ∀ bound ∈ most, count ≤ bound) : (Regex.times body least most).Covers text := by
  intro before after
  refine ⟨count, enough, few, ?_⟩
  clear enough few
  induction count generalizing before text with
  | zero => exact List.length_eq_zero_iff.mp size
  | succ count ih =>
      rw [Nat.mul_succ] at size
      refine ⟨text.take width, text.drop width, (List.take_append_drop width text).symm, ?_, ?_⟩
      · apply covers
        · rw [List.length_take]
          omega
        · exact fun c member => each c (List.mem_of_mem_take member)
      · apply ih
        · rw [List.length_drop]
          omega
        · exact fun c member => each c (List.mem_of_mem_drop member)

theorem covers_chars {least : Nat} {most : Option Nat}
    (each : ∀ c ∈ text, inRanges ranges c = true) (enough : least ≤ text.length)
    (few : ∀ bound ∈ most, text.length ≤ bound) :
    (Regex.times (.chars ranges) least most).Covers text := by
  refine covers_times ?_ (Nat.one_mul _).symm each enough few
  intro piece single good
  obtain ⟨c, rfl⟩ := List.length_eq_one_iff.mp single
  exact covers_char (good c List.mem_cons_self)

theorem covers_groups {width least count : Nat} {most : Option Nat}
    (each : ∀ c ∈ text, inRanges ranges c = true) (size : text.length = width * count)
    (enough : least ≤ count) (few : ∀ bound ∈ most, count ≤ bound) :
    (Regex.times (.seq (.times (.chars ranges) width (some width)) .empty) least most).Covers
      text := by
  refine covers_times ?_ size each enough few
  intro piece long good before after
  refine ⟨piece, [], (List.append_nil piece).symm, ?_, rfl⟩
  apply covers_chars good
  · omega
  · intro bound same
    obtain rfl := Option.some.inj same
    omega

def anchored (body : List Regex) : Regex :=
  .seq .start (body.foldr .seq (.seq .finish .empty))

theorem spans_pieces {body : List Regex} {pieces : List (List Char)} {before : List Char}
    (each : List.Forall₂ Covers body pieces) :
    (body.foldr Regex.seq (.seq .finish .empty)).Spans before pieces.flatten [] := by
  induction each generalizing before with
  | nil => exact ⟨[], [], rfl, ⟨rfl, rfl⟩, rfl⟩
  | @cons first piece body pieces covers _ ih =>
      exact ⟨piece, pieces.flatten, rfl, covers _ _, ih⟩

/-- A text cut into pieces that the parts of an anchored pattern cover
matches it. -/
theorem matches_anchored {pattern value : String} {body : List Regex}
    {pieces : List (List Char)} (read : ofPattern pattern = some (anchored body))
    (cut : value.toList = pieces.flatten) (each : List.Forall₂ Covers body pieces) :
    Matches pattern value := by
  refine ⟨_, read, [], value.toList, [], (List.append_nil _).symm, ?_⟩
  rw [cut]
  exact ⟨[], pieces.flatten, rfl, ⟨rfl, rfl⟩, spans_pieces each⟩

end Regex

end Perch.Machine
