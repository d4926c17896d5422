/-
Quantifier-free SMT-LIB formulas over booleans, integers and strings.

The fragment is what a front end needs that asks a solver about one record of
symbolic fields: comparisons of integers, equality and prefixes of strings,
string lengths, and the connectives.  String literals are kept as they stand
in the script, because what a literal denotes is the standard's to say: a
doubled quote is one quote, and a `\u` escape is one character.
-/

namespace Perch.Machine.Smt

/-- A string of the theory, by its characters' code points. -/
abbrev Str := List Nat

/-! ### Literals -/

def hexDigit (c : Char) : Option Nat :=
  if '0' ≤ c ∧ c ≤ '9' then some (c.toNat - 48)
  else if 'a' ≤ c ∧ c ≤ 'f' then some (c.toNat - 87)
  else if 'A' ≤ c ∧ c ≤ 'F' then some (c.toNat - 55)
  else none

/-- Hex digits up to a closing brace, most significant first. -/
def bracedDigits (value count : Nat) : List Char → Option (Nat × Nat × List Char)
  | [] => none
  | c :: rest =>
      if c = '}' then some (value, count, rest)
      else match hexDigit c with
        | some digit => bracedDigits (16 * value + digit) (count + 1) rest
        | none => none

def maxCharacter : Nat := 0x2FFFF

/-- What follows `\u`: four hex digits, or one to five in braces. -/
def escape : List Char → Option (Nat × List Char)
  | '{' :: rest =>
      match bracedDigits 0 0 rest with
      | some (value, count, rest) =>
          if 1 ≤ count ∧ count ≤ 5 ∧ value ≤ maxCharacter then some (value, rest) else none
      | none => none
  | a :: b :: c :: d :: rest => do
      let a ← hexDigit a
      let b ← hexDigit b
      let c ← hexDigit c
      let d ← hexDigit d
      some (((a * 16 + b) * 16 + c) * 16 + d, rest)
  | _ => none

def escapeAfter : List Char → Option (Nat × List Char)
  | 'u' :: rest => escape rest
  | _ => none

/-- The characters a literal's text denotes, in at most `fuel` steps. -/
def unescape : Nat → List Char → Str
  | 0, _ => []
  | _ + 1, [] => []
  | fuel + 1, c :: rest =>
      match if c = '\\' then escapeAfter rest else none with
      | some (code, rest) => code :: unescape fuel rest
      | none => c.toNat :: unescape fuel rest

def undouble : List Char → List Char
  | '"' :: '"' :: rest => '"' :: undouble rest
  | c :: rest => c :: undouble rest
  | [] => []

/-- The string a literal denotes; its text includes the quotes around it. -/
def literal (text : String) : Str :=
  let inner := undouble (text.toList.drop 1).dropLast
  unescape inner.length inner

/-- The literal front ends write: the text in quotes, its quotes doubled. -/
def quoted (s : String) : String :=
  String.ofList ('"' :: s.toList.flatMap (fun c => if c = '"' then ['"', '"'] else [c]) ++ ['"'])

theorem undouble_double (chars : List Char) :
    undouble (chars.flatMap fun c => if c = '"' then ['"', '"'] else [c]) = chars := by
  induction chars with
  | nil => rfl
  | cons c rest ih =>
      by_cases quote : c = '"'
      · subst quote
        rw [List.flatMap_cons, if_pos rfl, List.cons_append, List.cons_append, List.nil_append,
          undouble, ih]
      · rw [List.flatMap_cons, if_neg quote, List.singleton_append]
        rw [undouble.eq_def]
        split
        · rename_i same
          exact absurd (List.cons.inj same).1 quote
        · rename_i same
          obtain ⟨rfl, rfl⟩ := List.cons.inj same
          rw [ih]
        · rename_i same
          cases same

/-- What a quoted text denotes: its characters, once its escapes are read. -/
theorem literal_quoted (s : String) : literal (quoted s) = unescape s.toList.length s.toList := by
  have inner : ((quoted s).toList.drop 1).dropLast =
      s.toList.flatMap fun c => if c = '"' then ['"', '"'] else [c] := by
    rw [quoted, String.toList_ofList, List.cons_append, List.drop_one, List.tail_cons,
      List.dropLast_concat]
  rw [literal, inner, undouble_double]

theorem unescape_plain {fuel : Nat} {chars : List Char} (room : chars.length ≤ fuel)
    (plain : '\\' ∉ chars) : unescape fuel chars = chars.map Char.toNat := by
  induction fuel generalizing chars with
  | zero =>
      rw [List.length_eq_zero_iff.mp (Nat.le_zero.mp room)]
      rfl
  | succ fuel ih =>
      cases chars with
      | nil => rfl
      | cons c rest =>
          rw [List.mem_cons, not_or] at plain
          rw [List.length_cons] at room
          have next := ih (Nat.le_of_succ_le_succ room) plain.2
          rw [unescape, if_neg (Ne.symm plain.1), next, List.map_cons]

theorem bracedDigits_length {value count : Nat} {chars : List Char} {result : Nat × Nat × List Char}
    (read : bracedDigits value count chars = some result) : result.2.2.length < chars.length := by
  induction chars generalizing value count with
  | nil => cases read
  | cons c rest ih =>
      rw [bracedDigits] at read
      split at read
      · cases read
        simp
      · split at read
        · have shorter := ih read
          rw [List.length_cons]
          omega
        · cases read

theorem escape_length {chars : List Char} {result : Nat × List Char}
    (read : escape chars = some result) : result.2.length < chars.length := by
  unfold escape at read
  split at read
  · split at read
    next value count rest digits =>
      have shorter := bracedDigits_length digits
      split at read
      · cases read
        rw [List.length_cons]
        exact Nat.lt_succ_of_lt shorter
      · cases read
    · cases read
  · simp only [Option.bind_eq_bind, Option.bind_eq_some_iff, Option.some.injEq] at read
    obtain ⟨_, _, _, _, _, _, _, _, rfl⟩ := read
    simp only [List.length_cons]
    omega
  · cases read

theorem escapeAfter_length {chars : List Char} {result : Nat × List Char}
    (read : escapeAfter chars = some result) : result.2.length < chars.length := by
  unfold escapeAfter at read
  split at read
  · have shorter := escape_length read
    rw [List.length_cons]
    omega
  · cases read

theorem unescape_length (fuel : Nat) (chars : List Char) :
    (unescape fuel chars).length ≤ chars.length := by
  induction fuel generalizing chars with
  | zero => exact Nat.zero_le _
  | succ fuel ih =>
      cases chars with
      | nil => exact Nat.zero_le _
      | cons c rest =>
          rw [unescape]
          split
          next code after read =>
            split at read
            · have shorter : after.length < rest.length := escapeAfter_length read
              have bound := ih after
              rw [List.length_cons, List.length_cons]
              omega
            · cases read
          · rw [List.length_cons, List.length_cons]
            exact Nat.succ_le_succ (ih rest)

def Escapes (chars : List Char) : Prop :=
  ∃ before after, chars = before ++ '\\' :: after ∧ escapeAfter after ≠ none

theorem escapes_cons {c : Char} {rest : List Char} :
    Escapes (c :: rest) ↔ (c = '\\' ∧ escapeAfter rest ≠ none) ∨ Escapes rest := by
  constructor
  · rintro ⟨before, after, split, readable⟩
    cases before with
    | nil =>
        obtain ⟨rfl, rfl⟩ := List.cons.inj split
        exact Or.inl ⟨rfl, readable⟩
    | cons first before =>
        obtain ⟨rfl, rfl⟩ := List.cons.inj split
        exact Or.inr ⟨before, after, rfl, readable⟩
  · rintro (⟨rfl, readable⟩ | ⟨before, after, rfl, readable⟩)
    · exact ⟨[], rest, rfl, readable⟩
    · exact ⟨c :: before, after, rfl, readable⟩

/-- A text denotes itself exactly when no escape can be read in it. -/
theorem unescape_eq_iff {fuel : Nat} {chars : List Char} (room : chars.length ≤ fuel) :
    unescape fuel chars = chars.map Char.toNat ↔ ¬Escapes chars := by
  induction fuel generalizing chars with
  | zero =>
      rw [List.length_eq_zero_iff.mp (Nat.le_zero.mp room)]
      simp [unescape, Escapes]
  | succ fuel ih =>
      cases chars with
      | nil => simp [unescape, Escapes]
      | cons c rest =>
          rw [List.length_cons] at room
          have next := ih (Nat.le_of_succ_le_succ room)
          rw [escapes_cons, not_or, unescape, List.map_cons]
          cases readable : (if c = '\\' then escapeAfter rest else none) with
          | none =>
              have plain : ¬(c = '\\' ∧ escapeAfter rest ≠ none) := by
                rintro ⟨backslash, some⟩
                rw [if_pos backslash] at readable
                exact some readable
              simp only [List.cons.injEq, true_and, next, plain, not_false_eq_true]
          | some result =>
              obtain ⟨code, after⟩ := result
              by_cases backslash : c = '\\'
              · rw [if_pos backslash] at readable
                have shorter : after.length < rest.length := escapeAfter_length readable
                have bound := unescape_length fuel after
                constructor
                · intro same
                  have length := congrArg List.length same
                  simp only [List.length_cons, List.length_map] at length
                  omega
                · intro plain
                  exact absurd ⟨backslash, by simp [readable]⟩ plain.1
              · rw [if_neg backslash] at readable
                cases readable

/-- Printable and white space characters, as far as the theory has them. -/
def isLiteralChar (c : Char) : Bool :=
  c = '\t' || c = '\n' || c = '\r' ||
    (32 ≤ c.toNat && c.toNat ≠ 127 && c.toNat ≤ maxCharacter)

def isInner : List Char → Bool
  | '"' :: '"' :: rest => isInner rest
  | '"' :: _ => false
  | c :: rest => isLiteralChar c && isInner rest
  | [] => true

def isLiteral (text : String) : Bool :=
  text.toList.head? = some '"' && (text.toList.drop 1).getLast? = some '"' &&
    isInner (text.toList.drop 1).dropLast

theorem isInner_cons {c : Char} {rest : List Char} (unquoted : c ≠ '"') :
    isInner (c :: rest) = (isLiteralChar c && isInner rest) := by
  rw [isInner.eq_def]
  split
  · rename_i same
    exact absurd (List.cons.inj same).1 unquoted
  · rename_i same
    exact absurd (List.cons.inj same).1 unquoted
  · rename_i same
    obtain ⟨rfl, rfl⟩ := List.cons.inj same
    rfl
  · rename_i same
    cases same

/-- A quoted text is a literal exactly when its characters may stand in one. -/
theorem isLiteral_quoted (s : String) : isLiteral (quoted s) = s.toList.all isLiteralChar := by
  have inner : ∀ chars : List Char,
      isInner (chars.flatMap fun c => if c = '"' then ['"', '"'] else [c]) =
        chars.all isLiteralChar := by
    intro chars
    induction chars with
    | nil => rfl
    | cons c rest ih =>
        by_cases quote : c = '"'
        · subst quote
          rw [List.flatMap_cons, if_pos rfl, List.cons_append, List.cons_append, List.nil_append,
            isInner, ih, List.all_cons]
          rfl
        · rw [List.flatMap_cons, if_neg quote, List.singleton_append, isInner_cons quote, ih,
            List.all_cons]
  rw [isLiteral, quoted, String.toList_ofList, List.cons_append, List.drop_one, List.tail_cons,
    List.dropLast_concat, inner, List.getLast?_concat, List.head?_cons]
  rfl

/-! ### Formulas -/

section Formulas

variable (B I S : Type)

inductive StrTerm
  | var (x : S)
  /-- A literal as it stands in the script, with its quotes. -/
  | lit (text : String)
deriving DecidableEq

inductive IntTerm
  | var (x : I)
  | num (n : Int)
  | strLen (s : StrTerm S)
deriving DecidableEq

/-- `and` and `or` associate to the left in SMT-LIB, so two arguments are enough. -/
inductive Formula
  | const (b : Bool)
  | var (x : B)
  | intEq (a b : IntTerm I S)
  | le (a b : IntTerm I S)
  | lt (a b : IntTerm I S)
  | strEq (a b : StrTerm S)
  | prefixOf (a b : StrTerm S)
  | not (f : Formula)
  | and (f g : Formula)
  | or (f g : Formula)
deriving DecidableEq

structure Assignment where
  bool : B → Bool
  int : I → Int
  str : S → Str

end Formulas

variable {B I S : Type}

def StrTerm.value (m : Assignment B I S) : StrTerm S → Str
  | .var x => m.str x
  | .lit text => literal text

def IntTerm.value (m : Assignment B I S) : IntTerm I S → Int
  | .var x => m.int x
  | .num n => n
  | .strLen s => (s.value m).length

def Formula.Holds (m : Assignment B I S) : Formula B I S → Prop
  | .const b => b = true
  | .var x => m.bool x = true
  | .intEq a b => a.value m = b.value m
  | .le a b => a.value m ≤ b.value m
  | .lt a b => a.value m < b.value m
  | .strEq a b => a.value m = b.value m
  | .prefixOf a b => a.value m <+: b.value m
  | .not f => ¬f.Holds m
  | .and f g => f.Holds m ∧ g.Holds m
  | .or f g => f.Holds m ∨ g.Holds m

def conjunction : List (Formula B I S) → Formula B I S
  | [] => .const true
  | f :: rest => rest.foldl .and f

def disjunction : List (Formula B I S) → Formula B I S
  | [] => .const false
  | f :: rest => rest.foldl .or f

theorem holds_foldl_and {m : Assignment B I S} {f : Formula B I S} {rest : List (Formula B I S)} :
    (rest.foldl .and f).Holds m ↔ f.Holds m ∧ ∀ g ∈ rest, g.Holds m := by
  induction rest generalizing f with
  | nil => simp
  | cons g rest ih =>
      rw [List.foldl_cons, ih, List.forall_mem_cons, ← and_assoc]
      rfl

theorem holds_foldl_or {m : Assignment B I S} {f : Formula B I S} {rest : List (Formula B I S)} :
    (rest.foldl .or f).Holds m ↔ f.Holds m ∨ ∃ g ∈ rest, g.Holds m := by
  induction rest generalizing f with
  | nil => simp
  | cons g rest ih =>
      rw [List.foldl_cons, ih]
      simp only [List.mem_cons, exists_eq_or_imp, ← or_assoc]
      rfl

@[simp] theorem holds_conjunction {m : Assignment B I S} {parts : List (Formula B I S)} :
    (conjunction parts).Holds m ↔ ∀ f ∈ parts, f.Holds m := by
  cases parts with
  | nil => simp [conjunction, Formula.Holds]
  | cons f rest => rw [conjunction, holds_foldl_and, List.forall_mem_cons]

@[simp] theorem holds_disjunction {m : Assignment B I S} {parts : List (Formula B I S)} :
    (disjunction parts).Holds m ↔ ∃ f ∈ parts, f.Holds m := by
  cases parts with
  | nil => simp [disjunction, Formula.Holds]
  | cons f rest =>
      rw [disjunction, holds_foldl_or]
      simp only [List.mem_cons, exists_eq_or_imp]

/-! ### Solvers -/

inductive Verdict
  | sat (witness : String)
  | unsat
  | unknown (output : String)
deriving DecidableEq

abbrev Script (B I S : Type) := List (Formula B I S)

def Satisfiable (script : Script B I S) : Prop :=
  ∃ m : Assignment B I S, ∀ f ∈ script, f.Holds m

/-- A solver answers `unsat` only to unsatisfiable scripts. -/
def Sound (solve : Script B I S → Verdict) : Prop :=
  ∀ script, solve script = .unsat → ¬Satisfiable script

end Perch.Machine.Smt
