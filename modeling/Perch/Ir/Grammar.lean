/-
The grammar of policy documents over JSON trees.

A tree means a document when every object has only known keys, each at most
once, when every required member is there and no optional one is null, and
when the leaves have their types.  Members are named, never counted, so what a
tree means does not depend on their order.  The parser accepts exactly these
trees.
-/

import Mathlib.Data.List.Perm.Basic
import Perch.Ir.RoundTrip

namespace Perch.Ir

open Machine

/-! ### Leaves and members -/

/-- Decimal digits, as `str::parse` reads them. -/
def Decimal (digits : String) (value : Nat) : Prop :=
  ∃ body, (digits.toList = body ∨ digits.toList = '+' :: body) ∧ body ≠ [] ∧
    (∀ c ∈ body, c.isDigit = true) ∧ Nat.ofDigitChars 10 body 0 = value

abbrev Meaning (α : Type) := Json → α → Prop

def MeansString : Meaning String := fun v text => v = .string text

def MeansU32 : Meaning UInt32 := fun v value =>
  ∃ digits, v = .number digits true ∧ Decimal digits value.toNat

def MeansList {α : Type} (item : Meaning α) : Meaning (List α) := fun v values =>
  ∃ items, v = .array items ∧ List.Forall₂ item items values

structure Node (v : Json) (known : List String) (obj : Members) : Prop where
  object : v = .object obj
  known : ∀ entry ∈ obj, entry.1 ∈ known
  distinct : (obj.map Prod.fst).Nodup

def Requires {α : Type} (obj : Members) (name : String) (means : Meaning α) (value : α) : Prop :=
  ∃ v, (name, v) ∈ obj ∧ means v value

def Allows {α : Type} (obj : Members) (name : String) (means : Meaning α) : Option α → Prop
  | none => name ∉ obj.map Prod.fst
  | some value => ∃ v, (name, v) ∈ obj ∧ v ≠ .null ∧ means v value

/-! ### Documents -/

def MeansSigner : Meaning SignerDecl := fun v s =>
  match s.method with
  | .delegated address => ∃ obj, Node v ["id", "address"] obj ∧
      Requires obj "address" MeansString address ∧ Requires obj "id" MeansString s.id
  | .external verifier key => ∃ obj, Node v ["id", "verifier", "key"] obj ∧
      Requires obj "verifier" MeansString verifier ∧ Requires obj "key" MeansString key ∧
      Requires obj "id" MeansString s.id

def MeansScope : Meaning Scope := fun v scope =>
  match scope with
  | .contract address => ∃ obj, Node v ["type", "address"] obj ∧
      Requires obj "type" MeansString "contract" ∧ Requires obj "address" MeansString address
  | .selfAdmin => ∃ obj, Node v ["type"] obj ∧ Requires obj "type" MeansString "self-admin"

def MeansPrincipals : Meaning Principals := fun v principals =>
  match principals with
  | .all signers => ∃ obj, Node v ["type", "signers"] obj ∧
      Requires obj "type" MeansString "all" ∧
      Requires obj "signers" (MeansList MeansString) signers
  | .threshold signers m => ∃ obj, Node v ["type", "signers", "m"] obj ∧
      Requires obj "type" MeansString "threshold" ∧
      Requires obj "signers" (MeansList MeansString) signers ∧ Requires obj "m" MeansU32 m
  | .selfAuthenticating policy installParamHex ack =>
      ∃ obj, Node v ["type", "policy", "install-param-hex", "ack"] obj ∧
        Requires obj "type" MeansString "self-authenticating" ∧
        Requires obj "policy" MeansString policy ∧
        Requires obj "install-param-hex" MeansString installParamHex ∧
        Requires obj "ack" MeansString ack

def MeansPred : Meaning ArgPred := fun v pred =>
  match pred with
  | .isSelf => ∃ obj, Node v ["type"] obj ∧ Requires obj "type" MeansString "is-self"
  | .addressEq address => ∃ obj, Node v ["type", "address"] obj ∧
      Requires obj "type" MeansString "address-eq" ∧ Requires obj "address" MeansString address
  | .stringIn values => ∃ obj, Node v ["type", "values"] obj ∧
      Requires obj "type" MeansString "string-in" ∧
      Requires obj "values" (MeansList MeansString) values
  | .stringPrefix initial => ∃ obj, Node v ["type", "prefix"] obj ∧
      Requires obj "type" MeansString "string-prefix" ∧ Requires obj "prefix" MeansString initial
  | .u32Eq value => ∃ obj, Node v ["type", "value"] obj ∧
      Requires obj "type" MeansString "u32-eq" ∧ Requires obj "value" MeansU32 value

def MeansArg : Meaning ArgConstraint := fun v a =>
  ∃ obj, Node v ["index", "pred"] obj ∧ Requires obj "index" MeansU32 a.index ∧
    Requires obj "pred" MeansPred a.pred

def MeansCap : Meaning CapConstraint := fun v cap =>
  ∃ obj, Node v ["token", "limit", "period-ledgers"] obj ∧
    Allows obj "token" MeansString cap.token ∧ Requires obj "limit" MeansString cap.limit ∧
    Requires obj "period-ledgers" MeansU32 cap.periodLedgers

def MeansRule : Meaning Rule := fun v r =>
  ∃ obj, Node v ["name", "scope", "principals", "functions", "args", "not-after-ledger", "cap"]
      obj ∧
    Requires obj "name" MeansString r.name ∧ Requires obj "scope" MeansScope r.scope ∧
    Requires obj "principals" MeansPrincipals r.principals ∧
    Allows obj "functions" (MeansList MeansString) r.functions ∧
    Allows obj "args" (MeansList MeansArg) r.args ∧
    Allows obj "not-after-ledger" MeansU32 r.notAfterLedger ∧ Allows obj "cap" MeansCap r.cap

def MeansProfile : Meaning RecoveryProfile := fun v profile =>
  v = .string (recoveryProfileStr profile)

def RequiresGuardians (obj : Members) (g : GuardianSet) : Prop :=
  Requires obj "guardians" (MeansList MeansString) g.guardians ∧
    Requires obj "quorum" MeansU32 g.quorum

def RequiresZk (obj : Members) (z : ZkFactor) : Prop :=
  Requires obj "adapter" MeansString z.adapter ∧ Requires obj "circuit-id" MeansString z.circuitId ∧
    Requires obj "pool" MeansString z.pool ∧
    Requires obj "enrollment-id" MeansString z.enrollmentId ∧
    Requires obj "commitment" MeansString z.commitment

def MeansMode : Meaning RecoveryMode := fun v mode =>
  match mode with
  | .guardianOnly g => ∃ obj, Node v ["type", "guardians", "quorum"] obj ∧
      Requires obj "type" MeansString "guardian-only" ∧ RequiresGuardians obj g
  | .zkOnly z => ∃ obj, Node v ["type", "adapter", "circuit-id", "pool", "enrollment-id",
        "commitment"] obj ∧
      Requires obj "type" MeansString "zk-only" ∧ RequiresZk obj z
  | .combined g z => ∃ obj, Node v ["type", "guardians", "quorum", "adapter", "circuit-id", "pool",
        "enrollment-id", "commitment"] obj ∧
      Requires obj "type" MeansString "combined" ∧ RequiresGuardians obj g ∧ RequiresZk obj z

def MeansBaseline : Meaning BaselineCommitment := fun v b =>
  ∃ obj, Node v ["doc-hash"] obj ∧ Requires obj "doc-hash" MeansString b.docHash

def MeansRecovery : Meaning RecoveryConfig := fun v r =>
  ∃ obj, Node v ["profile", "mode", "controller", "baseline", "replaceable", "delay-ledgers",
      "expiry-ledgers", "max-cancels"] obj ∧
    Requires obj "profile" MeansProfile r.profile ∧ Requires obj "mode" MeansMode r.mode ∧
    Requires obj "controller" MeansString r.controller ∧
    Allows obj "baseline" MeansBaseline r.baseline ∧
    Requires obj "replaceable" (MeansList MeansString) r.replaceable ∧
    Requires obj "delay-ledgers" MeansU32 r.delayLedgers ∧
    Requires obj "expiry-ledgers" MeansU32 r.expiryLedgers ∧
    Requires obj "max-cancels" MeansU32 r.maxCancels

def MeansDoc : Meaning PolicyDoc := fun v doc =>
  ∃ obj, Node v ["version", "network", "signers", "rules", "recovery"] obj ∧
    Requires obj "version" MeansU32 doc.version ∧ Allows obj "network" MeansString doc.network ∧
    Requires obj "signers" (MeansList MeansSigner) doc.signers ∧
    Requires obj "rules" (MeansList MeansRule) doc.rules ∧
    Allows obj "recovery" MeansRecovery doc.recovery

/-! ### What the helpers read -/

def Exact {α : Type} (read : Json → Except ParseError α) (means : Meaning α) : Prop :=
  ∀ v value, read v = .ok value ↔ means v value

theorem asStr_exact (ctx : String) : Exact (asStr · ctx) MeansString := by
  intro v text
  cases v <;> simp [asStr, MeansString, jsonErr]

theorem parseUnsigned_eq_some {bound : Nat} {digits : String} {value : Nat} :
    parseUnsigned bound digits = some value ↔ Decimal digits value ∧ value < bound := by
  have plain : ∀ {body : List Char}, (∀ c ∈ body, c.isDigit = true) →
      ∀ rest, body ≠ '+' :: rest := by
    rintro body all rest rfl
    exact absurd (all '+' List.mem_cons_self) (by decide)
  unfold parseUnsigned
  simp only [Option.ite_none_right_eq_some, Option.some.injEq, List.all_eq_true]
  split
  · rename_i rest signedText
    constructor
    · rintro ⟨⟨more, all, small⟩, rfl⟩
      exact ⟨⟨rest, .inr signedText, more, all, rfl⟩, small⟩
    · rintro ⟨⟨body, signed, more, all, rfl⟩, small⟩
      rcases signed with unsigned | signed
      · exact absurd (unsigned.symm.trans signedText) (plain all rest)
      · obtain rfl : body = rest := (List.cons.inj (signed.symm.trans signedText)).2
        exact ⟨⟨more, all, small⟩, rfl⟩
  · rename_i unsignedText
    constructor
    · rintro ⟨⟨more, all, small⟩, rfl⟩
      exact ⟨⟨_, .inl rfl, more, all, rfl⟩, small⟩
    · rintro ⟨⟨body, signed, more, all, rfl⟩, small⟩
      rcases signed with rfl | signed
      · exact ⟨⟨more, all, small⟩, rfl⟩
      · exact absurd signed (unsignedText body)

theorem asU32_exact (ctx : String) : Exact (asU32 · ctx) MeansU32 := by
  intro v value
  cases v with
  | number digits isInt =>
      cases isInt with
      | false => simp [asU32, MeansU32, jsonErr]
      | true =>
          simp only [asU32, MeansU32]
          constructor
          · intro read
            split at read
            · rename_i parsed
              obtain ⟨decimal, small⟩ := parseUnsigned_eq_some.mp parsed
              obtain rfl := Except.ok.inj read
              refine ⟨digits, rfl, ?_⟩
              rwa [UInt32.toNat_ofNat_of_lt' small]
            · cases read
          · rintro ⟨_, same, decimal⟩
            injection same with same
            subst same
            rw [parseUnsigned_eq_some.mpr ⟨decimal, value.toNat_lt⟩]
            simp
  | _ => simp [asU32, MeansU32, jsonErr]

theorem mapM_exact {α : Type} {read : Json → Except ParseError α} {means : Meaning α}
    (exact_ : Exact read means) (items : List Json) (values : List α) :
    items.mapM read = .ok values ↔ List.Forall₂ means items values := by
  constructor
  · intro mapped
    exact (mapM_eq_ok mapped).imp fun item value => (exact_ item value).mp
  · intro aligned
    induction aligned with
    | nil => rfl
    | cons head _ ih =>
        rw [List.mapM_cons, (exact_ _ _).mpr head, ok_bind, ih]
        rfl

theorem asArray_eq_ok {v : Json} {ctx : String} {items : List Json} :
    asArray v ctx = .ok items ↔ v = .array items := by
  cases v <;> simp [asArray, jsonErr]

theorem asObject_eq_ok {v : Json} {ctx : String} {obj : Members} :
    asObject v ctx = .ok obj ↔ v = .object obj := by
  cases v <;> simp [asObject, jsonErr]

theorem list_exact {α : Type} {read : Json → Except ParseError α} {means : Meaning α}
    (exact_ : Exact read means) (ctx : String) :
    Exact (fun v => do (← asArray v ctx).mapM read) (MeansList means) := by
  intro v values
  simp only [bind_eq_ok, asArray_eq_ok, mapM_exact exact_, MeansList]

theorem asStrs_exact (ctx item : String) : Exact (asStrs · ctx item) (MeansList MeansString) :=
  list_exact (asStr_exact item) ctx

/-! ### What the parser finds in an object -/

section Objects

variable {v : Json} {known : List String} {obj : Members} {name : String}

theorem count_of_field {found? : Option Json} (read : field obj name = .ok found?) :
    (obj.map Prod.fst).count name ≤ 1 := by
  have counted : ∀ {rest : Members} {before after : Option Json},
      rest.foldlM (found name) before = .ok after →
        (rest.map Prod.fst).count name + before.toList.length ≤ 1 := by
    intro rest
    induction rest with
    | nil =>
        intro before after _
        cases before <;> simp
    | cons entry rest ih =>
        intro before after folded
        rw [List.foldlM_cons, bind_eq_ok] at folded
        obtain ⟨middle, here, there⟩ := folded
        have later := ih there
        rw [found] at here
        rw [List.map_cons, List.count_cons]
        by_cases named : entry.1 = name
        · rw [if_pos named] at here
          cases before with
          | none =>
              obtain rfl := Except.ok.inj here
              simp only [named, beq_self_eq_true, if_true, Option.toList_none, List.length_nil]
              simp only [Option.toList_some, List.length_singleton] at later
              omega
          | some earlier => simp [jsonErr] at here
        · rw [if_neg named] at here
          obtain rfl := Except.ok.inj here
          simp only [beq_false_of_ne named, Bool.false_eq_true, if_false]
          omega
  have bound := counted (show obj.foldlM (found name) none = .ok found? from read)
  simpa using bound

theorem count_of_reqField {value : Json} (read : reqField obj name = .ok value) :
    (obj.map Prod.fst).count name ≤ 1 := by
  rw [reqField, bind_eq_ok] at read
  obtain ⟨_, looked, _⟩ := read
  exact count_of_field looked

theorem count_of_optional {α : Type} {read : Json → Except ParseError α} {value : Option α}
    (reads : optional? obj name read = .ok value) : (obj.map Prod.fst).count name ≤ 1 := by
  rw [optional?, bind_eq_ok] at reads
  obtain ⟨_, looked, _⟩ := reads
  rw [optField, bind_eq_ok] at looked
  obtain ⟨_, looked, _⟩ := looked
  exact count_of_field looked

theorem denyUnknown_eq_ok {done : Unit} :
    denyUnknown obj known = .ok done ↔ ∀ entry ∈ obj, entry.1 ∈ known := by
  constructor
  · intro denied
    unfold denyUnknown at denied
    induction obj with
    | nil => simp
    | cons entry rest ih =>
        rw [List.forM_eq_forM, List.forM_cons, bind_eq_ok] at denied
        obtain ⟨_, here, there⟩ := denied
        rw [List.forall_mem_cons]
        refine ⟨?_, ih there⟩
        by_contra unknown
        simp [unknown, jsonErr] at here
  · exact denyUnknown_of_known

theorem Node.of_counts (object : v = .object obj) (allKnown : ∀ entry ∈ obj, entry.1 ∈ known)
    (once : ∀ key ∈ known, (obj.map Prod.fst).count key ≤ 1) : Node v known obj := by
  refine { object := object, known := allKnown, distinct := ?_ }
  rw [List.nodup_iff_count_le_one]
  intro key
  by_cases member : key ∈ obj.map Prod.fst
  · obtain ⟨entry, held, rfl⟩ := List.mem_map.mp member
    exact once entry.1 (allKnown entry held)
  · rw [List.count_eq_zero_of_not_mem member]
    omega

variable (node : Node v known obj)

include node

theorem Node.reqField_eq_ok {value : Json} :
    reqField obj name = .ok value ↔ (name, value) ∈ obj := by
  rw [reqField, field_eq_lookup node.distinct, ok_bind,
    ← lookup_eq_some_iff node.distinct name value]
  cases obj.lookup name <;> simp [jsonErr]

theorem Node.tag_eq_ok {ctx kind : String} :
    tag obj ctx = .ok kind ↔ Requires obj "type" MeansString kind := by
  simp only [tag, bind_eq_ok, node.reqField_eq_ok, asStr_exact ctx _ _, Requires]

/-- A required member is read when it is found and has its meaning. -/
theorem Node.requires {α : Type} {read : Json → Except ParseError α} {means : Meaning α}
    (exact_ : Exact read means) {value : Json} {result : α}
    (looked : reqField obj name = .ok value) (reads : read value = .ok result) :
    Requires obj name means result :=
  ⟨value, node.reqField_eq_ok.mp looked, (exact_ value result).mp reads⟩

theorem Node.reads {α : Type} {read : Json → Except ParseError α} {means : Meaning α}
    (exact_ : Exact read means) {result : α} (required : Requires obj name means result) :
    ∃ value, reqField obj name = .ok value ∧ read value = .ok result := by
  obtain ⟨value, held, meant⟩ := required
  exact ⟨value, node.reqField_eq_ok.mpr held, (exact_ value result).mpr meant⟩

theorem Node.allows {α : Type} {read : Json → Except ParseError α} {means : Meaning α}
    (exact_ : Exact read means) {value : Option α} :
    optional? obj name read = .ok value ↔ Allows obj name means value := by
  have looked := fun present => lookup_eq_some_iff node.distinct name present
  rw [optional?, optField, field_eq_lookup node.distinct, ok_bind]
  cases found : obj.lookup name with
  | none =>
      have nothing : ∀ present, (name, present) ∉ obj := by
        intro present held
        rw [(looked present).mpr held] at found
        cases found
      have absent : name ∉ obj.map Prod.fst := by
        intro member
        obtain ⟨⟨_, present⟩, held, rfl⟩ := List.mem_map.mp member
        exact nothing present held
      cases value with
      | none => simp [Allows, absent, ok_bind]
      | some value => simp [Allows, nothing, ok_bind]
  | some present =>
      have held := (looked present).mp found
      have only : ∀ other, (name, other) ∈ obj ↔ other = present := by
        intro other
        rw [← looked other, found, Option.some.injEq, eq_comm]
      have here : name ∈ obj.map Prod.fst := List.mem_map.mpr ⟨_, held, rfl⟩
      cases value with
      | none => cases present <;> simp [Allows, here, ok_bind, jsonErr, map_eq_ok]
      | some value =>
          simp only [Allows, only, exists_eq_left]
          rw [← exact_ present value]
          cases present <;> simp [ok_bind, jsonErr, map_eq_ok]

end Objects

/-! ### The parser reads exactly the grammar -/

theorem count_of_tag {obj : Members} {ctx kind : String} (tagged : tag obj ctx = .ok kind) :
    (obj.map Prod.fst).count "type" ≤ 1 := by
  rw [tag, bind_eq_ok] at tagged
  obtain ⟨_, looked, _⟩ := tagged
  exact count_of_reqField looked

theorem capFromValue_exact : Exact capFromValue MeansCap := by
  intro v cap
  simp only [capFromValue, bind_eq_ok, asObject_eq_ok, denyUnknown_eq_ok, Except.ok.injEq]
  constructor
  · rintro ⟨obj, object, _, known, token, tokenRead, limitValue, limitFound, limit, limitRead,
      periodValue, periodFound, period, periodRead, rfl⟩
    have node : Node v _ obj := .of_counts object known (by
      simpa using ⟨count_of_optional tokenRead, count_of_reqField limitFound,
        count_of_reqField periodFound⟩)
    exact ⟨obj, node, (node.allows (asStr_exact _)).mp tokenRead,
      node.requires (asStr_exact _) limitFound limitRead,
      node.requires (asU32_exact _) periodFound periodRead⟩
  · rintro ⟨obj, node, token, limit, period⟩
    obtain ⟨limitValue, limitFound, limitRead⟩ := node.reads (asStr_exact "cap limit") limit
    obtain ⟨periodValue, periodFound, periodRead⟩ :=
      node.reads (asU32_exact "period-ledgers") period
    exact ⟨obj, node.object, (), node.known, cap.token,
      (node.allows (asStr_exact "cap token")).mpr token, limitValue, limitFound, cap.limit,
      limitRead, periodValue, periodFound, cap.periodLedgers, periodRead, rfl⟩

theorem scopeFromValue_exact : Exact scopeFromValue MeansScope := by
  intro v scope
  simp only [scopeFromValue, bind_eq_ok, asObject_eq_ok]
  constructor
  · rintro ⟨obj, object, kind, tagged, read⟩
    split at read
    · simp only [bind_eq_ok, denyUnknown_eq_ok, Except.ok.injEq] at read
      obtain ⟨_, known, addressValue, addressFound, address, addressRead, rfl⟩ := read
      have node : Node v _ obj := .of_counts object known (by
        simpa using ⟨count_of_tag tagged, count_of_reqField addressFound⟩)
      exact ⟨obj, node, node.tag_eq_ok.mp tagged,
        node.requires (asStr_exact _) addressFound addressRead⟩
    · simp only [bind_eq_ok, denyUnknown_eq_ok, Except.ok.injEq] at read
      obtain ⟨_, known, rfl⟩ := read
      have node : Node v _ obj := .of_counts object known (by simpa using count_of_tag tagged)
      exact ⟨obj, node, node.tag_eq_ok.mp tagged⟩
    · cases read
  · cases scope with
    | contract address =>
        rintro ⟨obj, node, tagged, addressHeld⟩
        obtain ⟨value, found, read⟩ := node.reads (asStr_exact "contract address") addressHeld
        refine ⟨obj, node.object, "contract", node.tag_eq_ok.mpr tagged, ?_⟩
        simp only [bind_eq_ok, denyUnknown_eq_ok, Except.ok.injEq]
        exact ⟨(), node.known, value, found, address, read, rfl⟩
    | selfAdmin =>
        rintro ⟨obj, node, tagged⟩
        refine ⟨obj, node.object, "self-admin", node.tag_eq_ok.mpr tagged, ?_⟩
        simp only [bind_eq_ok, denyUnknown_eq_ok]
        exact ⟨(), node.known, trivial⟩

theorem predFromValue_exact : Exact predFromValue MeansPred := by
  intro v pred
  simp only [predFromValue, bind_eq_ok, asObject_eq_ok]
  constructor
  · rintro ⟨obj, object, kind, tagged, read⟩
    split at read
    · simp only [bind_eq_ok, denyUnknown_eq_ok, Except.ok.injEq] at read
      obtain ⟨_, known, rfl⟩ := read
      have node : Node v _ obj := .of_counts object known (by simpa using count_of_tag tagged)
      exact ⟨obj, node, node.tag_eq_ok.mp tagged⟩
    · simp only [bind_eq_ok, denyUnknown_eq_ok, Except.ok.injEq] at read
      obtain ⟨_, known, value, found, address, reads, rfl⟩ := read
      have node : Node v _ obj := .of_counts object known (by
        simpa using ⟨count_of_tag tagged, count_of_reqField found⟩)
      exact ⟨obj, node, node.tag_eq_ok.mp tagged, node.requires (asStr_exact _) found reads⟩
    · simp only [bind_eq_ok, denyUnknown_eq_ok, Except.ok.injEq] at read
      obtain ⟨_, known, value, found, values, reads, rfl⟩ := read
      have node : Node v _ obj := .of_counts object known (by
        simpa using ⟨count_of_tag tagged, count_of_reqField found⟩)
      exact ⟨obj, node, node.tag_eq_ok.mp tagged, node.requires (asStrs_exact _ _) found reads⟩
    · simp only [bind_eq_ok, denyUnknown_eq_ok, Except.ok.injEq] at read
      obtain ⟨_, known, value, found, initial, reads, rfl⟩ := read
      have node : Node v _ obj := .of_counts object known (by
        simpa using ⟨count_of_tag tagged, count_of_reqField found⟩)
      exact ⟨obj, node, node.tag_eq_ok.mp tagged, node.requires (asStr_exact _) found reads⟩
    · simp only [bind_eq_ok, denyUnknown_eq_ok, Except.ok.injEq] at read
      obtain ⟨_, known, value, found, number, reads, rfl⟩ := read
      have node : Node v _ obj := .of_counts object known (by
        simpa using ⟨count_of_tag tagged, count_of_reqField found⟩)
      exact ⟨obj, node, node.tag_eq_ok.mp tagged, node.requires (asU32_exact _) found reads⟩
    · cases read
  · cases pred with
    | isSelf =>
        rintro ⟨obj, node, tagged⟩
        refine ⟨obj, node.object, "is-self", node.tag_eq_ok.mpr tagged, ?_⟩
        simp only [bind_eq_ok, denyUnknown_eq_ok]
        exact ⟨(), node.known, trivial⟩
    | addressEq address =>
        rintro ⟨obj, node, tagged, held⟩
        obtain ⟨value, found, reads⟩ := node.reads (asStr_exact "address") held
        refine ⟨obj, node.object, "address-eq", node.tag_eq_ok.mpr tagged, ?_⟩
        simp only [bind_eq_ok, denyUnknown_eq_ok, Except.ok.injEq]
        exact ⟨(), node.known, value, found, address, reads, rfl⟩
    | stringIn values =>
        rintro ⟨obj, node, tagged, held⟩
        obtain ⟨value, found, reads⟩ := node.reads (asStrs_exact "values" "value") held
        refine ⟨obj, node.object, "string-in", node.tag_eq_ok.mpr tagged, ?_⟩
        simp only [bind_eq_ok, denyUnknown_eq_ok, Except.ok.injEq]
        exact ⟨(), node.known, value, found, values, reads, rfl⟩
    | stringPrefix initial =>
        rintro ⟨obj, node, tagged, held⟩
        obtain ⟨value, found, reads⟩ := node.reads (asStr_exact "prefix") held
        refine ⟨obj, node.object, "string-prefix", node.tag_eq_ok.mpr tagged, ?_⟩
        simp only [bind_eq_ok, denyUnknown_eq_ok, Except.ok.injEq]
        exact ⟨(), node.known, value, found, initial, reads, rfl⟩
    | u32Eq number =>
        rintro ⟨obj, node, tagged, held⟩
        obtain ⟨value, found, reads⟩ := node.reads (asU32_exact "value") held
        refine ⟨obj, node.object, "u32-eq", node.tag_eq_ok.mpr tagged, ?_⟩
        simp only [bind_eq_ok, denyUnknown_eq_ok, Except.ok.injEq]
        exact ⟨(), node.known, value, found, number, reads, rfl⟩

theorem argConstraintFromValue_exact : Exact argConstraintFromValue MeansArg := by
  intro v a
  simp only [argConstraintFromValue, bind_eq_ok, asObject_eq_ok, denyUnknown_eq_ok,
    Except.ok.injEq]
  constructor
  · rintro ⟨obj, object, _, known, indexValue, indexFound, index, indexRead, predValue, predFound,
      predicate, predRead, rfl⟩
    have node : Node v _ obj := .of_counts object known (by
      simpa using ⟨count_of_reqField indexFound, count_of_reqField predFound⟩)
    exact ⟨obj, node, node.requires (asU32_exact _) indexFound indexRead,
      node.requires predFromValue_exact predFound predRead⟩
  · rintro ⟨obj, node, index, predicate⟩
    obtain ⟨indexValue, indexFound, indexRead⟩ := node.reads (asU32_exact "arg index") index
    obtain ⟨predValue, predFound, predRead⟩ := node.reads predFromValue_exact predicate
    exact ⟨obj, node.object, (), node.known, indexValue, indexFound, a.index, indexRead, predValue,
      predFound, a.pred, predRead, rfl⟩

theorem principalsFromValue_exact : Exact principalsFromValue MeansPrincipals := by
  intro v principals
  simp only [principalsFromValue, bind_eq_ok, asObject_eq_ok]
  constructor
  · rintro ⟨obj, object, kind, tagged, read⟩
    split at read
    · simp only [bind_eq_ok, denyUnknown_eq_ok, Except.ok.injEq] at read
      obtain ⟨_, known, value, found, signers, reads, rfl⟩ := read
      have node : Node v _ obj := .of_counts object known (by
        simpa using ⟨count_of_tag tagged, count_of_reqField found⟩)
      exact ⟨obj, node, node.tag_eq_ok.mp tagged, node.requires (asStrs_exact _ _) found reads⟩
    · simp only [bind_eq_ok, denyUnknown_eq_ok, Except.ok.injEq] at read
      obtain ⟨_, known, value, found, signers, reads, mValue, mFound, m, mRead, rfl⟩ := read
      have node : Node v _ obj := .of_counts object known (by
        simpa using ⟨count_of_tag tagged, count_of_reqField found, count_of_reqField mFound⟩)
      exact ⟨obj, node, node.tag_eq_ok.mp tagged, node.requires (asStrs_exact _ _) found reads,
        node.requires (asU32_exact _) mFound mRead⟩
    · simp only [bind_eq_ok, denyUnknown_eq_ok, Except.ok.injEq] at read
      obtain ⟨_, known, value, found, policy, reads, hexValue, hexFound, hex, hexRead, ackValue,
        ackFound, ack, ackRead, rfl⟩ := read
      have node : Node v _ obj := .of_counts object known (by
        simpa using ⟨count_of_tag tagged, count_of_reqField found, count_of_reqField hexFound,
          count_of_reqField ackFound⟩)
      exact ⟨obj, node, node.tag_eq_ok.mp tagged, node.requires (asStr_exact _) found reads,
        node.requires (asStr_exact _) hexFound hexRead,
        node.requires (asStr_exact _) ackFound ackRead⟩
    · cases read
  · cases principals with
    | all signers =>
        rintro ⟨obj, node, tagged, held⟩
        obtain ⟨value, found, reads⟩ := node.reads (asStrs_exact "signers" "signer id") held
        refine ⟨obj, node.object, "all", node.tag_eq_ok.mpr tagged, ?_⟩
        simp only [bind_eq_ok, denyUnknown_eq_ok, Except.ok.injEq]
        exact ⟨(), node.known, value, found, signers, reads, rfl⟩
    | threshold signers m =>
        rintro ⟨obj, node, tagged, held, mHeld⟩
        obtain ⟨value, found, reads⟩ := node.reads (asStrs_exact "signers" "signer id") held
        obtain ⟨mValue, mFound, mRead⟩ := node.reads (asU32_exact "threshold m") mHeld
        refine ⟨obj, node.object, "threshold", node.tag_eq_ok.mpr tagged, ?_⟩
        simp only [bind_eq_ok, denyUnknown_eq_ok, Except.ok.injEq]
        exact ⟨(), node.known, value, found, signers, reads, mValue, mFound, m, mRead, rfl⟩
    | selfAuthenticating policy hex ack =>
        rintro ⟨obj, node, tagged, held, hexHeld, ackHeld⟩
        obtain ⟨value, found, reads⟩ := node.reads (asStr_exact "policy") held
        obtain ⟨hexValue, hexFound, hexRead⟩ := node.reads (asStr_exact "install-param-hex") hexHeld
        obtain ⟨ackValue, ackFound, ackRead⟩ := node.reads (asStr_exact "ack") ackHeld
        refine ⟨obj, node.object, "self-authenticating", node.tag_eq_ok.mpr tagged, ?_⟩
        simp only [bind_eq_ok, denyUnknown_eq_ok, Except.ok.injEq]
        exact ⟨(), node.known, value, found, policy, reads, hexValue, hexFound, hex, hexRead,
          ackValue, ackFound, ack, ackRead, rfl⟩

/-- An `address` member decides the shape, so a mixed one fits neither. -/
theorem signerFromValue_exact : Exact signerFromValue MeansSigner := by
  intro v s
  simp only [signerFromValue, bind_eq_ok, asObject_eq_ok, Except.ok.injEq]
  constructor
  · rintro ⟨obj, object, method, ⟨found?, looked, read⟩, idValue, idFound, id, idRead, rfl⟩
    split at read
    · simp only [bind_eq_ok, denyUnknown_eq_ok, Except.ok.injEq] at read
      obtain ⟨_, known, value, found, address, reads, rfl⟩ := read
      have node : Node v _ obj := .of_counts object known (by
        simpa using ⟨count_of_reqField idFound, count_of_reqField found⟩)
      exact ⟨obj, node, node.requires (asStr_exact _) found reads,
        node.requires (asStr_exact _) idFound idRead⟩
    · simp only [bind_eq_ok, denyUnknown_eq_ok, Except.ok.injEq] at read
      obtain ⟨_, known, value, found, verifier, reads, keyValue, keyFound, key, keyRead, rfl⟩ :=
        read
      have node : Node v _ obj := .of_counts object known (by
        simpa using ⟨count_of_reqField idFound, count_of_reqField found,
          count_of_reqField keyFound⟩)
      exact ⟨obj, node, node.requires (asStr_exact _) found reads,
        node.requires (asStr_exact _) keyFound keyRead,
        node.requires (asStr_exact _) idFound idRead⟩
  · obtain ⟨id, method⟩ := s
    cases method with
    | delegated address =>
        rintro ⟨obj, node, held, idHeld⟩
        obtain ⟨value, found, reads⟩ := node.reads (asStr_exact "address") held
        obtain ⟨idValue, idFound, idRead⟩ := node.reads (asStr_exact "signer id") idHeld
        have present : obj.lookup "address" = some value :=
          (lookup_eq_some_iff node.distinct _ _).mpr (node.reqField_eq_ok.mp found)
        refine ⟨obj, node.object, .delegated address,
          ⟨some value, by rw [field_eq_lookup node.distinct, present], ?_⟩, idValue, idFound, id,
          idRead, rfl⟩
        simp only [Option.isSome_some, if_true, bind_eq_ok, denyUnknown_eq_ok, Except.ok.injEq]
        exact ⟨(), node.known, value, found, address, reads, rfl⟩
    | external verifier key =>
        rintro ⟨obj, node, held, keyHeld, idHeld⟩
        obtain ⟨value, found, reads⟩ := node.reads (asStr_exact "verifier") held
        obtain ⟨keyValue, keyFound, keyRead⟩ := node.reads (asStr_exact "key") keyHeld
        obtain ⟨idValue, idFound, idRead⟩ := node.reads (asStr_exact "signer id") idHeld
        have absent : obj.lookup "address" = none := by
          cases looked : obj.lookup "address" with
          | none => rfl
          | some other =>
              have known := node.known _ ((lookup_eq_some_iff node.distinct _ _).mp looked)
              simp at known
        refine ⟨obj, node.object, .external verifier key,
          ⟨none, by rw [field_eq_lookup node.distinct, absent], ?_⟩, idValue, idFound, id, idRead,
          rfl⟩
        simp only [Option.isSome_none, Bool.false_eq_true, if_false, bind_eq_ok, denyUnknown_eq_ok,
          Except.ok.injEq]
        exact ⟨(), node.known, value, found, verifier, reads, keyValue, keyFound, key, keyRead, rfl⟩

theorem argsFromValue_exact :
    Exact (fun v => do (← asArray v "args").mapM argConstraintFromValue) (MeansList MeansArg) :=
  list_exact argConstraintFromValue_exact "args"

theorem ruleFromValue_exact : Exact ruleFromValue MeansRule := by
  intro v r
  simp only [ruleFromValue, bind_eq_ok, asObject_eq_ok, denyUnknown_eq_ok, Except.ok.injEq]
  constructor
  · rintro ⟨obj, object, _, known, nameValue, nameFound, name, nameRead, scopeValue, scopeFound,
      scope, scopeRead, principalsValue, principalsFound, principals, principalsRead, functions,
      functionsRead, args, argsRead, ledger, ledgerRead, cap, capRead, rfl⟩
    have node : Node v _ obj := .of_counts object known (by
      simpa using ⟨count_of_reqField nameFound, count_of_reqField scopeFound,
        count_of_reqField principalsFound, count_of_optional functionsRead,
        count_of_optional argsRead, count_of_optional ledgerRead, count_of_optional capRead⟩)
    exact ⟨obj, node, node.requires (asStr_exact _) nameFound nameRead,
      node.requires scopeFromValue_exact scopeFound scopeRead,
      node.requires principalsFromValue_exact principalsFound principalsRead,
      (node.allows (asStrs_exact _ _)).mp functionsRead,
      (node.allows argsFromValue_exact).mp argsRead, (node.allows (asU32_exact _)).mp ledgerRead,
      (node.allows capFromValue_exact).mp capRead⟩
  · rintro ⟨obj, node, name, scope, principals, functions, args, ledger, cap⟩
    obtain ⟨nameValue, nameFound, nameRead⟩ := node.reads (asStr_exact "rule name") name
    obtain ⟨scopeValue, scopeFound, scopeRead⟩ := node.reads scopeFromValue_exact scope
    obtain ⟨principalsValue, principalsFound, principalsRead⟩ :=
      node.reads principalsFromValue_exact principals
    exact ⟨obj, node.object, (), node.known, nameValue, nameFound, r.name, nameRead, scopeValue,
      scopeFound, r.scope, scopeRead, principalsValue, principalsFound, r.principals,
      principalsRead, r.functions,
      (node.allows (asStrs_exact "functions" "function")).mpr functions, r.args,
      (node.allows argsFromValue_exact).mpr args, r.notAfterLedger,
      (node.allows (asU32_exact "not-after-ledger")).mpr ledger, r.cap,
      (node.allows capFromValue_exact).mpr cap, rfl⟩

theorem recoveryProfileFromValue_exact : Exact recoveryProfileFromValue MeansProfile := by
  intro v profile
  simp only [recoveryProfileFromValue, bind_eq_ok, asStr_exact "recovery profile" _ _, MeansString,
    MeansProfile]
  constructor
  · rintro ⟨text, rfl, read⟩
    split at read
    · obtain rfl := Except.ok.inj read
      rfl
    · obtain rfl := Except.ok.inj read
      rfl
    · cases read
  · rintro rfl
    cases profile with
    | loss => exact ⟨"loss", rfl, rfl⟩
    | protectedProfile => exact ⟨"protected", rfl, rfl⟩

section Factors

variable {v : Json} {known : List String} {obj : Members}

theorem count_of_guardians {g : GuardianSet} (read : guardianSetFromFields obj = .ok g) :
    (obj.map Prod.fst).count "guardians" ≤ 1 ∧ (obj.map Prod.fst).count "quorum" ≤ 1 := by
  simp only [guardianSetFromFields, bind_eq_ok] at read
  obtain ⟨_, guardians, _, _, _, quorum, _⟩ := read
  exact ⟨count_of_reqField guardians, count_of_reqField quorum⟩

theorem count_of_zk {z : ZkFactor} (read : zkFactorFromFields obj = .ok z) :
    (obj.map Prod.fst).count "adapter" ≤ 1 ∧ (obj.map Prod.fst).count "circuit-id" ≤ 1 ∧
      (obj.map Prod.fst).count "pool" ≤ 1 ∧ (obj.map Prod.fst).count "enrollment-id" ≤ 1 ∧
      (obj.map Prod.fst).count "commitment" ≤ 1 := by
  simp only [zkFactorFromFields, bind_eq_ok] at read
  obtain ⟨_, adapter, _, _, _, circuit, _, _, _, pool, _, _, _, enrollment, _, _, _, commitment,
    _⟩ := read
  exact ⟨count_of_reqField adapter, count_of_reqField circuit, count_of_reqField pool,
    count_of_reqField enrollment, count_of_reqField commitment⟩

variable (node : Node v known obj)

include node

theorem Node.guardians {g : GuardianSet} :
    guardianSetFromFields obj = .ok g ↔ RequiresGuardians obj g := by
  simp only [guardianSetFromFields, bind_eq_ok, Except.ok.injEq]
  constructor
  · rintro ⟨listValue, listFound, list, listRead, quorumValue, quorumFound, quorum, quorumRead,
      rfl⟩
    exact ⟨node.requires (asStrs_exact _ _) listFound listRead,
      node.requires (asU32_exact _) quorumFound quorumRead⟩
  · rintro ⟨list, quorum⟩
    obtain ⟨listValue, listFound, listRead⟩ :=
      node.reads (asStrs_exact "guardians" "guardian address") list
    obtain ⟨quorumValue, quorumFound, quorumRead⟩ :=
      node.reads (asU32_exact "guardian quorum") quorum
    exact ⟨listValue, listFound, g.guardians, listRead, quorumValue, quorumFound, g.quorum,
      quorumRead, rfl⟩

theorem Node.zk {z : ZkFactor} : zkFactorFromFields obj = .ok z ↔ RequiresZk obj z := by
  simp only [zkFactorFromFields, bind_eq_ok, Except.ok.injEq]
  constructor
  · rintro ⟨_, adapter, _, adapterRead, _, circuit, _, circuitRead, _, pool, _, poolRead, _,
      enrollment, _, enrollmentRead, _, commitment, _, commitmentRead, rfl⟩
    exact ⟨node.requires (asStr_exact _) adapter adapterRead,
      node.requires (asStr_exact _) circuit circuitRead,
      node.requires (asStr_exact _) pool poolRead,
      node.requires (asStr_exact _) enrollment enrollmentRead,
      node.requires (asStr_exact _) commitment commitmentRead⟩
  · rintro ⟨adapter, circuit, pool, enrollment, commitment⟩
    obtain ⟨_, adapterFound, adapterRead⟩ := node.reads (asStr_exact "zk adapter") adapter
    obtain ⟨_, circuitFound, circuitRead⟩ := node.reads (asStr_exact "zk circuit-id") circuit
    obtain ⟨_, poolFound, poolRead⟩ := node.reads (asStr_exact "zk pool") pool
    obtain ⟨_, enrollmentFound, enrollmentRead⟩ :=
      node.reads (asStr_exact "zk enrollment-id") enrollment
    obtain ⟨_, commitmentFound, commitmentRead⟩ :=
      node.reads (asStr_exact "zk commitment") commitment
    exact ⟨_, adapterFound, _, adapterRead, _, circuitFound, _, circuitRead, _, poolFound, _,
      poolRead, _, enrollmentFound, _, enrollmentRead, _, commitmentFound, _, commitmentRead, rfl⟩

end Factors

theorem recoveryModeFromValue_exact : Exact recoveryModeFromValue MeansMode := by
  intro v mode
  simp only [recoveryModeFromValue, bind_eq_ok, asObject_eq_ok]
  constructor
  · rintro ⟨obj, object, kind, tagged, read⟩
    split at read
    · simp only [bind_eq_ok, denyUnknown_eq_ok, Except.ok.injEq] at read
      obtain ⟨_, known, g, guardians, rfl⟩ := read
      have node : Node v _ obj := .of_counts object known (by
        simpa using ⟨count_of_tag tagged, count_of_guardians guardians⟩)
      exact ⟨obj, node, node.tag_eq_ok.mp tagged, node.guardians.mp guardians⟩
    · simp only [bind_eq_ok, denyUnknown_eq_ok, Except.ok.injEq] at read
      obtain ⟨_, known, z, zk, rfl⟩ := read
      have node : Node v _ obj := .of_counts object known (by
        simpa using ⟨count_of_tag tagged, count_of_zk zk⟩)
      exact ⟨obj, node, node.tag_eq_ok.mp tagged, node.zk.mp zk⟩
    · simp only [bind_eq_ok, denyUnknown_eq_ok, Except.ok.injEq] at read
      obtain ⟨_, known, g, guardians, z, zk, rfl⟩ := read
      have node : Node v _ obj := .of_counts object known (by
        simpa using ⟨count_of_tag tagged, (count_of_guardians guardians).1,
          (count_of_guardians guardians).2, count_of_zk zk⟩)
      exact ⟨obj, node, node.tag_eq_ok.mp tagged, node.guardians.mp guardians, node.zk.mp zk⟩
    · cases read
  · cases mode with
    | guardianOnly g =>
        rintro ⟨obj, node, tagged, guardians⟩
        refine ⟨obj, node.object, "guardian-only", node.tag_eq_ok.mpr tagged, ?_⟩
        simp only [bind_eq_ok, denyUnknown_eq_ok, Except.ok.injEq]
        exact ⟨(), node.known, g, node.guardians.mpr guardians, rfl⟩
    | zkOnly z =>
        rintro ⟨obj, node, tagged, zk⟩
        refine ⟨obj, node.object, "zk-only", node.tag_eq_ok.mpr tagged, ?_⟩
        simp only [bind_eq_ok, denyUnknown_eq_ok, Except.ok.injEq]
        exact ⟨(), node.known, z, node.zk.mpr zk, rfl⟩
    | combined g z =>
        rintro ⟨obj, node, tagged, guardians, zk⟩
        refine ⟨obj, node.object, "combined", node.tag_eq_ok.mpr tagged, ?_⟩
        simp only [bind_eq_ok, denyUnknown_eq_ok, Except.ok.injEq]
        exact ⟨(), node.known, g, node.guardians.mpr guardians, z, node.zk.mpr zk, rfl⟩

theorem baselineCommitmentFromValue_exact : Exact baselineCommitmentFromValue MeansBaseline := by
  intro v b
  simp only [baselineCommitmentFromValue, bind_eq_ok, asObject_eq_ok, denyUnknown_eq_ok,
    Except.ok.injEq]
  constructor
  · rintro ⟨obj, object, _, known, value, found, docHash, reads, rfl⟩
    have node : Node v _ obj := .of_counts object known (by simpa using count_of_reqField found)
    exact ⟨obj, node, node.requires (asStr_exact _) found reads⟩
  · rintro ⟨obj, node, held⟩
    obtain ⟨value, found, reads⟩ := node.reads (asStr_exact "baseline doc-hash") held
    exact ⟨obj, node.object, (), node.known, value, found, b.docHash, reads, rfl⟩

theorem recoveryFromValue_exact : Exact recoveryFromValue MeansRecovery := by
  intro v r
  simp only [recoveryFromValue, bind_eq_ok, asObject_eq_ok, denyUnknown_eq_ok, Except.ok.injEq]
  constructor
  · rintro ⟨obj, object, _, known, _, profile, _, profileRead, _, mode, _, modeRead, _, controller,
      _, controllerRead, baseline, baselineRead, _, replaceable, _, replaceableRead, _, delay, _,
      delayRead, _, expiry, _, expiryRead, _, cancels, _, cancelsRead, rfl⟩
    have node : Node v _ obj := .of_counts object known (by
      simpa using ⟨count_of_reqField profile, count_of_reqField mode, count_of_reqField controller,
        count_of_optional baselineRead, count_of_reqField replaceable, count_of_reqField delay,
        count_of_reqField expiry, count_of_reqField cancels⟩)
    exact ⟨obj, node, node.requires recoveryProfileFromValue_exact profile profileRead,
      node.requires recoveryModeFromValue_exact mode modeRead,
      node.requires (asStr_exact _) controller controllerRead,
      (node.allows baselineCommitmentFromValue_exact).mp baselineRead,
      node.requires (asStrs_exact _ _) replaceable replaceableRead,
      node.requires (asU32_exact _) delay delayRead,
      node.requires (asU32_exact _) expiry expiryRead,
      node.requires (asU32_exact _) cancels cancelsRead⟩
  · rintro ⟨obj, node, profile, mode, controller, baseline, replaceable, delay, expiry, cancels⟩
    obtain ⟨_, profileFound, profileRead⟩ := node.reads recoveryProfileFromValue_exact profile
    obtain ⟨_, modeFound, modeRead⟩ := node.reads recoveryModeFromValue_exact mode
    obtain ⟨_, controllerFound, controllerRead⟩ :=
      node.reads (asStr_exact "recovery controller") controller
    obtain ⟨_, replaceableFound, replaceableRead⟩ :=
      node.reads (asStrs_exact "recovery replaceable" "replaceable signer id") replaceable
    obtain ⟨_, delayFound, delayRead⟩ := node.reads (asU32_exact "recovery delay-ledgers") delay
    obtain ⟨_, expiryFound, expiryRead⟩ :=
      node.reads (asU32_exact "recovery expiry-ledgers") expiry
    obtain ⟨_, cancelsFound, cancelsRead⟩ := node.reads (asU32_exact "recovery max-cancels") cancels
    exact ⟨obj, node.object, (), node.known, _, profileFound, _, profileRead, _, modeFound, _,
      modeRead, _, controllerFound, _, controllerRead, _,
      (node.allows baselineCommitmentFromValue_exact).mpr baseline, _, replaceableFound, _,
      replaceableRead, _, delayFound, _, delayRead, _, expiryFound, _, expiryRead, _, cancelsFound,
      _, cancelsRead, rfl⟩

theorem docFromValue_exact : Exact docFromValue MeansDoc := by
  intro v doc
  simp only [docFromValue, bind_eq_ok, asObject_eq_ok, asArray_eq_ok, denyUnknown_eq_ok,
    mapM_exact signerFromValue_exact, mapM_exact ruleFromValue_exact, Except.ok.injEq]
  constructor
  · rintro ⟨obj, object, _, known, _, version, _, versionRead, network, networkRead, _, signers, _,
      rfl, _, signersRead, _, rules, _, rfl, _, rulesRead, recovery, recoveryRead, rfl⟩
    have node : Node v _ obj := .of_counts object known (by
      simpa using ⟨count_of_reqField version, count_of_optional networkRead,
        count_of_reqField signers, count_of_reqField rules, count_of_optional recoveryRead⟩)
    exact ⟨obj, node, node.requires (asU32_exact _) version versionRead,
      (node.allows (asStr_exact _)).mp networkRead,
      ⟨_, node.reqField_eq_ok.mp signers, _, rfl, signersRead⟩,
      ⟨_, node.reqField_eq_ok.mp rules, _, rfl, rulesRead⟩,
      (node.allows recoveryFromValue_exact).mp recoveryRead⟩
  · rintro ⟨obj, node, version, network, ⟨_, signers, _, rfl, signersMeant⟩,
      ⟨_, rules, _, rfl, rulesMeant⟩, recovery⟩
    obtain ⟨_, versionFound, versionRead⟩ := node.reads (asU32_exact "version") version
    exact ⟨obj, node.object, (), node.known, _, versionFound, _, versionRead, _,
      (node.allows (asStr_exact "network")).mpr network, _, node.reqField_eq_ok.mpr signers, _, rfl,
      _, signersMeant, _, node.reqField_eq_ok.mpr rules, _, rfl, _, rulesMeant, _,
      (node.allows recoveryFromValue_exact).mpr recovery, rfl⟩

/-! ### The order of members -/

mutual

/-- The same tree, up to the order of the members in each object. -/
inductive Reordered : Json → Json → Prop
  | refl (v : Json) : Reordered v v
  | array {items items' : List Json} (each : ReorderedItems items items') :
      Reordered (.array items) (.array items')
  | object {members middle members' : Members} (each : ReorderedMembers members middle)
      (order : middle.Perm members') : Reordered (.object members) (.object members')

inductive ReorderedItems : List Json → List Json → Prop
  | nil : ReorderedItems [] []
  | cons {v v' : Json} {items items' : List Json} (head : Reordered v v')
      (tail : ReorderedItems items items') : ReorderedItems (v :: items) (v' :: items')

inductive ReorderedMembers : Members → Members → Prop
  | nil : ReorderedMembers [] []
  | cons (key : String) {v v' : Json} {members members' : Members} (head : Reordered v v')
      (tail : ReorderedMembers members members') :
      ReorderedMembers ((key, v) :: members) ((key, v') :: members')

end

theorem ReorderedItems.forall₂ {items items' : List Json} (each : ReorderedItems items items') :
    List.Forall₂ Reordered items items' := by
  induction items generalizing items' with
  | nil =>
      cases each
      exact .nil
  | cons v items ih =>
      cases each with
      | cons head tail => exact .cons head (ih tail)

/-- One member, with the same key and the same value up to order. -/
def SameMember (a b : String × Json) : Prop := a.1 = b.1 ∧ Reordered a.2 b.2

theorem reorderedMembers_iff {members members' : Members} :
    ReorderedMembers members members' ↔ List.Forall₂ SameMember members members' := by
  constructor
  · intro each
    induction members generalizing members' with
    | nil =>
        cases each
        exact .nil
    | cons entry members ih =>
        cases each with
        | cons key head tail => exact .cons ⟨rfl, head⟩ (ih tail)
  · intro each
    induction each with
    | nil => exact .nil
    | @cons a b _ _ same _ ih =>
        obtain ⟨key, v⟩ := a
        obtain ⟨_, v'⟩ := b
        obtain ⟨rfl, head⟩ := same
        exact .cons key head ih

mutual

theorem Reordered.symm : ∀ {v v' : Json}, Reordered v v' → Reordered v' v
  | _, _, .refl v => .refl v
  | _, _, .array each => .array each.symm
  | _, _, .object each order => by
      obtain ⟨middle, same, back⟩ :=
        List.perm_comp_forall₂ order.symm (reorderedMembers_iff.mp each.symm)
      exact .object (reorderedMembers_iff.mpr same) back

theorem ReorderedItems.symm : ∀ {items items' : List Json},
    ReorderedItems items items' → ReorderedItems items' items
  | _, _, .nil => .nil
  | _, _, .cons head tail => .cons head.symm tail.symm

theorem ReorderedMembers.symm : ∀ {members members' : Members},
    ReorderedMembers members members' → ReorderedMembers members' members
  | _, _, .nil => .nil
  | _, _, .cons key head tail => .cons key head.symm tail.symm

end

structure SameMembers (obj obj' : Members) : Prop where
  keys : (obj.map Prod.fst).Perm (obj'.map Prod.fst)
  forward : ∀ name v, (name, v) ∈ obj → ∃ v', (name, v') ∈ obj' ∧ Reordered v v'

def Respects {α : Type} (means : Meaning α) : Prop :=
  ∀ (v v' : Json) (value : α), Reordered v v' → means v value → means v' value

theorem Node.reordered {v v' : Json} {known : List String} {obj : Members}
    (node : Node v known obj) (same : Reordered v v') :
    ∃ obj', Node v' known obj' ∧ SameMembers obj obj' := by
  obtain rfl := node.object
  cases same with
  | refl => exact ⟨obj, node, .refl _, fun _ v held => ⟨v, held, .refl v⟩⟩
  | @object _ middle members' each order =>
      have aligned := reorderedMembers_iff.mp each
      have sameKeys : obj.map Prod.fst = middle.map Prod.fst :=
        map_eq_of_forall₂ (aligned.imp fun _ _ same => same.1)
      have keys : (obj.map Prod.fst).Perm (members'.map Prod.fst) := by
        rw [sameKeys]
        exact order.map Prod.fst
      refine ⟨members', ⟨rfl, ?_, keys.nodup_iff.mp node.distinct⟩, keys, ?_⟩
      · intro entry held
        have listed := keys.mem_iff.mpr (List.mem_map_of_mem held)
        obtain ⟨original, present, named⟩ := List.mem_map.mp listed
        exact named ▸ node.known original present
      · intro name v held
        obtain ⟨⟨key, v'⟩, present, sameKey, sameValue⟩ := exists_of_mem_left aligned held
        obtain rfl : name = key := sameKey
        exact ⟨v', order.mem_iff.mp present, sameValue⟩

section Order

variable {obj obj' : Members} {name : String}

theorem Requires.reordered {α : Type} {means : Meaning α} (respects : Respects means) {value : α}
    (same : SameMembers obj obj') (required : Requires obj name means value) :
    Requires obj' name means value := by
  obtain ⟨v, held, meant⟩ := required
  obtain ⟨v', held', sameValue⟩ := same.forward name v held
  exact ⟨v', held', respects v v' value sameValue meant⟩

theorem Allows.reordered {α : Type} {means : Meaning α} (respects : Respects means)
    {value : Option α} (same : SameMembers obj obj') (allowed : Allows obj name means value) :
    Allows obj' name means value := by
  cases value with
  | none => exact fun present => allowed (same.keys.mem_iff.mpr present)
  | some value =>
      obtain ⟨v, held, notNull, meant⟩ := allowed
      obtain ⟨v', held', sameValue⟩ := same.forward name v held
      refine ⟨v', held', ?_, respects v v' value sameValue meant⟩
      rintro rfl
      cases sameValue
      exact notNull rfl

/-- What is said of a node's members alone is said up to their order. -/
theorem node_reordered {v v' : Json} {known : List String} {body : Members → Prop}
    (bodies : ∀ {obj obj'}, SameMembers obj obj' → body obj → body obj') (same : Reordered v v')
    (meant : ∃ obj, Node v known obj ∧ body obj) : ∃ obj, Node v' known obj ∧ body obj := by
  obtain ⟨obj, node, holds⟩ := meant
  obtain ⟨obj', node', sameMembers⟩ := node.reordered same
  exact ⟨obj', node', bodies sameMembers holds⟩

end Order

theorem meansString_respects : Respects MeansString := by
  rintro v v' text same rfl
  cases same
  rfl

theorem meansU32_respects : Respects MeansU32 := by
  rintro v v' value same ⟨digits, rfl, decimal⟩
  cases same
  exact ⟨digits, rfl, decimal⟩

theorem meansList_respects {α : Type} {item : Meaning α} (respects : Respects item) :
    Respects (MeansList item) := by
  rintro v v' values same ⟨items, rfl, meant⟩
  cases same with
  | refl => exact ⟨items, rfl, meant⟩
  | @array _ items' each =>
      refine ⟨items', rfl, ?_⟩
      have aligned := each.forall₂
      clear each
      induction meant generalizing items' with
      | nil =>
          cases aligned
          exact .nil
      | cons head _ ih =>
          cases aligned with
          | cons sameHead sameTail => exact .cons (respects _ _ _ sameHead head) (ih sameTail)

theorem meansStrings_respects : Respects (MeansList MeansString) :=
  meansList_respects meansString_respects

theorem meansSigner_respects : Respects MeansSigner := by
  rintro v v' ⟨id, method⟩ same meant
  cases method with
  | delegated address =>
      refine node_reordered ?_ same meant
      rintro obj obj' order ⟨held, idHeld⟩
      exact ⟨held.reordered meansString_respects order, idHeld.reordered meansString_respects order⟩
  | external verifier key =>
      refine node_reordered ?_ same meant
      rintro obj obj' order ⟨held, keyHeld, idHeld⟩
      exact ⟨held.reordered meansString_respects order,
        keyHeld.reordered meansString_respects order, idHeld.reordered meansString_respects order⟩

theorem meansScope_respects : Respects MeansScope := by
  intro v v' scope same meant
  cases scope with
  | contract address =>
      refine node_reordered ?_ same meant
      rintro obj obj' order ⟨tagged, held⟩
      exact ⟨tagged.reordered meansString_respects order,
        held.reordered meansString_respects order⟩
  | selfAdmin =>
      refine node_reordered ?_ same meant
      intro obj obj' order tagged
      exact tagged.reordered meansString_respects order

theorem meansPrincipals_respects : Respects MeansPrincipals := by
  intro v v' principals same meant
  cases principals with
  | all signers =>
      refine node_reordered ?_ same meant
      rintro obj obj' order ⟨tagged, held⟩
      exact ⟨tagged.reordered meansString_respects order,
        held.reordered meansStrings_respects order⟩
  | threshold signers m =>
      refine node_reordered ?_ same meant
      rintro obj obj' order ⟨tagged, held, mHeld⟩
      exact ⟨tagged.reordered meansString_respects order,
        held.reordered meansStrings_respects order, mHeld.reordered meansU32_respects order⟩
  | selfAuthenticating policy hex ack =>
      refine node_reordered ?_ same meant
      rintro obj obj' order ⟨tagged, held, hexHeld, ackHeld⟩
      exact ⟨tagged.reordered meansString_respects order,
        held.reordered meansString_respects order, hexHeld.reordered meansString_respects order,
        ackHeld.reordered meansString_respects order⟩

theorem meansPred_respects : Respects MeansPred := by
  intro v v' pred same meant
  cases pred with
  | isSelf =>
      refine node_reordered ?_ same meant
      intro obj obj' order tagged
      exact tagged.reordered meansString_respects order
  | addressEq address =>
      refine node_reordered ?_ same meant
      rintro obj obj' order ⟨tagged, held⟩
      exact ⟨tagged.reordered meansString_respects order,
        held.reordered meansString_respects order⟩
  | stringIn values =>
      refine node_reordered ?_ same meant
      rintro obj obj' order ⟨tagged, held⟩
      exact ⟨tagged.reordered meansString_respects order,
        held.reordered meansStrings_respects order⟩
  | stringPrefix initial =>
      refine node_reordered ?_ same meant
      rintro obj obj' order ⟨tagged, held⟩
      exact ⟨tagged.reordered meansString_respects order,
        held.reordered meansString_respects order⟩
  | u32Eq value =>
      refine node_reordered ?_ same meant
      rintro obj obj' order ⟨tagged, held⟩
      exact ⟨tagged.reordered meansString_respects order, held.reordered meansU32_respects order⟩

theorem meansArg_respects : Respects MeansArg := by
  intro v v' a same meant
  refine node_reordered ?_ same meant
  rintro obj obj' order ⟨index, pred⟩
  exact ⟨index.reordered meansU32_respects order, pred.reordered meansPred_respects order⟩

theorem meansCap_respects : Respects MeansCap := by
  intro v v' cap same meant
  refine node_reordered ?_ same meant
  rintro obj obj' order ⟨token, limit, period⟩
  exact ⟨token.reordered meansString_respects order, limit.reordered meansString_respects order,
    period.reordered meansU32_respects order⟩

theorem meansRule_respects : Respects MeansRule := by
  intro v v' r same meant
  refine node_reordered ?_ same meant
  rintro obj obj' order ⟨name, scope, principals, functions, args, ledger, cap⟩
  exact ⟨name.reordered meansString_respects order, scope.reordered meansScope_respects order,
    principals.reordered meansPrincipals_respects order,
    functions.reordered meansStrings_respects order,
    args.reordered (meansList_respects meansArg_respects) order,
    ledger.reordered meansU32_respects order, cap.reordered meansCap_respects order⟩

theorem meansProfile_respects : Respects MeansProfile := by
  rintro v v' profile same rfl
  cases same
  rfl

theorem RequiresGuardians.reordered {obj obj' : Members} {g : GuardianSet}
    (order : SameMembers obj obj') (held : RequiresGuardians obj g) : RequiresGuardians obj' g :=
  ⟨held.1.reordered meansStrings_respects order, held.2.reordered meansU32_respects order⟩

theorem RequiresZk.reordered {obj obj' : Members} {z : ZkFactor} (order : SameMembers obj obj')
    (held : RequiresZk obj z) : RequiresZk obj' z := by
  obtain ⟨adapter, circuit, pool, enrollment, commitment⟩ := held
  exact ⟨adapter.reordered meansString_respects order,
    circuit.reordered meansString_respects order, pool.reordered meansString_respects order,
    enrollment.reordered meansString_respects order,
    commitment.reordered meansString_respects order⟩

theorem meansMode_respects : Respects MeansMode := by
  intro v v' mode same meant
  cases mode with
  | guardianOnly g =>
      refine node_reordered ?_ same meant
      rintro obj obj' order ⟨tagged, guardians⟩
      exact ⟨tagged.reordered meansString_respects order, guardians.reordered order⟩
  | zkOnly z =>
      refine node_reordered ?_ same meant
      rintro obj obj' order ⟨tagged, zk⟩
      exact ⟨tagged.reordered meansString_respects order, zk.reordered order⟩
  | combined g z =>
      refine node_reordered ?_ same meant
      rintro obj obj' order ⟨tagged, guardians, zk⟩
      exact ⟨tagged.reordered meansString_respects order, guardians.reordered order,
        zk.reordered order⟩

theorem meansBaseline_respects : Respects MeansBaseline := by
  intro v v' b same meant
  refine node_reordered ?_ same meant
  intro obj obj' order held
  exact held.reordered meansString_respects order

theorem meansRecovery_respects : Respects MeansRecovery := by
  intro v v' r same meant
  refine node_reordered ?_ same meant
  rintro obj obj' order ⟨profile, mode, controller, baseline, replaceable, delay, expiry, cancels⟩
  exact ⟨profile.reordered meansProfile_respects order, mode.reordered meansMode_respects order,
    controller.reordered meansString_respects order,
    baseline.reordered meansBaseline_respects order,
    replaceable.reordered meansStrings_respects order, delay.reordered meansU32_respects order,
    expiry.reordered meansU32_respects order, cancels.reordered meansU32_respects order⟩

theorem meansDoc_respects : Respects MeansDoc := by
  intro v v' doc same meant
  refine node_reordered ?_ same meant
  rintro obj obj' order ⟨version, network, signers, rules, recovery⟩
  exact ⟨version.reordered meansU32_respects order, network.reordered meansString_respects order,
    signers.reordered (meansList_respects meansSigner_respects) order,
    rules.reordered (meansList_respects meansRule_respects) order,
    recovery.reordered meansRecovery_respects order⟩

/-! ### Documents from JSON -/

theorem checkVersionMember_eq_error {member : String × Json} {failure : ParseError}
    (refused : checkVersionMember member = .error failure) :
    ∃ version, failure = .unsupportedVersion version := by
  unfold checkVersionMember at refused
  split at refused
  · split at refused
    · split at refused
      · exact ⟨_, (Except.error.inj refused).symm⟩
      · cases refused
    · cases refused
  · cases refused

theorem checkVersionMember_eq_ok {member : String × Json} {done : Unit} :
    checkVersionMember member = .ok done ↔
      ∀ digits version, member = ("version", .number digits true) → Decimal digits version →
        version < 18446744073709551616 → version = 1 := by
  constructor
  · rintro accepted digits version rfl decimal small
    simp only [checkVersionMember, parseUnsigned_eq_some.mpr ⟨decimal, small⟩] at accepted
    by_contra other
    simp [other] at accepted
  · intro supported
    unfold checkVersionMember
    split
    · split
      · rename_i parsed
        obtain ⟨decimal, small⟩ := parseUnsigned_eq_some.mp parsed
        rw [if_neg (not_not.mpr (supported _ _ rfl decimal small))]
      · rfl
    · rfl

theorem checkVersion_object (members : Members) :
    (checkVersion (.object members) = .ok () ∧
        ∀ member ∈ members, checkVersionMember member = .ok ()) ∨
      ∃ version, checkVersion (.object members) = .error (.unsupportedVersion version) := by
  change (members.forM checkVersionMember = .ok () ∧ _) ∨
    ∃ version, members.forM checkVersionMember = .error (.unsupportedVersion version)
  induction members with
  | nil => exact .inl ⟨rfl, by simp⟩
  | cons member rest ih =>
      rw [List.forM_eq_forM] at ih ⊢
      rw [List.forM_cons]
      cases checked : checkVersionMember member with
      | error failure =>
          obtain ⟨version, rfl⟩ := checkVersionMember_eq_error checked
          exact .inr ⟨version, rfl⟩
      | ok done =>
          rw [ok_bind]
          rcases ih with ⟨accepted, each⟩ | refused
          · exact .inl ⟨accepted, List.forall_mem_cons.mpr ⟨checked, each⟩⟩
          · exact .inr refused

theorem Decimal.unique {digits : String} {first second : Nat} (decimal : Decimal digits first)
    (decimal' : Decimal digits second) : first = second := by
  have parsed : parseUnsigned (max first second + 1) digits = some first :=
    parseUnsigned_eq_some.mpr ⟨decimal, by omega⟩
  have parsed' : parseUnsigned (max first second + 1) digits = some second :=
    parseUnsigned_eq_some.mpr ⟨decimal', by omega⟩
  exact Option.some.inj (parsed.symm.trans parsed')

theorem checkVersionMember_of_meansU32 {v : Json} {value : UInt32} (meant : MeansU32 v value) :
    checkVersionMember ("version", v) = .ok () ↔ value = 1 := by
  obtain ⟨digits, rfl, decimal⟩ := meant
  rw [checkVersionMember_eq_ok]
  constructor
  · intro supported
    have one := supported digits value.toNat rfl decimal (value.toNat_lt.trans (by decide))
    exact UInt32.toNat.inj one
  · rintro rfl other version same decimal' _
    obtain rfl : digits = other := by
      injection same with _ same
      injection same
    exact decimal'.unique decimal

/-- The early check passes exactly the documents of version 1. -/
theorem checkVersion_of_meansDoc {tree : Json} {doc : PolicyDoc} (meant : MeansDoc tree doc) :
    checkVersion tree = .ok () ↔ doc.version = 1 := by
  obtain ⟨obj, node, ⟨v, held, version⟩, _⟩ := meant
  obtain rfl := node.object
  constructor
  · intro checked
    rcases checkVersion_object obj with ⟨_, each⟩ | ⟨_, refused⟩
    · exact (checkVersionMember_of_meansU32 version).mp (each _ held)
    · rw [checked] at refused
      cases refused
  · intro one
    apply forM_eq_ok.mpr
    intro member present
    rw [checkVersionMember_eq_ok]
    rintro digits number rfl decimal small
    have sameValue : Json.number digits true = v := by
      have same := List.inj_on_of_nodup_map node.distinct present held rfl
      injection same
    have accepted := (checkVersionMember_of_meansU32 version).mpr one
    rw [← sameValue, checkVersionMember_eq_ok] at accepted
    exact accepted digits number rfl decimal small

theorem fromJson_of_lexed {lexer : JsonLexer} {input : String} {tree : Json}
    (lexed : lexer input = .ok tree) :
    fromJson lexer input = (do checkVersion tree; docFromValue tree) := by
  rw [fromJson, lexed]
  rfl

theorem fromJson_eq_ok {lexer : JsonLexer} {input : String} {tree : Json}
    (lexed : lexer input = .ok tree) {doc : PolicyDoc} :
    fromJson lexer input = .ok doc ↔ MeansDoc tree doc ∧ doc.version = 1 := by
  simp only [fromJson_of_lexed lexed, bind_eq_ok]
  constructor
  · rintro ⟨_, checked, read⟩
    have meant := (docFromValue_exact tree doc).mp read
    exact ⟨meant, (checkVersion_of_meansDoc meant).mp checked⟩
  · rintro ⟨meant, one⟩
    exact ⟨(), (checkVersion_of_meansDoc meant).mpr one, (docFromValue_exact tree doc).mpr meant⟩

/-- The parser accepts the version-1 documents of the grammar and nothing
else, whatever the order of their members, and an unsupported version is
reported before every other fault. -/
theorem fromJson_accepts_grammar (lexer : JsonLexer) (input : String) (tree : Json)
    (lexed : lexer input = .ok tree) :
    (∀ doc, fromJson lexer input = .ok doc ↔ MeansDoc tree doc ∧ doc.version = 1) ∧
    (∀ (input' : String) (tree' : Json), lexer input' = .ok tree' → Reordered tree tree' →
      ∀ doc, fromJson lexer input = .ok doc ↔ fromJson lexer input' = .ok doc) ∧
    ∀ members digits version, tree = .object members →
      ("version", .number digits true) ∈ members → Decimal digits version →
      version < 18446744073709551616 → version ≠ 1 →
      ∃ reported, fromJson lexer input = .error (.unsupportedVersion reported) := by
  refine ⟨fun doc => fromJson_eq_ok lexed, ?_, ?_⟩
  · intro input' tree' lexed' same doc
    rw [fromJson_eq_ok lexed, fromJson_eq_ok lexed']
    constructor
    · rintro ⟨meant, one⟩
      exact ⟨meansDoc_respects _ _ _ same meant, one⟩
    · rintro ⟨meant, one⟩
      exact ⟨meansDoc_respects _ _ _ same.symm meant, one⟩
  · rintro members digits version rfl present decimal small other
    rcases checkVersion_object members with ⟨_, each⟩ | ⟨reported, refused⟩
    · have supported := checkVersionMember_eq_ok.mp (each _ present)
      exact absurd (supported digits version rfl decimal small) other
    · refine ⟨reported, ?_⟩
      rw [fromJson_of_lexed lexed, refused]
      rfl

/-- A document with a signer and a recovery member is in the grammar. -/
theorem fromJson_accepts_grammar_sample :
    let doc : PolicyDoc :=
      { version := 1
        network := none
        signers := [{ id := "a", method := .delegated "G" }]
        rules := []
        recovery := some
          { profile := .loss
            mode := .guardianOnly { guardians := ["G"], quorum := 1 }
            controller := "C"
            baseline := none
            replaceable := ["a"]
            delayLedgers := 1
            expiryLedgers := 2
            maxCancels := 1 } }
    MeansDoc (docToCv doc).tree doc := by
  intro doc
  have accepted := fromJson_accepts_grammar jsonReader (canonicalJson doc) (docToCv doc).tree
    (lexer_canonicalJson jsonReader_conforms doc)
  have read : fromJson jsonReader (canonicalJson doc) = .ok doc :=
    fromJson_canonicalJson jsonReader_conforms rfl
  exact ((accepted.1 doc).mp read).1

end Perch.Ir
