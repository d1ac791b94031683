import Mathlib.Algebra.Ring.Nat
import Mathlib.Data.List.DropRight
import Mathlib.Order.Nat
import Mathlib.Tactic.Common

/-!
# The database's vocabulary

Statements and functions of the database either give a value or raise an error
with an SQLSTATE.  A raised error leaves no effect, so a statement is modelled
as a function into `Sql`, which is `Except SqlError`.  A nullable column or
argument is an `Option`.

Text is a `String` and `length` counts its code points.  A UUID is a number
with the usual text form.  Instants are microseconds; like the database's
`timestamptz` they include two infinities.
-/

namespace FleetOps

/-! ## Errors -/

/-- The SQLSTATE codes that the migrations raise or rely on. -/
inductive SqlState
  /-- `42501` -/
  | insufficientPrivilege
  /-- `P0002` -/
  | noDataFound
  /-- `40001` -/
  | serializationFailure
  /-- `P0001` -/
  | raiseException
  /-- `22003` -/
  | numericValueOutOfRange
  /-- `23502` -/
  | notNullViolation
  /-- `23503` -/
  | foreignKeyViolation
  /-- `23505` -/
  | uniqueViolation
  /-- `23514` -/
  | checkViolation
  deriving DecidableEq, Repr

/-- A raised database error. -/
structure SqlError where
  state : SqlState
  message : String
  deriving DecidableEq, Repr

/-- A statement's outcome. -/
abbrev Sql := Except SqlError

/-- `RAISE EXCEPTION USING ERRCODE = …, MESSAGE = …`. -/
def raise {α : Type} (state : SqlState) (message : String) : Sql α := .error ⟨state, message⟩

/-- `IF NOT condition THEN RAISE EXCEPTION`. -/
def require (condition : Prop) [Decidable condition] (state : SqlState) (message : String) :
    Sql Unit :=
  if condition then .ok () else raise state message

/-- A row or value that has to be there. -/
def demand {α : Type} (value : Option α) (state : SqlState) (message : String) : Sql α :=
  match value with
  | some found => .ok found
  | none => raise state message

/-- The `NOT NULL` constraint on a column. -/
def notNull {α : Type} (value : Option α) (column : String) : Sql α :=
  demand value .notNullViolation column

section

variable {α β : Type} {state : SqlState} {message column : String}

@[simp] theorem raise_ne_ok {value : α} : (raise state message : Sql α) ≠ .ok value := by
  simp [raise]

@[simp] theorem require_eq_ok {condition : Prop} [Decidable condition] {u : Unit} :
    require condition state message = .ok u ↔ condition := by
  unfold require
  split <;> simp_all

@[simp] theorem demand_eq_ok {value : Option α} {found : α} :
    demand value state message = .ok found ↔ value = some found := by
  cases value <;> simp [demand]

@[simp] theorem notNull_eq_ok {value : Option α} {found : α} :
    notNull value column = .ok found ↔ value = some found := demand_eq_ok

@[simp] theorem pure_eq_ok {ε : Type} {value result : α} :
    (pure value : Except ε α) = .ok result ↔ value = result := by
  simp [pure, Except.pure]

/-- A sequence of statements succeeds when each of them does. -/
@[simp] theorem bind_eq_ok {ε : Type} {first : Except ε α} {next : α → Except ε β} {result : β} :
    (first >>= next) = .ok result ↔ ∃ value, first = .ok value ∧ next value = .ok result := by
  cases first <;> simp [bind, Except.bind]

/-- What follows a statement may be replaced by what succeeds whenever it does, with its result. -/
theorem bind_imp {ε : Type} {first : Except ε α} {next next' : α → Except ε β} {result : β}
    (h : ∀ value, next value = .ok result → next' value = .ok result) :
    (first >>= next) = .ok result → (first >>= next') = .ok result := by
  simp only [bind_eq_ok]
  exact fun ⟨value, hfirst, hnext⟩ => ⟨value, hfirst, h value hnext⟩

@[simp] theorem exists_unit {p : Unit → Prop} : (∃ u, p u) ↔ p () :=
  ⟨fun ⟨_, h⟩ => h, fun h => ⟨_, h⟩⟩

end

/-! ## Numbers and instants -/

/-- The largest value of the database's 32-bit `integer`. -/
def intMax : ℕ := 2147483647

/-- Addition of `integer` values, which raises instead of wrapping. -/
def addInteger (a b : ℕ) : Sql ℕ :=
  if a + b ≤ intMax then .ok (a + b) else raise .numericValueOutOfRange "integer out of range"

@[simp] theorem addInteger_eq_ok {a b c : ℕ} :
    addInteger a b = .ok c ↔ a + b ≤ intMax ∧ a + b = c := by
  unfold addInteger
  by_cases h : a + b ≤ intMax <;> simp [h]

/-- `timestamptz`, in microseconds. -/
inductive Timestamp
  | negInfinity
  | at (micros : ℤ)
  | infinity
  deriving DecidableEq, Repr

/-- `isfinite(timestamptz)`. -/
def Timestamp.isFinite : Timestamp → Bool
  | .at _ => true
  | _ => false

/-! ## Text and identifiers -/

/-- Drop the characters in a set from both ends. -/
def trimWhere (drop : Char → Bool) (text : String) : String :=
  String.ofList ((text.toList.dropWhile drop).reverse.dropWhile drop).reverse

/-- `btrim(text)`, which removes spaces only. -/
def btrim (text : String) : String := trimWhere (· == ' ') text

/-- The Unicode whitespace of the request boundary, by code point. -/
def correctionWhitespace : List ℕ :=
  [9, 10, 11, 12, 13, 28, 29, 30, 31, 32, 133, 160, 5760, 8192, 8193, 8194, 8195, 8196, 8197,
    8198, 8199, 8200, 8201, 8202, 8232, 8233, 8239, 8287, 12288]

/-- `normalize_correction_reason`, a trim that does not depend on the database's locale. -/
def normalizeCorrectionReason (text : String) : String :=
  trimWhere (fun c => correctionWhitespace.contains c.toNat) text

/-- A list that no end drops anything of. -/
theorem dropWhile_eq_self_of_imp {drop more : Char → Bool}
    (himp : ∀ c, drop c = true → more c = true) {chars : List Char}
    (h : chars.dropWhile more = chars) : chars.dropWhile drop = chars := by
  cases chars with
  | nil => rfl
  | cons c rest =>
      have hkept : more c = false := by
        by_contra hdropped
        rw [Bool.not_eq_false] at hdropped
        rw [List.dropWhile_cons_of_pos hdropped] at h
        have hlength := (List.dropWhile_sublist more (l := rest)).length_le
        rw [h, List.length_cons] at hlength
        omega
      refine List.dropWhile_cons_of_neg fun hdrop => ?_
      rw [himp c hdrop] at hkept
      exact Bool.noConfusion hkept

/-- A text that a trim leaves alone is left alone by a trim of fewer characters. -/
theorem trimWhere_eq_self_of_imp {drop more : Char → Bool}
    (himp : ∀ c, drop c = true → more c = true) {text : String} (h : trimWhere more text = text) :
    trimWhere drop text = text := by
  have hlist : ((text.toList.dropWhile more).reverse.dropWhile more).reverse = text.toList := by
    rw [← String.toList_ofList (l := List.reverse _)]
    exact congrArg String.toList h
  have houter := (List.dropWhile_sublist more (l := (text.toList.dropWhile more).reverse)).length_le
  have hinner := (List.dropWhile_sublist more (l := text.toList)).length_le
  have hlength := congrArg List.length hlist
  simp only [List.length_reverse] at houter hlength
  have hfront : text.toList.dropWhile more = text.toList :=
    (List.dropWhile_sublist more).eq_of_length (by omega)
  rw [hfront] at hlist
  have hback : text.toList.reverse.dropWhile more = text.toList.reverse := by
    rw [← List.reverse_inj, hlist, List.reverse_reverse]
  rw [trimWhere, dropWhile_eq_self_of_imp himp hfront, dropWhile_eq_self_of_imp himp hback,
    List.reverse_reverse, String.ofList_toList]

/-- A trim leaves nothing to trim. -/
theorem trimWhere_idempotent (drop : Char → Bool) (text : String) :
    trimWhere drop (trimWhere drop text) = trimWhere drop text := by
  let middle := text.toList.dropWhile drop
  have hmiddle : middle.dropWhile drop = middle := List.dropWhile_idempotent _ _
  have hfront : (middle.rdropWhile drop).dropWhile drop = middle.rdropWhile drop := by
    rw [List.dropWhile_eq_self_iff] at hmiddle ⊢
    intro hlength
    have hstarts := List.rdropWhile_prefix drop (l := middle)
    rw [hstarts.getElem hlength]
    exact hmiddle (hlength.trans_le hstarts.length_le)
  have hback := List.rdropWhile_idempotent drop middle
  unfold trimWhere
  rw [String.toList_ofList]
  show String.ofList (List.rdropWhile drop ((middle.rdropWhile drop).dropWhile drop)) = _
  rw [hfront, hback]
  rfl

/-- A trim leaves a text alone that neither begins nor ends with what it drops. -/
theorem trimWhere_eq_self {drop : Char → Bool} {text : String}
    (hfirst : ∀ c ∈ text.toList.head?, drop c = false)
    (hlast : ∀ c ∈ text.toList.getLast?, drop c = false) : trimWhere drop text = text := by
  have hkept : ∀ {chars : List Char}, (∀ c ∈ chars.head?, drop c = false) →
      chars.dropWhile drop = chars := by
    intro chars h
    cases chars with
    | nil => rfl
    | cons c rest => exact List.dropWhile_cons_of_neg (by simp [h c rfl])
  rw [trimWhere, hkept hfirst, hkept (by rwa [List.head?_reverse]), List.reverse_reverse,
    String.ofList_toList]

/-- Only the ends of a text are trimmed. -/
theorem trimWhere_append {drop : Char → Bool} {opening middle closing : String} {first last : Char}
    {rest : List Char} (hopening : opening.toList = first :: rest) (hfirst : drop first = false)
    (hclosing : closing.toList = [last]) (hlast : drop last = false) :
    trimWhere drop (opening ++ middle ++ closing) = opening ++ middle ++ closing := by
  apply trimWhere_eq_self
  · intro c hc
    rw [String.toList_append, String.toList_append, hopening, List.cons_append, List.cons_append,
      List.head?_cons] at hc
    obtain rfl := Option.mem_some.mp hc
    exact hfirst
  · intro c hc
    rw [String.toList_append, hclosing, List.getLast?_concat] at hc
    obtain rfl := Option.mem_some.mp hc
    exact hlast

/-- A normalized reason has no spaces around it either. -/
theorem btrim_of_normalized {text : String} (h : normalizeCorrectionReason text = text) :
    btrim text = text := by
  refine trimWhere_eq_self_of_imp (fun c hc => ?_) h
  rw [beq_iff_eq] at hc
  subst hc
  decide

/-- A UUID, as the 128-bit number it stands for. -/
abbrev Uuid := ℕ

/-- A hexadecimal digit of a number's text form. -/
def hexDigit (n : ℕ) : Char := "0123456789abcdef".toList.getD n '0'

/-- The lowest `digits` hexadecimal digits of a number. -/
def hexText : ℕ → ℕ → List Char
  | 0, _ => []
  | digits + 1, n => hexText digits (n / 16) ++ [hexDigit (n % 16)]

/-- `uuid::text`, as in `00000000-0000-0000-0000-000000000000`. -/
def uuidText (id : Uuid) : String :=
  String.ofList <|
    hexText 8 (id / 16 ^ 24) ++ '-' :: hexText 4 (id / 16 ^ 20) ++ '-' :: hexText 4 (id / 16 ^ 16) ++
      '-' :: hexText 4 (id / 16 ^ 12) ++ '-' :: hexText 12 id

/-! ## Sessions -/

/-- What the digest of a session token resolves to. -/
structure Credential where
  org : Uuid
  actor : Option Uuid
  deriving DecidableEq, Repr

/-- The settings under which a statement runs. -/
structure Session where
  /-- `fleetops.org_id` -/
  organization : Option Uuid
  /-- `resolve_session` of `fleetops.session_digest_hex`, if that is a valid credential. -/
  credential : Option Credential
  /-- `fleetops.actor_id`, a caller's own hint. -/
  actorHint : Option Uuid
  /-- `statement_timestamp()` -/
  now : Timestamp
  deriving DecidableEq, Repr

/-- The organization that a boundary works for. -/
def trustedOrganization (session : Session) (message : String) : Sql Uuid :=
  demand session.organization .insufficientPrivilege message

/-- `current_authenticated_actor`. -/
def currentAuthenticatedActor (session : Session) : Sql Uuid := do
  let message := "Authenticated credential required"
  let org ← demand session.organization .insufficientPrivilege message
  let credential ← demand session.credential .insufficientPrivilege message
  require (credential.org = org) .insufficientPrivilege message
  demand credential.actor .insufficientPrivilege message

/-- `enforce_authenticated_creator`: a row names its real performer. -/
def enforceAuthenticatedCreator (session : Session) (performer : Uuid) : Sql Unit := do
  let actor ← currentAuthenticatedActor session
  require (performer = actor) .insufficientPrivilege "Authenticated Actor mismatch"

end FleetOps
