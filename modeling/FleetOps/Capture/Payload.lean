import FleetOps.Foundations.Json
import Mathlib.Tactic.Ring
import Mathlib.Tactic.NormNum

/-!
# Queued payloads

The request schema bounds a payload by the size of its own serialisation, and
the table that records it by the size of the database's.  The two write strings,
separators and most numbers alike; a number that the first writes with an
exponent the second writes in positional notation, and a string that contains
U+0000 it does not take at all.
-/

namespace FleetOps

open Json

/-! ## Numbers -/

/-- The shortest decimal that reads back as a finite `float`: `0.d₁d₂…` times a power of ten, as
`repr` finds it. -/
structure FloatDecimal where
  negative : Bool
  digits : List (Fin 10)
  /-- Where the decimal point stands relative to the first digit. -/
  point : ℤ
  shortest : digits ≠ [] ∧ digits.length ≤ 17
  leading : digits.head? ≠ some 0 ∨ digits = [0] ∧ point = 1
  range : -323 ≤ point ∧ point ≤ 309
  deriving DecidableEq

/-- A number of a parsed request. -/
inductive PyNumber
  | int (value : ℤ)
  | float (value : FloatDecimal)
  /-- `nan`, `inf` or `-inf`. -/
  | nonFinite (text : String)
  deriving DecidableEq

namespace FloatDecimal

variable (x : FloatDecimal)

def sign : Text := if x.negative then ['-'] else []

def digitText : Text := x.digits.map fun d : Fin 10 => Nat.digitChar d.val

/-- `repr` uses an exponent. -/
def exponential : Bool := decide (x.point ≤ -4 ∨ 16 < x.point)

/-- At least two digits of an exponent. -/
def exponentText (exponent : ℕ) : Text :=
  if exponent < 10 then '0' :: Nat.toDigits 10 exponent else Nat.toDigits 10 exponent

/-- The digits with a point after the first of several. -/
def mantissa : Text :=
  match x.digitText with
  | [] => []
  | [digit] => [digit]
  | digit :: rest => digit :: '.' :: rest

/-- The digits around the decimal point, without trailing zeros after it. -/
def positional : Text :=
  if x.point ≤ 0 then '0' :: '.' :: List.replicate x.point.natAbs '0' ++ x.digitText
  else if x.digits.length ≤ x.point.natAbs then
    x.digitText ++ List.replicate (x.point.natAbs - x.digits.length) '0'
  else x.digitText.take x.point.natAbs ++ '.' :: x.digitText.drop x.point.natAbs

/-- `.0` is added to a whole number that is not written with an exponent. -/
def whole : Text :=
  if 0 < x.point ∧ x.digits.length ≤ x.point.natAbs ∧ ¬x.exponential then ['.', '0'] else []

/-- `float.__repr__`. -/
def repr : Text :=
  if x.exponential then
    x.sign ++ x.mantissa ++ 'e' :: (if 0 < x.point then '+' else '-') ::
      exponentText (x.point - 1).natAbs
  else x.sign ++ x.positional ++ x.whole

/-- The `numeric` that is read from this `repr`, printed: its scale is that of the literal, and
zero has no sign. -/
def numeric : Text :=
  (if x.digits = [0] then [] else x.sign) ++ x.positional ++ x.whole

/-- The bytes that positional notation takes beyond an exponent's: the zeros up to the decimal
point, less the mantissa's point and the exponent. -/
def excess : ℤ :=
  if x.exponential then
    (if 0 < x.point then x.point - x.digits.length - 2 else -x.point) -
      (if 1 < x.digits.length then 1 else 0) - (if (x.point - 1).natAbs < 100 then 2 else 3)
  else if x.digits = [0] ∧ x.negative then -1 else 0

end FloatDecimal

/-- `json.dumps` of a number. -/
def PyNumber.dumps : PyNumber → Text
  | .int value => (toString value).toList
  | .float x => x.repr
  | .nonFinite text => text.toList

/-- What `numeric` notation adds. -/
def PyNumber.excess : PyNumber → ℤ
  | .float x => x.excess
  | .int _ | .nonFinite _ => 0

/-- A `numeric` of `jsonb`, as text. -/
def PyNumber.numeric : PyNumber → Text
  | .int value => (toString value).toList
  | .float x => x.numeric
  | .nonFinite text => text.toList

/-- `json.dumps(…, allow_nan=False)` raises `ValueError` for others, and so does `int.__repr__`
beyond its limit of digits. -/
def PyNumber.serializable : PyNumber → Bool
  | .int value => decide ((Nat.repr value.natAbs).length ≤ 4300)
  | .float _ => true
  | .nonFinite _ => false

/-! ## The two texts -/

/-- `json.dumps(…, ensure_ascii=False)`. -/
def dumpsFormat : Format PyNumber where
  number := PyNumber.dumps
  arrange members := members
  perm _ := .refl _

/-- `jsonb` keeps the members of an object by the length of their keys, then by their bytes. -/
def keyOrder (first second : String × Text) : Bool :=
  first.1.utf8ByteSize < second.1.utf8ByteSize ||
    first.1.utf8ByteSize = second.1.utf8ByteSize && !decide (second.1 < first.1)

/-- `jsonb::text`. -/
def jsonbFormat : Format PyNumber where
  number := PyNumber.numeric
  arrange members := members.mergeSort keyOrder
  perm members := List.mergeSort_perm members keyOrder

/-- `payload: dict[str, Any]`. -/
structure Payload where
  members : List (String × Json PyNumber)
  distinct : (Json.object members).distinctKeys = true

namespace Payload

variable (payload : Payload)

def value : Json PyNumber := .object payload.members

/-- `len(json.dumps(self.payload, …).encode())`. -/
def dumpsSize : ℕ := size (print dumpsFormat payload.value)

/-- `bounded_payload` accepts. -/
def bounded : Bool :=
  payload.value.numbers.all PyNumber.serializable && decide (payload.dumpsSize ≤ 32000)

/-- A string of the payload, or a key, contains U+0000. -/
def hasNul : Bool := payload.value.strings.any fun text => text.toList.contains '\x00'

/-- `payload::text`, once the payload is stored as `jsonb`; a U+0000 cannot be. -/
def jsonbText : Option Text :=
  if payload.hasNul then none else some (print jsonbFormat payload.value)

/-- The insert of the operation's record does not fail on its payload: it is stored, and
`ck_capture_operations_json` holds. -/
def recordable : Bool := payload.jsonbText.any fun text => decide (size text ≤ 65536)

/-- What `numeric` notation adds to the payload's numbers. -/
def excess : ℤ := (payload.value.numbers.map PyNumber.excess).sum

end Payload

/-! ## Their sizes -/

namespace FloatDecimal

variable (x : FloatDecimal)

@[simp] theorem size_digitText : size x.digitText = x.digits.length := by
  have hdigit : ∀ d : Fin 10, (Nat.digitChar d).utf8Size = 1 := by decide
  unfold digitText
  induction x.digits with
  | nil => rfl
  | cons d rest ih => simp [ih, hdigit d, Nat.add_comm]

@[simp] theorem length_digitText : x.digitText.length = x.digits.length := by simp [digitText]

theorem size_exponentText {exponent : ℕ} (hrange : exponent < 325) :
    size (exponentText exponent) = if exponent < 100 then 2 else 3 := by
  revert exponent
  decide +kernel

theorem size_replicate_zero (n : ℕ) : size (List.replicate n '0') = n := by
  have hzero : Char.utf8Size '0' = 1 := by decide
  simp [size, hzero]

theorem size_mantissa :
    size x.mantissa = x.digits.length + if 1 < x.digits.length then 1 else 0 := by
  have hsize := x.size_digitText
  have hlength := x.length_digitText
  have hpoint : Char.utf8Size '.' = 1 := by decide
  unfold mantissa
  split
  case h_1 heq =>
    rw [heq] at hlength
    simp [← hlength]
  case h_2 digit heq => simp_all
  case h_3 digit rest hrest heq =>
    -- Several digits: the point stands after the first.
    have hrest : 0 < rest.length := List.length_pos_iff.mpr fun h => hrest (by simp [h])
    rw [heq] at hsize hlength
    simp only [List.length_cons, size_cons] at hlength hsize ⊢
    rw [if_pos (by omega)]
    omega

/-- Fewer digits than a power of ten beyond the range of `repr`'s positional notation. -/
theorem length_digits_le (hpoint : 16 < x.point) : x.digits.length ≤ x.point.natAbs := by
  have := x.shortest.2
  omega

/-- Zero is not written with an exponent. -/
theorem not_zero_of_exponential (hexponential : x.exponential = true) : x.digits ≠ [0] := by
  intro hdigits
  rcases x.leading with hleading | ⟨-, hpoint⟩
  · exact hleading (by simp [hdigits])
  · simp [exponential, hpoint] at hexponential

/-- Positional notation of what `repr` writes with an exponent. -/
theorem size_positional (hexponential : x.exponential = true) : (size x.positional : ℤ) =
    if 0 < x.point then x.point else 2 - x.point + x.digits.length := by
  have hzero : Char.utf8Size '0' = 1 := by decide
  have hpoint : Char.utf8Size '.' = 1 := by decide
  simp only [exponential, decide_eq_true_eq] at hexponential
  rcases hexponential with hsmall | hlarge
  · have hnonpos : x.point ≤ 0 := by omega
    simp only [positional, hnonpos, if_true, List.cons_append, size_append, size_cons, hzero,
      hpoint, size_replicate_zero, size_digitText]
    rw [if_neg (by omega)]
    omega
  · have hlength := x.length_digits_le hlarge
    simp only [positional, hlength, if_true]
    rw [if_neg (by omega), size_append, size_digitText, size_replicate_zero, if_pos (by omega)]
    omega

/-- Positional notation takes as much as `repr`, and `excess`. -/
theorem size_numeric : (size x.numeric : ℤ) = size x.repr + x.excess := by
  have he : Char.utf8Size 'e' = 1 := by decide
  have hplus : Char.utf8Size '+' = 1 := by decide
  have hminus : Char.utf8Size '-' = 1 := by decide
  by_cases hexponential : x.exponential = true
  · have hwhole : x.whole = [] := by simp [whole, hexponential]
    have hpositional := x.size_positional hexponential
    have hrange : (x.point - 1).natAbs < 325 := by have := x.range; omega
    have hexponent := size_exponentText hrange
    have hnonzero := x.not_zero_of_exponential hexponential
    have hletter : size ['e', if 0 < x.point then '+' else '-'] = 2 := by split <;> decide
    simp only [size_cons, he, size_nil] at hletter
    simp only [numeric, repr, excess, hexponential, hnonzero, hwhole, if_true, if_false,
      size_append, size_cons, size_nil, size_mantissa, hexponent, he]
    push_cast
    split at hpositional <;> omega
  · simp only [numeric, repr, excess, hexponential, Bool.false_eq_true, if_false, size_append]
    by_cases hzero : x.digits = [0] <;> cases hsign : x.negative <;>
      simp [hzero, hsign, sign, hminus]
    omega

end FloatDecimal

/-- A `numeric` takes as much as `json.dumps`, and `excess`. -/
theorem PyNumber.size_numeric (x : PyNumber) : (size x.numeric : ℤ) = size x.dumps + x.excess := by
  cases x with
  | int value => simp [numeric, dumps, excess]
  | nonFinite text => simp [numeric, dumps, excess]
  | float decimal => exact decimal.size_numeric

/-- Without an exponent, `numeric` notation adds nothing. -/
theorem FloatDecimal.excess_le {x : FloatDecimal} (hplain : x.exponential = false) :
    x.excess ≤ 0 := by
  rw [excess, if_neg (by simp [hplain])]
  split <;> decide

namespace Payload

variable {payload : Payload}

/-- The two texts differ in size by what `numeric` notation adds. -/
theorem size_jsonb : (size (print jsonbFormat payload.value) : ℤ) =
    payload.dumpsSize + payload.excess := by
  have hnumerals : (numerals jsonbFormat payload.value.numbers : ℤ) =
      numerals dumpsFormat payload.value.numbers + payload.excess := by
    unfold excess numerals
    induction payload.value.numbers with
    | nil => rfl
    | cons x rest ih =>
        have hx := x.size_numeric
        simp only [List.map_cons, List.sum_cons, jsonbFormat, dumpsFormat, Nat.cast_add] at ih ⊢
        omega
  rw [dumpsSize, size_print, size_print, Nat.cast_add, Nat.cast_add]
  omega

theorem recordable_iff : payload.recordable = true ↔
    payload.hasNul = false ∧ (payload.dumpsSize : ℤ) + payload.excess ≤ 65536 := by
  rw [← size_jsonb, recordable, jsonbText]
  cases payload.hasNul with
  | true => simp
  | false =>
      simp only [Bool.false_eq_true, if_false, Option.any_some, decide_eq_true_eq, true_and]
      omega

/-- A payload without U+0000 whose numbers are written without exponents is recorded. -/
theorem recordable_of_plain (hbounded : payload.bounded = true) (hnul : payload.hasNul = false)
    (hplain : ∀ decimal, PyNumber.float decimal ∈ payload.value.numbers →
      decimal.exponential = false) : payload.recordable = true := by
  have hsize : payload.dumpsSize ≤ 32000 := by
    simp only [bounded, Bool.and_eq_true, decide_eq_true_eq] at hbounded
    exact hbounded.2
  have hexcess : payload.excess ≤ 0 := by
    unfold excess
    generalize payload.value.numbers = numbers at hplain
    induction numbers with
    | nil => exact le_rfl
    | cons x rest ih =>
        have hrest := ih fun decimal hmem => hplain decimal (.tail _ hmem)
        have hx : x.excess ≤ 0 := by
          cases x with
          | float decimal => exact FloatDecimal.excess_le (hplain decimal (.head _))
          | int value => exact le_rfl
          | nonFinite text => exact le_rfl
        simp only [List.map_cons, List.sum_cons]
        omega
  exact recordable_iff.mpr ⟨hnul, by omega⟩

end Payload

/-- An accepted payload is recorded if and only if none of its strings and keys contains U+0000 and
its size, with what positional notation adds to its numbers, is within the table's bound. -/
theorem payloadRecorded (payload : Payload) :
    (payload.bounded = true → payload.recordable = true) ↔
      (payload.bounded = true →
        payload.hasNul = false ∧ (payload.dumpsSize : ℤ) + payload.excess ≤ 65536) := by
  rw [Payload.recordable_iff]

/-- A reason of one U+0000. -/
def nulPayload : Payload where
  members := [("reason", .string "\x00")]
  distinct := by decide

/-- The schema accepts U+0000, which `jsonb` refuses. -/
theorem payloadRecorded_fails :
    ¬∀ payload : Payload, payload.bounded = true → payload.recordable = true := by
  intro hrecorded
  have hnul := hrecorded nulPayload (by decide +kernel)
  revert hnul
  decide +kernel

/-! ## Large floats -/

/-- `1e308`. -/
def largeFloat : FloatDecimal where
  negative := false
  digits := [1]
  point := 309
  shortest := by decide
  leading := by decide
  range := by decide

/-- Readings that are written with exponents. -/
def largePayload (n : ℕ) : Payload where
  members := [("readings", .array (List.replicate n (.number (.float largeFloat))))]
  distinct := by
    have hitems : distinctKeysOfItems
        (List.replicate n (.number (.float largeFloat) : Json PyNumber)) = true := by
      induction n with
      | zero => rfl
      | succ n ih => exact ih
    simp [distinctKeys, distinctKeysOfMembers, hitems]

namespace Payload

theorem numbers_largePayload (n : ℕ) :
    (largePayload n).value.numbers = List.replicate n (.float largeFloat) := by
  simp only [value, largePayload, numbers, numbersOfMembers, List.append_nil]
  induction n with
  | zero => rfl
  | succ n ih => rw [List.replicate_succ, numbersOfItems, ih]; rfl

theorem excess_largePayload (n : ℕ) : (largePayload n).excess = n * 303 := by
  have hone : (PyNumber.float largeFloat).excess = 303 := by decide
  simp [excess, numbers_largePayload, hone]

theorem dumpsSize_largePayload (n : ℕ) : (largePayload n).dumpsSize ≤ 16 + 8 * n ∧
    6 * n ≤ (largePayload n).dumpsSize := by
  have hone : size (PyNumber.float largeFloat).dumps = 6 := by decide
  have hitems : frameOfItems
      (List.replicate n (.number (.float largeFloat) : Json PyNumber)) = 0 := by
    induction n with
    | zero => rfl
    | succ n ih => rw [List.replicate_succ, frameOfItems, ih]; rfl
  have hkey : size (quote "readings") = 10 := by decide
  have hnumerals : numerals dumpsFormat (largePayload n).value.numbers = n * 6 := by
    simp [numbers_largePayload, numerals, dumpsFormat, hone]
  rw [dumpsSize, size_print, hnumerals]
  simp only [value, largePayload, frame, frameOfMembers, hitems, hkey, List.length_replicate,
    List.length_cons, List.length_nil, separators]
  omega

/-- A payload far within the schema's bound, of floats that are short with an exponent and long
without. -/
theorem largePayload_not_recordable {n : ℕ} (hmany : 213 ≤ n) (hfew : n ≤ 3998) :
    (largePayload n).bounded = true ∧ (largePayload n).recordable = false := by
  have hsize := dumpsSize_largePayload n
  constructor
  · simp only [bounded, numbers_largePayload, Bool.and_eq_true, decide_eq_true_eq]
    exact ⟨by simp [PyNumber.serializable], by omega⟩
  · rw [Bool.eq_false_iff, Ne, recordable_iff, excess_largePayload]
    omega

end Payload

end FleetOps
