import Mathlib.Data.List.Basic
import Mathlib.Order.Nat
import Mathlib.Tactic.Common
import Mathlib.Tactic.IntervalCases

/-!
# Numbers and bytes in a text

A text carries decimal fields that end with a separator and bytes as pairs of
hexadecimal digits.  `readField` and `readHex` read back what `toString` and
`hexUpper` have written.  `after` finds a command in a text.
-/

namespace Text

/-! ## Hexadecimal digits -/

/-- The upper-case digit of a number below sixteen. -/
def hexDigit (value : ℕ) : Char :=
  if value < 10 then Char.ofNat (48 + value) else Char.ofNat (55 + value)

/-- The value of an upper-case digit. -/
def hexValue (digit : Char) : Option ℕ :=
  if '0' ≤ digit ∧ digit ≤ '9' then some (digit.toNat - 48)
  else if 'A' ≤ digit ∧ digit ≤ 'F' then some (digit.toNat - 55) else none

/-- `bytes.hex().upper()` -/
def hexUpper (bytes : List UInt8) : List Char :=
  bytes.flatMap fun byte => [hexDigit (byte.toNat / 16), hexDigit (byte.toNat % 16)]

/-- The bytes that pairs of digits write, up to the first character that is no digit. -/
def readHex : List Char → List UInt8
  | high :: low :: rest =>
      match hexValue high, hexValue low with
      | some h, some l => UInt8.ofNat (16 * h + l) :: readHex rest
      | _, _ => []
  | _ => []

theorem hexValue_hexDigit {value : ℕ} (h : value < 16) : hexValue (hexDigit value) = some value := by
  interval_cases value <;> decide

/-- What is written in hexadecimal is read back, whatever follows it. -/
theorem readHex_hexUpper (bytes : List UInt8) {rest : List Char} (hrest : readHex rest = []) :
    readHex (hexUpper bytes ++ rest) = bytes := by
  induction bytes with
  | nil => exact hrest
  | cons byte bytes ih =>
      have hbyte : byte.toNat < 256 := byte.toNat_lt
      have hhigh : hexValue (hexDigit (byte.toNat / 16)) = some (byte.toNat / 16) :=
        hexValue_hexDigit (by omega)
      have hlow : hexValue (hexDigit (byte.toNat % 16)) = some (byte.toNat % 16) :=
        hexValue_hexDigit (by omega)
      have hhalves : 16 * (byte.toNat / 16) + byte.toNat % 16 = byte.toNat := by omega
      show readHex (hexDigit (byte.toNat / 16) :: hexDigit (byte.toNat % 16) ::
        (hexUpper bytes ++ rest)) = byte :: bytes
      simp only [readHex, hhigh, hlow, ih, hhalves, UInt8.ofNat_toNat]

/-! ## Decimal fields -/

/-- A decimal number up to a separator, and what follows it. -/
def readField (separator : Char) (text : List Char) : Option (ℕ × List Char) :=
  let digits := text.takeWhile (· ≠ separator)
  if digits ≠ [] ∧ digits.all (·.isDigit) then
    some (Nat.ofDigitChars 10 digits 0, text.drop (digits.length + 1))
  else none

theorem isDigit_of_mem_toString {n : ℕ} {c : Char} (h : c ∈ (toString n).toList) :
    c.isDigit := by
  rw [Nat.toString_eq_repr, Nat.toList_repr] at h
  exact Nat.isDigit_of_mem_toDigits (by omega) (by omega) h

/-- A number is read back up to a separator that is no digit. -/
theorem readField_toString (n : ℕ) {separator : Char} (hseparator : separator.isDigit = false)
    (rest : List Char) :
    readField separator ((toString n).toList ++ separator :: rest) = some (n, rest) := by
  have hne : ∀ c ∈ (toString n).toList, decide (c ≠ separator) = true := by
    intro c hc
    refine decide_eq_true fun hsame => ?_
    rw [← hsame, isDigit_of_mem_toString hc] at hseparator
    exact nomatch hseparator
  have htake : ((toString n).toList ++ separator :: rest).takeWhile (· ≠ separator) =
      (toString n).toList := by
    rw [List.takeWhile_append_of_pos hne, List.takeWhile_cons_of_neg (by simp), List.append_nil]
  have hdigits : (toString n).toList ≠ [] ∧ (toString n).toList.all (·.isDigit) := by
    refine ⟨?_, List.all_eq_true.mpr fun c hc => isDigit_of_mem_toString hc⟩
    rw [Nat.toString_eq_repr, Nat.toList_repr]
    exact Nat.toDigits_ne_nil
  simp only [readField, htake]
  rw [if_pos hdigits, Nat.toString_eq_repr, Nat.toList_repr, Nat.ofDigitChars_ten_toDigits]
  simp

/-! ## Commands -/

/-- What follows the first place where a command stands. -/
def after (command : List Char) : List Char → Option (List Char)
  | [] => none
  | c :: rest =>
      if command.isPrefixOf (c :: rest) then some ((c :: rest).drop command.length)
      else after command rest

theorem after_self {command rest : List Char} (hcommand : command ≠ []) :
    after command (command ++ rest) = some rest := by
  cases command with
  | nil => exact absurd rfl hcommand
  | cons c more =>
      show after (c :: more) (c :: (more ++ rest)) = some rest
      rw [after, if_pos]
      · simp
      · rw [List.isPrefixOf_iff_prefix]
        exact ⟨rest, rfl⟩

/-- A character that does not begin the command is passed over. -/
theorem after_skip {first c : Char} {more rest : List Char} (h : c ≠ first) :
    after (first :: more) (c :: rest) = after (first :: more) rest := by
  rw [after, if_neg]
  intro hstarts
  exact h (List.cons_prefix_cons.mp (List.isPrefixOf_iff_prefix.mp hstarts)).1.symm

theorem after_skip_all {first : Char} {more skipped rest : List Char}
    (h : ∀ c ∈ skipped, c ≠ first) :
    after (first :: more) (skipped ++ rest) = after (first :: more) rest := by
  induction skipped with
  | nil => rfl
  | cons c skipped ih =>
      rw [List.cons_append, after_skip (h c (List.mem_cons_self ..))]
      exact ih fun d hd => h d (List.mem_cons_of_mem _ hd)

/-- Another command that begins alike is passed over. -/
theorem after_skip_command {first second c : Char} {more rest : List Char} (h : c ≠ second) :
    after (first :: second :: more) (first :: c :: rest) =
      after (first :: second :: more) (c :: rest) := by
  rw [after, if_neg]
  intro hstarts
  have htail := (List.cons_prefix_cons.mp (List.isPrefixOf_iff_prefix.mp hstarts)).2
  exact h (List.cons_prefix_cons.mp htail).1.symm

end Text
