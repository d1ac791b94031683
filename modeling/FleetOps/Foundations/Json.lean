import Mathlib.Algebra.BigOperators.Group.List.Basic
import Mathlib.Algebra.Order.BigOperators.Group.List
import Mathlib.Algebra.Ring.Nat
import Mathlib.Tactic.Common

/-!
# Printed JSON

Values whose numbers are of any type, and their text for a given `Format`: how
numbers are written, and in which order an object's members stand.  A text's
size is that of its numbers and of everything else, which no format changes
(`size_print`).
-/

/-- A JSON value with numbers of type `ν`.  An object is the list of its members. -/
inductive Json (ν : Type) where
  | null
  | bool (value : Bool)
  | number (value : ν)
  | string (value : String)
  | array (items : List (Json ν))
  | object (members : List (String × Json ν))

namespace Json

abbrev Text := List Char

/-- The bytes of a text in UTF-8. -/
def size (text : Text) : ℕ := (text.map Char.utf8Size).sum

@[simp] theorem size_nil : size [] = 0 := rfl

@[simp] theorem size_cons (c : Char) (text : Text) : size (c :: text) = c.utf8Size + size text := by
  simp [size]

@[simp] theorem size_append (first second : Text) :
    size (first ++ second) = size first + size second := by
  simp [size]

/-! ## Strings -/

/-- A hexadecimal digit. -/
def hexDigit (n : ℕ) : Char := Nat.digitChar n

/-- A character as it stands in a string: the short escapes, and `\u00xx` for other control
characters. -/
def escape (c : Char) : Text :=
  match c with
  | '"' => ['\\', '"']
  | '\\' => ['\\', '\\']
  | '\n' => ['\\', 'n']
  | '\r' => ['\\', 'r']
  | '\t' => ['\\', 't']
  | '\x0c' => ['\\', 'f']
  | '\x08' => ['\\', 'b']
  | c =>
      if c.toNat < 32 then ['\\', 'u', '0', '0', hexDigit (c.toNat / 16), hexDigit (c.toNat % 16)]
      else [c]

/-- A quoted string. -/
def quote (value : String) : Text := '"' :: value.toList.flatMap escape ++ ['"']

/-! ## Texts -/

/-- Items with `, ` between them. -/
def separated : List Text → Text
  | [] => []
  | [item] => item
  | item :: rest => item ++ ',' :: ' ' :: separated rest

/-- How values are printed. -/
structure Format (ν : Type) where
  number : ν → Text
  /-- The order of an object's members. -/
  arrange : List (String × Text) → List (String × Text)
  perm : ∀ members, (arrange members).Perm members

variable {ν : Type}

mutual

/-- The text of a value. -/
def print (format : Format ν) : Json ν → Text
  | .null => ['n', 'u', 'l', 'l']
  | .bool true => ['t', 'r', 'u', 'e']
  | .bool false => ['f', 'a', 'l', 's', 'e']
  | .number value => format.number value
  | .string value => quote value
  | .array items => '[' :: separated (printItems format items) ++ [']']
  | .object members =>
      '{' :: separated ((format.arrange (printMembers format members)).map fun member =>
        quote member.1 ++ ':' :: ' ' :: member.2) ++ ['}']

def printItems (format : Format ν) : List (Json ν) → List Text
  | [] => []
  | item :: rest => print format item :: printItems format rest

def printMembers (format : Format ν) : List (String × Json ν) → List (String × Text)
  | [] => []
  | (key, value) :: rest => (key, print format value) :: printMembers format rest

end

mutual

/-- The numbers of a value. -/
def numbers : Json ν → List ν
  | .number value => [value]
  | .array items => numbersOfItems items
  | .object members => numbersOfMembers members
  | .null | .bool _ | .string _ => []

def numbersOfItems : List (Json ν) → List ν
  | [] => []
  | item :: rest => numbers item ++ numbersOfItems rest

def numbersOfMembers : List (String × Json ν) → List ν
  | [] => []
  | (_, value) :: rest => numbers value ++ numbersOfMembers rest

end

mutual

/-- The strings of a value, keys included. -/
def strings : Json ν → List String
  | .string value => [value]
  | .array items => stringsOfItems items
  | .object members => stringsOfMembers members
  | .null | .bool _ | .number _ => []

def stringsOfItems : List (Json ν) → List String
  | [] => []
  | item :: rest => strings item ++ stringsOfItems rest

def stringsOfMembers : List (String × Json ν) → List String
  | [] => []
  | (key, value) :: rest => key :: (strings value ++ stringsOfMembers rest)

end

mutual

/-- No object has two members with one key. -/
def distinctKeys : Json ν → Bool
  | .array items => distinctKeysOfItems items
  | .object members => decide (members.map Prod.fst).Nodup && distinctKeysOfMembers members
  | .null | .bool _ | .number _ | .string _ => true

def distinctKeysOfItems : List (Json ν) → Bool
  | [] => true
  | item :: rest => distinctKeys item && distinctKeysOfItems rest

def distinctKeysOfMembers : List (String × Json ν) → Bool
  | [] => true
  | (_, value) :: rest => distinctKeys value && distinctKeysOfMembers rest

end

/-! ## Sizes -/

/-- The bytes that a format's numbers take. -/
def numerals (format : Format ν) (values : List ν) : ℕ :=
  (values.map fun value => size (format.number value)).sum

@[simp] theorem numerals_append (format : Format ν) (first second : List ν) :
    numerals format (first ++ second) = numerals format first + numerals format second := by
  simp [numerals]

/-- The bytes of the separators between `n` items. -/
def separators (n : ℕ) : ℕ := 2 * (n - 1)

theorem size_separated (items : List Text) :
    size (separated items) = (items.map size).sum + separators items.length := by
  induction items with
  | nil => rfl
  | cons item rest ih =>
      cases rest with
      | nil => simp [separated, separators]
      | cons next rest =>
          rw [separated, size_append, size_cons, size_cons, ih]
          simp only [List.map_cons, List.sum_cons, List.length_cons, separators]
          have hcomma : Char.utf8Size ',' = 1 := by decide
          have hblank : Char.utf8Size ' ' = 1 := by decide
          omega
          simp

mutual

/-- The bytes of a value's text apart from its numbers. -/
def frame : Json ν → ℕ
  | .null => 4
  | .bool true => 4
  | .bool false => 5
  | .number _ => 0
  | .string value => size (quote value)
  | .array items => 2 + frameOfItems items + separators items.length
  | .object members => 2 + frameOfMembers members + separators members.length

def frameOfItems : List (Json ν) → ℕ
  | [] => 0
  | item :: rest => frame item + frameOfItems rest

def frameOfMembers : List (String × Json ν) → ℕ
  | [] => 0
  | (key, value) :: rest => size (quote key) + 2 + frame value + frameOfMembers rest

end

@[simp] theorem length_printItems (format : Format ν) (items : List (Json ν)) :
    (printItems format items).length = items.length := by
  induction items with
  | nil => rfl
  | cons item rest ih => simp [printItems, ih]

@[simp] theorem length_printMembers (format : Format ν) (members : List (String × Json ν)) :
    (printMembers format members).length = members.length := by
  induction members with
  | nil => rfl
  | cons member rest ih => simp [printMembers, ih]

mutual

/-- A text's size is that of its numbers and its frame. -/
theorem size_print (format : Format ν) : ∀ value : Json ν,
    size (print format value) = frame value + numerals format (numbers value)
  | .null => by simp [print, frame, numbers, numerals]; decide
  | .bool true => by simp [print, frame, numbers, numerals]; decide
  | .bool false => by simp [print, frame, numbers, numerals]; decide
  | .number value => by simp [print, frame, numbers, numerals]
  | .string value => by simp [print, frame, numbers, numerals]
  | .array items => by
      have hitems := size_printItems format items
      have hopen : Char.utf8Size '[' = 1 := by decide
      have hclose : Char.utf8Size ']' = 1 := by decide
      simp only [print, frame, numbers, List.cons_append, size_cons, size_append, size_nil,
        size_separated, length_printItems]
      omega
  | .object members => by
      have hmembers := size_printMembers format members
      have hopen : Char.utf8Size '{' = 1 := by decide
      have hclose : Char.utf8Size '}' = 1 := by decide
      have hperm := (format.perm (printMembers format members)).map fun member =>
        quote member.1 ++ ':' :: ' ' :: member.2
      have hsum := (hperm.map size).sum_eq
      have hlength := hperm.length_eq
      simp only [List.length_map, length_printMembers] at hlength
      simp only [print, frame, numbers, List.cons_append, size_cons, size_append, size_nil,
        size_separated, List.length_map, hsum, hlength]
      omega

theorem size_printItems (format : Format ν) : ∀ items : List (Json ν),
    ((printItems format items).map size).sum =
      frameOfItems items + numerals format (numbersOfItems items)
  | [] => by simp [printItems, frameOfItems, numbersOfItems, numerals]
  | item :: rest => by
      have hitem := size_print format item
      have hrest := size_printItems format rest
      simp only [printItems, frameOfItems, numbersOfItems, List.map_cons, List.sum_cons,
        numerals_append]
      omega

theorem size_printMembers (format : Format ν) : ∀ members : List (String × Json ν),
    (((printMembers format members).map fun member =>
      quote member.1 ++ ':' :: ' ' :: member.2).map size).sum =
        frameOfMembers members + numerals format (numbersOfMembers members)
  | [] => by simp [printMembers, frameOfMembers, numbersOfMembers, numerals]
  | (key, value) :: rest => by
      have hvalue := size_print format value
      have hrest := size_printMembers format rest
      have hcolon : Char.utf8Size ':' = 1 := by decide
      have hblank : Char.utf8Size ' ' = 1 := by decide
      simp only [printMembers, frameOfMembers, numbersOfMembers, List.map_cons, List.sum_cons,
        numerals_append, size_append, size_cons]
      omega

end

end Json
