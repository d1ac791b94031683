import Mathlib.Data.List.Induction
import Mathlib.Tactic.Common

/-!
# Patches

A patch supplies some fields of a record and leaves the others as they are.
After any number of patches a field is what was supplied for it last
(`get_apply`).

Where a store keeps the record's generations instead of editing it, each patch
adds one: a number, what was in force before, and what is in force from then on
(`generations`).
-/

namespace Patches

variable {α φ β : Type*}

/-- The record after patches, one after another. -/
def apply (patch : α → φ → φ) (record : φ) (patches : List α) : φ :=
  patches.foldl (fun current values => patch values current) record

/-- The generations that patches add above `number`: number, what is replaced, what replaces it. -/
def generations (patch : α → φ → φ) : ℕ → φ → List α → List (ℕ × φ × φ)
  | _, _, [] => []
  | number, record, values :: rest =>
      (number + 1, record, patch values record) ::
        generations patch (number + 1) (patch values record) rest

variable {patch : α → φ → φ}

@[simp] theorem apply_nil (record : φ) : apply patch record [] = record := rfl

@[simp] theorem apply_concat (record : φ) (patches : List α) (values : α) :
    apply patch record (patches ++ [values]) = patch values (apply patch record patches) := by
  simp [apply]

/-- A field is what was supplied for it last, if anything was. -/
theorem get_apply (get : φ → β) (supplied : α → Option β)
    (h : ∀ values record, get (patch values record) = (supplied values).getD (get record))
    (record : φ) (patches : List α) :
    get (apply patch record patches) =
      ((patches.filterMap supplied).getLast?).getD (get record) := by
  induction patches using List.reverseRecOn with
  | nil => rfl
  | append_singleton patches values ih =>
      rw [apply_concat, h, ih, List.filterMap_append]
      cases hsupplied : supplied values with
      | none => simp [hsupplied]
      | some value => simp [hsupplied]

/-- A field that no patch supplies stays as it is. -/
theorem get_apply_of_fixed (patch : α → φ → φ) (get : φ → β)
    (h : ∀ values record, get (patch values record) = get record)
    (record : φ) (patches : List α) : get (apply patch record patches) = get record := by
  induction patches using List.reverseRecOn with
  | nil => rfl
  | append_singleton patches values ih => rw [apply_concat, h, ih]

@[simp] theorem generations_nil (number : ℕ) (record : φ) :
    generations patch number record [] = [] := rfl

/-- The last patch adds the last generation. -/
theorem generations_concat (number : ℕ) (record : φ) (patches : List α) (values : α) :
    generations patch number record (patches ++ [values]) =
      generations patch number record patches ++
        [(number + patches.length + 1, apply patch record patches,
          patch values (apply patch record patches))] := by
  induction patches generalizing number record with
  | nil => rfl
  | cons first rest ih =>
      rw [List.cons_append, generations, generations, ih, List.cons_append]
      have hnumber : number + 1 + rest.length = number + (first :: rest).length := by
        rw [List.length_cons]
        omega
      rw [hnumber]
      rfl

/-- Patches are numbered without gaps. -/
theorem numbers_generations (number : ℕ) (record : φ) (patches : List α) :
    (generations patch number record patches).map Prod.fst =
      List.range' (number + 1) patches.length := by
  induction patches generalizing number record with
  | nil => rfl
  | cons first rest ih =>
      rw [generations, List.map_cons, ih, List.length_cons, List.range'_succ]

theorem number_le_of_mem {number : ℕ} {record : φ} {patches : List α} {generation : ℕ × φ × φ}
    (h : generation ∈ generations patch number record patches) :
    generation.1 ≤ number + patches.length := by
  have hmem := List.mem_map_of_mem (f := Prod.fst) h
  rw [numbers_generations, List.mem_range'_1] at hmem
  omega

end Patches
