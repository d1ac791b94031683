import Mathlib.Data.List.Induction
import Mathlib.Order.Nat
import Mathlib.Tactic.Common

/-!
# Reads over unordered rows

A relational read sees a table as rows in no particular order.  This file has
the one ordered read the development needs, `latestBy key rows`, which is
`ORDER BY key DESC LIMIT 1`, and the laws by which an append-only table is read
through it: a row appended above all others is the latest one, and in a table
whose keys ascend the latest row is the last one.
-/

namespace Query

variable {ρ : Type*} {key : ρ → ℕ}

/-- `ORDER BY key DESC LIMIT 1`: a row with the largest key, if there is any row. -/
def latestBy (key : ρ → ℕ) : List ρ → Option ρ
  | [] => none
  | row :: rest =>
      match latestBy key rest with
      | none => some row
      | some best => if key best < key row then some row else some best

@[simp] theorem latestBy_nil : latestBy key [] = none := rfl

theorem latestBy_cons_ne_none (row : ρ) (rest : List ρ) : latestBy key (row :: rest) ≠ none := by
  unfold latestBy
  cases latestBy key rest with
  | none => simp
  | some best => by_cases hlt : key best < key row <;> simp [hlt]

@[simp] theorem latestBy_eq_none {rows : List ρ} : latestBy key rows = none ↔ rows = [] := by
  cases rows with
  | nil => simp
  | cons row rest => simpa using latestBy_cons_ne_none row rest

/-- The latest row is one of the rows. -/
theorem mem_of_latestBy {rows : List ρ} {row : ρ} (h : latestBy key rows = some row) :
    row ∈ rows := by
  induction rows generalizing row with
  | nil => simp at h
  | cons head rest ih =>
      unfold latestBy at h
      cases hrest : latestBy key rest with
      | none =>
          simp only [hrest, Option.some.injEq] at h
          exact h ▸ List.mem_cons_self ..
      | some best =>
          simp only [hrest] at h
          split at h
          · exact (Option.some.inj h) ▸ List.mem_cons_self ..
          · exact List.mem_cons_of_mem _ (ih (hrest.trans h))

/-- No row has a larger key than the latest one. -/
theorem le_of_latestBy {rows : List ρ} {row : ρ} (h : latestBy key rows = some row) :
    ∀ other ∈ rows, key other ≤ key row := by
  induction rows generalizing row with
  | nil => simp at h
  | cons head rest ih =>
      intro other hother
      unfold latestBy at h
      cases hrest : latestBy key rest with
      | none =>
          simp only [hrest, Option.some.injEq] at h
          rw [latestBy_eq_none] at hrest
          simp only [hrest, List.mem_singleton] at hother
          exact (hother.trans h) ▸ le_rfl
      | some best =>
          simp only [hrest] at h
          have hbest := ih hrest
          split at h <;> rename_i hlt <;> obtain rfl := Option.some.inj h
          · rcases List.mem_cons.mp hother with rfl | hmem
            · exact le_rfl
            · exact (hbest other hmem).trans hlt.le
          · rcases List.mem_cons.mp hother with rfl | hmem
            · exact not_lt.mp hlt
            · exact hbest other hmem

/-- A row of the table whose key is strictly above every other key is the latest row. -/
theorem latestBy_eq_of_forall_lt {rows : List ρ} {row : ρ} (hmem : row ∈ rows)
    (hlt : ∀ other ∈ rows, other ≠ row → key other < key row) : latestBy key rows = some row := by
  cases hlatest : latestBy key rows with
  | none =>
      rw [latestBy_eq_none] at hlatest
      simp [hlatest] at hmem
  | some best =>
      by_contra hne
      have hbest : best ≠ row := fun heq => hne (heq ▸ rfl)
      have habove := hlt best (mem_of_latestBy hlatest) hbest
      exact absurd (le_of_latestBy hlatest row hmem) (not_le.mpr habove)

/-- The largest key is the latest row's. -/
theorem max?_map (rows : List ρ) : (rows.map key).max? = (latestBy key rows).map key := by
  cases hlatest : latestBy key rows with
  | none =>
      rw [latestBy_eq_none] at hlatest
      simp [hlatest]
  | some row =>
      refine List.max?_eq_some_iff.mpr ⟨List.mem_map_of_mem (mem_of_latestBy hlatest), ?_⟩
      intro k hk
      obtain ⟨other, hother, rfl⟩ := List.mem_map.mp hk
      exact le_of_latestBy hlatest other hother

/-- Where the keys ascend, the latest row is the last one. -/
theorem latestBy_eq_getLast? {rows : List ρ} (hsorted : rows.Pairwise fun a b => key a < key b) :
    latestBy key rows = rows.getLast? := by
  induction rows using List.reverseRecOn with
  | nil => rfl
  | append_singleton rows last _ =>
      rw [List.getLast?_concat]
      refine latestBy_eq_of_forall_lt (by simp) fun other hother hne => ?_
      rcases List.mem_append.mp hother with hmem | hmem
      · exact (List.pairwise_append.mp hsorted).2.2 other hmem last (by simp)
      · exact absurd (List.mem_singleton.mp hmem) hne

end Query
