import Mathlib.Data.List.Sort
import Mathlib.Data.List.Nodup
import Mathlib.Order.Nat
import Mathlib.Tactic.Common

/-!
# Gaps between numbers

A window query that orders numbers and compares each with the one before it
finds the ranges between them.  `gaps` are these ranges; between strictly
ascending numbers they cover exactly what is missing (`covered_gaps`), in order
and with a number between any two (`gaps_separated`).
-/

namespace Gaps

/-- `lag(v) OVER (ORDER BY v)`: the rows of a window, each with the one before it. -/
def lag {α : Type*} (rows : List α) : List (Option α × α) := (none :: rows.map some).zip rows

/-- The range between a number and the one before it, if there is any between them. -/
def gap : Option ℕ × ℕ → Option (ℕ × ℕ)
  | (some previous, v) => if previous + 1 < v then some (previous + 1, v - 1) else none
  | (none, _) => none

/-- The ranges between consecutive numbers. -/
def gaps (points : List ℕ) : List (ℕ × ℕ) := (lag points).filterMap gap

/-- A number is in one of the ranges. -/
def Covered (ranges : List (ℕ × ℕ)) (x : ℕ) : Prop := ∃ r ∈ ranges, r.1 ≤ x ∧ x ≤ r.2

@[simp] theorem gaps_nil : gaps [] = [] := rfl

@[simp] theorem gaps_singleton (a : ℕ) : gaps [a] = [] := rfl

theorem gaps_cons_cons (a b : ℕ) (rest : List ℕ) :
    gaps (a :: b :: rest) = (gap (some a, b)).toList ++ gaps (b :: rest) := by
  unfold gaps lag
  simp only [List.map_cons, List.zip_cons_cons, List.filterMap_cons]
  cases hgap : gap (some a, b) <;> simp [gap]

@[simp] theorem covered_nil (x : ℕ) : ¬Covered [] x := by
  rintro ⟨r, hr, -⟩
  exact absurd hr List.not_mem_nil

theorem covered_append (first second : List (ℕ × ℕ)) (x : ℕ) :
    Covered (first ++ second) x ↔ Covered first x ∨ Covered second x := by
  unfold Covered
  constructor
  · rintro ⟨r, hr, hx⟩
    rcases List.mem_append.mp hr with hr | hr
    · exact .inl ⟨r, hr, hx⟩
    · exact .inr ⟨r, hr, hx⟩
  · rintro (⟨r, hr, hx⟩ | ⟨r, hr, hx⟩)
    · exact ⟨r, List.mem_append_left _ hr, hx⟩
    · exact ⟨r, List.mem_append_right _ hr, hx⟩

/-- What lies strictly between two numbers is their range. -/
theorem covered_gap (a b x : ℕ) : Covered (gap (some a, b)).toList x ↔ a < x ∧ x < b := by
  by_cases hlt : a + 1 < b
  · have hgap : gap (some a, b) = some (a + 1, b - 1) := if_pos hlt
    rw [hgap]
    unfold Covered
    simp only [Option.toList_some, List.mem_singleton, exists_eq_left]
    omega
  · have hgap : gap (some a, b) = none := if_neg hlt
    rw [hgap, Option.toList_none]
    have hempty := covered_nil x
    constructor
    · intro h
      exact absurd h hempty
    · intro h
      omega

/-- The ranges cover what lies between two of the numbers and is none of them. -/
theorem covered_gaps {points : List ℕ} (hsorted : points.Pairwise (· < ·)) (x : ℕ) :
    Covered (gaps points) x ↔
      (∃ p ∈ points, p < x) ∧ (∃ v ∈ points, x < v) ∧ x ∉ points := by
  induction points with
  | nil => simp
  | cons a rest ih =>
      cases rest with
      | nil =>
          have hempty := covered_nil x
          simp only [gaps_singleton, hempty, List.mem_singleton, exists_eq_left, false_iff]
          omega
      | cons b rest =>
          obtain ⟨hhead, htail⟩ := List.pairwise_cons.mp hsorted
          have hab : a < b := hhead b (List.mem_cons_self ..)
          have hrest : ∀ v ∈ rest, b < v := (List.pairwise_cons.mp htail).1
          rw [gaps_cons_cons, covered_append, covered_gap, ih htail]
          constructor
          · rintro (⟨hax, hxb⟩ | ⟨⟨p, hp, hpx⟩, ⟨v, hv, hxv⟩, hmem⟩)
            · refine ⟨⟨a, List.mem_cons_self .., hax⟩, ⟨b, by simp, hxb⟩, ?_⟩
              intro hmem
              rcases List.mem_cons.mp hmem with rfl | hmem
              · omega
              · rcases List.mem_cons.mp hmem with rfl | hmem
                · omega
                · have hbelow := hrest x hmem
                  omega
            · refine ⟨⟨p, List.mem_cons_of_mem _ hp, hpx⟩, ⟨v, List.mem_cons_of_mem _ hv, hxv⟩, ?_⟩
              intro hin
              rcases List.mem_cons.mp hin with rfl | hin
              · have hbelow := hhead p hp
                omega
              · exact hmem hin
          · rintro ⟨⟨p, hp, hpx⟩, ⟨v, hv, hxv⟩, hmem⟩
            have hne : x ≠ b := fun heq => hmem (heq ▸ by simp)
            have hax : a < x := by
              rcases List.mem_cons.mp hp with rfl | hp
              · exact hpx
              · have hbelow := hhead p hp
                omega
            by_cases hxb : x < b
            · exact .inl ⟨hax, hxb⟩
            · refine .inr ⟨⟨b, List.mem_cons_self .., by omega⟩, ⟨v, ?_, hxv⟩,
                fun hin => hmem (List.mem_cons_of_mem _ hin)⟩
              rcases List.mem_cons.mp hv with rfl | hv
              · omega
              · exact hv

/-- A range lies between two of the numbers, which are next to it. -/
theorem mem_gaps {points : List ℕ} {r : ℕ × ℕ} (h : r ∈ gaps points) :
    0 < r.1 ∧ r.1 ≤ r.2 ∧ r.1 - 1 ∈ points ∧ r.2 + 1 ∈ points := by
  induction points with
  | nil => exact absurd h List.not_mem_nil
  | cons a rest ih =>
      cases rest with
      | nil => exact absurd h List.not_mem_nil
      | cons b rest =>
          rw [gaps_cons_cons, List.mem_append] at h
          rcases h with h | h
          · by_cases hlt : a + 1 < b
            · have hgap : gap (some a, b) = some (a + 1, b - 1) := if_pos hlt
              rw [hgap, Option.toList_some, List.mem_singleton] at h
              subst h
              refine ⟨by simp, by simp only; omega, by simp, ?_⟩
              rw [Nat.sub_add_cancel (by omega)]
              simp
            · have hgap : gap (some a, b) = none := if_neg hlt
              rw [hgap] at h
              exact absurd h List.not_mem_nil
          · obtain ⟨hpos, hle, hfirst, hlast⟩ := ih h
            exact ⟨hpos, hle, List.mem_cons_of_mem _ hfirst, List.mem_cons_of_mem _ hlast⟩

/-- The ranges are in order, and no two of them touch. -/
theorem gaps_separated {points : List ℕ} (hsorted : points.Pairwise (· < ·)) :
    (gaps points).Pairwise fun r s => r.2 + 1 < s.1 := by
  induction points with
  | nil => exact List.Pairwise.nil
  | cons a rest ih =>
      cases rest with
      | nil => exact List.Pairwise.nil
      | cons b rest =>
          obtain ⟨-, htail⟩ := List.pairwise_cons.mp hsorted
          rw [gaps_cons_cons, List.pairwise_append]
          refine ⟨?_, ih htail, ?_⟩
          · cases gap (some a, b) <;> simp
          · intro r hr s hs
            by_cases hlt : a + 1 < b
            · have hgap : gap (some a, b) = some (a + 1, b - 1) := if_pos hlt
              rw [hgap, Option.toList_some, List.mem_singleton] at hr
              subst hr
              -- A later range begins after a number that is not below `b`.
              obtain ⟨hpos, -, hfirst, -⟩ := mem_gaps hs
              have hbelow : b ≤ s.1 - 1 := by
                rcases List.mem_cons.mp hfirst with heq | hmem
                · exact heq.ge
                · exact ((List.pairwise_cons.mp htail).1 _ hmem).le
              simp only
              omega
            · have hgap : gap (some a, b) = none := if_neg hlt
              rw [hgap] at hr
              exact absurd hr List.not_mem_nil

example : gaps [0, 2, 3, 7, 10] = [(1, 1), (4, 6), (8, 9)] := by decide

end Gaps
