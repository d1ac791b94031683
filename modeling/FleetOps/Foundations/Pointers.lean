import Mathlib.Data.List.Nodup
import Mathlib.Data.List.Perm.Subperm
import Mathlib.Logic.Relation
import Mathlib.Tactic.Common

/-!
# Following pointers

Rows point at rows: `next row` is what the row points at, if it points at a row
that is there.  `Trail next row trail` is the walk from a row to its end.  On
finitely many rows a walk ends or meets a row twice (`trail_or_cycle`), and not
both (`Trail.acyclic`).

`Links` is the relation of the pointers, so that `Relation.ReflTransGen` and
`Relation.TransGen` say what a row reaches.
-/

namespace Pointers

open Relation

variable {ρ : Type*}

/-- One row points at another. -/
abbrev Links (next : ρ → Option ρ) (row target : ρ) : Prop := next row = some target

/-- The walk from a row to a row that points at none. -/
inductive Trail (next : ρ → Option ρ) : ρ → List ρ → Prop
  | last {row : ρ} (hend : next row = none) : Trail next row [row]
  | step {row target : ρ} {rest : List ρ} (hnext : next row = some target)
      (htrail : Trail next target rest) : Trail next row (row :: rest)

/-- A row that the walk from a row meets again and again. -/
def Loops (next : ρ → Option ρ) (row : ρ) : Prop :=
  ∃ met, ReflTransGen (Links next) row met ∧ TransGen (Links next) met met

section

variable {next : ρ → Option ρ} {row target : ρ} {trail : List ρ}

theorem Trail.ne_nil (h : Trail next row trail) : trail ≠ [] := by
  cases h <;> simp

theorem Trail.head (h : Trail next row trail) : trail.head? = some row := by
  cases h <;> rfl

theorem Trail.mem_self (h : Trail next row trail) : row ∈ trail :=
  List.mem_of_head? h.head

theorem Trail.unique {other : List ρ} (h : Trail next row trail) (hother : Trail next row other) :
    trail = other := by
  induction h generalizing other with
  | last hend =>
      cases hother with
      | last _ => rfl
      | step hnext _ => exact absurd (hend.symm.trans hnext) (by simp)
  | step hnext _ ih =>
      cases hother with
      | last hend => exact absurd (hend.symm.trans hnext) (by simp)
      | step hnext' htrail' =>
          obtain rfl := Option.some.inj (hnext.symm.trans hnext')
          rw [ih htrail']

/-- From any row of a walk the walk goes on. -/
theorem Trail.suffix (h : Trail next row trail) (htarget : target ∈ trail) :
    ∃ walked rest, trail = walked ++ rest ∧ Trail next target rest := by
  induction h with
  | last hend =>
      rw [List.mem_singleton.mp htarget]
      exact ⟨[], _, rfl, .last hend⟩
  | step hnext htrail ih =>
      rcases List.mem_cons.mp htarget with rfl | hrest
      · exact ⟨[], _, rfl, .step hnext htrail⟩
      · obtain ⟨walked, rest, rfl, hsuffix⟩ := ih hrest
        exact ⟨_ :: walked, rest, rfl, hsuffix⟩

/-- The rows of a walk are what its first row reaches. -/
theorem Trail.mem_iff (h : Trail next row trail) :
    target ∈ trail ↔ ReflTransGen (Links next) row target := by
  induction h with
  | @last row hend =>
      rw [List.mem_singleton]
      constructor
      · rintro rfl
        exact .refl
      · intro hreach
        rcases hreach.cases_head with rfl | ⟨first, hfirst, -⟩
        · rfl
        · exact absurd (hend.symm.trans hfirst) (by simp)
  | @step row second rest hnext _ ih =>
      rw [List.mem_cons, ih]
      constructor
      · rintro (rfl | hreach)
        · exact .refl
        · exact .head hnext hreach
      · intro hreach
        rcases hreach.cases_head with rfl | ⟨first, hfirst, hrest⟩
        · exact .inl rfl
        · obtain rfl := Option.some.inj (hnext.symm.trans hfirst)
          exact .inr hrest

/-- No row of a walk that ends is met twice. -/
theorem Trail.nodup (h : Trail next row trail) : trail.Nodup := by
  induction h with
  | last _ => exact List.nodup_singleton _
  | @step row second rest hnext htrail ih =>
      refine List.nodup_cons.mpr ⟨fun hrow => ?_, ih⟩
      -- The walk from `row` would be a proper part of itself.
      obtain ⟨walked, suffix, hsplit, hsuffix⟩ := htrail.suffix hrow
      have hsame := (Trail.step hnext htrail).unique hsuffix
      have hlength := congrArg List.length hsplit
      rw [← hsame, List.length_append, List.length_cons] at hlength
      omega

/-- A walk that ends meets no loop. -/
theorem Trail.acyclic (h : Trail next row trail) : ¬Loops next row := by
  rintro ⟨met, hreach, hloop⟩
  obtain ⟨walked, suffix, -, hsuffix⟩ := h.suffix (h.mem_iff.mpr hreach)
  obtain ⟨second, hsecond, hback⟩ := TransGen.head'_iff.mp hloop
  cases hsuffix with
  | last hend => exact absurd (hend.symm.trans hsecond) (by simp)
  | step hnext htrail =>
      obtain rfl := Option.some.inj (hnext.symm.trans hsecond)
      have hnodup := (Trail.step hnext htrail).nodup
      exact (List.nodup_cons.mp hnodup).1 (htrail.mem_iff.mpr hback)

/-- The last row of a walk points at none. -/
theorem Trail.last_next (h : Trail next row trail) {last : ρ} (hlast : trail.getLast? = some last) :
    next last = none := by
  induction h with
  | last hend =>
      rw [List.getLast?_singleton, Option.some.injEq] at hlast
      exact hlast ▸ hend
  | step hnext htrail ih =>
      obtain ⟨first, more, rfl⟩ := List.exists_cons_of_ne_nil htrail.ne_nil
      rw [List.getLast?_cons_cons] at hlast
      exact ih hlast

/-- Each row of a walk points at the one after it. -/
theorem Trail.isChain (h : Trail next row trail) : trail.IsChain (Links next) := by
  induction h with
  | last _ => exact .singleton _
  | step hnext htrail ih =>
      obtain ⟨first, more, rfl⟩ := List.exists_cons_of_ne_nil htrail.ne_nil
      have hfirst : first = _ := Option.some.inj htrail.head
      exact List.isChain_cons_cons.mpr ⟨hfirst ▸ hnext, ih⟩

/-! ## Finitely many rows -/

/-- What a row reaches among rows that point at each other is among them. -/
theorem mem_of_reaches {rows : List ρ} (hclosed : ∀ r ∈ rows, ∀ s ∈ next r, s ∈ rows)
    (hrow : row ∈ rows) (hreach : ReflTransGen (Links next) row target) : target ∈ rows := by
  induction hreach with
  | refl => exact hrow
  | tail _ hlink ih => exact hclosed _ ih _ hlink

theorem Trail.subset {rows : List ρ} (h : Trail next row trail)
    (hclosed : ∀ r ∈ rows, ∀ s ∈ next r, s ∈ rows) (hrow : row ∈ rows) : trail ⊆ rows :=
  fun _ htarget => mem_of_reaches hclosed hrow (h.mem_iff.mp htarget)

/-- A walk on finitely many rows ends, or it meets a row again. -/
theorem trail_or_loops {rows : List ρ} (hclosed : ∀ r ∈ rows, ∀ s ∈ next r, s ∈ rows)
    (hrow : row ∈ rows) : (∃ trail, Trail next row trail) ∨ Loops next row := by
  classical
  generalize hsize : rows.length = size
  induction size using Nat.strongRecOn generalizing rows row with
  | ind size ih =>
      cases hnext : next row with
      | none => exact .inl ⟨[row], .last hnext⟩
      | some second =>
          by_cases hback : ReflTransGen (Links next) second row
          · exact .inr ⟨row, .refl, .head' hnext hback⟩
          -- The rows that `second` reaches are fewer, for `row` is not one of them.
          · let reached := rows.filter fun r => decide (ReflTransGen (Links next) second r)
            have hfewer : reached.length < size := by
              rw [← hsize]
              refine List.length_filter_lt_length_iff_exists.mpr ⟨row, hrow, ?_⟩
              simpa using hback
            have hreached : ∀ r ∈ reached, ∀ s ∈ next r, s ∈ reached := by
              intro r hr s hs
              obtain ⟨hr, hreach⟩ := List.mem_filter.mp hr
              refine List.mem_filter.mpr ⟨hclosed r hr s hs, decide_eq_true ?_⟩
              exact (of_decide_eq_true hreach).tail hs
            have hsecond : second ∈ reached :=
              List.mem_filter.mpr ⟨hclosed row hrow second hnext, decide_eq_true .refl⟩
            rcases ih reached.length hfewer hreached hsecond rfl with ⟨trail, htrail⟩ | hloops
            · exact .inl ⟨row :: trail, .step hnext htrail⟩
            · obtain ⟨met, hreach, hloop⟩ := hloops
              exact .inr ⟨met, .head hnext hreach, hloop⟩

/-- A walk on finitely many rows ends exactly if it meets no loop. -/
theorem exists_trail_iff {rows : List ρ} (hclosed : ∀ r ∈ rows, ∀ s ∈ next r, s ∈ rows)
    (hrow : row ∈ rows) : (∃ trail, Trail next row trail) ↔ ¬Loops next row := by
  constructor
  · rintro ⟨trail, htrail⟩
    exact htrail.acyclic
  · intro hloops
    exact (trail_or_loops hclosed hrow).resolve_right hloops

end

end Pointers
