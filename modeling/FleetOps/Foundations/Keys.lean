import Mathlib.Data.List.Nodup
import Mathlib.Tactic.Common

/-!
# Keys and references of append-only tables

A table is a list of rows that only grows at its end.  `Distinct key rows` is a
unique constraint, `Refers rows targets rel` a foreign key.  Each has a rule for
one appended row, and a unique constraint says what a lookup finds: an existing
row stays what its key finds, a new one is found by its own.
-/

namespace Keys

variable {ρ σ κ : Type*}

/-- No two rows have the same key. -/
def Distinct (key : ρ → κ) (rows : List ρ) : Prop := (rows.map key).Nodup

/-- Every row has a target. -/
def Refers (rows : List ρ) (targets : List σ) (rel : ρ → σ → Prop) : Prop :=
  ∀ row ∈ rows, ∃ target ∈ targets, rel row target

section

variable {key : ρ → κ} {rows : List ρ} {row : ρ}

@[simp] theorem distinct_nil : Distinct key [] := List.nodup_nil

theorem Distinct.concat (h : Distinct key rows) (hnew : ∀ other ∈ rows, key other ≠ key row) :
    Distinct key (rows ++ [row]) := by
  rw [Distinct, List.map_append, List.map_singleton, List.nodup_append]
  refine ⟨h, List.nodup_singleton _, ?_⟩
  intro k hk k' hk'
  obtain ⟨other, hother, rfl⟩ := List.mem_map.mp hk
  rw [List.mem_singleton.mp hk']
  exact hnew other hother

theorem Distinct.filter (h : Distinct key rows) (p : ρ → Bool) : Distinct key (rows.filter p) :=
  h.sublist (List.filter_sublist.map key)

/-- A key determines its row. -/
theorem Distinct.eq {other : ρ} (h : Distinct key rows) (hrow : row ∈ rows)
    (hother : other ∈ rows) (heq : key row = key other) : row = other :=
  List.inj_on_of_nodup_map h hrow hother heq

/-- A row is what any lookup finds that it matches, and only rows with its key. -/
theorem Distinct.find?_of_imp (h : Distinct key rows) (hrow : row ∈ rows) {p : ρ → Bool}
    (hp : p row = true) (himp : ∀ r ∈ rows, p r = true → key r = key row) :
    rows.find? p = some row := by
  cases hfind : rows.find? p with
  | none => exact absurd hp (by simpa using List.find?_eq_none.mp hfind row hrow)
  | some found =>
      have hmem := List.mem_of_find?_eq_some hfind
      exact congrArg some (h.eq hmem hrow (himp found hmem (List.find?_some hfind)))

variable [DecidableEq κ]

/-- A row is what its key finds. -/
theorem Distinct.find?_eq (h : Distinct key rows) (hrow : row ∈ rows) {k : κ}
    (hk : key row = k) : rows.find? (fun r => decide (key r = k)) = some row := by
  cases hfind : rows.find? (fun r => decide (key r = k)) with
  | none =>
      have hnone := List.find?_eq_none.mp hfind row hrow
      exact absurd (decide_eq_true hk) hnone
  | some found =>
      have hkey : key found = k := by simpa using List.find?_some hfind
      exact congrArg some (h.eq (List.mem_of_find?_eq_some hfind) hrow (hkey.trans hk.symm))

/-- Of what the rows give, each at most one thing that refers to it, only a row's own refers to it. -/
theorem Distinct.filter_filterMap (h : Distinct key rows) (hrow : row ∈ rows) {f : ρ → Option σ}
    {ref : σ → κ} (hf : ∀ r ∈ rows, ∀ value ∈ f r, ref value = key r) :
    (rows.filterMap f).filter (fun value => decide (ref value = key row)) = (f row).toList := by
  induction rows with
  | nil => exact absurd hrow List.not_mem_nil
  | cons head rest ih =>
      obtain ⟨hhead, hrest⟩ := List.nodup_cons.mp h
      have hfrest : ∀ r ∈ rest, ∀ value ∈ f r, ref value = key r :=
        fun r hr => hf r (List.mem_cons_of_mem _ hr)
      have hfhead := hf head (List.mem_cons_self ..)
      rcases List.mem_cons.mp hrow with rfl | hmem
      · have hothers :
          (rest.filterMap f).filter (fun value => decide (ref value = key row)) = [] := by
          refine List.filter_eq_nil_iff.mpr fun value hvalue => ?_
          obtain ⟨r, hr, hsome⟩ := List.mem_filterMap.mp hvalue
          rw [hfrest r hr value hsome, decide_eq_true_iff]
          exact fun heq => hhead (heq ▸ List.mem_map_of_mem hr)
        cases hrow' : f row with
        | none => rw [List.filterMap_cons_none hrow', hothers, Option.toList_none]
        | some value =>
            have hvalue : decide (ref value = key row) = true := decide_eq_true (hfhead value hrow')
            rw [List.filterMap_cons_some hrow', List.filter_cons, if_pos hvalue, hothers,
              Option.toList_some]
      · have hne : key head ≠ key row := fun heq => hhead (heq ▸ List.mem_map_of_mem hmem)
        cases hhead' : f head with
        | none => rw [List.filterMap_cons_none hhead', ih hrest hmem hfrest]
        | some value =>
            have hvalue : ¬ref value = key row := hfhead value hhead' ▸ hne
            rw [List.filterMap_cons_some hhead', List.filter_cons,
              if_neg (by simpa using hvalue), ih hrest hmem hfrest]

/-- A listing by keys ends with the row that has the greatest. -/
theorem Distinct.getLast?_mergeSort {key : ρ → ℕ} (h : Distinct key rows) (hrow : row ∈ rows) :
    (rows.mergeSort fun a b => decide (key a ≤ key b)).getLast? = some row ↔
      ∀ other ∈ rows, key other ≤ key row := by
  have hsorted : (rows.mergeSort fun a b => decide (key a ≤ key b)).Pairwise
      fun a b => key a ≤ key b := by
    have htrans : ∀ a b c : ρ, decide (key a ≤ key b) = true → decide (key b ≤ key c) = true →
        decide (key a ≤ key c) = true := fun a b c hab hbc => by
      simpa using Nat.le_trans (of_decide_eq_true hab) (of_decide_eq_true hbc)
    have hpairwise := List.pairwise_mergeSort htrans
      (fun a b => by simpa using Nat.le_total (key a) (key b)) rows
    simpa only [decide_eq_true_eq] using hpairwise
  have hmem : ∀ r, (r ∈ rows.mergeSort fun a b => decide (key a ≤ key b)) ↔ r ∈ rows :=
    fun r => List.mem_mergeSort
  generalize rows.mergeSort (fun a b => decide (key a ≤ key b)) = listing at hsorted hmem
  rcases List.eq_nil_or_concat' listing with rfl | ⟨front, last, rfl⟩
  · exact absurd ((hmem row).mpr hrow) List.not_mem_nil
  have hlast : ∀ other ∈ rows, key other ≤ key last := fun other hother => by
    rcases List.mem_append.mp ((hmem other).mpr hother) with hfront | hself
    · exact (List.pairwise_append.mp hsorted).2.2 other hfront last (List.mem_singleton_self last)
    · exact (List.mem_singleton.mp hself) ▸ Nat.le_refl _
  rw [List.getLast?_concat, Option.some.injEq]
  constructor
  · rintro rfl
    exact hlast
  · intro hmax
    have hlastMem := (hmem last).mp (List.mem_append_right _ (List.mem_singleton_self last))
    exact h.eq hlastMem hrow (Nat.le_antisymm (hmax last hlastMem) (hlast row hrow))

/-- A lookup gives a row with the key. -/
theorem key_of_find? {k : κ} (h : rows.find? (fun r => decide (key r = k)) = some row) :
    row ∈ rows ∧ key row = k :=
  ⟨List.mem_of_find?_eq_some h, by simpa using List.find?_some h⟩

end

section

variable {rows : List ρ} {targets : List σ} {rel : ρ → σ → Prop} {row : ρ}

@[simp] theorem refers_nil : Refers [] targets rel := fun _ h => absurd h List.not_mem_nil

theorem Refers.concat (h : Refers rows targets rel) (hrow : ∃ target ∈ targets, rel row target) :
    Refers (rows ++ [row]) targets rel := by
  intro other hother
  rcases List.mem_append.mp hother with hmem | hmem
  · exact h other hmem
  · exact List.mem_singleton.mp hmem ▸ hrow

theorem Refers.weaken (h : Refers rows targets rel) (more : List σ) :
    Refers rows (targets ++ more) rel := fun row hrow =>
  let ⟨target, htarget, hrel⟩ := h row hrow
  ⟨target, List.mem_append_left _ htarget, hrel⟩

end

/-- What is found stays found when rows are appended. -/
theorem find?_append_of_some {p : ρ → Bool} {rows more : List ρ} {row : ρ}
    (h : rows.find? p = some row) : (rows ++ more).find? p = some row := by
  rw [List.find?_append, h, Option.some_or]

/-- A lookup is not affected by rows that it does not match. -/
theorem find?_append_of_forall {p : ρ → Bool} {rows more : List ρ}
    (h : ∀ row ∈ more, p row = false) : (rows ++ more).find? p = rows.find? p := by
  have hmore : more.find? p = none := List.find?_eq_none.mpr fun row hrow => by simp [h row hrow]
  rw [List.find?_append, hmore, Option.or_none]

/-- A filter is not affected by rows that it does not match. -/
theorem filter_append_of_forall {p : ρ → Bool} {rows more : List ρ}
    (h : ∀ row ∈ more, p row = false) : (rows ++ more).filter p = rows.filter p := by
  have hmore : more.filter p = [] := List.filter_eq_nil_iff.mpr fun row hrow => by simp [h row hrow]
  rw [List.filter_append, hmore, List.append_nil]

end Keys
