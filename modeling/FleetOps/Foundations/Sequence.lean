import Mathlib.Data.List.Basic
import Mathlib.Data.List.Nodup
import Mathlib.Data.List.Range
import Mathlib.Order.MinMax
import Mathlib.Tactic.Common

/-!
# Numbered logs

A log of entries under keys, each with a number.  `Counted key seq log` says that
the entries of every key are numbered 1, 2, 3, … in the order of the log.  An
entry keeps a log counted when it has the next number of its key
(`Counted.concat`), and in a counted log a key and a number name one entry
(`Counted.pairwise`).

`mark` is the highest number of a key.  A key's entries are counted when each has
the number after the mark that the log in front of it leaves (`counts_iff`).
-/

namespace Sequence

variable {α κ : Type*} [DecidableEq κ] (key : α → κ) (seq : α → ℕ)

/-- The numbers of a key, in the order of the log. -/
def numbers (log : List α) (k : κ) : List ℕ := (log.filter (key · = k)).map seq

/-- Every key counts its entries from 1. -/
def Counted (log : List α) : Prop :=
  ∀ k, numbers key seq log k = List.range' 1 (numbers key seq log k).length

variable {key seq} {log : List α} {entry : α}

theorem numbers_concat_self :
    numbers key seq (log ++ [entry]) (key entry) =
      numbers key seq log (key entry) ++ [seq entry] := by
  simp [numbers]

theorem numbers_concat_of_ne {k : κ} (h : key entry ≠ k) :
    numbers key seq (log ++ [entry]) k = numbers key seq log k := by
  simp [numbers, h]

theorem numbers_eq_nil {k : κ} (h : ∀ other ∈ log, key other ≠ k) : numbers key seq log k = [] := by
  rw [numbers, List.filter_eq_nil_iff.mpr fun other hother => by simpa using h other hother,
    List.map_nil]

theorem counted_nil : Counted key seq [] := fun _ => rfl

/-- An entry with the next number of its key. -/
theorem Counted.concat (h : Counted key seq log)
    (hnext : seq entry = (numbers key seq log (key entry)).length + 1) :
    Counted key seq (log ++ [entry]) := by
  intro k
  by_cases hkey : key entry = k
  · subst hkey
    rw [numbers_concat_self, List.length_append, List.length_singleton, List.range'_concat, hnext]
    rw [← h (key entry)]
    congr 2
    omega
  · rw [numbers_concat_of_ne hkey]
    exact h k

/-- The numbers of a key ascend. -/
theorem Counted.pairwise (h : Counted key seq log) :
    log.Pairwise fun a b => key a = key b → seq a < seq b := by
  induction log using List.reverseRecOn with
  | nil => exact List.Pairwise.nil
  | append_singleton log entry ih =>
      have hrest : Counted key seq log := by
        intro k
        have hk := h k
        by_cases hkey : key entry = k
        · subst hkey
          rw [numbers_concat_self, List.length_append, List.length_singleton, List.range'_concat]
            at hk
          exact (List.append_inj' hk rfl).1
        · rwa [numbers_concat_of_ne hkey] at hk
      refine List.pairwise_append.mpr ⟨ih hrest, List.pairwise_singleton _ _, ?_⟩
      intro other hother last hlast hkey
      rw [List.mem_singleton.mp hlast] at hkey ⊢
      have hlength : seq entry = (numbers key seq log (key entry)).length + 1 := by
        have hk := h (key entry)
        rw [numbers_concat_self, List.length_append, List.length_singleton, List.range'_concat] at hk
        have hlast := List.append_inj_right' hk rfl
        simp only [List.cons.injEq, and_true] at hlast
        omega
      have hmem : seq other ∈ numbers key seq log (key entry) :=
        List.mem_map_of_mem (List.mem_filter.mpr ⟨hother, by simpa using hkey⟩)
      rw [hrest (key entry), List.mem_range'_1] at hmem
      omega

/-! ## Entries with the log in front of them -/

/-- Every entry of a log, with what stands in front of it. -/
def Each (p : List α → α → Prop) (log : List α) : Prop :=
  ∀ before entry after, log = before ++ entry :: after → p before entry

theorem each_nil {p : List α → α → Prop} : Each p [] := by
  intro before entry after h
  simp at h

theorem each_concat {p : List α → α → Prop} : Each p (log ++ [entry]) ↔ Each p log ∧ p log entry := by
  constructor
  · intro h
    refine ⟨fun before other after hlog => h before other (after ++ [entry]) ?_, h log entry [] rfl⟩
    rw [hlog, List.append_assoc, List.cons_append]
  · rintro ⟨hlog, hentry⟩ before other after hsplit
    cases after using List.reverseRecOn with
    | nil =>
        obtain ⟨rfl, heq⟩ := List.append_inj' hsplit rfl
        obtain rfl := List.singleton_injective heq
        exact hentry
    | append_singleton after last =>
        rw [← List.cons_append, ← List.append_assoc] at hsplit
        exact hlog before other after (List.append_inj' hsplit rfl).1

/-! ## The highest number -/

variable (key seq) in
/-- The highest number of a key, or zero. -/
def mark (log : List α) (k : κ) : ℕ := (numbers key seq log k).foldr max 0

@[simp] theorem mark_nil {k : κ} : mark key seq [] k = 0 := rfl

theorem foldr_max_concat (ns : List ℕ) (n : ℕ) :
    (ns ++ [n]).foldr max 0 = max n (ns.foldr max 0) := by
  induction ns with
  | nil => rfl
  | cons head rest ih => rw [List.cons_append, List.foldr_cons, List.foldr_cons, ih, max_left_comm]

theorem mark_concat_self :
    mark key seq (log ++ [entry]) (key entry) = max (seq entry) (mark key seq log (key entry)) := by
  rw [mark, numbers_concat_self, foldr_max_concat, mark]

theorem mark_concat_of_ne {k : κ} (h : key entry ≠ k) :
    mark key seq (log ++ [entry]) k = mark key seq log k := by
  rw [mark, numbers_concat_of_ne h, mark]

theorem mark_eq_zero {k : κ} (h : ∀ other ∈ log, key other ≠ k) : mark key seq log k = 0 := by
  rw [mark, numbers_eq_nil h, List.foldr_nil]

theorem le_mark (h : entry ∈ log) : seq entry ≤ mark key seq log (key entry) := by
  induction log using List.reverseRecOn with
  | nil => exact absurd h List.not_mem_nil
  | append_singleton log last ih =>
      by_cases hkey : key last = key entry
      · rw [← hkey, mark_concat_self]
        rcases List.mem_append.mp h with hmem | hmem
        · exact le_max_iff.mpr (.inr (hkey ▸ ih hmem))
        · exact le_max_iff.mpr (.inl (le_of_eq (congrArg seq (List.mem_singleton.mp hmem))))
      · rw [mark_concat_of_ne hkey]
        rcases List.mem_append.mp h with hmem | hmem
        · exact ih hmem
        · exact absurd (congrArg key (List.mem_singleton.mp hmem)).symm hkey

theorem foldr_max_mem {ns : List ℕ} (h : ns ≠ []) : ns.foldr max 0 ∈ ns := by
  induction ns with
  | nil => exact absurd rfl h
  | cons head rest ih =>
      by_cases hrest : rest = []
      · subst hrest
        simp
      · rw [List.foldr_cons]
        rcases max_choice head (rest.foldr max 0) with heq | heq
        · rw [heq]
          exact List.mem_cons_self ..
        · rw [heq]
          exact List.mem_cons_of_mem _ (ih hrest)

/-- The mark is a number of the key. -/
theorem exists_seq_eq_mark (h : entry ∈ log) :
    ∃ top ∈ log, key top = key entry ∧ seq top = mark key seq log (key entry) := by
  have hmem : seq entry ∈ numbers key seq log (key entry) :=
    List.mem_map_of_mem (List.mem_filter.mpr ⟨h, by simp⟩)
  obtain ⟨top, htop, hseq⟩ := List.mem_map.mp (foldr_max_mem (List.ne_nil_of_mem hmem))
  obtain ⟨hlog, hkey⟩ := List.mem_filter.mp htop
  exact ⟨top, hlog, of_decide_eq_true hkey, hseq⟩

theorem foldr_max_range' (n : ℕ) : (List.range' 1 n).foldr max 0 = n := by
  induction n with
  | zero => rfl
  | succ n ih =>
      rw [List.range'_concat, foldr_max_concat, ih]
      omega

/-- A key's entries are counted when each has the number after the mark in front of it. -/
theorem counts_iff {k : κ} :
    numbers key seq log k = List.range' 1 (numbers key seq log k).length ↔
      Each (fun before e => key e = k → seq e = mark key seq before k + 1) log := by
  induction log using List.reverseRecOn with
  | nil => exact ⟨fun _ => each_nil, fun _ => rfl⟩
  | append_singleton log last ih =>
      rw [each_concat, ← ih]
      by_cases hkey : key last = k
      · subst hkey
        rw [numbers_concat_self, List.length_append, List.length_singleton, List.range'_concat]
        constructor
        · intro h
          obtain ⟨hlog, hlast⟩ := List.append_inj' h rfl
          refine ⟨hlog, fun _ => ?_⟩
          have hmark : mark key seq log (key last) = (numbers key seq log (key last)).length := by
            rw [mark, hlog, foldr_max_range', List.length_range']
          rw [hmark, List.singleton_injective hlast]
          omega
        · rintro ⟨hlog, hlast⟩
          have hmark : mark key seq log (key last) = (numbers key seq log (key last)).length := by
            rw [mark, hlog, foldr_max_range', List.length_range']
          rw [hlast rfl, hmark, ← hlog]
          congr 2
          omega
      · rw [numbers_concat_of_ne hkey]
        exact ⟨fun h => ⟨h, fun hsame => absurd hsame hkey⟩, And.left⟩

end Sequence
