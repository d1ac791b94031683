import Mathlib.Data.List.Basic
import Mathlib.Data.List.Nodup
import Mathlib.Data.List.Induction
import Mathlib.Tactic.Common

/-!
# Dictionaries of rows

`ofRows key rows` is what a comprehension `{key(row): row for row in rows}`
iterates over: the rows in the order in which their keys first appear, each key
with the last row that has it.  Where the keys differ it is the rows themselves.

`group key rows` is what `groups.setdefault(key(row), []).append(row)` builds over
the rows: each key once, with the rows that have it in their order.
-/

namespace Dictionary

variable {ρ κ : Type*} [DecidableEq κ] (key : ρ → κ)

/-- Assignment to a key. -/
def put (row : ρ) : List ρ → List ρ
  | [] => [row]
  | entry :: rest => if key entry = key row then row :: rest else entry :: put row rest

/-- The values of a comprehension. -/
def ofRows (rows : List ρ) : List ρ := rows.foldl (fun entries row => put key row entries) []

variable {key}

theorem put_of_forall_ne {row : ρ} {entries : List ρ} (h : ∀ entry ∈ entries, key entry ≠ key row) :
    put key row entries = entries ++ [row] := by
  induction entries with
  | nil => rfl
  | cons entry rest ih =>
      rw [put, if_neg (h entry (List.mem_cons_self ..)),
        ih fun other hother => h other (List.mem_cons_of_mem _ hother), List.cons_append]

theorem foldl_put_of_nodup {rows entries : List ρ} (h : ((entries ++ rows).map key).Nodup) :
    rows.foldl (fun entries row => put key row entries) entries = entries ++ rows := by
  induction rows generalizing entries with
  | nil => simp
  | cons row rest ih =>
      have hne : ∀ entry ∈ entries, key entry ≠ key row := by
        intro entry hentry
        rw [List.map_append, List.nodup_append] at h
        exact h.2.2 _ (List.mem_map_of_mem hentry) _ (List.mem_map_of_mem (List.mem_cons_self ..))
      have hrest : (((entries ++ [row]) ++ rest).map key).Nodup := by simpa using h
      rw [List.foldl_cons, put_of_forall_ne hne, ih hrest, List.append_assoc, List.singleton_append]

/-- With different keys nothing is replaced. -/
theorem ofRows_of_nodup {rows : List ρ} (h : (rows.map key).Nodup) : ofRows key rows = rows :=
  foldl_put_of_nodup h

/-! ## Entries -/

section

variable {ν : Type*} {rows : List ρ}

theorem lookup_map (h : (rows.map key).Nodup) (f : ρ → ν) {row : ρ} (hrow : row ∈ rows) :
    (rows.map fun r => (key r, f r)).lookup (key row) = some (f row) := by
  induction rows with
  | nil => exact absurd hrow List.not_mem_nil
  | cons head rest ih =>
      obtain ⟨hhead, hrest⟩ := List.nodup_cons.mp h
      rcases List.mem_cons.mp hrow with rfl | hmem
      · simp
      · have hne : key row ≠ key head := fun heq => hhead (heq ▸ List.mem_map_of_mem hmem)
        simp only [List.map_cons, List.lookup_cons, beq_eq_false_iff_ne.mpr hne]
        exact ih hrest hmem

/-- Assignment to the key of one row changes that row's value. -/
theorem put_map (h : (rows.map key).Nodup) (f : ρ → ν) {row : ρ} (hrow : row ∈ rows) (value : ν) :
    put Prod.fst (key row, value) (rows.map fun r => (key r, f r)) =
      rows.map fun r => (key r, if key r = key row then value else f r) := by
  induction rows with
  | nil => exact absurd hrow List.not_mem_nil
  | cons head rest ih =>
      obtain ⟨hhead, hrest⟩ := List.nodup_cons.mp h
      by_cases heq : key head = key row
      · have hothers : ∀ r ∈ rest, key r ≠ key row := fun r hr hsame =>
          hhead (heq.trans hsame.symm ▸ List.mem_map_of_mem hr)
        simp only [List.map_cons, put, heq, if_true]
        congr 1
        exact List.map_congr_left fun r hr => by rw [if_neg (hothers r hr)]
      · have hmem : row ∈ rest := (List.mem_cons.mp hrow).resolve_left fun hsame => heq (hsame ▸ rfl)
        simp only [List.map_cons, put, heq, if_false, ih hrest hmem]

end

/-! ## Groups -/

/-- `groups.setdefault(k, []).append(row)`. -/
def push (k : κ) (row : ρ) : List (κ × List ρ) → List (κ × List ρ)
  | [] => [(k, [row])]
  | (other, members) :: rest =>
      if other = k then (other, members ++ [row]) :: rest else (other, members) :: push k row rest

variable (key) in
/-- The groups of all rows. -/
def group (rows : List ρ) : List (κ × List ρ) :=
  rows.foldl (fun groups row => push (key row) row groups) []

/-- Each key once, with the rows that have it. -/
structure Grouped (key : ρ → κ) (rows : List ρ) (groups : List (κ × List ρ)) : Prop where
  nodup : (groups.map Prod.fst).Nodup
  members : ∀ entry ∈ groups, entry.2 = rows.filter (key · = entry.1)
  keys : ∀ k, k ∈ groups.map Prod.fst ↔ k ∈ rows.map key

theorem map_fst_push {k : κ} {row : ρ} {groups : List (κ × List ρ)} :
    (push k row groups).map Prod.fst =
      if k ∈ groups.map Prod.fst then groups.map Prod.fst else groups.map Prod.fst ++ [k] := by
  induction groups with
  | nil => rfl
  | cons entry rest ih =>
      by_cases heq : entry.1 = k
      · simp [push, heq]
      · have hne : k ≠ entry.1 := fun h => heq h.symm
        simp only [push, heq, if_false, List.map_cons, ih, List.mem_cons, hne, false_or]
        split <;> rfl

theorem mem_push {k : κ} {row : ρ} {groups : List (κ × List ρ)}
    (hnodup : (groups.map Prod.fst).Nodup) {entry : κ × List ρ} (h : entry ∈ push k row groups) :
    entry ∈ groups ∧ entry.1 ≠ k ∨
      (∃ members, (k, members) ∈ groups ∧ entry = (k, members ++ [row])) ∨
        k ∉ groups.map Prod.fst ∧ entry = (k, [row]) := by
  induction groups with
  | nil => exact .inr (.inr ⟨List.not_mem_nil, List.mem_singleton.mp h⟩)
  | cons head rest ih =>
      obtain ⟨hhead, hrest⟩ := List.nodup_cons.mp hnodup
      by_cases heq : head.1 = k
      · rw [push, if_pos heq] at h
        rcases List.mem_cons.mp h with rfl | hmem
        · exact .inr (.inl ⟨head.2, heq ▸ List.mem_cons_self .., by rw [← heq]⟩)
        · refine .inl ⟨List.mem_cons_of_mem _ hmem, fun hsame => hhead ?_⟩
          exact heq.trans hsame.symm ▸ List.mem_map_of_mem hmem
      · rw [push, if_neg heq] at h
        rcases List.mem_cons.mp h with rfl | hmem
        · exact .inl ⟨List.mem_cons_self .., heq⟩
        · rcases ih hrest hmem with ⟨hold, hne⟩ | ⟨members, hold, hentry⟩ | ⟨hnew, hentry⟩
          · exact .inl ⟨List.mem_cons_of_mem _ hold, hne⟩
          · exact .inr (.inl ⟨members, List.mem_cons_of_mem _ hold, hentry⟩)
          · refine .inr (.inr ⟨?_, hentry⟩)
            rw [List.map_cons, List.mem_cons, not_or]
            exact ⟨fun hsame => heq hsame.symm, hnew⟩

theorem Grouped.push {rows : List ρ} {groups : List (κ × List ρ)} (h : Grouped key rows groups)
    (row : ρ) : Grouped key (rows ++ [row]) (push (key row) row groups) where
  nodup := by
    rw [map_fst_push]
    split
    · exact h.nodup
    · next hnew =>
        rw [List.nodup_append]
        refine ⟨h.nodup, List.nodup_singleton _, fun k hk other hother heq => ?_⟩
        rw [List.mem_singleton.mp hother] at heq
        exact hnew (heq ▸ hk)
  members := by
    intro entry hentry
    rw [List.filter_append]
    rcases mem_push h.nodup hentry with ⟨hold, hne⟩ | ⟨members, hold, rfl⟩ | ⟨hnew, rfl⟩
    · simp [h.members entry hold, hne.symm]
    · simpa using h.members _ hold
    · have hnone : rows.filter (key · = key row) = [] := by
        refine List.filter_eq_nil_iff.mpr fun other hother hsame => hnew ((h.keys _).mpr ?_)
        exact of_decide_eq_true hsame ▸ List.mem_map_of_mem hother
      simp [hnone]
  keys := by
    intro k
    rw [map_fst_push, List.map_append, List.map_singleton, List.mem_append, ← h.keys k]
    split
    · next hold =>
        rw [List.mem_singleton]
        exact ⟨.inl, fun h => h.elim id fun hsame => hsame ▸ hold⟩
    · rw [List.mem_append]

theorem group_concat (rows : List ρ) (row : ρ) :
    group key (rows ++ [row]) = Dictionary.push (key row) row (group key rows) := by
  rw [group, List.foldl_append]
  rfl

theorem grouped_group (rows : List ρ) : Grouped key rows (group key rows) := by
  induction rows using List.reverseRecOn with
  | nil => exact ⟨List.nodup_nil, fun _ h => absurd h List.not_mem_nil, fun _ => Iff.rfl⟩
  | append_singleton rows row ih =>
      rw [group_concat]
      exact ih.push row

theorem flatMap_push (k : κ) (row : ρ) (groups : List (κ × List ρ)) :
    ((push k row groups).flatMap Prod.snd).Perm (groups.flatMap Prod.snd ++ [row]) := by
  induction groups with
  | nil => exact List.Perm.refl _
  | cons entry rest ih =>
      by_cases heq : entry.1 = k
      · rw [push, if_pos heq, List.flatMap_cons, List.flatMap_cons, List.append_assoc,
          List.append_assoc]
        exact List.perm_append_comm.append_left _
      · rw [push, if_neg heq, List.flatMap_cons, List.flatMap_cons, List.append_assoc]
        exact ih.append_left _

/-- The groups hold the rows. -/
theorem flatMap_group (rows : List ρ) : ((group key rows).flatMap Prod.snd).Perm rows := by
  induction rows using List.reverseRecOn with
  | nil => exact List.Perm.refl _
  | append_singleton rows row ih =>
      rw [group_concat]
      exact (flatMap_push ..).trans (ih.append_right _)

/-! ## Values of keys -/

section

variable {ν : Type*} [BEq κ] [LawfulBEq κ]

theorem lookup_put (entry : κ × ν) (entries : List (κ × ν)) (k : κ) :
    (put Prod.fst entry entries).lookup k =
      if k = entry.1 then some entry.2 else entries.lookup k := by
  have hcons : ∀ first : κ × ν, ∀ rest : List (κ × ν), (first :: rest).lookup k =
      if k = first.1 then some first.2 else rest.lookup k := by
    rintro ⟨key, value⟩ rest
    by_cases hk : k = key
    · simp only [List.lookup_cons, hk, beq_self_eq_true, if_true]
    · simp only [List.lookup_cons, beq_eq_false_iff_ne.mpr hk, hk, if_false]
  induction entries with
  | nil => exact hcons entry []
  | cons first rest ih =>
      rw [put]
      by_cases hfirst : first.1 = entry.1
      · rw [if_pos hfirst, hcons, hcons, hfirst]
        by_cases hk : k = entry.1
        · rw [if_pos hk, if_pos hk]
        · rw [if_neg hk, if_neg hk, if_neg hk]
      · rw [if_neg hfirst, hcons, hcons, ih]
        by_cases hk : k = first.1
        · rw [if_pos hk, if_pos hk, if_neg fun heq => hfirst (hk.symm.trans heq)]
        · rw [if_neg hk, if_neg hk]

/-- A key has the last of its values, so the only one if there is one. -/
theorem lookup_ofRows {entries : List (κ × ν)} {k : κ} {value : ν} (hmem : (k, value) ∈ entries)
    (honly : ∀ other, (k, other) ∈ entries → other = value) :
    (ofRows Prod.fst entries).lookup k = some value := by
  induction entries using List.reverseRecOn with
  | nil => exact absurd hmem List.not_mem_nil
  | append_singleton entries entry ih =>
      have hlast : (ofRows Prod.fst (entries ++ [entry])).lookup k =
          if k = entry.1 then some entry.2 else (ofRows Prod.fst entries).lookup k := by
        rw [← lookup_put]
        unfold ofRows
        rw [List.foldl_append]
        rfl
      rw [hlast]
      by_cases hk : k = entry.1
      · rw [if_pos hk, honly entry.2 (by simp [hk])]
      · rw [if_neg hk]
        refine ih ?_ fun other hother => honly other (List.mem_append_left _ hother)
        rcases List.mem_append.mp hmem with hold | hnew
        · exact hold
        · exact absurd (congrArg Prod.fst (List.mem_singleton.mp hnew)) hk

end

end Dictionary
