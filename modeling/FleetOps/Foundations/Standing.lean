import FleetOps.Foundations.Keys

/-!
# Standing observations

Facts that change are observed: each observation has a key, and a review compares
the observations that stand with the keys that are found now.  What is found
keeps its observation, what is not found loses it for good, and what nothing
stands for is observed anew.  Whatever stood before, exactly the keys that were
found stand afterwards, each once (`keys_review`).
-/

namespace Standing

open Keys

variable {ο κ : Type*} [DecidableEq κ]

section

variable (key : ο → κ) (found : List κ) (standing : List ο)

/-- The observations that a review lets stand. -/
def kept : List ο := standing.filter fun o => key o ∈ found

/-- The keys that no observation stands for. -/
def missing : List κ := found.filter fun k => k ∉ (kept key found standing).map key

/-- What stands after a review, which observes what is missing. -/
def review (observe : κ → ο) : List ο :=
  kept key found standing ++ (missing key found standing).map observe

end

variable {key : ο → κ} {found : List κ} {standing : List ο} {observe : κ → ο} {k : κ}

theorem mem_missing : k ∈ missing key found standing ↔ k ∈ found ∧ ∀ o ∈ standing, key o ≠ k := by
  rw [missing, List.mem_filter, decide_eq_true_eq]
  refine and_congr_right fun hfound => ⟨fun hnone o ho heq => hnone ?_, fun hnone hkept => ?_⟩
  · exact heq ▸ List.mem_map_of_mem (List.mem_filter.mpr ⟨ho, decide_eq_true (heq ▸ hfound)⟩)
  · obtain ⟨o, ho, heq⟩ := List.mem_map.mp hkept
    exact hnone o (List.mem_filter.mp ho).1 heq

/-- Exactly the keys that a review finds stand after it, each once. -/
theorem keys_review (hfound : found.Nodup) (hstanding : Distinct key standing)
    (hobserve : ∀ k, key (observe k) = k) :
    ((review key found standing observe).map key).Perm found := by
  have hkeys : (review key found standing observe).map key =
      (kept key found standing).map key ++ missing key found standing := by
    simp [review, Function.comp_def, hobserve]
  have hnodup : ((kept key found standing).map key ++ missing key found standing).Nodup := by
    refine List.nodup_append.mpr ⟨hstanding.filter _, hfound.filter _, ?_⟩
    intro first hfirst second hsecond heq
    exact of_decide_eq_true (List.mem_filter.mp hsecond).2 (heq ▸ hfirst)
  rw [hkeys]
  refine (List.perm_ext_iff_of_nodup hnodup hfound).mpr fun k => ?_
  rw [List.mem_append, mem_missing]
  constructor
  · intro hmem
    rcases hmem with hkept | hmissing
    · obtain ⟨o, ho, rfl⟩ := List.mem_map.mp hkept
      exact of_decide_eq_true (List.mem_filter.mp ho).2
    · exact hmissing.1
  · intro hk
    by_cases hstood : ∀ o ∈ standing, key o ≠ k
    · exact .inr ⟨hk, hstood⟩
    · push Not at hstood
      obtain ⟨o, ho, rfl⟩ := hstood
      exact .inl (List.mem_map_of_mem (List.mem_filter.mpr ⟨ho, decide_eq_true hk⟩))

end Standing
