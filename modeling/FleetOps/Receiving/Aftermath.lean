import FleetOps.Receiving.Runs

/-!
# After a round

A round appends to every table of a receipt, so what was known of an earlier
evaluation is still known (`pinnedLines_of_mem` and its like), and what is known
of the round's own evaluation is what it wrote.  An observation gains the event
that resolves it, if there is one, and nothing else.
-/

namespace FleetOps

open Relation Keys

namespace Tenant

variable {tenant : Tenant}

end Tenant

namespace Round

variable {round : Round}

/-! ## The receipt's rows -/

@[simp] theorem linesOf_after (receipt : Uuid) :
    round.after.linesOf receipt = round.before.linesOf receipt := by
  rw [after_eq]
  rfl

theorem comparatorsOf_after (hvalid : round.Valid) : round.after.comparatorsOf round.receipt =
    round.before.comparatorsOf round.receipt ++ round.introduced := by
  rw [after_eq]
  simp only [Tenant.comparatorsOf, comparators, List.filter_append]
  rw [List.filter_eq_self.mpr fun c hc => decide_eq_true (hvalid.introduced c hc).1]

theorem correctionsOf_after (hvalid : round.Valid) : round.after.correctionsOf round.receipt =
    round.before.correctionsOf round.receipt ++ [round.reversal, round.corrected] := by
  rw [after_eq]
  simp only [Tenant.correctionsOf, corrections, List.filter_append]
  refine congrArg _ (List.filter_eq_self.mpr fun c hc => decide_eq_true ?_)
  rcases List.mem_pair.mp hc with rfl | rfl
  · exact hvalid.reversal.2.1
  · exact hvalid.corrected.2

theorem evaluationsOf_after (hvalid : round.Valid) : round.after.evaluationsOf round.receipt =
    round.before.evaluationsOf round.receipt ++ [round.evaluation] := by
  rw [after_eq]
  simp [Tenant.evaluationsOf, List.filter_append, hvalid.receipt]

theorem mem_evaluationsOf_after (hvalid : round.Valid) :
    round.evaluation ∈ round.after.evaluationsOf round.receipt := by
  rw [evaluationsOf_after hvalid]
  exact List.mem_append_right _ (List.mem_singleton_self _)

theorem exceptionsOf_after : round.after.exceptionsOf round.receipt =
    round.before.exceptionsOf round.receipt ++ round.unclaimed.map round.opened := by
  rw [after_eq]
  simp only [Tenant.exceptionsOf, List.filter_append]
  refine congrArg _ (List.filter_eq_self.mpr fun o ho => decide_eq_true ?_)
  obtain ⟨key, -, rfl⟩ := List.mem_map.mp ho
  rfl

/-! ## Lines in force -/

/-- The replacement is the newest of its line; other lines are in force as they were. -/
theorem latestCorrection_corrections (hvalid : round.Valid) (root : Uuid) :
    Tenant.latestCorrection round.corrections root =
      if root = round.corrected.rootId then some round.corrected
      else Tenant.latestCorrection round.before.lineCorrections root := by
  obtain ⟨hreversal, -, hroot, -⟩ := hvalid.reversal
  split
  · rename_i heq
    subst heq
    refine Query.latestBy_eq_of_forall_lt ?_ fun other hother hne => ?_
    · simp [corrections, hvalid.corrected.1]
    · obtain ⟨hmem, hfields⟩ := List.mem_filter.mp hother
      simp only [decide_eq_true_eq] at hfields
      rcases List.mem_append.mp hmem with hold | hnew
      · have hle : other.generation ≤ Tenant.generation round.before.lineCorrections
            round.corrected.rootId := by
          have hmember : other ∈ round.before.lineCorrections.filter fun c =>
              c.rootId = round.corrected.rootId ∧ c.role = .corrected :=
            List.mem_filter.mpr ⟨hold, decide_eq_true hfields⟩
          unfold Tenant.generation Tenant.latestCorrection
          cases hlatest : Query.latestBy RecordCorrection.generation
              (round.before.lineCorrections.filter fun c =>
                c.rootId = round.corrected.rootId ∧ c.role = .corrected) with
          | none => rw [Query.latestBy_eq_none.mp hlatest] at hmember; exact absurd hmember (by simp)
          | some newest => exact Query.le_of_latestBy hlatest other hmember
        rw [hvalid.next]
        exact Nat.lt_succ_of_le hle
      · rcases List.mem_pair.mp hnew with rfl | rfl
        · exact absurd (hreversal.symm.trans hfields.2) (by decide)
        · exact absurd rfl hne
  · rename_i hne
    unfold Tenant.latestCorrection corrections
    rw [filter_append_of_forall fun c hc => ?_]
    rcases List.mem_pair.mp hc with rfl | rfl
    · simp [hroot, Ne.symm hne]
    · simp [Ne.symm hne]

/-! ## Evaluations -/

/-- The round's evaluation is a new one. -/
theorem ne_evaluation (hafter : round.after.Integrity) {e : Evaluation}
    (he : e ∈ round.before.evaluations) : e.id ≠ round.evaluation.id := by
  have hdistinct := hafter.evaluations
  rw [after_eq, Distinct, List.map_append, List.nodup_append] at hdistinct
  exact hdistinct.2.2 _ (List.mem_map_of_mem he) _ (by simp)

theorem pinnedLines_of_mem (hafter : round.after.Integrity) {e : Evaluation}
    (he : e ∈ round.before.evaluations) :
    round.after.pinnedLines e.id = round.before.pinnedLines e.id := by
  rw [after_eq]
  refine filter_append_of_forall fun s hs => ?_
  obtain ⟨line, -, rfl⟩ := List.mem_map.mp hs
  exact decide_eq_false (ne_evaluation hafter he).symm

theorem pinnedExpectations_of_mem (hafter : round.after.Integrity) {e : Evaluation}
    (he : e ∈ round.before.evaluations) :
    round.after.pinnedExpectations e.id = round.before.pinnedExpectations e.id := by
  rw [after_eq]
  refine filter_append_of_forall fun s hs => ?_
  obtain ⟨c, -, rfl⟩ := List.mem_map.mp hs
  exact decide_eq_false (ne_evaluation hafter he).symm

theorem linksOf_of_mem (hafter : round.after.Integrity) {e : Evaluation}
    (he : e ∈ round.before.evaluations) :
    round.after.linksOf e.id = round.before.linksOf e.id := by
  rw [after_eq]
  simp only [Tenant.linksOf, List.append_assoc]
  refine filter_append_of_forall fun x hx => ?_
  rcases List.mem_append.mp hx with hmem | hmem
  · obtain ⟨o, -, rfl⟩ := List.mem_map.mp hmem
    exact decide_eq_false (ne_evaluation hafter he).symm
  · obtain ⟨key, -, rfl⟩ := List.mem_map.mp hmem
    exact decide_eq_false (ne_evaluation hafter he).symm

theorem pinnedLines_evaluation (hkeys : round.before.Integrity) (hafter : round.after.Integrity) :
    round.after.pinnedLines round.evaluation.id =
      (round.before.linesOf round.receipt).map round.line := by
  have hnone : round.before.evaluationLines.filter (·.evaluationId = round.evaluation.id) = [] :=
    List.filter_eq_nil_iff.mpr fun s hs => by
      obtain ⟨e, he, hid⟩ := hkeys.pinnedLine s hs
      simpa [← hid] using ne_evaluation hafter he
  rw [after_eq, Tenant.pinnedLines, List.filter_append, hnone, List.nil_append]
  refine List.filter_eq_self.mpr fun s hs => ?_
  obtain ⟨line, -, rfl⟩ := List.mem_map.mp hs
  exact decide_eq_true rfl

theorem pinnedExpectations_evaluation (hkeys : round.before.Integrity)
    (hafter : round.after.Integrity) : round.after.pinnedExpectations round.evaluation.id =
      (round.comparators.filter (·.receiptId = round.receipt)).map round.expectation := by
  have hnone : round.before.evaluationExpectations.filter
      (·.evaluationId = round.evaluation.id) = [] :=
    List.filter_eq_nil_iff.mpr fun s hs => by
      obtain ⟨e, he, hid⟩ := hkeys.pinnedExpectation s hs
      simpa [← hid] using ne_evaluation hafter he
  rw [after_eq, Tenant.pinnedExpectations, List.filter_append, hnone, List.nil_append]
  refine List.filter_eq_self.mpr fun s hs => ?_
  obtain ⟨c, -, rfl⟩ := List.mem_map.mp hs
  exact decide_eq_true rfl

theorem linksOf_evaluation (hkeys : round.before.Integrity) (hafter : round.after.Integrity) :
    round.after.linksOf round.evaluation.id =
      round.observations.map round.link ++ round.unclaimed.map round.openedLink := by
  have hnone : round.before.evaluationExceptions.filter
      (·.evaluationId = round.evaluation.id) = [] :=
    List.filter_eq_nil_iff.mpr fun x hx => by
      obtain ⟨e, he, _, -, hid, -⟩ := hkeys.links x hx
      simpa [← hid] using ne_evaluation hafter he
  rw [after_eq, Tenant.linksOf, List.append_assoc, List.filter_append, hnone, List.nil_append]
  refine List.filter_eq_self.mpr fun x hx => ?_
  rcases List.mem_append.mp hx with hmem | hmem
  · obtain ⟨o, -, rfl⟩ := List.mem_map.mp hmem
    exact decide_eq_true rfl
  · obtain ⟨key, -, rfl⟩ := List.mem_map.mp hmem
    exact decide_eq_true rfl

/-! ## Events and workflows -/

/-- An observation gains the event that resolves it. -/
theorem eventsOf_observation (hkeys : round.before.Integrity) {o : ReceivingException}
    (ho : o ∈ round.observations) : round.after.eventsOf o.id =
      round.before.eventsOf o.id ++ (round.resolution o).toList := by
  have hown : (round.observations.filterMap round.resolution).filter (·.exceptionId = o.id) =
      (round.resolution o).toList :=
    (distinct_observations hkeys).filter_filterMap ho fun _ _ _ => resolution_exceptionId
  rw [after_eq, Tenant.eventsOf, List.filter_append, hown]
  rfl

end Round

end FleetOps
