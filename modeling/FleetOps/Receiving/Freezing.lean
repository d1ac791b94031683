import FleetOps.Receiving.Agreement
import FleetOps.Receiving.Aftermath

/-!
# Frozen expectations

Once a comparator binds a purchase order line, no correction of the line is
accepted any more.  So the source that the comparator pins stays the one in
force, and what is read through the view of effective lines is what any
evaluation reads through its pinned source.
-/

namespace FleetOps

open Relation Keys

section

variable {t t' : Tenant} {receipt : Uuid} {c : Comparator}

/-! ## Bound lines -/

/-- No statement changes what a bound line reads as. -/
theorem Wrote.purchaseOrderLine? (h : Wrote receipt t t') (hc : c ∈ t.comparators) :
    t'.purchaseOrderLine? c.poLineId = t.purchaseOrderLine? c.poLineId := by
  cases h with
  | @purchaseOrderLineCorrection row hkey hunbound =>
      have hlatest : Tenant.latestCorrection (t.purchaseOrderLineCorrections ++ [row]) c.poLineId =
          Tenant.latestCorrection t.purchaseOrderLineCorrections c.poLineId := by
        unfold Tenant.latestCorrection
        rw [filter_append_of_forall fun other hother => ?_]
        rw [List.mem_singleton.mp hother]
        simp [Ne.symm (hunbound c hc)]
      unfold Tenant.purchaseOrderLine?
      cases hfound : t.purchaseOrderLines.find? (·.id = c.poLineId) with
      | none => rfl
      | some line =>
          have hid := (key_of_find? hfound).2
          simp only [Option.map_some, Tenant.effectivePurchaseOrderLine, hid, hlatest]
  | _ => rfl

theorem Writes.purchaseOrderLine? (h : Writes receipt t t') (hc : c ∈ t.comparators) :
    t'.purchaseOrderLine? c.poLineId = t.purchaseOrderLine? c.poLineId := by
  induction h with
  | refl => rfl
  | tail hwrites hlast ih =>
      exact (hlast.purchaseOrderLine? (Writes.mem_comparators hwrites hc)).trans ih

/-- A step keeps the comparators of a receipt, and what their lines read as. -/
theorem StepOn.keepsBound {posixSpace : Char → Bool} (h : StepOn posixSpace receipt t t')
    (hc : c ∈ t.comparatorsOf receipt) : c ∈ t'.comparatorsOf receipt ∧
      t'.purchaseOrderLine? c.poLineId = t.purchaseOrderLine? c.poLineId := by
  obtain ⟨hmem, hreceipt⟩ := Tenant.mem_comparatorsOf.mp hc
  have hwritten : Writes receipt t t' → c ∈ t'.comparatorsOf receipt ∧
      t'.purchaseOrderLine? c.poLineId = t.purchaseOrderLine? c.poLineId := fun hwrites =>
    ⟨Tenant.mem_comparatorsOf.mpr ⟨Writes.mem_comparators hwrites hmem, hreceipt⟩,
      Writes.purchaseOrderLine? hwrites hmem⟩
  cases h with
  | same hsame => exact ⟨hsame.comparators ▸ hc, hsame.toSameCapture.purchaseOrderLine? hc⟩
  | captured hcaptured => exact hwritten hcaptured.writes
  | corrected round hspace hround hbefore hvalid hafter hwrites => exact hwritten hwrites
  | transitioned event hmanual hafter hwrote => exact hwritten (.single hwrote)

/-! ## Pinned expectations -/

/-- A receipt whose capture is not complete has not been evaluated. -/
theorem Captured.evaluationsOf (h : Captured receipt t t') (hkeys : t.Integrity) :
    t'.evaluationsOf receipt = [] := by
  have hkeys' := Writes.integrity h.writes hkeys
  refine List.filter_eq_nil_iff.mpr fun e he heq => h.opened ?_
  obtain ⟨cause, hcause, -, hentity⟩ := hkeys'.evaluationCause e he
  rw [h.uncorrected] at hcause
  exact (hentity.trans (of_decide_eq_true heq)) ▸ hkeys.sealed cause hcause

/-- What an evaluation of the receipt pins as an expectation repeats a comparator. -/
def Tenant.Repeats (tenant : Tenant) (receipt : Uuid) : Prop :=
  ∀ e ∈ tenant.evaluationsOf receipt, ∀ s ∈ tenant.pinnedExpectations e.id,
    ∃ b ∈ tenant.comparatorsOf receipt, Tenant.pins s b

theorem StepOn.repeats {posixSpace : Char → Bool} (h : StepOn posixSpace receipt t t')
    (hkeys : t.Integrity) (hrepeats : t.Repeats receipt) : t'.Repeats receipt := by
  intro e he s hs
  cases h with
  | same hsame =>
      rw [hsame.evaluations] at he
      rw [hsame.pinnedExpectations e he] at hs
      rw [hsame.comparators]
      exact hrepeats e he s hs
  | captured hcaptured =>
      rw [hcaptured.evaluationsOf hkeys] at he
      exact absurd he List.not_mem_nil
  | corrected round hspace hreceipt hbefore hvalid hafter hwrites =>
      subst hreceipt hbefore hafter
      have hkeys' := Writes.integrity hwrites hkeys
      rw [Round.evaluationsOf_after hvalid] at he
      rw [Round.comparatorsOf_after hvalid]
      rcases List.mem_append.mp he with hold | hnew
      · rw [Round.pinnedExpectations_of_mem hkeys' (Tenant.mem_evaluationsOf.mp hold).1] at hs
        obtain ⟨b, hb, hpins⟩ := hrepeats e hold s hs
        exact ⟨b, List.mem_append_left _ hb, hpins⟩
      · rw [List.mem_singleton.mp hnew, Round.pinnedExpectations_evaluation hkeys hkeys'] at hs
        obtain ⟨b, hb, rfl⟩ := List.mem_map.mp hs
        have hbound := Round.comparatorsOf_after hvalid
        rw [Round.after_eq] at hbound
        refine ⟨b, hbound ▸ hb, ?_⟩
        simp [Tenant.pins, Round.expectation]
  | transitioned event hmanual hafter hwrote =>
      subst hafter
      exact hrepeats e he s hs

/-- Every evaluation of a receipt reads a bound line as it is in force. -/
theorem evaluatedExpectation_eq (hkeys : t.Integrity) {e : Evaluation} (he : e ∈ t.evaluations)
    (hrepeats : t.Repeats e.receiptId) {p : EvaluatedExpectation}
    (hp : p ∈ t.evaluatedReceiptExpectations e.id) :
    ∃ line, t.purchaseOrderLine? p.poLineId = some line ∧ p = expectationOf line.id line.fields := by
  obtain ⟨s, hs, hread⟩ := List.mem_filterMap.mp hp
  obtain ⟨b, hb, hpins⟩ := hrepeats e (Tenant.mem_evaluationsOf.mpr ⟨he, rfl⟩) s hs
  simp only [Tenant.pins, Bool.and_eq_true, beq_iff_eq] at hpins
  obtain ⟨⟨hroot, -⟩, hsource⟩ := hpins
  obtain ⟨line, hline, hid, heq⟩ := hkeys.expectationAt_eq (Tenant.mem_comparatorsOf.mp hb).1
  rw [hroot, hsource] at hread
  have hp' : expectationOf line.id line.fields = p := Option.some.inj (heq.symm.trans hread)
  refine ⟨line, ?_, hp'.symm⟩
  rw [← hp']
  exact (congrArg _ hid).trans hline

/-! ## Runs -/

/-- The expectation that a comparator binds is frozen. -/
structure Tenant.Frozen (tenant : Tenant) (c : Comparator) : Prop where
  bound : c ∈ tenant.comparators
  /-- The pinned source is the head of the line's corrections. -/
  head : c.sourceId = (Tenant.latestCorrection tenant.purchaseOrderLineCorrections c.poLineId).map
      RecordCorrection.id ∧
    c.sourceGeneration = Tenant.generation tenant.purchaseOrderLineCorrections c.poLineId
  /-- The line is not corrected through the service, -/
  refused : ∀ ctx po values keys result,
    Service.correctProcurement ctx po c.poLineId values keys tenant ≠ .ok result
  /-- nor by an insert that is guarded. -/
  unwritable : ∀ ctx row result, row.rootId = c.poLineId →
    insertPurchaseOrderLineCorrection ctx row tenant ≠ .ok result

theorem Tenant.Integrity.frozen (hkeys : t.Integrity) (hc : c ∈ t.comparators) : t.Frozen c where
  bound := hc
  head := hkeys.pinned c hc
  refused ctx po values keys result h := by
    simp only [Service.correctProcurement, bind_eq_ok, Service.ensure_eq_ok, exists_unit] at h
    obtain ⟨_, -, -, _, -, hunbound, -⟩ := h
    simpa using List.all_eq_true.mp hunbound c hc
  unwritable ctx row result hroot h := by
    obtain ⟨hsame, hunbound, -⟩ := insertPurchaseOrderLineCorrection_eq_ok h
    exact hunbound c hc (hsame.trans hroot).symm

/-- In every state after a comparator was bound, in any run of requests, its expectation is frozen:
the line reads as it did, and so does every evaluation that reads it through its pinned source. -/
theorem boundExpectationFrozen (posixSpace : Char → Bool) {start : Tenant} (hfresh : start.Fresh)
    (requests later : List (Context × ReceivingCall)) :
    let t := Machine.run (Tenant.step posixSpace) requests start
    let t' := Machine.run (Tenant.step posixSpace) later t
    ∀ c ∈ t.comparators, t'.Frozen c ∧
      t'.purchaseOrderLine? c.poLineId = t.purchaseOrderLine? c.poLineId ∧
      ∃ line, t'.purchaseOrderLine? c.poLineId = some line ∧
        ∀ e ∈ t'.evaluations, ∀ p ∈ t'.evaluatedReceiptExpectations e.id,
          p.poLineId = c.poLineId → p = expectationOf line.id line.fields := by
  intro t t' c hc
  have hrepeats : ∀ receipt, t.Integrity ∧ t.Repeats receipt := fun receipt =>
    run_receipt posixSpace (fun s => s.Repeats receipt)
      (fun _ _ hbefore hon => hon.repeats hbefore) hfresh.integrity
      (fun e he => by
        rw [hfresh.records] at he
        exact absurd (List.mem_filter.mp he).1 List.not_mem_nil) requests
  have hkeys := (hrepeats c.receiptId).1
  obtain ⟨hkeys', hkept⟩ := run_receipt posixSpace
    (fun s => c ∈ s.comparatorsOf c.receiptId ∧
      s.purchaseOrderLine? c.poLineId = t.purchaseOrderLine? c.poLineId)
    (fun _ _ _ hon hinv =>
      let hstep := hon.keepsBound hinv.1
      ⟨hstep.1, hstep.2.trans hinv.2⟩) hkeys
    ⟨Tenant.mem_comparatorsOf.mpr ⟨hc, rfl⟩, rfl⟩ later
  have hbound := (Tenant.mem_comparatorsOf.mp hkept.1).1
  obtain ⟨line, hline, -⟩ := hkeys'.expectationAt_eq hbound
  refine ⟨hkeys'.frozen hbound, hkept.2, line, hline, fun e he p hp hid => ?_⟩
  have hlater := run_receipt posixSpace (fun s => s.Repeats e.receiptId)
    (fun _ _ hbefore hon => hon.repeats hbefore) hkeys (hrepeats e.receiptId).2 later
  obtain ⟨read, hread, heq⟩ := evaluatedExpectation_eq hkeys' he hlater.2 hp
  rw [hid] at hread
  obtain rfl := Option.some.inj (hline.symm.trans hread)
  exact heq

/-- The recount is evaluated by the pinned expectation. -/
example :
    let t := Machine.run (Tenant.step sampleContext.posixSpace) (sampleArrival ++ sampleRecount)
      expectingTenant
    t.evaluations.map (fun e =>
      (t.evaluatedReceiptExpectations e.id).map fun p => (p.poLineId, p.quantity)) =
        [[(21, 5)]] := by decide +kernel

theorem boundExpectationFrozen_sample :
    let t := Machine.run (Tenant.step sampleContext.posixSpace) sampleArrival expectingTenant
    let t' := Machine.run (Tenant.step sampleContext.posixSpace) sampleRecount t
    ∀ c ∈ t.comparators, t'.Frozen c ∧
      t'.purchaseOrderLine? c.poLineId = t.purchaseOrderLine? c.poLineId ∧
      ∃ line, t'.purchaseOrderLine? c.poLineId = some line ∧
        ∀ e ∈ t'.evaluations, ∀ p ∈ t'.evaluatedReceiptExpectations e.id,
          p.poLineId = c.poLineId → p = expectationOf line.id line.fields :=
  boundExpectationFrozen sampleContext.posixSpace expectingTenant_fresh sampleArrival
    sampleRecount

end

end FleetOps
