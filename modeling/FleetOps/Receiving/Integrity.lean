import FleetOps.Receiving.Statements

/-!
# Integrity of the receiving tables

`Tenant.Integrity` is what keys, references and guards say of the tables at any
time.  Every statement keeps it (`Wrote.integrity`), so every request does.
-/

namespace FleetOps

open Keys

/-- The keys and references of one tenant's receiving records. -/
structure Tenant.Integrity (t : Tenant) : Prop where
  lines : Distinct ReceiptLine.id t.lines
  comparators : Distinct (fun c : Comparator => (c.receiptId, c.poLineId)) t.comparators
  exceptions : Distinct ReceivingException.id t.exceptions
  corrections : Distinct RecordCorrection.id t.lineCorrections
  pairs : Distinct (fun c : RecordCorrection LineFields => (c.pairId, c.role)) t.lineCorrections
  generations : Distinct (fun c : RecordCorrection LineFields => (c.rootId, c.generation, c.role))
    t.lineCorrections
  evaluations : Distinct Evaluation.id t.evaluations
  causes : Distinct Evaluation.correctionId t.evaluations
  procurement : Distinct RecordCorrection.id t.purchaseOrderLineCorrections
  lineReceipt : ∀ line ∈ t.lines, t.Received line.receiptId
  comparatorReceipt : ∀ c ∈ t.comparators, t.Received c.receiptId
  reconciliationReceipt : ∀ r ∈ t.reconciliations, t.Received r.receiptId
  exceptionReceipt : ∀ o ∈ t.exceptions, t.Received o.receiptId
  /-- An Asset's identifiers, and the line that it arrived on, refer to it. -/
  identifierAsset : Refers t.tables.identifiers t.tables.assets fun i a => a.id = i.assetId
  readability : ∀ i ∈ t.tables.identifiers, i.value = none → i.unreadableReason.isSome
  lineAsset : ∀ line ∈ t.lines, ∀ asset ∈ line.fields.assetId, ∃ a ∈ t.tables.assets, a.id = asset
  /-- An observed identifier is one of an Asset. -/
  observed : ∀ line ∈ t.lines, line.fields.observedIdentifierValue.isSome →
    (t.conflictOf line.fields).isSome
  /-- A selected purchase order line was bound before. -/
  selected : ∀ line ∈ t.lines, ∀ poLine ∈ line.fields.poLineId,
    ∃ c ∈ t.comparators, c.receiptId = line.receiptId ∧ c.poLineId = poLine ∧
      c.introducedByCorrectionId = none
  /-- A bound purchase order line is one of an issued order. -/
  bound : ∀ c ∈ t.comparators, ∃ line,
    t.purchaseOrderLines.find? (·.id = c.poLineId) = some line ∧ t.issued line.poId
  /-- A comparator is pinned to the source in force. -/
  pinned : ∀ c ∈ t.comparators,
    c.sourceId = (Tenant.latestCorrection t.purchaseOrderLineCorrections c.poLineId).map
      RecordCorrection.id ∧
    c.sourceGeneration = Tenant.generation t.purchaseOrderLineCorrections c.poLineId
  introduced : ∀ c ∈ t.comparators, ∀ correction ∈ c.introducedByCorrectionId,
    ∃ row ∈ t.lineCorrections, row.id = correction ∧ row.entityId = c.receiptId
  roles : ∀ c ∈ t.lineCorrections, c.role ≠ .none
  positive : ∀ c ∈ t.lineCorrections, 0 < c.generation
  sealed : ∀ c ∈ t.lineCorrections, t.reconciled c.entityId
  correctionLine : Refers t.lineCorrections t.lines fun c line =>
    line.id = c.rootId ∧ line.receiptId = c.entityId
  evaluationCause : Refers t.evaluations t.lineCorrections fun e c =>
    c.id = e.correctionId ∧ c.entityId = e.receiptId
  pinnedLine : Refers t.evaluationLines t.evaluations fun s e => e.id = s.evaluationId
  pinnedExpectation : Refers t.evaluationExpectations t.evaluations fun s e => e.id = s.evaluationId
  /-- An evaluation speaks of its own receipt's exceptions. -/
  links : ∀ x ∈ t.evaluationExceptions, ∃ e ∈ t.evaluations, ∃ o ∈ t.exceptions,
    e.id = x.evaluationId ∧ o.id = x.exceptionId ∧ o.receiptId = e.receiptId
  exceptionEvaluation : ∀ o ∈ t.exceptions, ∀ evaluation ∈ o.evaluationId,
    ∃ e ∈ t.evaluations, e.id = evaluation ∧ e.receiptId = o.receiptId
  eventException : Refers t.events t.exceptions fun v o => o.id = v.exceptionId
  eventEvaluation : ∀ v ∈ t.events, ∀ evaluation ∈ v.evaluationId,
    ∃ e ∈ t.evaluations, e.id = evaluation

namespace Tenant

/-- A readable identifier's Asset does not change when identifiers are added. -/
theorem conflictOf_of_append {t t' : Tenant} {fields : LineFields} {more : List AssetIdentifier}
    (hmore : t'.tables.identifiers = t.tables.identifiers ++ more)
    (hobserved : fields.observedIdentifierValue.isSome → (t.conflictOf fields).isSome) :
    t'.conflictOf fields = t.conflictOf fields := by
  unfold conflictOf at hobserved ⊢
  cases htype : fields.observedIdentifierType with
  | none => rfl
  | some type =>
      cases hvalue : fields.observedIdentifierValue with
      | none => rfl
      | some value =>
          rw [htype, hvalue] at hobserved
          have hfound := hobserved rfl
          simp only [identifierOwner, Option.isSome_map] at hfound ⊢
          obtain ⟨i, hi⟩ := Option.isSome_iff_exists.mp hfound
          rw [hmore, find?_append_of_some hi, hi]

/-- Identifiers of other Assets do not make an Asset unreadable. -/
theorem unreadable_of_append {t t' : Tenant} {asset : Option Uuid} {more : List AssetIdentifier}
    (hmore : t'.tables.identifiers = t.tables.identifiers ++ more)
    (hother : ∀ i ∈ more, some i.assetId ≠ asset) : t'.unreadable asset = t.unreadable asset := by
  have hnone : more.any (fun i => some i.assetId == asset && i.value.isNone &&
      i.unreadableReason.isSome) = false :=
    List.any_eq_false.mpr fun i hi => by simp [hother i hi]
  rw [unreadable, hmore, List.any_append, hnone, Bool.or_false]
  rfl

end Tenant

/-- A statement never loses a receipt. -/
theorem Wrote.received {receipt other : Uuid} {t t' : Tenant} (h : Wrote receipt t t')
    (hreceived : t.Received other) : t'.Received other := by
  cases h with
  | receipt _ _ =>
      obtain ⟨row, hrow, hid⟩ := hreceived
      exact ⟨row, List.mem_append_left _ hrow, hid⟩
  | _ => exact hreceived

/-- Nor a line. -/
theorem Writes.mem_lines {receipt : Uuid} {t t' : Tenant} (h : Writes receipt t t')
    {line : ReceiptLine} (hline : line ∈ t.lines) : line ∈ t'.lines := by
  induction h with
  | refl => exact hline
  | tail _ hlast ih =>
      cases hlast with
      | line => exact List.mem_append_left _ ih
      | _ => exact ih

/-- Nor a comparator. -/
theorem Writes.mem_comparators {receipt : Uuid} {t t' : Tenant} (h : Writes receipt t t')
    {c : Comparator} (hc : c ∈ t.comparators) : c ∈ t'.comparators := by
  induction h with
  | refl => exact hc
  | tail _ hlast ih =>
      cases hlast with
      | comparator => exact List.mem_append_left _ ih
      | _ => exact ih

theorem forall_mem_concat {α : Type} {p : α → Prop} {rows : List α} {row : α}
    (h : ∀ other ∈ rows, p other) (hrow : p row) : ∀ other ∈ rows ++ [row], p other := by
  intro other hother
  rcases List.mem_append.mp hother with hmem | hmem
  · exact h other hmem
  · exact List.mem_singleton.mp hmem ▸ hrow

/-- An open receipt has not been corrected, so no correction introduced a comparator. -/
theorem Tenant.Integrity.introduced_eq_none {t : Tenant} (hkeys : t.Integrity) {c : Comparator}
    (hc : c ∈ t.comparators) (hopen : ¬t.reconciled c.receiptId) :
    c.introducedByCorrectionId = none := by
  by_contra hne
  obtain ⟨correction, hcorrection⟩ := Option.ne_none_iff_exists'.mp hne
  obtain ⟨row, hrow, -, hentity⟩ := hkeys.introduced c hc correction hcorrection
  exact hopen (hentity ▸ hkeys.sealed row hrow)

/-- A statement keeps the integrity of the tables. -/
theorem Wrote.integrity {receipt : Uuid} {t t' : Tenant} (h : Wrote receipt t t')
    (hkeys : t.Integrity) : t'.Integrity := by
  have hkeep : ∀ other, t.Received other → t'.Received other := fun _ => h.received
  cases h with
  | receipt hid hkey =>
      exact { hkeys with
        lineReceipt := fun line hline => hkeep _ (hkeys.lineReceipt line hline)
        comparatorReceipt := fun c hc => hkeep _ (hkeys.comparatorReceipt c hc)
        reconciliationReceipt := fun r hr => hkeep _ (hkeys.reconciliationReceipt r hr)
        exceptionReceipt := fun o ho => hkeep _ (hkeys.exceptionReceipt o ho) }
  | comparator hreceipt hreceived hkey hline hsource hgeneration hintroduced =>
      exact { hkeys with
        comparators := hkeys.comparators.concat fun other hother => by
          simpa only [ne_eq, Prod.mk.injEq] using hkey other hother
        comparatorReceipt := forall_mem_concat hkeys.comparatorReceipt (hreceipt ▸ hreceived)
        selected := fun line hl poLine hpo =>
          let ⟨c, hc, heq⟩ := hkeys.selected line hl poLine hpo
          ⟨c, List.mem_append_left _ hc, heq⟩
        bound := forall_mem_concat hkeys.bound hline
        pinned := forall_mem_concat hkeys.pinned ⟨hsource, hgeneration⟩
        introduced := forall_mem_concat hkeys.introduced (hreceipt ▸ hintroduced) }
  | @unit tables asset identifier hkey hassets hidentifiers howner hreadable =>
      have hassetKeep : ∀ id, (∃ a ∈ t.tables.assets, a.id = id) →
          ∃ a ∈ tables.assets, a.id = id := by
        rintro id ⟨a, ha, haid⟩
        exact ⟨a, hassets ▸ List.mem_append_left _ ha, haid⟩
      exact { hkeys with
        identifierAsset := by
          intro i hi
          rw [hidentifiers] at hi
          rcases List.mem_append.mp hi with hold | hnew
          · exact hassetKeep _ (hkeys.identifierAsset i hold)
          · rw [List.mem_singleton.mp hnew]
            exact ⟨asset, by simp [hassets], howner.symm⟩
        readability := hidentifiers ▸ forall_mem_concat hkeys.readability hreadable
        lineAsset := fun line hline id hid => hassetKeep _ (hkeys.lineAsset line hline id hid)
        observed := fun line hline hsome => by
          rw [Tenant.conflictOf_of_append hidentifiers (hkeys.observed line hline)]
          exact hkeys.observed line hline hsome }
  | line hreceipt hreceived hopen hkey hobserved hasset hselected =>
      exact { hkeys with
        lines := hkeys.lines.concat hkey
        lineReceipt := forall_mem_concat hkeys.lineReceipt (hreceipt ▸ hreceived)
        lineAsset := forall_mem_concat hkeys.lineAsset hasset
        observed := forall_mem_concat hkeys.observed hobserved
        selected := forall_mem_concat hkeys.selected fun poLine hpo =>
          let ⟨c, hc, howner, hbound⟩ := hselected poLine hpo
          ⟨c, hc, howner.trans hreceipt.symm, hbound, hkeys.introduced_eq_none hc (howner ▸ hopen)⟩
        correctionLine := hkeys.correctionLine.weaken _ }
  | reconciliation hreceipt hreceived hopen =>
      exact { hkeys with
        reconciliationReceipt := forall_mem_concat hkeys.reconciliationReceipt (hreceipt ▸ hreceived)
        sealed := fun c hc => by
          have hold := hkeys.sealed c hc
          simp only [Tenant.reconciled, List.any_append, Bool.or_eq_true] at hold ⊢
          exact .inl hold }
  | exception hreceipt hreceived hkey hworkflow hevaluation =>
      exact { hkeys with
        exceptions := hkeys.exceptions.concat hkey
        exceptionReceipt := forall_mem_concat hkeys.exceptionReceipt (hreceipt ▸ hreceived)
        links := fun x hx =>
          let ⟨e, he, o, ho, heq⟩ := hkeys.links x hx
          ⟨e, he, o, List.mem_append_left _ ho, heq⟩
        exceptionEvaluation := forall_mem_concat hkeys.exceptionEvaluation (hreceipt ▸ hevaluation)
        eventException := hkeys.eventException.weaken _ }
  | @purchaseOrderLineCorrection row hkey hunbound =>
      have hlatest : ∀ c ∈ t.comparators, Tenant.latestCorrection
          (t.purchaseOrderLineCorrections ++ [row]) c.poLineId =
            Tenant.latestCorrection t.purchaseOrderLineCorrections c.poLineId := by
        intro c hc
        unfold Tenant.latestCorrection
        rw [filter_append_of_forall fun other hother => ?_]
        rw [List.mem_singleton.mp hother]
        simp [Ne.symm (hunbound c hc)]
      exact { hkeys with
        procurement := hkeys.procurement.concat hkey
        pinned := fun c hc => by
          simp only [Tenant.generation, hlatest c hc]
          exact hkeys.pinned c hc }
  | lineCorrection hreceipt hline hsealed hrole hpositive hkey =>
      exact { hkeys with
        corrections := hkeys.corrections.concat fun other hother => (hkey other hother).1
        pairs := hkeys.pairs.concat fun other hother => by
          simpa only [ne_eq, Prod.mk.injEq] using (hkey other hother).2.1
        generations := hkeys.generations.concat fun other hother => by
          simpa only [ne_eq, Prod.mk.injEq] using (hkey other hother).2.2
        introduced := fun c hc correction hcorrection =>
          let ⟨row, hrow, heq⟩ := hkeys.introduced c hc correction hcorrection
          ⟨row, List.mem_append_left _ hrow, heq⟩
        roles := forall_mem_concat hkeys.roles hrole
        positive := forall_mem_concat hkeys.positive hpositive
        sealed := forall_mem_concat hkeys.sealed (hreceipt ▸ hsealed)
        correctionLine := hkeys.correctionLine.concat (hreceipt ▸ hline)
        evaluationCause := hkeys.evaluationCause.weaken _ }
  | evaluation hreceipt hkey hcause =>
      exact { hkeys with
        evaluations := hkeys.evaluations.concat fun other hother => (hkey other hother).1
        causes := hkeys.causes.concat fun other hother => (hkey other hother).2
        evaluationCause := hkeys.evaluationCause.concat (hreceipt ▸ hcause)
        pinnedLine := hkeys.pinnedLine.weaken _
        pinnedExpectation := hkeys.pinnedExpectation.weaken _
        links := fun x hx =>
          let ⟨e, he, o, ho, heq⟩ := hkeys.links x hx
          ⟨e, List.mem_append_left _ he, o, ho, heq⟩
        exceptionEvaluation := fun o ho evaluation hevaluation =>
          let ⟨e, he, heq⟩ := hkeys.exceptionEvaluation o ho evaluation hevaluation
          ⟨e, List.mem_append_left _ he, heq⟩
        eventEvaluation := fun v hv evaluation hevaluation =>
          let ⟨e, he, heq⟩ := hkeys.eventEvaluation v hv evaluation hevaluation
          ⟨e, List.mem_append_left _ he, heq⟩ }
  | evaluationLine hevaluation =>
      exact { hkeys with
        pinnedLine := hkeys.pinnedLine.concat (hevaluation.imp fun _ he => ⟨he.1, he.2.1⟩) }
  | evaluationExpectation hevaluation =>
      exact { hkeys with
        pinnedExpectation :=
          hkeys.pinnedExpectation.concat (hevaluation.imp fun _ he => ⟨he.1, he.2.1⟩) }
  | evaluationException hevaluation hexception =>
      obtain ⟨e, he, hid, hreceipt⟩ := hevaluation
      obtain ⟨o, ho, hoid, howner⟩ := hexception
      exact { hkeys with
        links := forall_mem_concat hkeys.links
          ⟨e, he, o, ho, hid, hoid, howner.trans hreceipt.symm⟩ }
  | event hexception hevaluation hadmits hstatus hseq hsound =>
      exact { hkeys with
        eventException := hkeys.eventException.concat (hexception.imp fun _ ho => ⟨ho.1, ho.2.1⟩)
        eventEvaluation := forall_mem_concat hkeys.eventEvaluation hevaluation }

/-- So do any number of statements. -/
theorem Writes.integrity {receipt : Uuid} {t t' : Tenant} (h : Writes receipt t t')
    (hkeys : t.Integrity) : t'.Integrity := by
  induction h with
  | refl => exact hkeys
  | tail _ hlast ih => exact hlast.integrity ih

end FleetOps
