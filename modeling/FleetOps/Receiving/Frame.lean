import FleetOps.Receiving.Integrity

/-!
# What a receipt does not see

A receipt's records, and what they are compared with, are not changed by
statements about another receipt (`Wrote.sameReceipt`), by calls on Assets, or by
procurement.  Hence all that is said of a receipt is about its own requests.
-/

namespace FleetOps

open Keys

/-- The facts that a receipt's captured exceptions are derived from are the same. -/
structure SameCapture (receipt : Uuid) (t t' : Tenant) : Prop where
  reconciled : t'.reconciled receipt = t.reconciled receipt
  lines : t'.linesOf receipt = t.linesOf receipt
  bound : (t'.comparatorsOf receipt).filter (·.introducedByCorrectionId = none) =
    (t.comparatorsOf receipt).filter (·.introducedByCorrectionId = none)
  captured : (t'.exceptionsOf receipt).filter (·.evaluationId = none) =
    (t.exceptionsOf receipt).filter (·.evaluationId = none)
  expected : ∀ c ∈ t.comparatorsOf receipt,
    t'.purchaseOrderLines.find? (·.id = c.poLineId) =
      t.purchaseOrderLines.find? (·.id = c.poLineId) ∧
    Tenant.latestCorrection t'.purchaseOrderLineCorrections c.poLineId =
      Tenant.latestCorrection t.purchaseOrderLineCorrections c.poLineId ∧
    pinnedSource t'.purchaseOrderLineCorrections c.sourceId =
      pinnedSource t.purchaseOrderLineCorrections c.sourceId
  conflict : ∀ line ∈ t.linesOf receipt, t'.conflictOf line.fields = t.conflictOf line.fields
  unreadable : ∀ line ∈ t.linesOf receipt,
    t'.unreadable line.fields.assetId = t.unreadable line.fields.assetId

/-- A receipt's records are the same. -/
structure SameReceipt (receipt : Uuid) (t t' : Tenant) : Prop extends SameCapture receipt t t' where
  comparators : t'.comparatorsOf receipt = t.comparatorsOf receipt
  exceptions : t'.exceptionsOf receipt = t.exceptionsOf receipt
  corrections : t'.correctionsOf receipt = t.correctionsOf receipt
  evaluations : t'.evaluationsOf receipt = t.evaluationsOf receipt
  pinnedLines : ∀ e ∈ t.evaluationsOf receipt, t'.pinnedLines e.id = t.pinnedLines e.id
  pinnedExpectations : ∀ e ∈ t.evaluationsOf receipt,
    t'.pinnedExpectations e.id = t.pinnedExpectations e.id
  links : ∀ e ∈ t.evaluationsOf receipt, t'.linksOf e.id = t.linksOf e.id
  events : ∀ o ∈ t.exceptionsOf receipt, t'.eventsOf o.id = t.eventsOf o.id
  workflows : ∀ o ∈ t.exceptionsOf receipt, t'.workflow? o.id = t.workflow? o.id

theorem SameReceipt.refl (receipt : Uuid) (t : Tenant) : SameReceipt receipt t t where
  reconciled := rfl
  lines := rfl
  bound := rfl
  captured := rfl
  expected _ _ := ⟨rfl, rfl, rfl⟩
  conflict _ _ := rfl
  unreadable _ _ := rfl
  comparators := rfl
  exceptions := rfl
  corrections := rfl
  evaluations := rfl
  pinnedLines _ _ := rfl
  pinnedExpectations _ _ := rfl
  links _ _ := rfl
  events _ _ := rfl
  workflows _ _ := rfl

theorem SameReceipt.trans {receipt : Uuid} {t t' t'' : Tenant} (h : SameReceipt receipt t t')
    (h' : SameReceipt receipt t' t'') : SameReceipt receipt t t'' where
  reconciled := h'.reconciled.trans h.reconciled
  lines := h'.lines.trans h.lines
  bound := h'.bound.trans h.bound
  captured := h'.captured.trans h.captured
  expected c hc :=
    let first := h.expected c hc
    let second := h'.expected c (h.comparators ▸ hc)
    ⟨second.1.trans first.1, second.2.1.trans first.2.1, second.2.2.trans first.2.2⟩
  conflict line hline := (h'.conflict line (h.lines ▸ hline)).trans (h.conflict line hline)
  unreadable line hline := (h'.unreadable line (h.lines ▸ hline)).trans (h.unreadable line hline)
  comparators := h'.comparators.trans h.comparators
  exceptions := h'.exceptions.trans h.exceptions
  corrections := h'.corrections.trans h.corrections
  evaluations := h'.evaluations.trans h.evaluations
  pinnedLines e he := (h'.pinnedLines e (h.evaluations ▸ he)).trans (h.pinnedLines e he)
  pinnedExpectations e he :=
    (h'.pinnedExpectations e (h.evaluations ▸ he)).trans (h.pinnedExpectations e he)
  links e he := (h'.links e (h.evaluations ▸ he)).trans (h.links e he)
  events o ho := (h'.events o (h.exceptions ▸ ho)).trans (h.events o ho)
  workflows o ho := (h'.workflows o (h.exceptions ▸ ho)).trans (h.workflows o ho)

/-! ## Rows of a receipt -/

namespace Tenant

variable {t : Tenant} {receipt : Uuid}

@[simp] theorem mem_linesOf {line : ReceiptLine} :
    line ∈ t.linesOf receipt ↔ line ∈ t.lines ∧ line.receiptId = receipt := by
  simp [linesOf]

@[simp] theorem mem_comparatorsOf {c : Comparator} :
    c ∈ t.comparatorsOf receipt ↔ c ∈ t.comparators ∧ c.receiptId = receipt := by
  simp [comparatorsOf]

@[simp] theorem mem_exceptionsOf {o : ReceivingException} :
    o ∈ t.exceptionsOf receipt ↔ o ∈ t.exceptions ∧ o.receiptId = receipt := by
  simp [exceptionsOf]

@[simp] theorem mem_correctionsOf {c : RecordCorrection LineFields} :
    c ∈ t.correctionsOf receipt ↔ c ∈ t.lineCorrections ∧ c.entityId = receipt := by
  simp [correctionsOf]

@[simp] theorem mem_evaluationsOf {e : Evaluation} :
    e ∈ t.evaluationsOf receipt ↔ e ∈ t.evaluations ∧ e.receiptId = receipt := by
  simp [evaluationsOf]

/-- An event is projected on its own exception's workflow. -/
theorem workflow?_advance (event : ExceptionEvent) (exception : Uuid) :
    (t.advance event).workflow? exception = (t.workflow? exception).map fun w =>
      if w.exceptionId = event.exceptionId then w.after event else w := by
  unfold workflow? advance
  rw [List.find?_map]
  congr 2
  funext w
  by_cases hw : w.exceptionId = event.exceptionId <;> simp [hw, ExceptionWorkflow.after]

theorem workflow?_advance_of_ne {event : ExceptionEvent} {exception : Uuid}
    (h : exception ≠ event.exceptionId) :
    (t.advance event).workflow? exception = t.workflow? exception := by
  rw [workflow?_advance]
  cases hfound : t.workflow? exception with
  | none => rfl
  | some w => rw [Option.map_some, (key_of_find? hfound).2, if_neg h]

end Tenant

/-- Another receipt's evaluation has another key. -/
theorem Tenant.Integrity.evaluation_ne {t : Tenant} (hkeys : t.Integrity) {receipt other id : Uuid}
    (hne : other ≠ receipt) (h : ∃ e ∈ t.evaluations, e.id = id ∧ e.receiptId = receipt)
    {e : Evaluation} (he : e ∈ t.evaluationsOf other) : id ≠ e.id := by
  rintro rfl
  obtain ⟨found, hfound, hid, hreceipt⟩ := h
  obtain ⟨hmem, hother⟩ := Tenant.mem_evaluationsOf.mp he
  have heq := hkeys.evaluations.eq hfound hmem hid
  exact hne (hother.symm.trans ((congrArg Evaluation.receiptId heq).symm.trans hreceipt))

/-- A source that a comparator is pinned to exists. -/
theorem Tenant.Integrity.pinnedSource_isSome {t : Tenant} (hkeys : t.Integrity) {c : Comparator}
    (hc : c ∈ t.comparators) {id : Uuid} (hid : c.sourceId = some id) :
    ∃ row, t.purchaseOrderLineCorrections.find? (·.id = id) = some row := by
  have hpinned := (hkeys.pinned c hc).1
  rw [hid] at hpinned
  obtain ⟨row, hlatest, hrow⟩ := Option.map_eq_some_iff.mp hpinned.symm
  have hmem := (List.mem_filter.mp (Query.mem_of_latestBy hlatest)).1
  exact ⟨row, hkeys.procurement.find?_eq hmem hrow⟩

/-- Statements about one receipt leave every other receipt's records as they were. -/
theorem Wrote.sameReceipt {scope receipt : Uuid} {t t' : Tenant} (h : Wrote scope t t')
    (hkeys : t.Integrity) (hne : receipt ≠ scope) : SameReceipt receipt t t' := by
  have hsame := SameReceipt.refl receipt t
  cases h with
  | receipt hid hkey => exact { hsame with }
  | @comparator row hreceipt hreceived hkey hline hsource hgeneration hintroduced =>
      have hrows : (t.comparators ++ [row]).filter (·.receiptId = receipt) =
          t.comparatorsOf receipt :=
        filter_append_of_forall fun c hc => by
          simpa [List.mem_singleton.mp hc, hreceipt] using hne.symm
      exact { hsame with
        comparators := hrows
        bound := congrArg (List.filter _) hrows }
  | @unit tables asset identifier hkey hassets hidentifiers howner hreadable =>
      exact { hsame with
        conflict := fun line hline =>
          Tenant.conflictOf_of_append hidentifiers
            (hkeys.observed line (Tenant.mem_linesOf.mp hline).1)
        unreadable := fun line hline => by
          refine Tenant.unreadable_of_append hidentifiers fun i hi heq => ?_
          rw [List.mem_singleton.mp hi, howner] at heq
          obtain ⟨a, ha, haid⟩ := hkeys.lineAsset line
            (Tenant.mem_linesOf.mp hline).1 asset.id heq.symm
          exact hkey a ha haid }
  | @line row hreceipt hreceived hopen hkey hobserved hasset hselected =>
      exact { hsame with
        lines := filter_append_of_forall fun l hl => by
          simpa [List.mem_singleton.mp hl, hreceipt] using hne.symm }
  | @reconciliation row hreceipt hreceived hopen =>
      exact { hsame with
        reconciled := by simp [Tenant.reconciled, hreceipt, hne.symm] }
  | @exception row hreceipt hreceived hkey hworkflow hevaluation =>
      have hrows : (t.exceptions ++ [row]).filter (·.receiptId = receipt) =
          t.exceptionsOf receipt :=
        filter_append_of_forall fun o ho => by
          simpa [List.mem_singleton.mp ho, hreceipt] using hne.symm
      exact { hsame with
        captured := congrArg (List.filter _) hrows
        exceptions := hrows
        workflows := fun o ho => Keys.find?_append_of_forall fun w hw => by
          have hid := hkey o (Tenant.mem_exceptionsOf.mp ho).1
          simpa [List.mem_singleton.mp hw, ReceivingException.opened] using hid.symm }
  | @purchaseOrderLineCorrection row hkey hunbound =>
      exact { hsame with
        expected := fun c hc => by
          have hmem := (Tenant.mem_comparatorsOf.mp hc).1
          refine ⟨rfl, ?_, ?_⟩
          · unfold Tenant.latestCorrection
            rw [filter_append_of_forall fun other hother => ?_]
            rw [List.mem_singleton.mp hother]
            simp [Ne.symm (hunbound c hmem)]
          · unfold pinnedSource
            cases hid : c.sourceId with
            | none => rfl
            | some id =>
                obtain ⟨found, hfound⟩ := hkeys.pinnedSource_isSome hmem hid
                exact (find?_append_of_some hfound).trans hfound.symm }
  | @lineCorrection row hreceipt hline hsealed hrole hpositive hkey =>
      exact { hsame with
        corrections := filter_append_of_forall fun c hc => by
          simpa [List.mem_singleton.mp hc, hreceipt] using hne.symm }
  | @evaluation row hreceipt hkey hcause =>
      exact { hsame with
        evaluations := filter_append_of_forall fun e he => by
          simpa [List.mem_singleton.mp he, hreceipt] using hne.symm }
  | @evaluationLine row hevaluation =>
      exact { hsame with
        pinnedLines := fun e he => filter_append_of_forall fun s hs => by
          simpa [List.mem_singleton.mp hs] using hkeys.evaluation_ne hne hevaluation he }
  | @evaluationExpectation row hevaluation =>
      exact { hsame with
        pinnedExpectations := fun e he => filter_append_of_forall fun s hs => by
          simpa [List.mem_singleton.mp hs] using hkeys.evaluation_ne hne hevaluation he }
  | @evaluationException row hevaluation hexception =>
      exact { hsame with
        links := fun e he => filter_append_of_forall fun x hx => by
          simpa [List.mem_singleton.mp hx] using hkeys.evaluation_ne hne hevaluation he }
  | @event event hexception hevaluation hadmits hstatus hseq hsound =>
      have hother : ∀ o ∈ t.exceptionsOf receipt, o.id ≠ event.exceptionId := by
        intro o ho heq
        obtain ⟨found, hfound, hid, hscope⟩ := hexception
        obtain ⟨hmem, hreceipt⟩ := Tenant.mem_exceptionsOf.mp ho
        have hsame := hkeys.exceptions.eq hfound hmem (hid.trans heq.symm)
        exact hne (hreceipt.symm.trans ((congrArg _ hsame.symm).trans hscope))
      exact { hsame with
        events := fun o ho => filter_append_of_forall fun v hv => by
          simpa [List.mem_singleton.mp hv] using (hother o ho).symm
        workflows := fun o ho => Tenant.workflow?_advance_of_ne (hother o ho) }

theorem Writes.sameReceipt {scope receipt : Uuid} {t t' : Tenant} (h : Writes scope t t')
    (hkeys : t.Integrity) (hne : receipt ≠ scope) : SameReceipt receipt t t' := by
  induction h with
  | refl => exact .refl receipt t
  | tail hwrites hlast ih => exact ih.trans (hlast.sameReceipt (Writes.integrity hwrites hkeys) hne)

/-! ## Assets and procurement -/

/-- Recording in a history loses no Asset. -/
theorem AssetTables.exists_record {tables : AssetTables} {k : HistoryClass}
    {rows : List (HistoryRow (Fact k))} {asset : AssetRow} {id : Uuid}
    (h : ∃ a ∈ tables.assets, a.id = id) : ∃ a ∈ (tables.record k rows asset).assets, a.id = id := by
  obtain ⟨a, ha, rfl⟩ := h
  refine ⟨_, List.mem_map_of_mem ha, ?_⟩
  split <;> simp_all

/-- A call on an Asset keeps the Assets and their identifiers. -/
theorem perform_identifiers {request : Context × Call} {tables after : AssetTables}
    (h : perform request tables = .ok after) : after.identifiers = tables.identifiers ∧
      ∀ id, (∃ a ∈ tables.assets, a.id = id) → ∃ a ∈ after.assets, a.id = id := by
  rcases perform_cases h with ⟨-, _, _, hrecorded⟩ | ⟨_, _, -, _, _, _, _, _, hamended⟩
  · obtain ⟨_, -, rfl⟩ := hrecorded.after_eq
    exact ⟨rfl, fun _ => AssetTables.exists_record⟩
  · obtain ⟨_, _, _, -, rfl⟩ := hamended.after_eq
    exact ⟨rfl, fun _ => AssetTables.exists_record⟩

section

variable {t : Tenant}

/-- Calls on Assets keep the integrity of the receiving tables. -/
theorem Tenant.Integrity.perform (hkeys : t.Integrity) {request : Context × Call}
    {tables : AssetTables} (h : perform request t.tables = .ok tables) :
    ({ t with tables } : Tenant).Integrity := by
  obtain ⟨hidentifiers, hassets⟩ := perform_identifiers h
  have hconflict : ∀ fields,
      ({ t with tables } : Tenant).conflictOf fields = t.conflictOf fields := by
    intro fields
    simp only [Tenant.conflictOf, Tenant.identifierOwner, hidentifiers]
  exact { hkeys with
    identifierAsset := fun i hi => hassets _ (hkeys.identifierAsset i (hidentifiers ▸ hi))
    readability := fun i hi => hkeys.readability i (hidentifiers ▸ hi)
    lineAsset := fun line hline asset hasset => hassets _ (hkeys.lineAsset line hline asset hasset)
    observed := fun line hline hsome => (hconflict _).symm ▸ hkeys.observed line hline hsome }

theorem SameReceipt.perform (receipt : Uuid) {request : Context × Call} {tables : AssetTables}
    (h : perform request t.tables = .ok tables) : SameReceipt receipt t { t with tables } := by
  obtain ⟨hidentifiers, -⟩ := perform_identifiers h
  exact { SameReceipt.refl receipt t with
    conflict := fun line _ => by simp only [Tenant.conflictOf, Tenant.identifierOwner, hidentifiers]
    unreadable := fun line _ => by simp only [Tenant.unreadable, hidentifiers] }

/-- A bound line stays what it is. -/
theorem Tenant.Integrity.bound_of_admits (hkeys : t.Integrity) {catalog : Catalog}
    (hadmits : t.admits catalog) {c : Comparator} (hc : c ∈ t.comparators) :
    ∃ line, t.purchaseOrderLines.find? (·.id = c.poLineId) = some line ∧
      catalog.purchaseOrderLines.find? (·.id = c.poLineId) = some line ∧
      (t.withCatalog catalog).issued line.poId := by
  obtain ⟨line, hline, hissued⟩ := hkeys.bound c hc
  obtain ⟨hmem, hid⟩ := key_of_find? hline
  refine ⟨line, hline, hid ▸ hadmits.2 line hmem hissued, ?_⟩
  simp only [Tenant.issued, List.any_eq_true, Bool.and_eq_true, beq_iff_eq] at hissued
  obtain ⟨order, horder, horderId, hstatus⟩ := hissued
  have hkept := hadmits.1 order horder hstatus
  simpa [Tenant.issued, Tenant.withCatalog, horderId] using hkept

theorem Tenant.Integrity.withCatalog (hkeys : t.Integrity) {catalog : Catalog}
    (hadmits : t.admits catalog) : (t.withCatalog catalog).Integrity :=
  { hkeys with
    bound := fun _c hc =>
      let ⟨line, _, hline, hissued⟩ := hkeys.bound_of_admits hadmits hc
      ⟨line, hline, hissued⟩ }

theorem SameReceipt.withCatalog (receipt : Uuid) (hkeys : t.Integrity) {catalog : Catalog}
    (hadmits : t.admits catalog) : SameReceipt receipt t (t.withCatalog catalog) :=
  { SameReceipt.refl receipt t with
    expected := fun _c hc =>
      let ⟨_, hold, hnew, _⟩ := hkeys.bound_of_admits hadmits (Tenant.mem_comparatorsOf.mp hc).1
      ⟨hnew.trans hold.symm, rfl, rfl⟩ }

end

end FleetOps
