import FleetOps.Foundations.Fallible
import FleetOps.Foundations.Keys
import FleetOps.Receiving.Machine
import Mathlib.Logic.Relation

/-!
# What receiving's statements write

Every write of the receiving services is one of a dozen statements about one
receipt.  `Wrote receipt` says of each what its guard and constraints leave
behind; `Writes receipt` is any number of them.  The requests are then chains of
statements (`step_writes`), and what every statement preserves every request
preserves.
-/

namespace FleetOps

open Keys

namespace Tenant

/-- The receipt's own lines, and so on for its other records. -/
def linesOf (tenant : Tenant) (receipt : Uuid) : List ReceiptLine :=
  tenant.lines.filter (·.receiptId = receipt)

def comparatorsOf (tenant : Tenant) (receipt : Uuid) : List Comparator :=
  tenant.comparators.filter (·.receiptId = receipt)

def exceptionsOf (tenant : Tenant) (receipt : Uuid) : List ReceivingException :=
  tenant.exceptions.filter (·.receiptId = receipt)

def correctionsOf (tenant : Tenant) (receipt : Uuid) : List (RecordCorrection LineFields) :=
  tenant.lineCorrections.filter (·.entityId = receipt)

def evaluationsOf (tenant : Tenant) (receipt : Uuid) : List Evaluation :=
  tenant.evaluations.filter (·.receiptId = receipt)

/-- The receipt has a row. -/
def Received (tenant : Tenant) (receipt : Uuid) : Prop := ∃ row ∈ tenant.receipts, row.id = receipt

end Tenant

/-- One statement about a receipt. -/
inductive Wrote (receipt : Uuid) : Tenant → Tenant → Prop
  | receipt {t : Tenant} {row : Receipt} (hid : row.id = receipt)
      (hkey : ∀ other ∈ t.receipts, other.id ≠ row.id) :
      Wrote receipt t { t with receipts := t.receipts ++ [row] }
  | comparator {t : Tenant} {row : Comparator} (hreceipt : row.receiptId = receipt)
      (hreceived : t.Received receipt)
      (hkey : ∀ other ∈ t.comparators,
        ¬(other.receiptId = row.receiptId ∧ other.poLineId = row.poLineId))
      (hline : ∃ line, t.purchaseOrderLines.find? (·.id = row.poLineId) = some line ∧
        t.issued line.poId)
      (hsource : row.sourceId = (Tenant.latestCorrection t.purchaseOrderLineCorrections
        row.poLineId).map RecordCorrection.id)
      (hgeneration : row.sourceGeneration =
        Tenant.generation t.purchaseOrderLineCorrections row.poLineId)
      (hintroduced : ∀ correction ∈ row.introducedByCorrectionId,
        ∃ c ∈ t.lineCorrections, c.id = correction ∧ c.entityId = receipt) :
      Wrote receipt t { t with comparators := t.comparators ++ [row] }
  | unit {t : Tenant} {tables : AssetTables} {asset : AssetRow} {identifier : AssetIdentifier}
      (hkey : ∀ other ∈ t.tables.assets, other.id ≠ asset.id)
      (hassets : tables.assets = t.tables.assets ++ [asset])
      (hidentifiers : tables.identifiers = t.tables.identifiers ++ [identifier])
      (howner : identifier.assetId = asset.id)
      (hreadable : identifier.value = none → identifier.unreadableReason.isSome) :
      Wrote receipt t { t with tables }
  | line {t : Tenant} {row : ReceiptLine} (hreceipt : row.receiptId = receipt)
      (hreceived : t.Received receipt) (hopen : ¬t.reconciled receipt)
      (hkey : ∀ other ∈ t.lines, other.id ≠ row.id)
      (hobserved : row.fields.observedIdentifierValue.isSome → (t.conflictOf row.fields).isSome)
      (hasset : ∀ asset ∈ row.fields.assetId, ∃ a ∈ t.tables.assets, a.id = asset)
      (hselected : ∀ poLine ∈ row.fields.poLineId,
        ∃ c ∈ t.comparators, c.receiptId = receipt ∧ c.poLineId = poLine) :
      Wrote receipt t { t with lines := t.lines ++ [row] }
  | reconciliation {t : Tenant} {row : Reconciliation} (hreceipt : row.receiptId = receipt)
      (hreceived : t.Received receipt) (hopen : ¬t.reconciled receipt) :
      Wrote receipt t { t with reconciliations := t.reconciliations ++ [row] }
  | exception {t : Tenant} {row : ReceivingException} (hreceipt : row.receiptId = receipt)
      (hreceived : t.Received receipt) (hkey : ∀ other ∈ t.exceptions, other.id ≠ row.id)
      (hworkflow : ∀ other ∈ t.workflows, other.exceptionId ≠ row.id)
      (hevaluation : ∀ evaluation ∈ row.evaluationId,
        ∃ e ∈ t.evaluations, e.id = evaluation ∧ e.receiptId = receipt) :
      Wrote receipt t { t with exceptions := t.exceptions ++ [row]
                               workflows := t.workflows ++ [row.opened] }
  | purchaseOrderLineCorrection {t : Tenant} {row : RecordCorrection PurchaseOrderFields}
      (hkey : ∀ other ∈ t.purchaseOrderLineCorrections, other.id ≠ row.id)
      (hunbound : ∀ c ∈ t.comparators, c.poLineId ≠ row.rootId) :
      Wrote receipt t
        { t with purchaseOrderLineCorrections := t.purchaseOrderLineCorrections ++ [row] }
  | lineCorrection {t : Tenant} {row : RecordCorrection LineFields}
      (hreceipt : row.entityId = receipt)
      (hline : ∃ line ∈ t.lines, line.id = row.rootId ∧ line.receiptId = receipt)
      (hsealed : t.reconciled receipt) (hrole : row.role ≠ .none) (hpositive : 0 < row.generation)
      (hkey : ∀ other ∈ t.lineCorrections, other.id ≠ row.id ∧
        ¬(other.pairId = row.pairId ∧ other.role = row.role) ∧
        ¬(other.rootId = row.rootId ∧ other.generation = row.generation ∧ other.role = row.role)) :
      Wrote receipt t { t with lineCorrections := t.lineCorrections ++ [row] }
  | evaluation {t : Tenant} {row : Evaluation} (hreceipt : row.receiptId = receipt)
      (hkey : ∀ other ∈ t.evaluations, other.id ≠ row.id ∧ other.correctionId ≠ row.correctionId)
      (hcause : ∃ c ∈ t.lineCorrections, c.id = row.correctionId ∧ c.entityId = receipt) :
      Wrote receipt t { t with evaluations := t.evaluations ++ [row] }
  | evaluationLine {t : Tenant} {row : EvaluationSource}
      (hevaluation : ∃ e ∈ t.evaluations, e.id = row.evaluationId ∧ e.receiptId = receipt) :
      Wrote receipt t { t with evaluationLines := t.evaluationLines ++ [row] }
  | evaluationExpectation {t : Tenant} {row : EvaluationSource}
      (hevaluation : ∃ e ∈ t.evaluations, e.id = row.evaluationId ∧ e.receiptId = receipt) :
      Wrote receipt t { t with evaluationExpectations := t.evaluationExpectations ++ [row] }
  | evaluationException {t : Tenant} {row : EvaluationException}
      (hevaluation : ∃ e ∈ t.evaluations, e.id = row.evaluationId ∧ e.receiptId = receipt)
      (hexception : ∃ o ∈ t.exceptions, o.id = row.exceptionId ∧ o.receiptId = receipt) :
      Wrote receipt t { t with evaluationExceptions := t.evaluationExceptions ++ [row] }
  | event {t : Tenant} {event : ExceptionEvent}
      (hexception : ∃ o ∈ t.exceptions, o.id = event.exceptionId ∧ o.receiptId = receipt)
      (hevaluation : ∀ evaluation ∈ event.evaluationId, ∃ e ∈ t.evaluations, e.id = evaluation)
      (hadmits : event.fromStatus.admits event.toStatus)
      (hstatus : event.fromStatus =
        ((t.latestEvent event.exceptionId).map ExceptionEvent.toStatus).getD .open)
      (hseq : event.eventSeq =
        ((t.latestEvent event.exceptionId).map ExceptionEvent.eventSeq).getD 0 + 1)
      (hsound : event.exceptionId ∉ t.exceptionWorkflowAnomalies)  :
      Wrote receipt t ({ t with events := t.events ++ [event] }.advance event)

/-- Any number of statements about a receipt. -/
abbrev Writes (receipt : Uuid) : Tenant → Tenant → Prop := Relation.ReflTransGen (Wrote receipt)

/-! ## What each statement leaves -/

section

variable {ctx : Context} {t t' : Tenant}

/-- The locked receipt is one of the tenant's. -/
theorem lockReceivingContext_eq_ok {org receipt : Uuid} {header : Receipt}
    (h : lockReceivingContext ctx t org receipt = .ok header) :
    org = t.tables.orgId ∧ header ∈ t.receipts ∧ header.id = receipt := by
  simp only [lockReceivingContext, bind_eq_ok, demand_eq_ok, exists_unit] at h
  obtain ⟨-, hfound⟩ := h
  split at hfound
  · rename_i horg
    obtain ⟨hmem, hid⟩ := key_of_find? hfound
    exact ⟨horg, hmem, hid⟩
  · exact absurd hfound (by simp)

theorem received_of_lock {org receipt : Uuid} {header : Receipt}
    (h : lockReceivingContext ctx t org receipt = .ok header) : t.Received receipt :=
  let ⟨_, hmem, hid⟩ := lockReceivingContext_eq_ok h
  ⟨header, hmem, hid⟩

theorem guardReceipt_eq_ok {row row' : Receipt} (h : guardReceipt ctx t row = .ok row') :
    row' = { row with occurredAt := row.receivedAt, recordedAt := ctx.session.now } := by
  cases hpo : row.poId <;>
    simp only [guardReceipt, hpo, bind_eq_ok, pure_eq_ok, exists_unit] at h
  · exact h.2.symm
  · exact h.2.2.2.symm

/-- `INSERT INTO receipts` leaves the row, stamped with its own time. -/
theorem insertReceipt_eq_ok {row row' : Receipt} (h : insertReceipt ctx row t = .ok (row', t')) :
    row' = { row with occurredAt := row.receivedAt, recordedAt := ctx.session.now } ∧
      (∀ other ∈ t.receipts, other.id ≠ row.id) ∧
      t' = { t with receipts := t.receipts ++ [row'] } := by
  simp only [insertReceipt, bind_eq_ok, require_eq_ok, pure_eq_ok, exists_unit, Prod.mk.injEq] at h
  obtain ⟨_, hguard, -, -, ⟨-, hkey⟩, -, -, rfl, rfl⟩ := h
  obtain rfl := guardReceipt_eq_ok hguard
  exact ⟨rfl, by simpa using hkey, rfl⟩

/-- An admitted comparator is a line of an issued order. -/
theorem admitComparator_eq_ok {receipt : Receipt} {poLineId : Uuid} {u : Unit}
    (h : admitComparator t receipt poLineId = .ok u) :
    ∃ line, t.purchaseOrderLines.find? (·.id = poLineId) = some line ∧ t.issued line.poId := by
  simp only [admitComparator, bind_eq_ok, demand_eq_ok, require_eq_ok, exists_unit] at h
  obtain ⟨effective, hline, -, hissued, -⟩ := h
  obtain ⟨line, hfound, rfl⟩ := Option.map_eq_some_iff.mp hline
  refine ⟨line, hfound, ?_⟩
  have hpo : (t.effectivePurchaseOrderLine line).poId = line.poId := by
    unfold Tenant.effectivePurchaseOrderLine
    split <;> rfl
  exact hpo ▸ hissued

theorem guardComparator_eq_ok {row row' : Comparator} (h : guardComparator ctx t row = .ok row') :
    (∃ header ∈ t.receipts, header.id = row.receiptId ∧
      row' = { row with occurredAt := header.receivedAt, recordedAt := ctx.session.now }) ∧
    (∃ line, t.purchaseOrderLines.find? (·.id = row.poLineId) = some line ∧ t.issued line.poId) ∧
    row.sourceGeneration = Tenant.generation t.purchaseOrderLineCorrections row.poLineId ∧
    ((∃ c ∈ t.lineCorrections, some c.id = row.introducedByCorrectionId ∧
        c.entityId = row.receiptId) ∨
      row.introducedByCorrectionId = none ∧ ¬t.reconciled row.receiptId) := by
  simp only [guardComparator, bind_eq_ok, require_eq_ok, pure_eq_ok, exists_unit] at h
  obtain ⟨-, header, hlock, hopen, hallowed, hintroduced, hgeneration, -, rfl⟩ := h
  obtain ⟨-, hmem, hid⟩ := lockReceivingContext_eq_ok hlock
  refine ⟨⟨header, hmem, hid, rfl⟩, admitComparator_eq_ok hallowed, hgeneration, ?_⟩
  cases hnow : introducedNow ctx t row.receiptId (some row.poLineId) row.introducedByCorrectionId with
  | true =>
      simp only [introducedNow, List.any_eq_true, Bool.and_eq_true, beq_iff_eq] at hnow
      obtain ⟨c, hc, ⟨⟨⟨hentity, -⟩, hcorrection⟩, -⟩, -⟩ := hnow
      exact .inl ⟨c, hc, hcorrection, hentity⟩
  | false =>
      simp only [hnow, Bool.false_eq_true, false_or, imp_false, Option.isSome_iff_ne_none, ne_eq,
        not_not] at hopen hintroduced
      exact .inr ⟨hintroduced, hopen⟩

/-- `INSERT INTO receipt_comparators`. -/
theorem insertComparator_eq_ok {row : Comparator} (h : insertComparator ctx row t = .ok t') :
    ∃ row', guardComparator ctx t row = .ok row' ∧
      (∀ other ∈ t.comparators,
        ¬(other.receiptId = row.receiptId ∧ other.poLineId = row.poLineId)) ∧
      t' = { t with comparators := t.comparators ++ [row'] } := by
  simp only [insertComparator, bind_eq_ok, require_eq_ok, pure_eq_ok, exists_unit] at h
  obtain ⟨row', hguard, -, ⟨-, hkey⟩, -, -, rfl⟩ := h
  obtain ⟨⟨header, -, -, rfl⟩, -⟩ := guardComparator_eq_ok hguard
  refine ⟨_, hguard, fun other hother => ?_, rfl⟩
  have hall := List.all_eq_true.mp hkey other hother
  simp only [decide_eq_true_eq] at hall
  exact hall.2

/-- The receipt and the Item with which the guard admits a line, and what it makes of the line. -/
structure LineAdmitted (ctx : Context) (t : Tenant) (row row' : ReceiptLine) (header : Receipt)
    (item : Item) : Prop where
  header_mem : header ∈ t.receipts
  header_id : header.id = row.receiptId
  unreconciled : ¬t.reconciled row.receiptId
  selected : ∀ poLine ∈ row.fields.poLineId, admitComparator t header poLine = .ok ()
  item_mem : item ∈ t.items
  item_id : item.id = row.fields.itemId
  observed : row.fields.observedIdentifierValue.isSome → (t.conflictOf row.fields).isSome
  row_eq : row' = { row with
    fields := { row.fields with serialized := item.serialized }
    occurredAt := header.receivedAt
    recordedAt := ctx.session.now }

theorem guardLine_eq_ok {row row' : ReceiptLine} (h : guardLine ctx t row = .ok row') :
    ∃ header item, LineAdmitted ctx t row row' header item := by
  cases hpo : row.fields.poLineId <;>
    simp only [guardLine, hpo, bind_eq_ok, require_eq_ok, demand_eq_ok, pure_eq_ok,
      exists_unit] at h
  case none =>
    obtain ⟨-, header, hlock, hopen, item, hitem, -, -, hobserved, -, rfl⟩ := h
    obtain ⟨-, hmem, hid⟩ := lockReceivingContext_eq_ok hlock
    obtain ⟨hitemMem, hitemId⟩ := key_of_find? hitem
    exact ⟨header, item,
      { header_mem := hmem, header_id := hid, unreconciled := hopen, selected := by simp [hpo]
        item_mem := hitemMem, item_id := hitemId, observed := hobserved, row_eq := by rw [← hpo] }⟩
  case some =>
    obtain ⟨-, header, hlock, hopen, hselected, item, hitem, -, -, hobserved, -, rfl⟩ := h
    obtain ⟨-, hmem, hid⟩ := lockReceivingContext_eq_ok hlock
    obtain ⟨hitemMem, hitemId⟩ := key_of_find? hitem
    exact ⟨header, item,
      { header_mem := hmem, header_id := hid, unreconciled := hopen
        selected := by simpa [hpo] using hselected
        item_mem := hitemMem, item_id := hitemId, observed := hobserved, row_eq := by rw [← hpo] }⟩

/-- `INSERT INTO receipt_lines`. -/
theorem insertLine_eq_ok {row row' : ReceiptLine} (h : insertLine ctx row t = .ok (row', t')) :
    guardLine ctx t row = .ok row' ∧ (∀ other ∈ t.lines, other.id ≠ row.id) ∧
      lineReferences ctx.refs t row' ∧ lineChecks row'.fields ∧
      t' = { t with lines := t.lines ++ [row'] } := by
  simp only [insertLine, bind_eq_ok, require_eq_ok, pure_eq_ok, exists_unit, Prod.mk.injEq] at h
  obtain ⟨_, hguard, ⟨hchecks, -⟩, ⟨-, hkey⟩, hreferences, -, rfl, rfl⟩ := h
  obtain ⟨_, _, hguarded⟩ := guardLine_eq_ok hguard
  refine ⟨hguard, fun other hother => ?_, hreferences, hchecks, rfl⟩
  have hall := List.all_eq_true.mp hkey other hother
  simp only [decide_eq_true_eq, hguarded.row_eq] at hall
  exact hall.1

/-- `INSERT INTO receipt_reconciliations`. -/
theorem insertReconciliation_eq_ok {row : Reconciliation}
    (h : insertReconciliation ctx row t = .ok t') :
    ∃ row', row'.receiptId = row.receiptId ∧ t.Received row.receiptId ∧
      ¬t.reconciled row.receiptId ∧
      t' = { t with reconciliations := t.reconciliations ++ [row'] } := by
  simp only [insertReconciliation, guardReconciliation, bind_eq_ok, require_eq_ok, pure_eq_ok,
    exists_unit] at h
  obtain ⟨_, ⟨-, header, hlock, hopen, rfl⟩, -, -, -, -, rfl⟩ := h
  refine ⟨_, ?_, received_of_lock hlock, hopen, rfl⟩
  rfl

theorem guardException_eq_ok {row row' : ReceivingException}
    (h : guardException ctx t row = .ok row') :
    (∃ occurredAt, row' = { row with occurredAt, recordedAt := ctx.session.now }) ∧
      (row.evaluationId = none → t.Received row.receiptId) ∧
      ∀ evaluation ∈ row.evaluationId, ∃ e ∈ t.evaluations, e.id = evaluation ∧
        e.receiptId = row.receiptId ∧ row'.occurredAt = e.occurredAt := by
  cases hevaluation : row.evaluationId with
  | none =>
      simp only [guardException, hevaluation, bind_eq_ok, pure_eq_ok, exists_unit] at h
      obtain ⟨-, header, hlock, rfl⟩ := h
      exact ⟨⟨_, by rw [← hevaluation]⟩, fun _ => received_of_lock hlock, by simp⟩
  | some evaluation =>
      simp only [guardException, hevaluation, bind_eq_ok, demand_eq_ok, pure_eq_ok,
        exists_unit] at h
      obtain ⟨-, actor, -, cause, hcause, rfl⟩ := h
      have hmem := List.mem_of_find?_eq_some hcause
      have hfields := List.find?_some hcause
      simp only [decide_eq_true_eq] at hfields
      refine ⟨⟨_, by rw [← hevaluation]⟩, by simp, ?_⟩
      simp only [Option.mem_some_iff, forall_eq']
      exact ⟨cause, hmem, hfields.1, hfields.2.1, rfl⟩

/-- An observation that `INSERT INTO receiving_exceptions` recorded, with the workflow that it
opened. -/
structure ExceptionInserted (ctx : Context) (row row' : ReceivingException) (t t' : Tenant) :
    Prop where
  guarded : guardException ctx t row = .ok row'
  enforced : enforceReceivingException t row' = .ok ()
  fresh : ∀ other ∈ t.exceptions, other.id ≠ row.id
  unobserved : ∀ other ∈ t.exceptions, ¬sameObservation row' other
  unopened : ∀ other ∈ t.workflows, other.exceptionId ≠ row.id
  references : exceptionReferences ctx.refs t row'
  after_eq : t' = { t with exceptions := t.exceptions ++ [row']
                           workflows := t.workflows ++ [row'.opened] }

theorem insertException_eq_ok {row : ReceivingException} (h : insertException ctx row t = .ok t') :
    ∃ row', ExceptionInserted ctx row row' t t' := by
  simp only [insertException, bind_eq_ok, require_eq_ok, pure_eq_ok, exists_unit] at h
  obtain ⟨row', hguard, henforce, -, ⟨-, hkey⟩, hreferences, -, hworkflow, -, rfl⟩ := h
  obtain ⟨⟨_, hrow⟩, -⟩ := guardException_eq_ok hguard
  have hid : row'.id = row.id := hrow ▸ rfl
  refine ⟨row', hguard, henforce, fun other hother => ?_, fun other hother => ?_,
    fun other hother => ?_, hreferences, rfl⟩
  · have hall := List.all_eq_true.mp hkey other hother
    simp only [decide_eq_true_eq, hid] at hall
    exact hall.1
  · have hall := List.all_eq_true.mp hkey other hother
    simp only [decide_eq_true_eq] at hall
    simpa using hall.2
  · simpa [hid] using List.all_eq_true.mp hworkflow other hother

/-! ### Corrections -/

theorem guardGeneration_eq_ok {φ : Type} {actor : Uuid} {occurredAt : Timestamp}
    {corrections : List (RecordCorrection φ)} {anomalies : List Uuid}
    {row row' : RecordCorrection φ}
    (h : guardGeneration ctx actor occurredAt corrections anomalies row = .ok row') :
    row.generation = Tenant.generation corrections row.rootId + 1 ∧
      (row.role = .reversal → row.rootId ∉ anomalies) ∧
      row' = { row with
        actorId := actor
        recordedAt := ctx.session.now
        recordingTransactionId := ctx.transactionId
        occurredAt
        reason := normalizeCorrectionReason row.reason } := by
  simp only [guardGeneration, bind_eq_ok, require_eq_ok, pure_eq_ok, exists_unit] at h
  exact ⟨h.1, h.2.1, h.2.2.symm⟩

theorem correctionUnique_iff {φ : Type} {foreign : List Uuid}
    {corrections : List (RecordCorrection φ)} {row : RecordCorrection φ} :
    correctionUnique foreign corrections row = true ↔ row.id ∉ foreign ∧
      ∀ other ∈ corrections, other.id ≠ row.id ∧
        ¬(other.pairId = row.pairId ∧ other.role = row.role) ∧
        ¬(other.rootId = row.rootId ∧ other.generation = row.generation ∧
          other.role = row.role) := by
  simp only [correctionUnique, Bool.and_eq_true, Bool.not_eq_true', List.contains_eq_mem,
    decide_eq_false_iff_not, List.all_eq_true, bne_iff_ne, Bool.and_eq_false_iff,
    beq_eq_false_iff_ne, and_assoc, not_and_or, or_assoc, ne_eq]

/-- `INSERT INTO purchase_order_line_corrections`. -/
theorem insertPurchaseOrderLineCorrection_eq_ok {row row' : RecordCorrection PurchaseOrderFields}
    (h : insertPurchaseOrderLineCorrection ctx row t = .ok (row', t')) :
    row'.rootId = row.rootId ∧ (∀ c ∈ t.comparators, c.poLineId ≠ row'.rootId) ∧
      (∀ other ∈ t.purchaseOrderLineCorrections, other.id ≠ row'.id) ∧
      t' = { t with
        purchaseOrderLineCorrections := t.purchaseOrderLineCorrections ++ [row'] } := by
  simp only [insertPurchaseOrderLineCorrection, guardPurchaseOrderLineCorrection, bind_eq_ok,
    require_eq_ok, demand_eq_ok, pure_eq_ok, exists_unit, Prod.mk.injEq, correctionUnique_iff] at h
  obtain ⟨_, ⟨actor, -, original, horiginal, -, hunbound, -, hguard⟩, -, ⟨-, hkey⟩, -, -, rfl,
    rfl⟩ := h
  obtain ⟨-, -, rfl⟩ := guardGeneration_eq_ok hguard
  refine ⟨rfl, fun c hc => ?_, fun other hother => (hkey other hother).1, rfl⟩
  have hne := List.all_eq_true.mp hunbound c hc
  simpa [(key_of_find? horiginal).2] using hne

/-- The line that an admitted correction is of. -/
structure AdmittedLine (t : Tenant) (row row' : RecordCorrection LineFields)
    (original : ReceiptLine) : Prop where
  found : t.lines.find? (·.id = row.rootId) = some original
  sound : row.role = .reversal → ¬t.hasEvaluationAnomaly original.receiptId
  kept : row.role = .corrected → row.entityId = original.receiptId ∧
    row.fields.assetId = original.fields.assetId
  conflict : correctedConflict t original row = .ok row'.conflictingAssetId
  reconciled : t.reconciled original.receiptId
  occurredAt : row'.occurredAt = original.occurredAt

/-- What `guard_receipt_line_corrections` admits, and what it fills in. -/
structure AdmittedCorrection (ctx : Context) (t : Tenant) (row row' : RecordCorrection LineFields) :
    Prop where
  line : ∃ original, AdmittedLine t row row' original
  actor : currentAuthenticatedActor ctx.session = .ok row'.actorId
  generation : row.generation = Tenant.generation t.lineCorrections row.rootId + 1
  sound : row.role = .reversal → row.rootId ∉ t.receiptLineAnomalies ctx.posixSpace
  row : row' = { row with
    conflictingAssetId := row'.conflictingAssetId
    actorId := row'.actorId
    recordedAt := ctx.session.now
    recordingTransactionId := ctx.transactionId
    occurredAt := row'.occurredAt
    reason := normalizeCorrectionReason row.reason }

theorem correctionGate_eq_ok {actor : Uuid} (h : correctionGate ctx t = .ok actor) :
    currentAuthenticatedActor ctx.session = .ok actor := by
  simp only [correctionGate, bind_eq_ok, require_eq_ok, pure_eq_ok, exists_unit] at h
  obtain ⟨-, _, hactor, -, rfl⟩ := h
  exact hactor

theorem guardReceiptLineCorrection_eq_ok {row row' : RecordCorrection LineFields}
    (h : guardReceiptLineCorrection ctx t row = .ok row') : AdmittedCorrection ctx t row row' := by
  by_cases hrole : row.role = .corrected
  · simp only [guardReceiptLineCorrection, if_pos hrole, bind_eq_ok, require_eq_ok,
      demand_eq_ok, exists_unit, admitReplacement] at h
    obtain ⟨actor, hgate, original, horiginal, header, -, hsealed, -, hallowed, conflict, hconflict,
      hguard⟩ := h
    obtain ⟨hgeneration, -, rfl⟩ := guardGeneration_eq_ok hguard
    exact {
      line := ⟨original,
        { found := horiginal, sound := by simp [hrole]
          kept := fun _ => ⟨hallowed.1.1, hallowed.1.2.2.1⟩
          conflict := hconflict, reconciled := hsealed, occurredAt := rfl }⟩
      actor := correctionGate_eq_ok hgate
      generation := hgeneration
      sound := by simp [hrole]
      row := rfl }
  · simp only [guardReceiptLineCorrection, if_neg hrole, bind_eq_ok, require_eq_ok,
      demand_eq_ok, exists_unit] at h
    obtain ⟨actor, hgate, original, horiginal, header, -, hsealed, hsound, conflict, hconflict,
      hguard⟩ := h
    obtain ⟨hgeneration, hanomalies, rfl⟩ := guardGeneration_eq_ok hguard
    exact {
      line := ⟨original,
        { found := horiginal, sound := hsound, kept := fun h => absurd h hrole
          conflict := hconflict, reconciled := hsealed, occurredAt := rfl }⟩
      actor := correctionGate_eq_ok hgate
      generation := hgeneration
      sound := hanomalies
      row := rfl }

/-- `INSERT INTO receipt_line_corrections`. -/
theorem insertReceiptLineCorrection_eq_ok {row row' : RecordCorrection LineFields}
    (h : insertReceiptLineCorrection ctx row t = .ok (row', t')) :
    AdmittedCorrection ctx t row row' ∧ correctionChecks ctx.posixSpace row' ∧
      (∀ other ∈ t.lineCorrections, other.id ≠ row'.id ∧
        ¬(other.pairId = row'.pairId ∧ other.role = row'.role) ∧
        ¬(other.rootId = row'.rootId ∧ other.generation = row'.generation ∧
          other.role = row'.role)) ∧
      t' = { t with lineCorrections := t.lineCorrections ++ [row'] } := by
  simp only [insertReceiptLineCorrection, bind_eq_ok, require_eq_ok, pure_eq_ok, exists_unit,
    Prod.mk.injEq, correctionUnique_iff] at h
  obtain ⟨_, hguard, ⟨hchecks, -⟩, ⟨-, hkey⟩, -, -, rfl, rfl⟩ := h
  exact ⟨guardReceiptLineCorrection_eq_ok hguard, hchecks, hkey, rfl⟩

/-! ### Evaluations -/

theorem evaluationGate_eq_ok {actor : Uuid} (h : evaluationGate ctx t = .ok actor) :
    currentAuthenticatedActor ctx.session = .ok actor := by
  simp only [evaluationGate, bind_eq_ok, require_eq_ok, exists_unit] at h
  exact h.2

/-- The last number of a receipt's evaluations. -/
def Tenant.lastSequence (tenant : Tenant) (receipt : Uuid) : ℕ :=
  ((tenant.evaluationsOf receipt).map Evaluation.evaluationSeq).max?.getD 0

/-- The correction that an evaluation names is its cause. -/
structure EvaluationCause (ctx : Context) (t : Tenant) (row row' : Evaluation)
    (cause : RecordCorrection LineFields) : Prop where
  mem : cause ∈ t.lineCorrections
  id : cause.id = row.correctionId
  role : cause.role = .corrected
  receipt : cause.entityId = row.receiptId
  line : cause.rootId = row.receiptLineId
  actor : cause.actorId = row'.actorId
  generation : cause.generation = row.correctionGeneration
  transaction : cause.recordingTransactionId = ctx.transactionId
  occurredAt : row'.occurredAt = cause.correctionOccurredAt

/-- An evaluation that `INSERT INTO receipt_correction_evaluations` recorded. -/
structure EvaluationInserted (ctx : Context) (row row' : Evaluation) (t t' : Tenant) : Prop where
  cause : ∃ cause, EvaluationCause ctx t row row' cause
  authentic : currentAuthenticatedActor ctx.session = .ok row'.actorId
  sequence : row.evaluationSeq = t.lastSequence row.receiptId + 1
  row_eq : row' = { row with
    actorId := row'.actorId
    recordedAt := ctx.session.now
    occurredAt := row'.occurredAt
    recordingTransactionId := ctx.transactionId }
  fresh : ∀ other ∈ t.evaluations, other.id ≠ row.id ∧ other.correctionId ≠ row.correctionId
  after_eq : t' = { t with evaluations := t.evaluations ++ [row'] }

theorem insertEvaluation_eq_ok {row row' : Evaluation}
    (h : insertEvaluation ctx row t = .ok (row', t')) : EvaluationInserted ctx row row' t t' := by
  simp only [insertEvaluation, guardEvaluation, bind_eq_ok, require_eq_ok, demand_eq_ok,
    pure_eq_ok, exists_unit, Prod.mk.injEq, addInteger_eq_ok] at h
  obtain ⟨_, ⟨actor, hgate, cause, hcause, ⟨hentity, hroot, hactor, hgeneration, htransaction⟩, -,
    -, _, ⟨-, rfl⟩, hseq, rfl⟩, -, ⟨-, hkey⟩, -, -, rfl, rfl⟩ := h
  have hfields := List.find?_some hcause
  simp only [decide_eq_true_eq] at hfields
  refine
    { cause := ⟨cause,
        { mem := List.mem_of_find?_eq_some hcause, id := hfields.1, role := hfields.2
          receipt := hentity, line := hroot, actor := hactor, generation := hgeneration
          transaction := htransaction, occurredAt := rfl }⟩
      authentic := evaluationGate_eq_ok hgate, sequence := hseq, row_eq := rfl
      fresh := fun other hother => ?_, after_eq := rfl }
  have hall := List.all_eq_true.mp hkey other hother
  simp only [decide_eq_true_eq] at hall
  exact ⟨hall.1, hall.2.1⟩

theorem guardConsequence_eq_ok {evaluation : Uuid} {e : Evaluation}
    (h : guardConsequence ctx t evaluation = .ok e) :
    t.evaluations.find? (·.id = evaluation) = some e := by
  simp only [guardConsequence, bind_eq_ok, require_eq_ok, demand_eq_ok, pure_eq_ok,
    exists_unit] at h
  obtain ⟨_, -, _, hfound, -, rfl⟩ := h
  exact hfound

/-- A row that was pinned by an evaluation, with the evaluation's own attribution. -/
def EvaluationSource.pinnedBy (row : EvaluationSource) (ctx : Context) (e : Evaluation) :
    EvaluationSource :=
  { row with actorId := e.actorId, recordedAt := ctx.session.now, occurredAt := e.occurredAt }

theorem pinSource_eq_ok {φ : Type} {table : TableName} {corrections : List (RecordCorrection φ)}
    {rootExists : Bool} {pinned : List EvaluationSource} {row row' : EvaluationSource}
    (h : pinSource ctx table corrections rootExists pinned row t = .ok row') :
    ∃ e, t.evaluations.find? (·.id = row.evaluationId) = some e ∧ row' = row.pinnedBy ctx e := by
  simp only [pinSource, bind_eq_ok, require_eq_ok, pure_eq_ok, exists_unit] at h
  obtain ⟨e, hguard, -, -, -, -, rfl⟩ := h
  exact ⟨e, guardConsequence_eq_ok hguard, rfl⟩

/-- `INSERT INTO receipt_evaluation_lines`. -/
theorem insertEvaluationLine_eq_ok {row : EvaluationSource}
    (h : insertEvaluationLine ctx row t = .ok t') :
    ∃ e, t.evaluations.find? (·.id = row.evaluationId) = some e ∧
      t' = { t with evaluationLines := t.evaluationLines ++ [row.pinnedBy ctx e] } := by
  simp only [insertEvaluationLine, bind_eq_ok, pure_eq_ok] at h
  obtain ⟨_, hpin, rfl⟩ := h
  obtain ⟨e, he, rfl⟩ := pinSource_eq_ok hpin
  exact ⟨e, he, rfl⟩

/-- `INSERT INTO receipt_evaluation_expectations`. -/
theorem insertEvaluationExpectation_eq_ok {row : EvaluationSource}
    (h : insertEvaluationExpectation ctx row t = .ok t') :
    ∃ e, t.evaluations.find? (·.id = row.evaluationId) = some e ∧
      t' = { t with evaluationExpectations := t.evaluationExpectations ++ [row.pinnedBy ctx e] } := by
  simp only [insertEvaluationExpectation, bind_eq_ok, pure_eq_ok] at h
  obtain ⟨_, hpin, rfl⟩ := h
  obtain ⟨e, he, rfl⟩ := pinSource_eq_ok hpin
  exact ⟨e, he, rfl⟩

/-- The same for what an evaluation says of an exception. -/
def EvaluationException.linkedBy (row : EvaluationException) (ctx : Context) (e : Evaluation) :
    EvaluationException :=
  { row with actorId := e.actorId, recordedAt := ctx.session.now, occurredAt := e.occurredAt }

/-- `INSERT INTO receipt_evaluation_exceptions`. -/
theorem insertEvaluationException_eq_ok {row : EvaluationException}
    (h : insertEvaluationException ctx row t = .ok t') :
    ∃ e, t.evaluations.find? (·.id = row.evaluationId) = some e ∧
      (∃ o ∈ t.exceptions, o.id = row.exceptionId) ∧
      t' = { t with evaluationExceptions := t.evaluationExceptions ++ [row.linkedBy ctx e] } := by
  simp only [insertEvaluationException, bind_eq_ok, require_eq_ok, pure_eq_ok, exists_unit] at h
  obtain ⟨e, hguard, -, -, ⟨hexception, -⟩, -, rfl⟩ := h
  exact ⟨e, guardConsequence_eq_ok hguard, by simpa using hexception, rfl⟩

/-! ### Events -/

/-- What `transition_exception` of the database admitted, and the event that it recorded. -/
structure Transitioned (ctx : Context) (args : ExceptionTransition) (event : ExceptionEvent)
    (t t' : Tenant) : Prop where
  sound : args.exceptionId ∉ t.exceptionWorkflowAnomalies
  status : args.expectedStatus =
    ((t.latestEvent args.exceptionId).map ExceptionEvent.toStatus).getD .open
  observed : ∃ o ∈ t.exceptions, o.id = args.exceptionId
  evaluation : ∀ evaluation ∈ args.evaluationId, ∃ e ∈ t.evaluations, e.id = evaluation
  admits : args.expectedStatus.admits args.toStatus
  actor : currentAuthenticatedActor ctx.session = .ok event.actorId
  event_eq : event =
    { id := args.eventId, exceptionId := args.exceptionId
      eventSeq := ((t.latestEvent args.exceptionId).map ExceptionEvent.eventSeq).getD 0 + 1
      fromStatus := args.expectedStatus, toStatus := args.toStatus
      note := args.note.map normalizeCorrectionReason, evaluationId := args.evaluationId
      actorId := event.actorId, occurredAt := args.occurredAt, recordedAt := ctx.session.now }
  after_eq : t' = { t with events := t.events ++ [event] }.advance event

theorem transitionExceptionSql_eq_ok {args : ExceptionTransition} {event : ExceptionEvent}
    (h : transitionExceptionSql ctx args t = .ok (event, t')) :
    Transitioned ctx args event t t' := by
  simp only [transitionExceptionSql, insertEvent, bind_eq_ok, require_eq_ok, demand_eq_ok,
    pure_eq_ok, exists_unit, Prod.mk.injEq] at h
  obtain ⟨org, -, -, performer, hactor, workflow, -, hsound, hstatus, -, _, ⟨hchecks, -,
    ⟨hexception, hevaluation, -⟩, -, rfl⟩, rfl, rfl⟩ := h
  refine ⟨hsound, hstatus, by simpa using hexception, ?_, hstatus ▸ hchecks.2.1, hactor, ?_, rfl⟩
  · intro evaluation hmem
    rw [Option.mem_def] at hmem
    simpa [hmem] using hevaluation
  · rw [hstatus]

/-! ## The statements -/

theorem wrote_of_insertReceipt {row row' : Receipt} (h : insertReceipt ctx row t = .ok (row', t')) :
    Wrote row.id t t' := by
  obtain ⟨rfl, hkey, rfl⟩ := insertReceipt_eq_ok h
  exact .receipt rfl hkey

/-- A comparator is pinned to the source in force, which is what the caller names. -/
theorem wrote_of_insertComparator {row : Comparator} (h : insertComparator ctx row t = .ok t')
    (hsource : row.sourceId = (Tenant.latestCorrection t.purchaseOrderLineCorrections
      row.poLineId).map RecordCorrection.id) : Wrote row.receiptId t t' := by
  obtain ⟨row', hguard, hkey, rfl⟩ := insertComparator_eq_ok h
  obtain ⟨⟨header, hmem, hid, rfl⟩, hline, hgeneration, hintroduced⟩ :=
    guardComparator_eq_ok hguard
  refine .comparator rfl ⟨header, hmem, hid⟩ hkey hline hsource hgeneration ?_
  intro correction hcorrection
  rcases hintroduced with ⟨c, hc, hcid, hentity⟩ | ⟨hnone, -⟩
  · exact ⟨c, hc, Option.some.inj (hcid.trans hcorrection), hentity⟩
  · exact nomatch hnone.symm.trans hcorrection

theorem wrote_of_insertLine {row row' : ReceiptLine} (h : insertLine ctx row t = .ok (row', t')) :
    Wrote row.receiptId t t' := by
  obtain ⟨hguard, hkey, hreferences, -, rfl⟩ := insertLine_eq_ok h
  obtain ⟨header, item, hguarded⟩ := guardLine_eq_ok hguard
  obtain rfl := hguarded.row_eq
  simp only [lineReferences, Bool.and_eq_true, Option.all_eq_true, List.any_eq_true,
    decide_eq_true_eq] at hreferences
  refine .line rfl ⟨header, hguarded.header_mem, hguarded.header_id⟩ hguarded.unreconciled hkey
    hguarded.observed ?_ ?_
  · exact hreferences.1.1.2
  · exact hreferences.1.2

theorem wrote_of_insertReconciliation {row : Reconciliation}
    (h : insertReconciliation ctx row t = .ok t') : Wrote row.receiptId t t' := by
  obtain ⟨row', hreceipt, hreceived, hopen, rfl⟩ := insertReconciliation_eq_ok h
  exact .reconciliation hreceipt hreceived hopen

theorem wrote_of_insertException {row : ReceivingException}
    (h : insertException ctx row t = .ok t') : Wrote row.receiptId t t' := by
  obtain ⟨row', hinserted⟩ := insertException_eq_ok h
  obtain ⟨⟨_, rfl⟩, -, hevaluation⟩ := guardException_eq_ok hinserted.guarded
  have hreferences := hinserted.references
  simp only [exceptionReferences, Bool.and_eq_true, List.any_eq_true, decide_eq_true_eq]
    at hreferences
  rw [hinserted.after_eq]
  refine .exception rfl hreferences.1.1.1.1.1.1 hinserted.fresh hinserted.unopened
    fun evaluation hmem => ?_
  obtain ⟨e, he, hid, hreceipt, -⟩ := hevaluation evaluation hmem
  exact ⟨e, he, hid, hreceipt⟩

theorem Transitioned.wrote {args : ExceptionTransition} {event : ExceptionEvent}
    (h : Transitioned ctx args event t t') {o : ReceivingException} (ho : o ∈ t.exceptions)
    (hid : o.id = args.exceptionId) : Wrote o.receiptId t t' := by
  rw [h.after_eq, h.event_eq]
  exact .event ⟨o, ho, hid, rfl⟩ h.evaluation h.admits h.status rfl h.sound

/-- A row about a line of its receipt. -/
theorem wrote_of_insertReceiptLineCorrection {row row' : RecordCorrection LineFields}
    (h : insertReceiptLineCorrection ctx row t = .ok (row', t'))
    (hline : ∃ line ∈ t.lines, line.id = row.rootId ∧ line.receiptId = row.entityId)
    (hkeys : Distinct ReceiptLine.id t.lines) : Wrote row.entityId t t' := by
  obtain ⟨hadmitted, hchecks, hkey, rfl⟩ := insertReceiptLineCorrection_eq_ok h
  obtain ⟨original, horiginal⟩ := hadmitted.line
  obtain ⟨hmem, hid⟩ := key_of_find? horiginal.found
  obtain ⟨line, hlineMem, hlineId, hreceipt⟩ := hline
  obtain rfl := hkeys.eq hlineMem hmem (hlineId.trans hid.symm)
  have hrow := hadmitted.row
  have hentity : row'.entityId = row.entityId := hrow ▸ rfl
  have hroot : row'.rootId = row.rootId := hrow ▸ rfl
  refine .lineCorrection hentity ⟨line, hmem, hid.trans hroot.symm, hreceipt⟩
    (hreceipt ▸ horiginal.reconciled) ?_ ?_ hkey
  all_goals simp only [correctionChecks, Bool.and_eq_true, bne_iff_ne, decide_eq_true_eq] at hchecks
  · exact hchecks.1.1.1.1.1.1
  · exact hchecks.1.1.1.1.1.2

theorem wrote_of_insertEvaluation {row row' : Evaluation}
    (h : insertEvaluation ctx row t = .ok (row', t')) : Wrote row.receiptId t t' := by
  have hinserted := insertEvaluation_eq_ok h
  obtain ⟨cause, hcause⟩ := hinserted.cause
  rw [hinserted.after_eq, hinserted.row_eq]
  exact .evaluation rfl hinserted.fresh ⟨cause, hcause.mem, hcause.id, hcause.receipt⟩

theorem wrote_of_insertPurchaseOrderLineCorrection {receipt : Uuid}
    {row row' : RecordCorrection PurchaseOrderFields}
    (h : insertPurchaseOrderLineCorrection ctx row t = .ok (row', t')) : Wrote receipt t t' := by
  obtain ⟨-, hunbound, hkey, rfl⟩ := insertPurchaseOrderLineCorrection_eq_ok h
  exact .purchaseOrderLineCorrection hkey hunbound

end

end FleetOps
