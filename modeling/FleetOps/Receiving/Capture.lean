import FleetOps.Receiving.Rounds

/-!
# What is stored at capture

The exceptions that a receipt's capture stores are those derived from its lines
as they were captured and, once its population is closed, from its comparators:
`Tenant.Exact`.  Recording a line and reconciling keep this, one exception after
another; nothing else touches it (`Exact.of_same`).
-/

namespace FleetOps

open Relation Keys

namespace Tenant

variable (tenant : Tenant) (receipt : Uuid)

/-- The keys of the exceptions that capture stored. -/
def storedKeys : List ExceptionKey :=
  ((tenant.exceptionsOf receipt).filter (·.evaluationId = none)).map ReceivingException.key

/-- The comparators that capture bound. -/
def captureComparators : List Comparator :=
  (tenant.comparatorsOf receipt).filter (·.introducedByCorrectionId = none)

/-- The purchase order lines that capture bound, as they are in force. -/
def captureLines : List PurchaseOrderLine :=
  (tenant.captureComparators receipt).filterMap fun c => tenant.purchaseOrderLine? c.poLineId

/-- The keys of the exceptions that capture derives. -/
def derivedKeys : List ExceptionKey :=
  (tenant.linesOf receipt).flatMap tenant.capturedKeys ++
    if tenant.reconciled receipt then
      (tenant.captureLines receipt).flatMap (tenant.quantityKeys receipt)
    else []

variable {tenant receipt}

theorem derivedKeys_of_open (hopen : ¬tenant.reconciled receipt) :
    tenant.derivedKeys receipt = (tenant.linesOf receipt).flatMap tenant.capturedKeys := by
  rw [derivedKeys, if_neg hopen, List.append_nil]

theorem derivedKeys_of_closed (hclosed : tenant.reconciled receipt) :
    tenant.derivedKeys receipt = (tenant.linesOf receipt).flatMap tenant.capturedKeys ++
      (tenant.captureLines receipt).flatMap (tenant.quantityKeys receipt) := by
  rw [derivedKeys, if_pos hclosed]

variable (tenant receipt)

/-- Capture has stored what it derives, in this order. -/
def Exact : Prop := tenant.storedKeys receipt = tenant.derivedKeys receipt

end Tenant

section

variable {t t' : Tenant} {receipt : Uuid}

/-- What a line's exceptions are derived from. -/
theorem capturedKeys_congr {line : ReceiptLine}
    (hselection : t'.selection line.fields.poLineId = t.selection line.fields.poLineId)
    (hconflict : t'.conflictOf line.fields = t.conflictOf line.fields)
    (hunreadable : t'.unreadable line.fields.assetId = t.unreadable line.fields.assetId) :
    t'.capturedKeys line = t.capturedKeys line := by
  simp only [Tenant.capturedKeys, Tenant.capturedKinds, hselection, hconflict, hunreadable]

theorem Bound.reconciled (h : Bound receipt t t') : t'.reconciled = t.reconciled := by
  obtain ⟨rows, -, rfl⟩ := h
  rfl

theorem Observed.reconciled {keys : List ExceptionKey} (h : Observed receipt keys t t') :
    t'.reconciled = t.reconciled := by
  obtain ⟨rows, -, -, rfl⟩ := h
  rfl

theorem Inserted.reconciled {line : ReceiptLine} (h : Inserted receipt line t t') :
    t'.reconciled = t.reconciled := by
  rw [h.tenant]
  rfl

theorem Bound.lineCorrections (h : Bound receipt t t') : t'.lineCorrections = t.lineCorrections := by
  obtain ⟨rows, -, rfl⟩ := h
  rfl

theorem Observed.lineCorrections {keys : List ExceptionKey} (h : Observed receipt keys t t') :
    t'.lineCorrections = t.lineCorrections := by
  obtain ⟨rows, -, -, rfl⟩ := h
  rfl

theorem Inserted.lineCorrections {line : ReceiptLine} (h : Inserted receipt line t t') :
    t'.lineCorrections = t.lineCorrections := by
  rw [h.tenant]

theorem Observed.storedKeys {keys : List ExceptionKey} (h : Observed receipt keys t t') :
    t'.storedKeys receipt = t.storedKeys receipt ++ keys := by
  obtain ⟨rows, rfl, hrows, rfl⟩ := h
  simp only [Tenant.storedKeys, Tenant.exceptionsOf, List.filter_append, List.map_append]
  congr 2
  rw [List.filter_eq_self.mpr fun row hrow => decide_eq_true (hrows row hrow).1,
    List.filter_eq_self.mpr fun row hrow => decide_eq_true (hrows row hrow).2]

theorem Observed.derivedKeys {keys : List ExceptionKey} (h : Observed receipt keys t t') :
    t'.derivedKeys receipt = t.derivedKeys receipt := by
  obtain ⟨rows, -, -, rfl⟩ := h
  rfl

/-- Binding comparators derives nothing as long as the population is open. -/
theorem Bound.exact (h : Bound receipt t t') (hopen : ¬t.reconciled receipt)
    (hexact : t.Exact receipt) : t'.Exact receipt := by
  rw [Tenant.Exact, Tenant.derivedKeys_of_open hopen] at hexact
  rw [Tenant.Exact, Tenant.derivedKeys_of_open (h.reconciled ▸ hopen)]
  obtain ⟨rows, -, rfl⟩ := h
  exact hexact

/-- The facts of captured lines do not change when a line is inserted. -/
theorem Inserted.capturedKeys {line other : ReceiptLine} (h : Inserted receipt line t t')
    (hkeys : t.Integrity) (hother : other ∈ t.lines) :
    t'.capturedKeys other = t.capturedKeys other := by
  obtain ⟨more, hmore, hnew⟩ := h.identifiers
  refine capturedKeys_congr ?_ ?_ ?_
  · rw [h.tenant]
    rfl
  · exact Tenant.conflictOf_of_append hmore (hkeys.observed other hother)
  · refine Tenant.unreadable_of_append hmore fun i hi heq => ?_
    obtain ⟨a, ha, haid⟩ := hkeys.lineAsset other hother i.assetId heq.symm
    exact hnew i hi a ha haid

theorem Inserted.derivedKeys {line : ReceiptLine} (h : Inserted receipt line t t')
    (hkeys : t.Integrity) (hopen : ¬t.reconciled receipt) :
    t'.derivedKeys receipt = t.derivedKeys receipt ++ t'.capturedKeys line := by
  have hlines : t'.linesOf receipt = t.linesOf receipt ++ [line] := by
    rw [h.tenant]
    simp [Tenant.linesOf, List.filter_append, h.owner]
  have hopen' : ¬t'.reconciled receipt := h.reconciled ▸ hopen
  rw [Tenant.derivedKeys_of_open hopen, Tenant.derivedKeys_of_open hopen', hlines,
    List.flatMap_append, List.flatMap_singleton]
  congr 1
  exact List.flatMap_congr fun other hother =>
    h.capturedKeys hkeys (Tenant.mem_linesOf.mp hother).1

theorem Inserted.storedKeys {line : ReceiptLine} (h : Inserted receipt line t t') :
    t'.storedKeys receipt = t.storedKeys receipt := by
  rw [h.tenant]
  rfl

/-- A piece of a receipt's capture: it corrects nothing, and stores what it derives. -/
structure Captured (receipt : Uuid) (t t' : Tenant) : Prop where
  opened : ¬t.reconciled receipt
  writes : Writes receipt t t'
  uncorrected : t'.lineCorrections = t.lineCorrections
  exact : t.Exact receipt → t'.Exact receipt

theorem Captured.refl (hopen : ¬t.reconciled receipt) : Captured receipt t t :=
  ⟨hopen, .refl, rfl, id⟩

theorem Captured.trans {t'' : Tenant} (h : Captured receipt t t') (h' : Captured receipt t' t'') :
    Captured receipt t t'' where
  opened := h.opened
  writes := h.writes.trans h'.writes
  uncorrected := h'.uncorrected.trans h.uncorrected
  exact hexact := h'.exact (h.exact hexact)

/-- `_record_line` stores what it derives from its line, and closes nothing. -/
theorem recordLine_captured {ctx : Context} {header : Receipt} {values : LineValues}
    {keys : LineKeys} {line : ReceiptLine} (hkeys : t.Integrity) (hopen : ¬t.reconciled header.id)
    (h : Service.recordLine ctx header values keys t = .ok (line, t')) :
    Captured header.id t t' ∧ ¬t'.reconciled header.id := by
  obtain ⟨bound, inserted, hrecorded⟩ := recordLine_eq_ok hkeys h
  have hbound := hrecorded.binding
  have hinserted := hrecorded.insertion
  have hobserved := hrecorded.observed
  have hboundOpen : ¬bound.reconciled header.id := hbound.reconciled ▸ hopen
  refine ⟨⟨hopen, hrecorded.writes, ?_, fun hexact => ?_⟩, ?_⟩
  · rw [hobserved.lineCorrections, hinserted.lineCorrections, hbound.lineCorrections]
  · have hboundExact := hbound.exact hopen hexact
    rw [Tenant.Exact, hobserved.storedKeys, hobserved.derivedKeys, hinserted.storedKeys,
      hinserted.derivedKeys (Writes.integrity hrecorded.binds hkeys) hboundOpen, hboundExact]
  · rw [hobserved.reconciled, hinserted.reconciled]
    exact hboundOpen

/-- An open receipt has been corrected by nobody, so capture bound all its comparators. -/
theorem Tenant.Integrity.captureComparators_eq (hkeys : t.Integrity)
    (hopen : ¬t.reconciled receipt) : t.captureComparators receipt = t.comparatorsOf receipt := by
  refine List.filter_eq_self.mpr fun c hc => decide_eq_true ?_
  obtain ⟨hmem, hreceipt⟩ := Tenant.mem_comparatorsOf.mp hc
  exact hkeys.introduced_eq_none hmem (hreceipt ▸ hopen)

/-- `_reconcile` stores what it derives from the comparators. -/
theorem reconcile_captured {ctx : Context} {header : Receipt} {keys : ReconcileKeys}
    (hkeys : t.Integrity) (h : Service.reconcile ctx header keys t = .ok t') :
    Captured header.id t t' := by
  obtain ⟨row, hreceipt, hopen, hobserved, hwrites⟩ := reconcile_eq_ok h
  refine ⟨hopen, hwrites, ?_, fun hexact => ?_⟩
  · rw [hobserved.lineCorrections]
  let closed : Tenant := { t with reconciliations := t.reconciliations ++ [row] }
  have hclosed : closed.reconciled header.id := by simp [closed, Tenant.reconciled, hreceipt]
  have hlines : t.captureLines header.id = t.boundLines header.id := by
    rw [Tenant.captureLines, hkeys.captureComparators_eq hopen]
    rfl
  have hderived : closed.derivedKeys header.id =
      (t.linesOf header.id).flatMap t.capturedKeys ++
        (t.boundLines header.id).flatMap (t.quantityKeys header.id) := by
    rw [Tenant.derivedKeys_of_closed hclosed, ← hlines]
    rfl
  rw [Tenant.Exact, Tenant.derivedKeys_of_open hopen] at hexact
  rw [Tenant.Exact, hobserved.storedKeys, hobserved.derivedKeys, hderived, ← hexact]
  rfl

/-- A comparator's line is in force as it was. -/
theorem SameCapture.purchaseOrderLine? (h : SameCapture receipt t t') {c : Comparator}
    (hc : c ∈ t.comparatorsOf receipt) :
    t'.purchaseOrderLine? c.poLineId = t.purchaseOrderLine? c.poLineId := by
  obtain ⟨hline, hlatest, -⟩ := h.expected c hc
  unfold Tenant.purchaseOrderLine?
  rw [hline]
  cases hfound : t.purchaseOrderLines.find? (·.id = c.poLineId) with
  | none => rfl
  | some line =>
      have hid := (key_of_find? hfound).2
      simp only [Option.map_some, Tenant.effectivePurchaseOrderLine, hid, hlatest]

theorem Tenant.arrivals_eq (poLine : Uuid) : t.arrivals receipt poLine =
    (t.linesOf receipt).filter (·.fields.poLineId = some poLine) := by
  simp only [Tenant.arrivals, Tenant.linesOf, List.filter_filter, Bool.decide_and]
  exact List.filter_congr fun _ _ => Bool.and_comm _ _

theorem SameCapture.derivedKeys (hkeys : t.Integrity) (h : SameCapture receipt t t') :
    t'.derivedKeys receipt = t.derivedKeys receipt := by
  have hlines : (t'.linesOf receipt).flatMap t'.capturedKeys =
      (t.linesOf receipt).flatMap t.capturedKeys := by
    rw [h.lines]
    refine List.flatMap_congr fun line hline => ?_
    refine capturedKeys_congr ?_ (h.conflict line hline) (h.unreadable line hline)
    obtain ⟨hmem, hreceipt⟩ := Tenant.mem_linesOf.mp hline
    cases hpo : line.fields.poLineId with
    | none => rfl
    | some poLine =>
        obtain ⟨c, hc, howner, rfl, -⟩ := hkeys.selected line hmem poLine hpo
        have hbound := Tenant.mem_comparatorsOf.mpr ⟨hc, howner.trans hreceipt⟩
        simp only [Tenant.selection, Option.bind_some, h.purchaseOrderLine? hbound]
  have hquantities : (t'.captureLines receipt).flatMap (t'.quantityKeys receipt) =
      (t.captureLines receipt).flatMap (t.quantityKeys receipt) := by
    have hbound : t'.captureLines receipt = t.captureLines receipt := by
      unfold Tenant.captureLines Tenant.captureComparators
      rw [h.bound]
      exact List.filterMap_congr fun c hc => h.purchaseOrderLine? (List.mem_filter.mp hc).1
    rw [hbound]
    refine List.flatMap_congr fun line _ => ?_
    simp only [Tenant.quantityKeys, Tenant.arrivals_eq, h.lines]
  rw [Tenant.derivedKeys, Tenant.derivedKeys, hlines, hquantities, h.reconciled]

/-- What capture stored and derived does not change while its facts are the same. -/
theorem Tenant.Exact.of_same (hkeys : t.Integrity) (h : SameCapture receipt t t')
    (hexact : t.Exact receipt) : t'.Exact receipt := by
  rw [Tenant.Exact, h.derivedKeys hkeys, ← hexact]
  simp only [Tenant.storedKeys, h.captured]

end

end FleetOps
