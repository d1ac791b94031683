import FleetOps.Receiving.NewUnits
import FleetOps.Receiving.Procured

/-!
# What a receipt selects is active

A comparator and a receipt line name a purchase order line only while it is a line of
the receipt's issued order that no line supersedes.  A correction may keep what is in
force although it has been superseded since, but selects nothing else.  `AdmitsActive` is
the relation between two states that every statement keeps; the requests are sequences
of statements.
-/

namespace FleetOps

open Keys Relation

/-! ## Selections -/

/-- The purchase order line is an active one of the receipt's issued order. -/
def Tenant.Offers (t : Tenant) (receipt poLine : Uuid) : Prop :=
  ∃ header ∈ t.receipts, header.id = receipt ∧ ∃ line ∈ t.purchaseOrderLines, line.id = poLine ∧
    header.poId = some line.poId ∧ t.issued line.poId = true ∧ t.isSuperseded poLine = false

/-- The orders and lines are the same, receipts are added, and what comparators and receipt lines
are added select what is active. -/
structure AdmitsActive (t t' : Tenant) : Prop where
  orders : t'.purchaseOrders = t.purchaseOrders
  orderLines : t'.purchaseOrderLines = t.purchaseOrderLines
  receipts : t.receipts ⊆ t'.receipts
  lines : ∀ line ∈ t'.lines, line ∈ t.lines ∨
    ∀ poLine ∈ line.fields.poLineId, t'.Offers line.receiptId poLine
  comparators : ∀ c ∈ t'.comparators, c ∈ t.comparators ∨ t'.Offers c.receiptId c.poLineId

section

variable {ctx : Context} {header : Receipt} {t t' : Tenant} {receipt : Uuid}

theorem Tenant.Offers.mono {poLine : Uuid} (h : t.Offers receipt poLine)
    (horders : t'.purchaseOrders = t.purchaseOrders)
    (hlines : t'.purchaseOrderLines = t.purchaseOrderLines)
    (hreceipts : t.receipts ⊆ t'.receipts) : t'.Offers receipt poLine := by
  obtain ⟨header, hmem, hid, line, hline, hline', hpo, hissued, hactive⟩ := h
  refine ⟨header, hreceipts hmem, hid, line, hlines ▸ hline, hline', hpo, ?_, ?_⟩
  · rwa [Tenant.issued, horders]
  · rwa [Tenant.isSuperseded, hlines]

/-- What adds neither comparators nor receipt lines. -/
theorem AdmitsActive.of_eq (horders : t'.purchaseOrders = t.purchaseOrders)
    (horderLines : t'.purchaseOrderLines = t.purchaseOrderLines)
    (hreceipts : t.receipts ⊆ t'.receipts) (hlines : t'.lines = t.lines)
    (hcomparators : t'.comparators = t.comparators) : AdmitsActive t t' :=
  ⟨horders, horderLines, hreceipts, fun _ hline => .inl (hlines ▸ hline),
    fun _ hc => .inl (hcomparators ▸ hc)⟩

theorem AdmitsActive.refl (t : Tenant) : AdmitsActive t t :=
  .of_eq rfl rfl (List.Subset.refl _) rfl rfl

theorem AdmitsActive.trans {t'' : Tenant} (h : AdmitsActive t t') (h' : AdmitsActive t' t'') :
    AdmitsActive t t'' where
  orders := h'.orders.trans h.orders
  orderLines := h'.orderLines.trans h.orderLines
  receipts := fun _ hr => h'.receipts (h.receipts hr)
  lines line hline := by
    rcases h'.lines line hline with hline | hnew
    · refine (h.lines line hline).imp_right fun hall poLine hpo => ?_
      exact (hall poLine hpo).mono h'.orders h'.orderLines h'.receipts
    · exact .inr hnew
  comparators c hc := by
    rcases h'.comparators c hc with hc | hnew
    · exact (h.comparators c hc).imp_right fun hsel =>
        hsel.mono h'.orders h'.orderLines h'.receipts
    · exact .inr hnew

/-! ## Statements -/

theorem offers_of_admitComparator {poLine : Uuid} (hmem : header ∈ t.receipts)
    (h : admitComparator t header poLine = .ok ()) : t.Offers header.id poLine := by
  simp only [admitComparator, bind_eq_ok, demand_eq_ok, require_eq_ok, exists_unit] at h
  obtain ⟨effective, hline, hpo, hissued, hactive⟩ := h
  obtain ⟨line, hfound, rfl⟩ := Option.map_eq_some_iff.mp hline
  obtain ⟨hline, hid⟩ := key_of_find? hfound
  have hsame : (t.effectivePurchaseOrderLine line).poId = line.poId ∧
      (t.effectivePurchaseOrderLine line).id = line.id := by
    unfold Tenant.effectivePurchaseOrderLine
    split <;> exact ⟨rfl, rfl⟩
  rw [hsame.1] at hpo hissued
  rw [hsame.2, hid] at hactive
  exact ⟨header, hmem, rfl, line, hline, hid, hpo, hissued, by simpa using hactive⟩

theorem active_of_insertComparator {row : Comparator}
    (h : insertComparator ctx row t = .ok t') : AdmitsActive t t' := by
  simp only [insertComparator, guardComparator, bind_eq_ok, require_eq_ok, pure_eq_ok,
    exists_unit] at h
  obtain ⟨_, ⟨-, header, hlock, -, hadmit, -, -, -, rfl⟩, -, -, -, -, rfl⟩ := h
  obtain ⟨-, hmem, hid⟩ := lockReceivingContext_eq_ok hlock
  have hsel := offers_of_admitComparator hmem hadmit
  refine ⟨rfl, rfl, List.Subset.refl _, fun _ hline => .inl hline, fun c hc => ?_⟩
  rcases List.mem_append.mp hc with hc | hc
  · exact .inl hc
  · obtain rfl := List.mem_singleton.mp hc
    exact .inr (hid ▸ hsel)

theorem active_of_insertLine {row row' : ReceiptLine}
    (h : insertLine ctx row t = .ok (row', t')) : AdmitsActive t t' := by
  obtain ⟨hguard, -, -, -, rfl⟩ := insertLine_eq_ok h
  have hsel : ∀ poLine ∈ row'.fields.poLineId, t.Offers row'.receiptId poLine := by
    obtain ⟨header, item, hguarded⟩ := guardLine_eq_ok hguard
    intro poLine hpo
    rw [hguarded.row_eq] at hpo ⊢
    exact hguarded.header_id ▸
      offers_of_admitComparator hguarded.header_mem (hguarded.selected poLine hpo)
  refine ⟨rfl, rfl, List.Subset.refl _, fun line hline => ?_, fun _ hc => .inl hc⟩
  rcases List.mem_append.mp hline with hline | hline
  · exact .inl hline
  · exact .inr (List.mem_singleton.mp hline ▸ hsel)

/-! ## Requests -/

theorem active_of_bindComparator {poLine : Uuid} {generation : ℕ} {correction : Option Uuid}
    {id : Uuid} (h : Service.bindComparator ctx header poLine generation correction id t = .ok t') :
    AdmitsActive t t' := by
  simp only [Service.bindComparator, bind_eq_ok, Service.ensure_eq_ok, exists_unit] at h
  obtain ⟨-, h⟩ := h
  split at h
  · exact pure_eq_ok.mp h ▸ .refl t
  · simp only [bind_eq_ok, Service.ensure_eq_ok, Service.execute_eq_ok, exists_unit] at h
    obtain ⟨-, _, -, hinsert⟩ := h
    exact active_of_insertComparator hinsert

theorem active_of_bindSelected {values : LineValues} {id : Uuid}
    (h : Service.bindSelected ctx header values id t = .ok t') : AdmitsActive t t' := by
  cases hpo : values.poLineId with
  | none =>
      simp only [Service.bindSelected, hpo, pure_eq_ok] at h
      exact h ▸ .refl t
  | some poLine =>
      simp only [Service.bindSelected, hpo] at h
      exact active_of_bindComparator h

theorem active_of_insertPlainLine {values : LineValues} {conflict : Option Uuid} {keys : LineKeys}
    {line : ReceiptLine}
    (h : Service.insertPlainLine ctx header values conflict keys t = .ok (line, t')) :
    AdmitsActive t t' := by
  simp only [Service.insertPlainLine, bind_eq_ok, Service.execute_eq_ok] at h
  obtain ⟨_, -, hinsert⟩ := h
  exact active_of_insertLine hinsert

theorem active_of_insertObservation {values : LineValues} {keys : LineKeys} {line : ReceiptLine}
    {unreadable : Bool} {conflict : Option Uuid}
    (h : Service.insertObservation ctx header values keys t =
      .ok ((line, t'), unreadable, conflict)) : AdmitsActive t t' := by
  cases hunit : values.unit with
  | none =>
      simp only [Service.insertObservation, hunit, bind_eq_ok, pure_eq_ok, Prod.mk.injEq] at h
      obtain ⟨_, hinsert, rfl, -, -⟩ := h
      exact active_of_insertPlainLine hinsert
  | some unit =>
      simp only [Service.insertObservation, hunit, bind_eq_ok, Service.ensure_eq_ok,
        exists_unit] at h
      obtain ⟨-, h⟩ := h
      cases hknown : Service.knownConflict t unit with
      | none =>
          simp only [hknown, bind_eq_ok, Service.execute_eq_ok, pure_eq_ok, Prod.mk.injEq] at h
          obtain ⟨_, hinsert, rfl, -, -⟩ := h
          obtain ⟨receipt, owner, performer, hreceived⟩ := createReceivedUnit_iff.mp hinsert
          let bundle := (Service.unitArgs header.id values unit keys).bundle receipt owner performer
            ctx.session.now
          have htables : AdmitsActive t { t with tables := t.tables.receive bundle } :=
            .of_eq rfl rfl (List.Subset.refl _) rfl rfl
          exact htables.trans (active_of_insertLine hreceived.recorded)
      | some owner =>
          simp only [hknown, bind_eq_ok, pure_eq_ok, Prod.mk.injEq] at h
          obtain ⟨_, hinsert, rfl, -, -⟩ := h
          exact active_of_insertPlainLine hinsert

theorem Observed.active {keys : List ExceptionKey} (h : Observed receipt keys t t') :
    AdmitsActive t t' := by
  obtain ⟨rows, -, -, rfl⟩ := h
  exact .of_eq rfl rfl (List.Subset.refl _) rfl rfl

theorem active_of_recordLine {values : LineValues} {keys : LineKeys} {line : ReceiptLine}
    (hkeys : t.Integrity) (h : Service.recordLine ctx header values keys t = .ok (line, t')) :
    AdmitsActive t t' := by
  obtain ⟨bound, inserted, hrecorded⟩ := recordLine_eq_ok hkeys h
  have hinserted := active_of_insertObservation hrecorded.observation
  exact ((active_of_bindSelected hrecorded.selection).trans hinserted).trans hrecorded.observed.active

theorem active_of_recordLines {items : List (LineValues × LineKeys)} {lines : List ReceiptLine}
    (hkeys : t.Integrity) (h : Service.recordLines ctx header items t = .ok (lines, t')) :
    AdmitsActive t t' := by
  induction items generalizing t lines with
  | nil =>
      obtain ⟨-, rfl⟩ := Prod.mk.inj (pure_eq_ok.mp h)
      exact .refl t
  | cons item rest ih =>
      simp only [Service.recordLines, bind_eq_ok, pure_eq_ok] at h
      obtain ⟨⟨line, middle⟩, hline, ⟨_, _⟩, hrest, heq⟩ := h
      obtain ⟨-, rfl⟩ := Prod.mk.inj heq
      have hwrites := writes_of_recordLine hkeys hline
      exact (active_of_recordLine hkeys hline).trans (ih (Writes.integrity hwrites hkeys) hrest)

theorem active_of_reconcile {keys : ReconcileKeys}
    (h : Service.reconcile ctx header keys t = .ok t') : AdmitsActive t t' := by
  obtain ⟨row, -, -, hobserved, -⟩ := reconcile_eq_ok h
  have hclosed : AdmitsActive t { t with reconciliations := t.reconciliations ++ [row] } :=
    .of_eq rfl rfl (List.Subset.refl _) rfl rfl
  exact hclosed.trans hobserved.active

theorem active_of_reconcileReceipt {keys : ReconcileKeys} {view : ReceiptView}
    (h : Service.reconcileReceipt ctx receipt keys t = .ok (view, t')) : AdmitsActive t t' := by
  obtain ⟨_, -, hrun⟩ := reconcileReceipt_stages h
  exact active_of_reconcile hrun

theorem active_of_addLine {values : LineValues} {keys : LineKeys} {view : ReceiptView}
    (hkeys : t.Integrity) (h : Service.addLine ctx receipt values keys t = .ok (view, t')) :
    AdmitsActive t t' := by
  obtain ⟨_, _, hadded⟩ := addLine_stages h
  exact active_of_recordLine hkeys hadded.recorded

theorem active_of_createReceipt {values : ReceiptValues} {keys : ReceiptKeys} {view : ReceiptView}
    (hkeys : t.Integrity) (h : Service.createReceipt ctx values keys t = .ok (view, t')) :
    AdmitsActive t t' := by
  obtain ⟨row, header, lines, received, bound, recorded, hcreated⟩ := createReceipt_stages h
  obtain ⟨-, hcaptured, -, -⟩ := bound_of_insertReceipt hkeys hcreated.receipt hcreated.bindings
  have hreceived : AdmitsActive t received := by
    obtain ⟨-, -, rfl⟩ := insertReceipt_eq_ok hcreated.receipt
    exact .of_eq rfl rfl (fun _ hr => List.mem_append_left _ hr) rfl rfl
  have hbound : AdmitsActive received bound :=
    Fallible.foldlM_rel AdmitsActive .refl (fun h h' => h.trans h') hcreated.bindings
      fun _ _ _ _ hrun => active_of_bindComparator hrun
  have hrecorded := (hreceived.trans hbound).trans
    (active_of_recordLines (Writes.integrity hcaptured.writes hkeys) hcreated.lines)
  rcases hcreated.close with rfl | hreconcile
  · exact hrecorded
  · exact hrecorded.trans (active_of_reconcile hreconcile)

theorem active_of_receiveScan {values : LineValues} {reconcile : Bool} {keys : ScanKeys}
    {result : ScanResult} (hkeys : t.Integrity)
    (h : Service.receiveScan ctx receipt values reconcile keys t = .ok (result, t')) :
    AdmitsActive t t' := by
  obtain ⟨_, added, hadd, -, rfl | ⟨_, hclose⟩⟩ := receiveScan_eq_ok h
  · exact active_of_addLine hkeys hadd
  · exact (active_of_addLine hkeys hadd).trans (active_of_reconcileReceipt hclose)

/-! ## Corrections -/

/-- A correction's row keeps the expectation in force, or selects an active one. -/
def Tenant.KeepsOrSelects (t : Tenant) (c : RecordCorrection LineFields) : Prop :=
  (∃ original ∈ t.lines, original.id = c.rootId ∧
    c.fields.poLineId = (t.effectiveReceiptLine original).fields.poLineId) ∨
  ∀ poLine ∈ c.fields.poLineId, t.Offers c.entityId poLine

/-- A reversal does not change what is in force. -/
theorem Tenant.effectiveReceiptLine_reversal {row : RecordCorrection LineFields}
    (hrole : row.role = .reversal) (line : ReceiptLine) :
    ({ t with lineCorrections := t.lineCorrections ++ [row] } : Tenant).effectiveReceiptLine line =
      t.effectiveReceiptLine line := by
  have hsame : Tenant.latestCorrection (t.lineCorrections ++ [row]) line.id =
      Tenant.latestCorrection t.lineCorrections line.id := by
    unfold Tenant.latestCorrection
    rw [filter_append_of_forall]
    intro other hother
    rw [List.mem_singleton.mp hother]
    simp [hrole]
  unfold Tenant.effectiveReceiptLine
  rw [hsame]

theorem keepsOrSelects_of_insert {row corrected : RecordCorrection LineFields} {after : Tenant}
    (hrole : row.role = .corrected)
    (h : insertReceiptLineCorrection ctx row t = .ok (corrected, after)) :
    t.KeepsOrSelects corrected := by
  obtain ⟨hadmitted, -, -, -⟩ := insertReceiptLineCorrection_eq_ok h
  have hsame : corrected.fields = row.fields ∧ corrected.rootId = row.rootId ∧
      corrected.entityId = row.entityId := by
    rw [hadmitted.row]
    exact ⟨rfl, rfl, rfl⟩
  simp only [insertReceiptLineCorrection, guardReceiptLineCorrection, if_pos hrole,
    admitReplacement, bind_eq_ok, demand_eq_ok, require_eq_ok, exists_unit] at h
  obtain ⟨_, ⟨_, -, original, horiginal, header, hlock, -, -,
    ⟨⟨hentity, -⟩, -, -, -, -, hselects⟩, -⟩, -⟩ := h
  obtain ⟨hmem, hid⟩ := key_of_find? horiginal
  obtain ⟨-, hheader, hreceipt⟩ := lockReceivingContext_eq_ok hlock
  rw [Tenant.KeepsOrSelects, hsame.1, hsame.2.1, hsame.2.2]
  by_cases hkept : row.fields.poLineId = (t.effectiveReceiptLine original).fields.poLineId
  · exact .inl ⟨original, hmem, hid, hkept⟩
  · refine .inr fun poLine hpo => ?_
    have hpo : row.fields.poLineId = some poLine := hpo
    have hactive := hselects (by rw [hpo]; rfl) hkept
    simp only [hpo, List.any_eq_true, decide_eq_true_eq] at hactive
    obtain ⟨line, hline, hline', hown, hissued, hsuperseded⟩ := hactive
    obtain rfl := Option.some.inj hline'
    exact ⟨header, hheader, hreceipt.trans hentity.symm, line, hline, rfl, hown.symm, hissued,
      by simpa using hsuperseded⟩

theorem keepsOrSelects_of_pair {original : ReceiptLine} {values : CorrectionValues}
    {replacement : LineFields → LineFields} {keys : PairKeys} {after : Tenant}
    {corrected : RecordCorrection LineFields}
    (h : Service.pair ctx (insertReceiptLineCorrection ctx) original.id original.receiptId
      original.fields original.occurredAt (Tenant.latestCorrection t.lineCorrections original.id)
      values replacement keys t = .ok (corrected, after)) : t.KeepsOrSelects corrected := by
  simp only [Service.pair, Service.assetConstraints, bind_eq_ok, Service.ensure_eq_ok,
    Service.translating_eq_ok, Service.execute_eq_ok, exists_unit] at h
  obtain ⟨-, actor, -, ⟨reversal, middle⟩, hreversal, hcorrected⟩ := h
  obtain ⟨hadmitted, -, -, rfl⟩ := insertReceiptLineCorrection_eq_ok hreversal
  have hrole : reversal.role = .reversal := by rw [hadmitted.row]
  obtain ⟨line, hline, hid, hkept⟩ | hselects := keepsOrSelects_of_insert rfl hcorrected
  · rw [Tenant.effectiveReceiptLine_reversal hrole] at hkept
    exact .inl ⟨line, hline, hid, hkept⟩
  · exact .inr hselects

/-- What a request does to what receipts select. -/
structure StepSelects (t t' : Tenant) : Prop extends AdmitsActive t t' where
  corrections : ∀ c ∈ t'.lineCorrections, c ∈ t.lineCorrections ∨ t.KeepsOrSelects c

theorem AdmitsActive.stepSelects (h : AdmitsActive t t')
    (hcorrections : t'.lineCorrections = t.lineCorrections) : StepSelects t t' :=
  { h with corrections := fun _ hc => .inl (hcorrections ▸ hc) }

/-- A replacement's comparator is bound while it is active. -/
theorem active_of_bindReplacement {corrected : RecordCorrection LineFields} {generation : ℕ}
    {id : Uuid}
    (h : (match corrected.fields.poLineId with
      | none => (pure t : Service Tenant)
      | some poLine => Service.bindComparator ctx header poLine generation (some corrected.id) id t) =
        .ok t') : AdmitsActive t t' := by
  cases hpo : corrected.fields.poLineId with
  | none =>
      simp only [hpo] at h
      exact pure_eq_ok.mp h ▸ .refl t
  | some poLine =>
      simp only [hpo] at h
      exact active_of_bindComparator h

/-- An evaluation adds neither comparators nor lines, nor corrections. -/
theorem active_of_evaluate {reversal corrected : RecordCorrection LineFields}
    {introduced : List Comparator} {keys : EvaluationKeys} {evaluation : Evaluation}
    (hkeys : t.Integrity)
    (hbase : Writes header.id t
      { t with
        lineCorrections := t.lineCorrections ++ [reversal, corrected]
        comparators := t.comparators ++ introduced })
    (h : Service.evaluate ctx header corrected keys
      { t with
        lineCorrections := t.lineCorrections ++ [reversal, corrected]
        comparators := t.comparators ++ introduced } = .ok (evaluation, t')) :
    AdmitsActive
      { t with
        lineCorrections := t.lineCorrections ++ [reversal, corrected]
        comparators := t.comparators ++ introduced } t' ∧
      t'.lineCorrections = t.lineCorrections ++ [reversal, corrected] := by
  obtain ⟨round, hwritten⟩ := Round.evaluate_eq_ok hkeys hbase h
  obtain ⟨rfl, rfl, rfl⟩ := hwritten.inputs
  obtain ⟨rfl, rfl, rfl, rfl⟩ := hwritten.rows
  obtain rfl := hwritten.after_eq
  rw [Round.after_eq]
  exact ⟨.of_eq rfl rfl (List.Subset.refl _) rfl rfl, rfl⟩

/-- The pair, and a comparator that is newly selected. -/
theorem stepSelects_of_correctReceiptLine {root : Uuid} {values : ReceiptLineCorrection}
    {keys : ReceiptCorrectionKeys} {result : RecordCorrection LineFields × Uuid}
    (hkeys : t.Integrity)
    (h : Service.correctReceiptLine ctx receipt root values keys t = .ok (result, t')) :
    StepSelects t t' := by
  obtain ⟨corrected, evaluation, hwrite, -⟩ := correctReceiptLine_writes h
  simp only [Service.writeReceiptCorrection, Service.lock, Service.header, Service.head,
    bind_eq_ok, Service.ensure_eq_ok, Service.fetch_eq_ok, Service.execute_eq_ok, pure_eq_ok,
    exists_unit] at hwrite
  obtain ⟨header, ⟨_, -, hlock⟩, -, original, horiginal, _, ⟨-, rfl⟩, ⟨replaced, paired⟩, hpair,
    hrest⟩ := hwrite
  have hbind : ∃ bound, (match replaced.fields.poLineId with
      | none => (pure paired : Service Tenant)
      | some poLine => Service.bindComparator ctx header poLine
          (values.expectedPoGeneration.getD 0) (some replaced.id) keys.comparatorId paired) =
        .ok bound ∧
      Service.evaluate ctx header replaced keys.evaluation bound = .ok (evaluation, t') := by
    cases hpo : replaced.fields.poLineId with
    | none =>
        simp only [hpo, bind_eq_ok, pure_eq_ok] at hrest
        obtain ⟨bound, rfl, ⟨_, _⟩, hevaluate, heq⟩ := hrest
        simp only [Prod.mk.injEq] at heq
        obtain ⟨rfl, rfl, rfl⟩ := heq
        exact ⟨_, rfl, hevaluate⟩
    | some poLine =>
        simp only [hpo, bind_eq_ok, pure_eq_ok] at hrest
        obtain ⟨bound, hbind, ⟨_, _⟩, hevaluate, heq⟩ := hrest
        simp only [Prod.mk.injEq] at heq
        obtain ⟨rfl, rfl, rfl⟩ := heq
        exact ⟨_, hbind, hevaluate⟩
  obtain ⟨bound, hbind, hevaluate⟩ := hbind
  obtain ⟨-, -, hreceipt⟩ := lockReceivingContext_eq_ok hlock
  have hmem := List.mem_of_find?_eq_some horiginal
  have hroot := List.find?_some horiginal
  simp only [decide_eq_true_eq] at hroot
  obtain ⟨rfl, howner⟩ := hroot
  have hkeeps := keepsOrSelects_of_pair hpair
  obtain ⟨reversal, hpaired, rfl, hwrites⟩ := Round.pair_eq_ok hkeys hmem hpair
  have hactive := active_of_bindReplacement hbind
  obtain ⟨introduced, rfl, -, -, hbound⟩ := Round.bindReplacement_eq_ok hbind
  rw [howner, ← hreceipt] at hwrites
  obtain ⟨hlast, hcorrections⟩ := active_of_evaluate hkeys (hwrites.trans hbound) hevaluate
  have hfirst : AdmitsActive t
      { t with lineCorrections := t.lineCorrections ++ [reversal, replaced] } :=
    .of_eq rfl rfl (List.Subset.refl _) rfl rfl
  refine { (hfirst.trans hactive).trans hlast with corrections := fun c hc => ?_ }
  rw [hcorrections] at hc
  rcases List.mem_append.mp hc with hc | hc
  · exact .inl hc
  right
  rcases List.mem_pair.mp hc with rfl | rfl
  · -- The reversal repeats what was in force.
    rw [hpaired.mirror]
    exact .inl ⟨original, hmem, hpaired.root.symm, rfl⟩
  · exact hkeeps

theorem active_of_correctProcurement {po root : Uuid} {values : ProcurementCorrection}
    {keys : PairKeys} {result : RecordCorrection PurchaseOrderFields}
    (h : Service.correctProcurement ctx po root values keys t = .ok (result, t')) :
    AdmitsActive t t' := by
  obtain ⟨_, _, _, _, hpair⟩ := correctProcurement_stages h
  obtain ⟨-, -, -, rfl⟩ := insertPurchaseOrderLineCorrection_eq_ok hpair.reversal
  obtain ⟨-, -, -, rfl⟩ := insertPurchaseOrderLineCorrection_eq_ok hpair.corrected
  exact .of_eq rfl rfl (List.Subset.refl _) rfl rfl

/-- A request of receiving selects what is active. -/
theorem step_selects {posixSpace : Char → Bool} {request : Context × ReceivingCall}
    (hkeys : t.Integrity) (hrun : Tenant.step posixSpace request t = .ok t')
    (hcall : ∀ catalog, request.2 ≠ .procure catalog) : StepSelects t t' := by
  have hunits : KeptByUnits fun _ => True := fun _ _ _ _ _ _ _ _ _ _ => trivial
  obtain ⟨ctx, call⟩ := request
  cases call with
  | createReceipt values keys =>
      simp only [Tenant.step, bind_eq_ok, pure_eq_ok] at hrun
      obtain ⟨⟨_, _⟩, hrun, rfl⟩ := hrun
      exact (active_of_createReceipt hkeys hrun).stepSelects
        (createReceipt_kept hunits hkeys hrun).lineCorrections
  | addLine receiptId values keys =>
      simp only [Tenant.step, bind_eq_ok, pure_eq_ok] at hrun
      obtain ⟨⟨_, _⟩, hrun, rfl⟩ := hrun
      exact (active_of_addLine hkeys hrun).stepSelects
        (addLine_kept hunits hkeys hrun).lineCorrections
  | receiveScan receiptId values reconcile keys =>
      simp only [Tenant.step, bind_eq_ok, pure_eq_ok] at hrun
      obtain ⟨⟨_, _⟩, hrun, rfl⟩ := hrun
      exact (active_of_receiveScan hkeys hrun).stepSelects
        (receiveScan_kept hunits hkeys hrun).lineCorrections
  | reconcileReceipt receiptId keys =>
      simp only [Tenant.step, bind_eq_ok, pure_eq_ok] at hrun
      obtain ⟨⟨_, _⟩, hrun, rfl⟩ := hrun
      have hkept : Kept (fun _ => True) t _ := reconcileReceipt_kept hrun
      exact (active_of_reconcileReceipt hrun).stepSelects hkept.lineCorrections
  | correctProcurement poId rootId values keys =>
      simp only [Tenant.step, bind_eq_ok, pure_eq_ok] at hrun
      obtain ⟨⟨_, _⟩, hrun, rfl⟩ := hrun
      exact AdmitsActive.stepSelects (active_of_correctProcurement hrun)
        (correctProcurement_pairAppended hrun).2.1
  | correctReceiptLine receiptId rootId values keys =>
      simp only [Tenant.step, bind_eq_ok, pure_eq_ok] at hrun
      obtain ⟨⟨_, _⟩, hrun, rfl⟩ := hrun
      exact stepSelects_of_correctReceiptLine hkeys hrun
  | transitionException exceptionId values eventId =>
      simp only [Tenant.step, bind_eq_ok, pure_eq_ok] at hrun
      obtain ⟨⟨event, _⟩, hrun, rfl⟩ := hrun
      obtain ⟨_, htransition⟩ := transitionException_eq_ok hrun
      obtain rfl := htransition.after_eq
      exact AdmitsActive.stepSelects (.of_eq rfl rfl (List.Subset.refl _) rfl rfl) rfl
  | changeAsset call =>
      simp only [Tenant.step, Service.assetConstraints, bind_eq_ok, Service.translating_eq_ok,
        Service.execute_eq_ok, pure_eq_ok] at hrun
      obtain ⟨tables, -, rfl⟩ := hrun
      exact AdmitsActive.stepSelects (.of_eq rfl rfl (List.Subset.refl _) rfl rfl) rfl
  | procure catalog => exact absurd rfl (hcall catalog)

end

/-! ## Beside the authoring -/

/-- The purchase order line is an active one of the receipt's issued order, as it is authored. -/
def Site.Expects (site : Site) (receipt poLine : Uuid) : Prop :=
  ∃ header ∈ site.tenant.receipts, header.id = receipt ∧ ∃ line ∈ site.procurement.lines,
    line.id = poLine ∧ header.poId = some line.poId ∧
      Procurement.HasOrder site.procurement.orders line.poId .issued ∧
      site.procurement.superseded line = false

/-- What receiving takes for active is active. -/
theorem Site.Sound.expects {site : Site} (h : site.Sound) {receipt poLine : Uuid}
    (hoffers : site.tenant.Offers receipt poLine) : site.Expects receipt poLine := by
  obtain ⟨header, hheader, hreceipt, line, hline, hid, hpo, hissued, hactive⟩ := hoffers
  rw [h.lines] at hline
  obtain ⟨row, hrow, rfl⟩ := List.mem_map.mp hline
  refine ⟨header, hheader, hreceipt, row, hrow, hid, hpo, ?_, ?_⟩
  · simp only [Tenant.issued, h.orders, Procurement.orderList, List.any_map, List.any_eq_true,
      Function.comp_apply, Bool.and_eq_true, beq_iff_eq] at hissued
    obtain ⟨order, horder, hid, hstatus⟩ := hissued
    exact ⟨order, horder, hid, hstatus⟩
  · rw [h.authored.superseded_iff hrow]
    intro other hother hnames
    simp only [Tenant.isSuperseded, h.lines, Procurement.lineList, List.any_map, List.any_eq_false,
      Function.comp_apply, beq_iff_eq] at hactive
    exact hactive other (Procurement.mem_versions.mp hother).1 (hid ▸ hnames)

/-- What a step of the site adds to what receipts select. -/
structure ExpectationsAdmitted (before after : Site) : Prop where
  lines : ∀ line ∈ after.tenant.lines, line ∉ before.tenant.lines →
    after.procurement = before.procurement ∧
      ∀ poLine ∈ line.fields.poLineId, after.Expects line.receiptId poLine
  comparators : ∀ c ∈ after.tenant.comparators, c ∉ before.tenant.comparators →
    after.procurement = before.procurement ∧ after.Expects c.receiptId c.poLineId
  corrections : ∀ c ∈ after.tenant.lineCorrections, c ∉ before.tenant.lineCorrections →
    after.procurement = before.procurement ∧
      ((∃ original ∈ before.tenant.lines, original.id = c.rootId ∧
        c.fields.poLineId = (before.tenant.effectiveReceiptLine original).fields.poLineId) ∨
      ∀ poLine ∈ c.fields.poLineId, before.Expects c.entityId poLine)

theorem ExpectationsAdmitted.of_eq {before after : Site}
    (hlines : after.tenant.lines = before.tenant.lines)
    (hcomparators : after.tenant.comparators = before.tenant.comparators)
    (hcorrections : after.tenant.lineCorrections = before.tenant.lineCorrections) :
    ExpectationsAdmitted before after :=
  ⟨fun _ hrow hnew => absurd (hlines ▸ hrow) hnew,
    fun _ hrow hnew => absurd (hcomparators ▸ hrow) hnew,
    fun _ hrow hnew => absurd (hcorrections ▸ hrow) hnew⟩

theorem Site.Sound.admission {posixSpace : Char → Bool} {call : SiteCall} {site next : Site}
    (h : site.Sound) (hrun : Site.step posixSpace call site = .ok next) :
    ExpectationsAdmitted site next := by
  have hnext := (h.step hrun).1
  cases call with
  | author request =>
      obtain ⟨ctx, call⟩ := request
      simp only [Site.step, bind_eq_ok, pure_eq_ok] at hrun
      obtain ⟨tables, -, rfl⟩ := hrun
      exact .of_eq rfl rfl rfl
  | receive request =>
      obtain ⟨ctx, call⟩ := request
      simp only [Site.step, bind_eq_ok, pure_eq_ok] at hrun
      obtain ⟨tenant, hrun, rfl⟩ := hrun
      by_cases hcall : ∃ catalog, call = .procure catalog
      · obtain ⟨catalog, rfl⟩ := hcall
        simp only [ReceivingCall.beside, Tenant.step, bind_eq_ok, Service.ensure_eq_ok, pure_eq_ok,
          exists_unit] at hrun
        obtain ⟨-, rfl⟩ := hrun
        exact .of_eq rfl rfl rfl
      · have hselects : StepSelects site.tenant tenant := by
          refine step_selects h.integrity hrun fun catalog heq => hcall ?_
          cases call with
          | procure catalog => exact ⟨catalog, rfl⟩
          | _ => exact absurd heq (by simp [ReceivingCall.beside])
        refine ⟨fun line hline hnew => ⟨rfl, fun poLine hpo => ?_⟩, fun c hc hnew => ⟨rfl, ?_⟩,
          fun c hc hnew => ⟨rfl, ?_⟩⟩
        · exact hnext.expects (((hselects.lines line hline).resolve_left hnew) poLine hpo)
        · exact hnext.expects ((hselects.comparators c hc).resolve_left hnew)
        · refine ((hselects.corrections c hc).resolve_left hnew).imp_right fun hall poLine hpo => ?_
          exact h.expects (hall poLine hpo)

/-- What a row of a run was admitted by. -/
theorem admittedBy {ρ : Type} (rows : Site → List ρ) {posixSpace : Char → Bool} {orgId : Uuid}
    {items : List Item} {vendors : List Uuid} {calls : List SiteCall}
    (hnone : rows (Site.opened orgId items vendors) = []) {row : ρ}
    (hrow : row ∈ rows (Machine.run (Site.step posixSpace) calls
      (Site.opened orgId items vendors))) :
    ∃ commit ∈ Machine.commits (Site.step posixSpace) calls (Site.opened orgId items vendors),
      (row ∉ rows commit.before ∧ row ∈ rows commit.after) ∧
        ExpectationsAdmitted commit.before commit.after := by
  have hstart : row ∉ rows (Site.opened orgId items vendors) := by
    rw [hnone]
    exact List.not_mem_nil
  obtain ⟨commit, hcommit, hbrought⟩ :=
    Machine.exists_commit (p := fun site => row ∈ rows site) hstart hrow
  obtain ⟨hsound, -, hstep⟩ := Machine.commits_forall (Site.step posixSpace) Site.Sound
    (fun _ => True) (fun _ _ _ _ hstep hbefore => (hbefore.step hstep).1) calls
    (Site.opened orgId items vendors) (fun _ _ => trivial)
    (Site.opened_sound orgId items vendors) commit hcommit
  exact ⟨commit, hcommit, hbrought, hsound.admission hstep⟩

/-- In every run of authoring and receiving side by side: what a receipt line or a comparator names
was, when it was admitted, an active line of the receipt's issued order; and every row of a
correction either keeps the expectation in force or names one that was active. -/
theorem activeExpectations (posixSpace : Char → Bool) (orgId : Uuid) (items : List Item)
    (vendors : List Uuid) (calls : List SiteCall) :
    let start := Site.opened orgId items vendors
    let tenant := (Machine.run (Site.step posixSpace) calls start).tenant
    (∀ line ∈ tenant.lines, ∃ commit ∈ Machine.commits (Site.step posixSpace) calls start,
      (line ∉ commit.before.tenant.lines ∧ line ∈ commit.after.tenant.lines) ∧
        commit.after.procurement = commit.before.procurement ∧
        ∀ poLine ∈ line.fields.poLineId, commit.after.Expects line.receiptId poLine) ∧
    (∀ c ∈ tenant.comparators, ∃ commit ∈ Machine.commits (Site.step posixSpace) calls start,
      (c ∉ commit.before.tenant.comparators ∧ c ∈ commit.after.tenant.comparators) ∧
        commit.after.procurement = commit.before.procurement ∧
        commit.after.Expects c.receiptId c.poLineId) ∧
    ∀ c ∈ tenant.lineCorrections, ∃ commit ∈ Machine.commits (Site.step posixSpace) calls start,
      (c ∉ commit.before.tenant.lineCorrections ∧ c ∈ commit.after.tenant.lineCorrections) ∧
        commit.after.procurement = commit.before.procurement ∧
        ((∃ original ∈ commit.before.tenant.lines, original.id = c.rootId ∧
          c.fields.poLineId =
            (commit.before.tenant.effectiveReceiptLine original).fields.poLineId) ∨
        ∀ poLine ∈ c.fields.poLineId, commit.before.Expects c.entityId poLine) := by
  intro start tenant
  refine ⟨fun line hline => ?_, fun c hc => ?_, fun c hc => ?_⟩
  · obtain ⟨commit, hcommit, hbrought, hadmission⟩ :=
      admittedBy (fun site => site.tenant.lines) rfl hline
    exact ⟨commit, hcommit, hbrought, hadmission.lines line hbrought.2 hbrought.1⟩
  · obtain ⟨commit, hcommit, hbrought, hadmission⟩ :=
      admittedBy (fun site => site.tenant.comparators) rfl hc
    exact ⟨commit, hcommit, hbrought, hadmission.comparators c hbrought.2 hbrought.1⟩
  · obtain ⟨commit, hcommit, hbrought, hadmission⟩ :=
      admittedBy (fun site => site.tenant.lineCorrections) rfl hc
    exact ⟨commit, hcommit, hbrought, hadmission.corrections c hbrought.2 hbrought.1⟩

end FleetOps
