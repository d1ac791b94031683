import FleetOps.Receiving.Capture

/-!
# Steps of a run, seen from one receipt

`step_on` says what a request can do to a receipt: nothing that the receipt
sees, a piece of its capture, a round of correction, or one event on one of its
exceptions.  Invariants of a receipt are proved by these four cases.
-/

namespace FleetOps

open Relation Keys

/-- What a request did to a receipt. -/
inductive StepOn (posixSpace : Char → Bool) (receipt : Uuid) (t t' : Tenant) : Prop
  | same (h : SameReceipt receipt t t')
  | captured (h : Captured receipt t t')
  | corrected (round : Round) (hspace : round.ctx.posixSpace = posixSpace)
      (hreceipt : round.receipt = receipt) (hbefore : round.before = t) (hvalid : round.Valid)
      (hafter : t' = round.after) (hwrites : Writes receipt t t')
  | transitioned (event : ExceptionEvent) (hmanual : event.evaluationId = none)
      (ht' : t' = { t with events := t.events ++ [event] }.advance event)
      (hwrote : Wrote receipt t t')

section

variable {ctx : Context} {t t' : Tenant} {header : Receipt} {receipt : Uuid}

/-! ## Capture -/

theorem recordLines_captured {items : List (LineValues × LineKeys)} {lines : List ReceiptLine}
    (hkeys : t.Integrity) (hopen : ¬t.reconciled header.id)
    (h : Service.recordLines ctx header items t = .ok (lines, t')) :
    Captured header.id t t' ∧ ¬t'.reconciled header.id := by
  induction items generalizing t lines with
  | nil =>
      obtain ⟨-, rfl⟩ := Prod.mk.inj (pure_eq_ok.mp h)
      exact ⟨.refl hopen, hopen⟩
  | cons item rest ih =>
      simp only [Service.recordLines, bind_eq_ok, pure_eq_ok] at h
      obtain ⟨⟨line, middle⟩, hline, ⟨_, _⟩, hrest, heq⟩ := h
      obtain ⟨-, rfl⟩ := Prod.mk.inj heq
      obtain ⟨hcaptured, hstill⟩ := recordLine_captured hkeys hopen hline
      obtain ⟨hmore, hlast⟩ := ih (Writes.integrity hcaptured.writes hkeys) hstill hrest
      exact ⟨hcaptured.trans hmore, hlast⟩

/-- A receipt without a row has nothing else. -/
theorem Tenant.Integrity.exact_of_not_received (hkeys : t.Integrity) {receipt : Uuid}
    (hnew : ¬t.Received receipt) :
    ¬t.reconciled receipt ∧ t.Exact receipt := by
  have hopen : ¬t.reconciled receipt := by
    intro hclosed
    simp only [Tenant.reconciled, List.any_eq_true, decide_eq_true_eq] at hclosed
    obtain ⟨row, hrow, rfl⟩ := hclosed
    exact hnew (hkeys.reconciliationReceipt row hrow)
  have hlines : t.linesOf receipt = [] := List.filter_eq_nil_iff.mpr fun line hline heq =>
    hnew (of_decide_eq_true heq ▸ hkeys.lineReceipt line hline)
  have hexceptions : t.exceptionsOf receipt = [] := List.filter_eq_nil_iff.mpr fun o ho heq =>
    hnew (of_decide_eq_true heq ▸ hkeys.exceptionReceipt o ho)
  refine ⟨hopen, ?_⟩
  rw [Tenant.Exact, Tenant.derivedKeys_of_open hopen, Tenant.storedKeys, hlines, hexceptions]
  rfl

/-- A new receipt with its comparators, of which nothing is derived yet. -/
theorem bound_of_insertReceipt {row : Receipt} {received bound : Tenant}
    {bindings : List (Uuid × ℕ)} {ids : Uuid → Uuid} (hkeys : t.Integrity)
    (hreceipt : insertReceipt ctx row t = .ok (header, received))
    (hbind : bindings.foldlM (fun tenant binding => Service.bindComparator ctx header binding.1
      binding.2 none (ids binding.1) tenant) received = .ok bound) :
    header.id = row.id ∧ Captured header.id t bound ∧ ¬bound.reconciled header.id ∧
      bound.Exact header.id := by
  have hwrote := wrote_of_insertReceipt hreceipt
  obtain ⟨hheader, hnew, rfl⟩ := insertReceipt_eq_ok hreceipt
  have hid : header.id = row.id := hheader ▸ rfl
  rw [← hid] at hwrote hnew
  have hempty : ¬t.Received header.id := fun ⟨row, hrow, heq⟩ => hnew row hrow heq
  obtain ⟨hopen, hexact⟩ := hkeys.exact_of_not_received hempty
  have hbound : Bound header.id { t with receipts := t.receipts ++ [header] } bound ∧
      Writes header.id { t with receipts := t.receipts ++ [header] } bound :=
    Fallible.foldlM_rel (fun a b => Bound header.id a b ∧ Writes header.id a b)
      (fun s => ⟨.refl header.id s, .refl⟩) (fun h h' => ⟨h.1.trans h'.1, h.2.trans h'.2⟩) hbind
      fun _ _ _ _ hrun => bound_of_bindComparator hrun
  have hbounds := hbound.1.exact hopen hexact
  exact ⟨hid, ⟨hopen, .trans (.single hwrote) hbound.2, hbound.1.lineCorrections, fun _ => hbounds⟩,
    hbound.1.reconciled ▸ hopen, hbounds⟩

/-- The stages of `create_receipt`: the receipt, its comparators, its lines, and its end if it is
reconciled at once. -/
structure ReceiptCreated (ctx : Context) (values : ReceiptValues) (keys : ReceiptKeys)
    (row header : Receipt) (lines : List ReceiptLine) (t received bound recorded t' : Tenant) :
    Prop where
  row_id : row.id = keys.receiptId
  receipt : insertReceipt ctx row t = .ok (header, received)
  bindings : (Service.receiptBindings values).foldlM (fun tenant binding =>
    Service.bindComparator ctx header binding.1 binding.2 none (keys.comparatorId binding.1) tenant)
      received = .ok bound
  lines : Service.recordLines ctx header
    (values.lines.zipIdx.map fun entry => (entry.1, keys.line entry.2)) bound = .ok (lines, recorded)
  close : t' = recorded ∨ Service.reconcile ctx header keys.reconcile recorded = .ok t'

theorem createReceipt_stages {values : ReceiptValues} {keys : ReceiptKeys} {view : ReceiptView}
    (h : Service.createReceipt ctx values keys t = .ok (view, t')) :
    ∃ row header lines received bound recorded,
      ReceiptCreated ctx values keys row header lines t received bound recorded t' := by
  simp only [Service.createReceipt, Service.constraints, Service.translating_eq_ok, bind_eq_ok,
    Service.execute_eq_ok] at h
  obtain ⟨actor, -, ⟨header, received⟩, hreceipt, bound, hbind, ⟨lines, recorded⟩, hlines, h⟩ := h
  refine ⟨_, header, lines, received, bound, recorded, rfl, hreceipt, hbind, hlines, ?_⟩
  cases hrec : values.reconcile <;>
    simp only [hrec, if_true, if_false, Bool.false_eq_true, bind_eq_ok, pure_eq_ok, exists_unit,
      Prod.mk.injEq] at h
  · obtain ⟨_, rfl, -, _, -, -, -, rfl⟩ := h
    exact .inl rfl
  · obtain ⟨_, hrun, -, _, -, -, -, rfl⟩ := h
    exact .inr hrun

/-- `create_receipt`. -/
theorem createReceipt_eq_ok {values : ReceiptValues} {keys : ReceiptKeys} {view : ReceiptView}
    (hkeys : t.Integrity)
    (h : Service.createReceipt ctx values keys t = .ok (view, t')) :
    Captured keys.receiptId t t' := by
  obtain ⟨row, header, lines, received, bound, recorded, hcreated⟩ := createReceipt_stages h
  obtain ⟨hid, hbound, hstill, -⟩ := bound_of_insertReceipt hkeys hcreated.receipt hcreated.bindings
  obtain ⟨hmore, -⟩ :=
    recordLines_captured (Writes.integrity hbound.writes hkeys) hstill hcreated.lines
  have hcaptured := hbound.trans hmore
  rw [← hcreated.row_id, ← hid]
  rcases hcreated.close with rfl | hreconcile
  · exact hcaptured
  · exact hcaptured.trans
      (reconcile_captured (Writes.integrity hcaptured.writes hkeys) hreconcile)

/-- `_lock` gives the receipt's own row. -/
theorem lock_eq_ok {receiptId : Uuid} (h : Service.lock ctx t receiptId = .ok header) :
    header.id = receiptId := by
  simp only [Service.lock, bind_eq_ok, Service.execute_eq_ok] at h
  obtain ⟨_, -, hlock⟩ := h
  exact (lockReceivingContext_eq_ok hlock).2.2

/-- The stages of `add_line`: a line of a receipt that is open, and the listing afterwards. -/
structure LineAdded (ctx : Context) (receipt : Uuid) (values : LineValues) (keys : LineKeys)
    (header : Receipt) (line : ReceiptLine) (view : ReceiptView) (t t' : Tenant) : Prop where
  header_id : header.id = receipt
  opened : ¬t.reconciled receipt
  recorded : Service.recordLine ctx header values keys t = .ok (line, t')
  listing : Service.getReceipt ctx t' receipt = .ok view

theorem addLine_stages {values : LineValues} {keys : LineKeys} {view : ReceiptView}
    (h : Service.addLine ctx receipt values keys t = .ok (view, t')) :
    ∃ header line, LineAdded ctx receipt values keys header line view t t' := by
  simp only [Service.addLine, Service.constraints, Service.translating_eq_ok, bind_eq_ok,
    pure_eq_ok, Service.requireOpen, Service.ensure_eq_ok, exists_unit] at h
  obtain ⟨header, hlock, hopen, ⟨line, recorded⟩, hline, -, _, hview, -, heq⟩ := h
  obtain ⟨rfl, rfl⟩ := Prod.mk.inj heq
  exact ⟨header, line, lock_eq_ok hlock, hopen, hline, hview⟩

/-- `add_line`. -/
theorem addLine_eq_ok {values : LineValues} {keys : LineKeys} {view : ReceiptView}
    (hkeys : t.Integrity) (h : Service.addLine ctx receipt values keys t = .ok (view, t')) :
    Captured receipt t t' := by
  obtain ⟨header, line, hadded⟩ := addLine_stages h
  obtain rfl := hadded.header_id
  exact (recordLine_captured hkeys hadded.opened hadded.recorded).1

/-- `reconcile_receipt` is `_reconcile` under the receipt's lock. -/
theorem reconcileReceipt_stages {keys : ReconcileKeys} {view : ReceiptView}
    (h : Service.reconcileReceipt ctx receipt keys t = .ok (view, t')) :
    ∃ header : Receipt, header.id = receipt ∧ Service.reconcile ctx header keys t = .ok t' := by
  simp only [Service.reconcileReceipt, Service.constraints, Service.translating_eq_ok, bind_eq_ok,
    pure_eq_ok, exists_unit] at h
  obtain ⟨header, hlock, _, hrun, -, _, -, heq⟩ := h
  obtain ⟨-, rfl⟩ := Prod.mk.inj heq
  exact ⟨header, lock_eq_ok hlock, hrun⟩

/-- `reconcile_receipt`. -/
theorem reconcileReceipt_eq_ok {keys : ReconcileKeys} {view : ReceiptView} (hkeys : t.Integrity)
    (h : Service.reconcileReceipt ctx receipt keys t = .ok (view, t')) :
    Captured receipt t t' := by
  obtain ⟨header, rfl, hrun⟩ := reconcileReceipt_stages h
  exact reconcile_captured hkeys hrun

/-- A scan adds its line, and closes the population if it was asked to. -/
theorem receiveScan_eq_ok {values : LineValues} {reconcile : Bool} {keys : ScanKeys}
    {result : ScanResult}
    (h : Service.receiveScan ctx receipt values reconcile keys t = .ok (result, t')) :
    ∃ view added, Service.addLine ctx receipt values keys.line t = .ok (view, added) ∧
      result = ⟨view.header.id, view.lines.getLast?.map ReceiptLine.id⟩ ∧
      (t' = added ∨
        ∃ closed, Service.reconcileReceipt ctx receipt keys.reconcile added = .ok (closed, t')) := by
  cases reconcile <;>
    simp only [Service.receiveScan, Bool.false_eq_true, if_false, if_true, bind_eq_ok, pure_eq_ok,
      Prod.mk.injEq] at h
  · obtain ⟨⟨view, added⟩, hadd, _, rfl, rfl, rfl⟩ := h
    exact ⟨view, added, hadd, rfl, .inl rfl⟩
  · obtain ⟨⟨view, added⟩, hadd, ⟨closed, _⟩, hclose, _, rfl, rfl, rfl⟩ := h
    exact ⟨view, added, hadd, rfl, .inr ⟨closed, hclose⟩⟩

theorem receiveScan_captured {values : LineValues} {reconcile : Bool} {keys : ScanKeys}
    {result : ScanResult} (hkeys : t.Integrity)
    (h : Service.receiveScan ctx receipt values reconcile keys t = .ok (result, t')) :
    Captured receipt t t' := by
  obtain ⟨_, added, hadd, -, rfl | ⟨_, hclose⟩⟩ := receiveScan_eq_ok h
  · exact addLine_eq_ok hkeys hadd
  · have hadded := addLine_eq_ok hkeys hadd
    exact hadded.trans (reconcileReceipt_eq_ok (Writes.integrity hadded.writes hkeys) hclose)

/-! ## Corrections and transitions -/

/-- The pair of `correct_procurement`, as its two inserts are asked for it. -/
structure ProcurementPair (ctx : Context) (root : Uuid) (values : ProcurementCorrection)
    (row row' reversal corrected : RecordCorrection PurchaseOrderFields) (t middle t' : Tenant) :
    Prop where
  roles : row.role = .reversal ∧ row'.role = .corrected
  roots : row.rootId = root ∧ row'.rootId = root
  generations : row.generation = values.expectedGeneration + 1 ∧
    row'.generation = values.expectedGeneration + 1
  reversal : insertPurchaseOrderLineCorrection ctx row t = .ok (reversal, middle)
  corrected : insertPurchaseOrderLineCorrection ctx row' middle = .ok (corrected, t')

theorem correctProcurement_stages {po root : Uuid} {values : ProcurementCorrection}
    {keys : PairKeys} {corrected : RecordCorrection PurchaseOrderFields}
    (h : Service.correctProcurement ctx po root values keys t = .ok (corrected, t')) :
    ∃ row row' reversal middle,
      ProcurementPair ctx root values row row' reversal corrected t middle t' := by
  simp only [Service.correctProcurement, Service.pair, Service.assetConstraints, bind_eq_ok,
    Service.translating_eq_ok, Service.execute_eq_ok, pure_eq_ok, exists_unit] at h
  obtain ⟨_, -, -, _, -, -, _, -, ⟨_, paired⟩,
    ⟨-, _, -, ⟨reversal, middle⟩, hreversal, hcorrected⟩, -, heq⟩ := h
  obtain ⟨rfl, rfl⟩ := Prod.mk.inj heq
  exact ⟨_, _, reversal, middle, ⟨rfl, rfl⟩, ⟨rfl, rfl⟩, ⟨rfl, rfl⟩, hreversal, hcorrected⟩

/-- `correct_procurement` writes for every receipt what none of them sees. -/
theorem correctProcurement_eq_ok (receipt : Uuid) {po root : Uuid} {values : ProcurementCorrection}
    {keys : PairKeys} {corrected : RecordCorrection PurchaseOrderFields}
    (h : Service.correctProcurement ctx po root values keys t = .ok (corrected, t')) :
    Writes receipt t t' := by
  obtain ⟨_, _, _, _, hpair⟩ := correctProcurement_stages h
  exact .tail (.single (wrote_of_insertPurchaseOrderLineCorrection hpair.reversal))
    (wrote_of_insertPurchaseOrderLineCorrection hpair.corrected)

/-- What `correct_receipt_line` writes has passed its checks. -/
theorem correctReceiptLine_writes {root : Uuid} {values : ReceiptLineCorrection}
    {keys : ReceiptCorrectionKeys} {result : RecordCorrection LineFields × Uuid}
    (h : Service.correctReceiptLine ctx receipt root values keys t = .ok (result, t')) :
    ∃ corrected evaluation,
      Service.writeReceiptCorrection ctx receipt root values keys t = .ok
        (corrected, evaluation, t') ∧
      assertReceiptCorrectionComplete receipt corrected.pairId t' = .ok () ∧
      result = (corrected, evaluation.id) := by
  simp only [Service.correctReceiptLine, Service.assetConstraints, bind_eq_ok,
    Service.translating_eq_ok, Service.execute_eq_ok, pure_eq_ok, exists_unit] at h
  obtain ⟨⟨_, _, _⟩, ⟨⟨corrected, evaluation, _⟩, hwrite, hassert, hsame⟩, -, heq⟩ := h
  simp only [Prod.mk.injEq] at hsame heq
  obtain ⟨rfl, rfl, rfl⟩ := hsame
  obtain ⟨rfl, rfl⟩ := heq
  exact ⟨corrected, evaluation, hwrite, hassert, rfl⟩

/-- `correct_receipt_line` writes one round. -/
theorem correctReceiptLine_eq_ok {root : Uuid} {values : ReceiptLineCorrection}
    {keys : ReceiptCorrectionKeys} {result : RecordCorrection LineFields × Uuid}
    (hkeys : t.Integrity)
    (h : Service.correctReceiptLine ctx receipt root values keys t = .ok (result, t')) :
    ∃ round : Round, round.ctx = ctx ∧ round.receipt = receipt ∧ round.before = t ∧
      round.Valid ∧ t' = round.after ∧ Writes receipt t t' := by
  obtain ⟨_, _, hwrite, -⟩ := correctReceiptLine_writes h
  obtain ⟨round, hwritten⟩ := Round.writeReceiptCorrection_eq_ok hkeys hwrite
  obtain ⟨hctx, hreceipt, hbefore⟩ := hwritten.inputs
  exact ⟨round, hctx, hreceipt, hbefore, hwritten.valid, hwritten.after_eq, hwritten.writes⟩

/-- An event of nobody's evaluation, appended to an exception's. -/
structure ManualTransition (exception : Uuid) (values : Service.WorkflowValues)
    (o : ReceivingException) (event : ExceptionEvent) (t t' : Tenant) : Prop where
  exception_mem : o ∈ t.exceptions
  exception_id : o.id = exception
  event_of : event.exceptionId = exception
  manual : event.evaluationId = none
  edge : event.fromStatus = values.expectedStatus ∧ event.toStatus = values.toStatus
  after_eq : t' = { t with events := t.events ++ [event] }.advance event
  wrote : Wrote o.receiptId t t'

/-- `transition_exception` records one event. -/
theorem transitionException_eq_ok {exception : Uuid} {values : Service.WorkflowValues} {id : Uuid}
    {event : ExceptionEvent}
    (h : Service.transitionException ctx exception values id t = .ok (event, t')) :
    ∃ o, ManualTransition exception values o event t t' := by
  simp only [Service.transitionException, Service.assetConstraints, bind_eq_ok,
    Service.translating_eq_ok, Service.execute_eq_ok, exists_unit] at h
  obtain ⟨-, hrun⟩ := h
  have hrecorded := transitionExceptionSql_eq_ok hrun
  obtain ⟨o, ho, hid⟩ := hrecorded.observed
  have hevent := hrecorded.event_eq
  exact ⟨o, ho, hid, hevent ▸ rfl, hevent ▸ rfl, ⟨hevent ▸ rfl, hevent ▸ rfl⟩, hrecorded.after_eq,
    hrecorded.wrote ho hid⟩

/-! ## Steps -/

/-- Statements that are about every receipt are about none in particular. -/
theorem SameReceipt.of_writes (hkeys : t.Integrity) (h : ∀ scope, Writes scope t t') :
    SameReceipt receipt t t' :=
  Writes.sameReceipt (h (receipt + 1)) hkeys (Nat.succ_ne_self receipt).symm

/-- What a request does to a receipt. -/
theorem step_on {posixSpace : Char → Bool} {request : Context × ReceivingCall} (receipt : Uuid)
    (hkeys : t.Integrity) (h : Tenant.step posixSpace request t = .ok t') :
    t'.Integrity ∧ StepOn posixSpace receipt t t' := by
  have hscoped : ∀ {scope : Uuid}, Writes scope t t' →
      (scope = receipt → StepOn posixSpace receipt t t') →
      t'.Integrity ∧ StepOn posixSpace receipt t t' := fun {scope} hwrites hown =>
    ⟨Writes.integrity hwrites hkeys,
      if heq : scope = receipt then hown heq
      else .same (Writes.sameReceipt hwrites hkeys (Ne.symm heq))⟩
  obtain ⟨ctx, call⟩ := request
  cases call with
  | createReceipt values keys =>
      simp only [Tenant.step, bind_eq_ok, pure_eq_ok] at h
      obtain ⟨⟨_, _⟩, hrun, rfl⟩ := h
      have hcaptured := createReceipt_eq_ok hkeys hrun
      exact hscoped hcaptured.writes fun heq => heq ▸ .captured hcaptured
  | addLine receiptId values keys =>
      simp only [Tenant.step, bind_eq_ok, pure_eq_ok] at h
      obtain ⟨⟨_, _⟩, hrun, rfl⟩ := h
      have hcaptured := addLine_eq_ok hkeys hrun
      exact hscoped hcaptured.writes fun heq => heq ▸ .captured hcaptured
  | reconcileReceipt receiptId keys =>
      simp only [Tenant.step, bind_eq_ok, pure_eq_ok] at h
      obtain ⟨⟨_, _⟩, hrun, rfl⟩ := h
      have hcaptured := reconcileReceipt_eq_ok hkeys hrun
      exact hscoped hcaptured.writes fun heq => heq ▸ .captured hcaptured
  | receiveScan receiptId values reconcile keys =>
      simp only [Tenant.step, bind_eq_ok, pure_eq_ok] at h
      obtain ⟨⟨_, _⟩, hrun, rfl⟩ := h
      have hcaptured := receiveScan_captured hkeys hrun
      exact hscoped hcaptured.writes fun heq => heq ▸ .captured hcaptured
  | correctProcurement poId rootId values keys =>
      simp only [Tenant.step, bind_eq_ok, pure_eq_ok] at h
      obtain ⟨⟨_, _⟩, hrun, rfl⟩ := h
      exact ⟨Writes.integrity (correctProcurement_eq_ok receipt hrun) hkeys,
        .same (.of_writes hkeys fun scope => correctProcurement_eq_ok scope hrun)⟩
  | correctReceiptLine receiptId rootId values keys =>
      simp only [Tenant.step, bind_eq_ok, pure_eq_ok] at h
      obtain ⟨⟨_, _⟩, hrun, rfl⟩ := h
      obtain ⟨round, hctx, hreceipt, hbefore, hvalid, hafter, hwrites⟩ :=
        correctReceiptLine_eq_ok hkeys hrun
      exact hscoped hwrites fun heq =>
        .corrected round (hctx ▸ rfl) (hreceipt.trans heq) hbefore hvalid hafter (heq ▸ hwrites)
  | transitionException exceptionId values eventId =>
      simp only [Tenant.step, bind_eq_ok, pure_eq_ok] at h
      obtain ⟨⟨event, _⟩, hrun, rfl⟩ := h
      obtain ⟨o, htransition⟩ := transitionException_eq_ok hrun
      exact hscoped (.single htransition.wrote) fun heq =>
        .transitioned event htransition.manual htransition.after_eq (heq ▸ htransition.wrote)
  | changeAsset call =>
      simp only [Tenant.step, Service.assetConstraints, bind_eq_ok, Service.translating_eq_ok,
        Service.execute_eq_ok, pure_eq_ok] at h
      obtain ⟨tables, hrun, rfl⟩ := h
      exact ⟨hkeys.perform hrun, .same (.perform receipt hrun)⟩
  | procure catalog =>
      simp only [Tenant.step, bind_eq_ok, Service.ensure_eq_ok, pure_eq_ok, exists_unit] at h
      obtain ⟨hadmits, rfl⟩ := h
      exact ⟨hkeys.withCatalog hadmits, .same (.withCatalog receipt hkeys hadmits)⟩

/-! ## Runs -/

/-- A tenant that has received nothing yet, with its catalog and its Assets. -/
structure Tenant.Fresh (t : Tenant) : Prop where
  records : t =
    { tables := t.tables
      items := t.items
      vendors := t.vendors
      purchaseOrders := t.purchaseOrders
      purchaseOrderLines := t.purchaseOrderLines }
  identifierAsset : Refers t.tables.identifiers t.tables.assets fun i a => a.id = i.assetId
  readability : ∀ i ∈ t.tables.identifiers, i.value = none → i.unreadableReason.isSome

theorem Tenant.Fresh.integrity (hfresh : t.Fresh) : t.Integrity := by
  obtain ⟨hrecords, hidentifiers, hreadability⟩ := hfresh
  rw [hrecords]
  constructor
  case identifierAsset => exact hidentifiers
  case readability => exact hreadability
  all_goals first
    | exact distinct_nil
    | exact fun _ h => absurd h List.not_mem_nil

/-- What every request keeps of a receipt, every run keeps. -/
theorem run_receipt (posixSpace : Char → Bool) (inv : Tenant → Prop)
    (hstep : ∀ before after, before.Integrity → StepOn posixSpace receipt before after →
      inv before → inv after)
    {start : Tenant} (hkeys : start.Integrity) (hinv : inv start)
    (requests : List (Context × ReceivingCall)) :
    (Machine.run (Tenant.step posixSpace) requests start).Integrity ∧
      inv (Machine.run (Tenant.step posixSpace) requests start) := by
  refine Machine.run_invariant (Tenant.step posixSpace) (fun t => t.Integrity ∧ inv t)
    (fun _ => True) ?_ requests start (fun _ _ => trivial) ⟨hkeys, hinv⟩
  rintro request before after - hrun ⟨hbefore, hholds⟩
  obtain ⟨hafter, hon⟩ := step_on receipt hbefore hrun
  exact ⟨hafter, hstep before after hbefore hon hholds⟩

/-- Every run keeps the keys. -/
theorem run_integrity (posixSpace : Char → Bool) {start : Tenant} (hkeys : start.Integrity)
    (requests : List (Context × ReceivingCall)) :
    (Machine.run (Tenant.step posixSpace) requests start).Integrity :=
  Machine.run_invariant (Tenant.step posixSpace) Tenant.Integrity (fun _ => True)
    (fun _ _ _ _ hrun hbefore => (step_on 0 hbefore hrun).1) requests start
    (fun _ _ => trivial) hkeys

end

end FleetOps
