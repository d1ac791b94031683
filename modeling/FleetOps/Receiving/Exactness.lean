import FleetOps.Receiving.Derivations

/-!
# Receiving exceptions are exact

In every state of a run the exceptions of a receipt are the disagreements of its
capture, each once, and no request that captures is refused by the database's
own derivation of them.
-/

namespace FleetOps

open Relation Keys Fallible

section

variable {ctx : Context} {t t' : Tenant} {header : Receipt} {receipt : Uuid}

/-! ## Complete transactions -/

/-- The lines that a request records are stored with its receipt. -/
theorem recordLines_mem {items : List (LineValues × LineKeys)} {lines : List ReceiptLine}
    (hkeys : t.Integrity) (h : Service.recordLines ctx header items t = .ok (lines, t')) :
    Writes header.id t t' ∧ ∀ line ∈ lines, line ∈ t'.linesOf header.id := by
  induction items generalizing t lines with
  | nil =>
      obtain ⟨rfl, rfl⟩ := Prod.mk.inj (pure_eq_ok.mp h)
      exact ⟨.refl, by simp⟩
  | cons item rest ih =>
      simp only [Service.recordLines, bind_eq_ok, pure_eq_ok] at h
      obtain ⟨⟨line, middle⟩, hline, ⟨others, _⟩, hrest, heq⟩ := h
      obtain ⟨rfl, rfl⟩ := Prod.mk.inj heq
      obtain ⟨_, inserted, hrecorded⟩ := recordLine_eq_ok hkeys hline
      obtain ⟨hmore, hothers⟩ := ih (Writes.integrity hrecorded.writes hkeys) hrest
      refine ⟨hrecorded.writes.trans hmore, fun other hother => ?_⟩
      rcases List.mem_cons.mp hother with rfl | hother
      · obtain ⟨rows, -, -, rfl⟩ := hrecorded.observed
        have hmem : other ∈ inserted.lines := by
          rw [hrecorded.insertion.tenant]
          simp
        exact Tenant.mem_linesOf.mpr ⟨Writes.mem_lines hmore hmem, hrecorded.insertion.owner⟩
      · exact hothers other hother

/-- Where capture has stored what it derives, its lines are complete. -/
theorem completeLine_of_exact (hkeys : t.Integrity) (hexact : t.Exact receipt) {line : ReceiptLine}
    (hline : line ∈ t.linesOf receipt) : completeLine t line = .ok () := by
  refine completeLine_of_stored hkeys (Tenant.mem_linesOf.mp hline).1 fun key hkey => ?_
  have hstored : key ∈ t.storedKeys receipt := by
    rw [hexact]
    exact List.mem_append_left _ (List.mem_flatMap.mpr ⟨line, hline, hkey⟩)
  obtain ⟨e, he, rfl⟩ := List.mem_map.mp hstored
  exact ⟨e, (List.mem_filter.mp (List.mem_filter.mp he).1).1, rfl⟩

/-- And so is the receipt that is reconciled, which nobody has corrected so far. -/
theorem completeReconciliation_of_exact (hexact : t.Exact receipt)
    (hclosed : t.reconciled receipt) (hlines : t.captureLines receipt = t.boundLines receipt) :
    completeReconciliation t receipt = .ok () := by
  refine completeReconciliation_of_stored fun line hline key hkey => ?_
  have hstored : key ∈ t.storedKeys receipt := by
    rw [hexact, Tenant.derivedKeys_of_closed hclosed, hlines]
    exact List.mem_append_right _ (List.mem_flatMap.mpr ⟨line, hline, hkey⟩)
  obtain ⟨e, he, rfl⟩ := List.mem_map.mp hstored
  obtain ⟨hmem, hreceipt⟩ := List.mem_filter.mp (List.mem_filter.mp he).1
  exact ⟨e, hmem, of_decide_eq_true hreceipt, rfl⟩

theorem forM_eq_ok {α : Type} {body : α → Sql Unit} {items : List α}
    (h : ∀ item ∈ items, body item = .ok ()) : items.forM body = .ok () := by
  induction items with
  | nil => rfl
  | cons item rest ih =>
      change (body item >>= fun _ => rest.forM body) = .ok ()
      rw [h item (List.mem_cons_self ..)]
      exact ih fun other hother => h other (List.mem_cons_of_mem _ hother)

/-- The checks of a transaction whose lines and receipt are complete. -/
theorem validateComplete_ok {lines : List ReceiptLine} {reconciled : Option Uuid}
    (hlines : ∀ line ∈ lines, completeLine t line = .ok ())
    (hreconciled : ∀ id ∈ reconciled, completeReconciliation t id = .ok ()) :
    Service.validateComplete lines reconciled t = .ok () := by
  simp only [Service.validateComplete, bind_eq_ok, Service.execute_eq_ok, exists_unit]
  refine ⟨forM_eq_ok hlines, ?_⟩
  cases reconciled with
  | none => rfl
  | some id => exact hreconciled id rfl

/-- The checks of a new unit's history are not about exceptions. -/
theorem avoids_commitUnits {lines : List ReceiptLine} :
    Avoids Blamed (Service.commitUnits ctx lines t) := by
  refine avoids_execute ?_
  induction lines with
  | nil => exact Avoids.pure
  | cons line rest ih =>
      refine Avoids.bind ?_ fun _ _ => ih
      cases hasset : line.fields.assetId with
      | none =>
          simp only [hasset]
          exact Avoids.pure
      | some asset =>
          simp only [hasset, Option.forM]
          simp [checkPairs, Blames, derivationMessages]

/-! ## Requests are not blamed -/

theorem avoids_recordLines {items : List (LineValues × LineKeys)} (hkeys : t.Integrity) :
    Avoids Blamed (Service.recordLines ctx header items t) := by
  induction items generalizing t with
  | nil => exact Avoids.pure
  | cons item rest ih =>
      simp only [Service.recordLines, Avoids.bind_iff]
      refine ⟨avoids_recordLine hkeys, ?_⟩
      rintro ⟨line, middle⟩ hline
      have hwrites := writes_of_recordLine hkeys hline
      exact ⟨ih (Writes.integrity hwrites hkeys), fun _ _ => Avoids.pure⟩

/-- `add_line` is never blamed. -/
theorem avoids_addLine {values : LineValues} {keys : LineKeys} (hkeys : t.Integrity)
    (hexact : t.Exact receipt) : Avoids Blamed (Service.addLine ctx receipt values keys t) := by
  refine avoids_translating ?_
  rw [Avoids.bind_iff]
  refine ⟨avoids_lockService, fun header hlock => ?_⟩
  obtain rfl := lock_eq_ok hlock
  rw [Avoids.bind_iff]
  refine ⟨avoids_ensure, fun _ hopen => ?_⟩
  rw [Avoids.bind_iff]
  refine ⟨avoids_recordLine hkeys, ?_⟩
  rintro ⟨line, recorded⟩ hline
  have hopen := Service.ensure_eq_ok.mp hopen
  obtain ⟨hcaptured, -⟩ := recordLine_captured hkeys hopen hline
  have hkeys' := Writes.integrity hcaptured.writes hkeys
  have hlines : Service.recordLines ctx header [(values, keys)] t = .ok ([line], recorded) := by
    rw [Service.recordLines, hline]
    rfl
  obtain ⟨-, hmem⟩ := recordLines_mem hkeys hlines
  have hcomplete : Service.validateComplete [line] none recorded = .ok () :=
    validateComplete_ok
      (fun other hother =>
        completeLine_of_exact hkeys' (hcaptured.exact hexact) (hmem other hother))
      fun id hid => absurd hid (Option.not_mem_none id)
  simp only [hcomplete, Avoids.bind_iff]
  exact ⟨Avoids.ok, fun _ _ => ⟨avoids_getReceipt, fun _ _ =>
    ⟨avoids_commitUnits, fun _ _ => Avoids.pure⟩⟩⟩

/-- A receipt that has just been reconciled is complete. -/
theorem completeReconciliation_of_reconcile {keys : ReconcileKeys} (hkeys : t.Integrity)
    (hexact : t.Exact header.id) (h : Service.reconcile ctx header keys t = .ok t') :
    completeReconciliation t' header.id = .ok () := by
  obtain ⟨row, hreceipt, hopen, hobserved, -⟩ := reconcile_eq_ok h
  have hexact' := (reconcile_captured hkeys h).exact hexact
  obtain ⟨rows, -, -, rfl⟩ := hobserved
  refine completeReconciliation_of_exact hexact' (by simp [Tenant.reconciled, hreceipt]) ?_
  have hlines : t.captureLines header.id = t.boundLines header.id := by
    rw [Tenant.captureLines, hkeys.captureComparators_eq hopen]
    rfl
  exact hlines

/-- `reconcile_receipt` is never blamed. -/
theorem avoids_reconcileReceipt {keys : ReconcileKeys} (hkeys : t.Integrity)
    (hexact : t.Exact receipt) : Avoids Blamed (Service.reconcileReceipt ctx receipt keys t) := by
  refine avoids_translating ?_
  rw [Avoids.bind_iff]
  refine ⟨avoids_lockService, fun header hlock => ?_⟩
  obtain rfl := lock_eq_ok hlock
  rw [Avoids.bind_iff]
  refine ⟨avoids_reconcile, fun reconciled hrun => ?_⟩
  have hcomplete : Service.validateComplete [] (some header.id) reconciled = .ok () :=
    validateComplete_ok (by simp) fun id hid => by
      obtain rfl := Option.mem_some_iff.mp hid
      exact completeReconciliation_of_reconcile hkeys hexact hrun
  simp only [hcomplete, Avoids.bind_iff]
  exact ⟨Avoids.ok, fun _ _ => ⟨avoids_getReceipt, fun _ _ => Avoids.pure⟩⟩

/-- `create_receipt` is never blamed. -/
theorem avoids_createReceipt {values : ReceiptValues} {keys : ReceiptKeys} (hkeys : t.Integrity) :
    Avoids Blamed (Service.createReceipt ctx values keys t) := by
  refine avoids_translating ?_
  rw [Avoids.bind_iff]
  refine ⟨avoids_execute avoids_actor, fun actor _ => ?_⟩
  rw [Avoids.bind_iff]
  refine ⟨avoids_execute avoids_insertReceipt, ?_⟩
  rintro ⟨header, received⟩ hreceipt
  rw [Avoids.bind_iff]
  refine ⟨?_, fun bound hbind => ?_⟩
  · exact Avoids.foldlM (fun _ _ => True) trivial (fun _ _ _ _ _ _ _ _ => trivial)
      fun _ _ _ _ _ _ => avoids_bindComparator
  have hreceived := Service.execute_eq_ok.mp hreceipt
  obtain ⟨-, hcaptured, hopen, hempty⟩ := bound_of_insertReceipt hkeys hreceived hbind
  have hbound := Writes.integrity hcaptured.writes hkeys
  rw [Avoids.bind_iff]
  refine ⟨avoids_recordLines hbound, ?_⟩
  rintro ⟨lines, recorded⟩ hlines
  obtain ⟨hrecorded, -⟩ := recordLines_captured hbound hopen hlines
  obtain ⟨-, hmem⟩ := recordLines_mem hbound hlines
  have hexact := hrecorded.exact hempty
  have hkeys' := Writes.integrity hrecorded.writes hbound
  cases values.reconcile with
  | false =>
      have hcomplete : Service.validateComplete lines none recorded = .ok () :=
        validateComplete_ok
          (fun line hline => completeLine_of_exact hkeys' hexact (hmem line hline)) nofun
      simp only [Bool.false_eq_true, if_false, Avoids.bind_iff]
      refine ⟨Avoids.pure, fun state hstate => ?_⟩
      obtain rfl := pure_eq_ok.mp hstate
      rw [hcomplete]
      exact ⟨Avoids.ok, fun _ _ => ⟨avoids_getReceipt, fun _ _ =>
        ⟨avoids_commitUnits, fun _ _ => Avoids.pure⟩⟩⟩
  | true =>
      simp only [if_true, Avoids.bind_iff]
      refine ⟨avoids_reconcile, fun state hrun => ?_⟩
      have hmore := reconcile_captured hkeys' hrun
      have hlast := Writes.integrity hmore.writes hkeys'
      have hcomplete : Service.validateComplete lines (some header.id) state = .ok () := by
        refine validateComplete_ok (fun line hline => ?_) fun id hid => ?_
        · obtain ⟨hstored, hreceipt⟩ := Tenant.mem_linesOf.mp (hmem line hline)
          exact completeLine_of_exact hlast (hmore.exact hexact)
            (Tenant.mem_linesOf.mpr ⟨Writes.mem_lines hmore.writes hstored, hreceipt⟩)
        · obtain rfl := Option.mem_some_iff.mp hid
          exact completeReconciliation_of_reconcile hkeys' hexact hrun
      rw [hcomplete]
      exact ⟨Avoids.ok, fun _ _ => ⟨avoids_getReceipt, fun _ _ =>
        ⟨avoids_commitUnits, fun _ _ => Avoids.pure⟩⟩⟩

/-! ## Runs -/

/-- A correction leaves the facts of the capture as they were. -/
theorem Round.Valid.sameCapture {round : Round} (hvalid : round.Valid) :
    SameCapture round.receipt round.before round.after := by
  have hcomparators : round.comparators.filter
      (fun c => decide (c.receiptId = round.receipt) && decide (c.introducedByCorrectionId = none)) =
        round.before.comparators.filter fun c =>
          decide (c.receiptId = round.receipt) && decide (c.introducedByCorrectionId = none) :=
    filter_append_of_forall fun c hc => by simp [(hvalid.introduced c hc).2]
  have hexceptions : (round.before.exceptions ++ round.unclaimed.map round.opened).filter
      (fun o => decide (o.receiptId = round.receipt) && decide (o.evaluationId = none)) =
        round.before.exceptions.filter fun o =>
          decide (o.receiptId = round.receipt) && decide (o.evaluationId = none) :=
    filter_append_of_forall fun o ho => by
      obtain ⟨key, -, rfl⟩ := List.mem_map.mp ho
      simp [Round.opened]
  rw [Round.after_eq]
  exact { SameReceipt.refl round.receipt round.before with
    bound := by
      simp only [Tenant.comparatorsOf, List.filter_filter, Bool.and_comm]
      simpa only [Bool.and_comm] using hcomparators
    captured := by
      simp only [Tenant.exceptionsOf, List.filter_filter]
      simpa only [Bool.and_comm] using hexceptions }

/-- Whatever a request does to a receipt, its capture stays stored exactly. -/
theorem StepOn.exact {posixSpace : Char → Bool} (h : StepOn posixSpace receipt t t')
    (hkeys : t.Integrity) (hexact : t.Exact receipt) : t'.Exact receipt := by
  cases h with
  | same hsame => exact .of_same hkeys hsame.toSameCapture hexact
  | captured hcaptured => exact hcaptured.exact hexact
  | corrected round hspace hreceipt hbefore hvalid hafter hwrites =>
      subst hreceipt hbefore hafter
      exact .of_same hkeys hvalid.sameCapture hexact
  | transitioned event hmanual hafter hwrote =>
      subst hafter
      exact .of_same hkeys { SameReceipt.refl receipt t with } hexact

/-- An exception that a correction observed belongs to a corrected receipt. -/
theorem Tenant.Integrity.evaluationId_eq_none (hkeys : t.Integrity)
    (huncorrected : t.correctionsOf receipt = []) {o : ReceivingException}
    (ho : o ∈ t.exceptionsOf receipt) : o.evaluationId = none := by
  by_contra hne
  obtain ⟨evaluation, hevaluation⟩ := Option.ne_none_iff_exists'.mp hne
  obtain ⟨hmem, hreceipt⟩ := Tenant.mem_exceptionsOf.mp ho
  obtain ⟨e, he, -, howner⟩ := hkeys.exceptionEvaluation o hmem evaluation hevaluation
  obtain ⟨c, hc, -, hentity⟩ := hkeys.evaluationCause e he
  have hcorrected : c ∈ t.correctionsOf receipt :=
    Tenant.mem_correctionsOf.mpr ⟨hc, hentity.trans (howner.trans hreceipt)⟩
  exact absurd (huncorrected ▸ hcorrected) List.not_mem_nil

/-- In every state that a run of requests reaches, a receipt's capture has stored exactly its
disagreements, these are all its exceptions until it is corrected, and no capture that is requested
next is refused by the database's own derivations. -/
theorem receivingExceptionsExact (posixSpace : Char → Bool) {start : Tenant} (hfresh : start.Fresh)
    (requests : List (Context × ReceivingCall)) (receipt : Uuid) :
    let t := Machine.run (Tenant.step posixSpace) requests start
    Snapshot.Represents (t.storedKeys receipt) (fun key => (t.capture receipt).LineKeyed key ∨
      t.reconciled receipt ∧ (t.capture receipt).QuantityKeyed key) ∧
    (t.correctionsOf receipt = [] → ∀ o ∈ t.exceptionsOf receipt, o.evaluationId = none) ∧
    ∀ ctx : Context,
      (∀ values keys, Avoids Blamed (Service.createReceipt ctx values keys t)) ∧
      (∀ values keys, Avoids Blamed (Service.addLine ctx receipt values keys t)) ∧
      ∀ keys, Avoids Blamed (Service.reconcileReceipt ctx receipt keys t) := by
  intro t
  have hstart := hfresh.integrity
  have hempty : ¬start.Received receipt := by
    rintro ⟨row, hrow, -⟩
    rw [hfresh.records] at hrow
    exact absurd hrow List.not_mem_nil
  obtain ⟨hkeys, hexact⟩ := run_receipt posixSpace (fun s => s.Exact receipt)
    (fun _ _ hbefore hon => hon.exact hbefore) hstart
    (hstart.exact_of_not_received hempty).2 requests
  refine ⟨?_, fun huncorrected o ho => hkeys.evaluationId_eq_none huncorrected ho, fun ctx =>
    ⟨fun _ _ => avoids_createReceipt hkeys, fun _ _ => avoids_addLine hkeys hexact,
      fun _ => avoids_reconcileReceipt hkeys hexact⟩⟩
  rw [hexact]
  exact hkeys.derivedKeys_represents receipt

/-! ## A delivery against a purchase order -/

/-- A tenant that expects five cables and three straps. -/
def expectingTenant : Tenant :=
  { tables := { orgId := 100 }
    items := [⟨50, false⟩, ⟨51, false⟩]
    vendors := [2]
    purchaseOrders := [⟨20, .issued⟩]
    purchaseOrderLines :=
      [⟨21, 20, 1, ⟨50, 5, .ea, 1, none⟩, none, .at 1⟩,
        ⟨22, 20, 2, ⟨51, 3, .ea, 1, none⟩, none, .at 1⟩] }

theorem expectingTenant_fresh : expectingTenant.Fresh :=
  ⟨rfl, fun _ hrow => absurd hrow List.not_mem_nil, fun _ hrow => absurd hrow List.not_mem_nil⟩

/-- The keys of one delivered line. -/
def sampleLineKeys (n : ℕ) : LineKeys where
  comparatorId := 1100 + n
  lineId := 1200 + n
  assetId := 1300 + n
  identifierId := 1400 + n
  transitionId := 1500 + n
  exceptionId kind := 2000 + 20 * n + kind.ctorIdx

/-- Four damaged cables arrive, of which five were packed, and no strap; then one more cable. -/
def sampleDeliveries : List (Context × ReceivingCall) :=
  let cables : LineValues :=
    { poLineId := some 21, itemId := 50, quantity := 4, uom := .ea, condition := .damaged
      packingQuantity := some 5, notes := none, unit := none }
  let more : LineValues := { cables with quantity := 1, condition := .good, packingQuantity := none }
  let delivery : ReceiptValues :=
    { vendorPartyId := 2, poId := some 20, dockLocationId := some 3, packingReference := some "P-1"
      receivedAt := .at 40, comparatorIds := [22], comparatorBindings := []
      lines := [cables], reconcile := false }
  let closing : ReconcileKeys := ⟨1600, fun poLine => 3000 + poLine⟩
  [(sampleContext, .createReceipt delivery ⟨6, fun poLine => 1000 + poLine, sampleLineKeys, closing⟩),
    (sampleContext, .addLine 6 more (sampleLineKeys 1)),
    (sampleContext, .reconcileReceipt 6 closing)]

/-- The keys of a correction. -/
def sampleAmendmentKeys (n : ℕ) : ReceiptCorrectionKeys where
  pair := ⟨710 + 10 * n, 711 + 10 * n, 712 + 10 * n⟩
  comparatorId := 900 + n
  evaluation :=
    { evaluationId := 800 + n
      lineId := fun line => 10000 * (n + 1) + line
      expectationId := fun poLine => 20000 * (n + 1) + poLine
      linkId := fun exception => 100000 * (n + 1) + exception
      eventId := fun exception => 200000 * (n + 1) + exception
      exceptionId := fun key => 8000 + 100 * n + key.exceptionType.ctorIdx
      openedLinkId := fun key => 9000 + 100 * n + key.exceptionType.ctorIdx }

/-- The five cables arrive, and look damaged. -/
def sampleArrival : List (Context × ReceivingCall) :=
  let cables : LineValues :=
    { poLineId := some 21, itemId := 50, quantity := 5, uom := .ea, condition := .damaged
      packingQuantity := some 5, notes := none, unit := none }
  let delivery : ReceiptValues :=
    { vendorPartyId := 2, poId := some 20, dockLocationId := some 3, packingReference := some "P-2"
      receivedAt := .at 40, comparatorIds := [], comparatorBindings := [], lines := [cables]
      reconcile := true }
  [(sampleContext, .createReceipt delivery
    ⟨6, fun poLine => 1000 + poLine, sampleLineKeys, ⟨1600, fun poLine => 3000 + poLine⟩⟩)]

/-- On a second look they are good, but there are only four. -/
def sampleRecount : List (Context × ReceivingCall) :=
  [(sampleContext, .correctReceiptLine 6 1200
    { expectedGeneration := 0, reason := "Recounted", correctionOccurredAt := .at 45
      quantity := some 4, condition := some .good } (sampleAmendmentKeys 0))]

example : ((Machine.run (Tenant.step sampleContext.posixSpace) sampleDeliveries
    expectingTenant).storedKeys 6).map ExceptionKey.exceptionType =
      [.damaged, .quantityVariance, .short] := by decide +kernel

theorem receivingExceptionsExact_sample :
    let t := Machine.run (Tenant.step sampleContext.posixSpace) sampleDeliveries expectingTenant
    Snapshot.Represents (t.storedKeys 6) (fun key => (t.capture 6).LineKeyed key ∨
      t.reconciled 6 ∧ (t.capture 6).QuantityKeyed key) ∧
    (t.correctionsOf 6 = [] → ∀ o ∈ t.exceptionsOf 6, o.evaluationId = none) ∧
    ∀ ctx : Context,
      (∀ values keys, Avoids Blamed (Service.createReceipt ctx values keys t)) ∧
      (∀ values keys, Avoids Blamed (Service.addLine ctx 6 values keys t)) ∧
      ∀ keys, Avoids Blamed (Service.reconcileReceipt ctx 6 keys t) :=
  receivingExceptionsExact sampleContext.posixSpace expectingTenant_fresh sampleDeliveries 6

end

end FleetOps
