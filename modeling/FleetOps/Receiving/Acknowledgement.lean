import FleetOps.Capture.Scan
import FleetOps.Receiving.Freezing

/-!
# Acknowledged generations

A request names purchase order lines, each with the generation that it
acknowledges.  The first name binds a line that the receipt has not bound yet,
and then the comparator pins the generation that was acknowledged.  A line that
is bound stays bound to the source that its comparator pins.
-/

namespace FleetOps

open Keys

/-! ## Names -/

/-- A purchase order line that a request names: for one of its lines, or for the receipt. -/
structure Naming where
  lineId : Option Uuid
  poLineId : Uuid
  generation : ℕ
  deriving DecidableEq, Repr

/-- What a delivered line names. -/
def LineValues.namings (values : LineValues) (keys : LineKeys) : List Naming :=
  values.poLineId.toList.map fun poLine => ⟨some keys.lineId, poLine, values.expectedPoGeneration⟩

/-- What a delivery names, in the order in which it is bound. -/
def ReceiptValues.namings (values : ReceiptValues) (keys : ReceiptKeys) : List Naming :=
  ((Service.receiptBindings values).map fun binding => ⟨none, binding.1, binding.2⟩) ++
    (values.lines.zipIdx.map fun entry => (entry.1, keys.line entry.2)).flatMap
      fun entry => entry.1.namings entry.2

/-- What a request names for a receipt. -/
def ReceivingCall.namings (receipt : Uuid) : ReceivingCall → List Naming
  | .createReceipt values keys => if keys.receiptId = receipt then values.namings keys else []
  | .addLine receiptId values keys => if receiptId = receipt then values.namings keys else []
  | .receiveScan receiptId values _ keys =>
      if receiptId = receipt then values.namings keys.line else []
  | .correctReceiptLine receiptId rootId values _ =>
      if receiptId = receipt then
        (values.poLineId.bind id).toList.map fun poLine =>
          ⟨some rootId, poLine, values.expectedPoGeneration.getD 0⟩
      else []
  | _ => []

/-- The receipt has not bound the purchase order line. -/
def Tenant.Unbound (tenant : Tenant) (receipt poLine : Uuid) : Prop :=
  ∀ c ∈ tenant.comparatorsOf receipt, c.poLineId ≠ poLine

/-- The comparator through which a line is evaluated: the only one for what the line selects, and
its pinned source reads as the purchase order line that is in force. -/
structure Tenant.EvaluatedThrough (tenant : Tenant) (line : ReceiptLine) (c : Comparator) :
    Prop where
  bound : c ∈ tenant.comparatorsOf line.receiptId
  selects : (tenant.effectiveReceiptLine line).fields.poLineId = some c.poLineId
  only : ∀ other ∈ tenant.comparatorsOf line.receiptId, other.poLineId = c.poLineId → other = c
  reads : ∃ p, tenant.purchaseOrderLine? c.poLineId = some p ∧
    (tenant.purchaseOrderLines.find? (·.id = c.poLineId)).map (fun original =>
      Tenant.expectationAt original
        (pinnedSource tenant.purchaseOrderLineCorrections c.sourceId)) =
      some (expectationOf p.id p.fields)

section

variable {ctx : Context} {t t' t'' : Tenant} {header : Receipt} {receipt : Uuid}

theorem Tenant.Integrity.evaluatedThrough (hkeys : t.Integrity) {line : ReceiptLine}
    {c : Comparator} (hc : c ∈ t.comparatorsOf line.receiptId)
    (hselects : (t.effectiveReceiptLine line).fields.poLineId = some c.poLineId) :
    t.EvaluatedThrough line c where
  bound := hc
  selects := hselects
  only other hother heq := by
    obtain ⟨hmem, hreceipt⟩ := Tenant.mem_comparatorsOf.mp hother
    obtain ⟨hmem', hreceipt'⟩ := Tenant.mem_comparatorsOf.mp hc
    exact hkeys.comparators.eq hmem hmem' (Prod.ext (hreceipt.trans hreceipt'.symm) heq)
  reads :=
    let ⟨p, hline, _, hreads⟩ := hkeys.expectationAt_eq (Tenant.mem_comparatorsOf.mp hc).1
    ⟨p, hline, hreads⟩

/-! ## Binding what is named -/

/-- What naming purchase order lines does to the comparators of a receipt. -/
structure Acknowledges (receipt : Uuid) (namings : List Naming) (t t' : Tenant) : Prop where
  source : t'.purchaseOrderLineCorrections = t.purchaseOrderLineCorrections
  kept : ∀ c ∈ t.comparatorsOf receipt, c ∈ t'.comparatorsOf receipt
  bound : ∀ n ∈ namings, ∃ c ∈ t'.comparatorsOf receipt, c.poLineId = n.poLineId
  /-- A comparator is new only where nothing was bound, and then the first name pinned it. -/
  first : ∀ c ∈ t'.comparatorsOf receipt, c ∈ t.comparatorsOf receipt ∨
    t.Unbound receipt c.poLineId ∧ ∃ n, namings.find? (·.poLineId = c.poLineId) = some n ∧
      c.sourceGeneration = n.generation ∧
      n.generation = Tenant.generation t.purchaseOrderLineCorrections c.poLineId

theorem Acknowledges.refl (receipt : Uuid) (t : Tenant) : Acknowledges receipt [] t t where
  source := rfl
  kept _ h := h
  bound _ h := absurd h List.not_mem_nil
  first _ h := .inl h

theorem Acknowledges.trans {first second : List Naming} (h : Acknowledges receipt first t t')
    (h' : Acknowledges receipt second t' t'') : Acknowledges receipt (first ++ second) t t'' where
  source := h'.source.trans h.source
  kept c hc := h'.kept c (h.kept c hc)
  bound n hn := by
    rcases List.mem_append.mp hn with hfirst | hsecond
    · obtain ⟨c, hc, heq⟩ := h.bound n hfirst
      exact ⟨c, h'.kept c hc, heq⟩
    · exact h'.bound n hsecond
  first c hc := by
    rcases h'.first c hc with hold | ⟨hunbound, n, hfind, hpinned, hcurrent⟩
    · rcases h.first c hold with hbefore | ⟨hunbound, n, hfind, hn⟩
      · exact .inl hbefore
      · exact .inr ⟨hunbound, n, find?_append_of_some hfind, hn⟩
    · have hnone : first.find? (·.poLineId = c.poLineId) = none := by
        refine List.find?_eq_none.mpr fun other hother heq => ?_
        obtain ⟨b, hb, hid⟩ := h.bound other hother
        exact hunbound b hb (hid.trans (of_decide_eq_true heq))
      refine .inr ⟨fun b hb => hunbound b (h.kept b hb), n, ?_, hpinned, h.source ▸ hcurrent⟩
      rw [List.find?_append, hnone, Option.none_or]
      exact hfind

/-- Statements that bind nothing. -/
theorem Acknowledges.frame {namings : List Naming} (h : Acknowledges receipt namings t t')
    (hcomparators : t''.comparators = t'.comparators)
    (hsource : t''.purchaseOrderLineCorrections = t'.purchaseOrderLineCorrections) :
    Acknowledges receipt namings t t'' := by
  have hrows : t''.comparatorsOf receipt = t'.comparatorsOf receipt := by
    simp only [Tenant.comparatorsOf, hcomparators]
  obtain ⟨source, kept, bound, first⟩ := h
  exact ⟨hsource.trans source, hrows ▸ kept, hrows ▸ bound, hrows ▸ first⟩

theorem acknowledges_of_bindComparator {n : Naming} {correction : Option Uuid} {id : Uuid}
    (h : Service.bindComparator ctx header n.poLineId n.generation correction id t = .ok t') :
    Acknowledges header.id [n] t t' := by
  rcases bindComparator_eq_ok h with
    ⟨rfl, c, hc, howner, hpo⟩ | ⟨row, howner, hpo, -, ⟨hpinned, hcurrent⟩, rfl, -⟩
  · refine ⟨rfl, fun _ h => h, fun other hother => ?_, fun _ h => .inl h⟩
    rw [List.mem_singleton.mp hother]
    exact ⟨c, Tenant.mem_comparatorsOf.mpr ⟨hc, howner⟩, hpo⟩
  have hrows : ({ t with comparators := t.comparators ++ [row] } : Tenant).comparatorsOf header.id =
      t.comparatorsOf header.id ++ [row] := by
    simp [Tenant.comparatorsOf, List.filter_append, howner]
  by_cases hunbound : t.Unbound header.id n.poLineId
  · refine ⟨rfl, fun c hc => ?_, fun other hother => ?_, fun c hc => ?_⟩
    · exact hrows ▸ List.mem_append_left _ hc
    · rw [List.mem_singleton.mp hother, hrows]
      exact ⟨row, by simp, hpo⟩
    · rcases List.mem_append.mp (hrows ▸ hc) with hold | hnew
      · exact .inl hold
      · obtain rfl := List.mem_singleton.mp hnew
        exact .inr ⟨hpo ▸ hunbound, n, by simp [hpo], hpinned, hpo ▸ hcurrent⟩
  · -- The service binds a line only where it has found none bound.
    simp only [Tenant.Unbound, not_forall, not_not] at hunbound
    obtain ⟨c, hc, heq⟩ := hunbound
    obtain ⟨hmem, hreceipt⟩ := Tenant.mem_comparatorsOf.mp hc
    have hbound : t.comparators.any (fun c => decide (c.receiptId = header.id ∧
        c.poLineId = n.poLineId)) = true :=
      List.any_eq_true.mpr ⟨c, hmem, decide_eq_true ⟨hreceipt, heq⟩⟩
    simp only [Service.bindComparator, bind_eq_ok, Service.ensure_eq_ok, exists_unit, hbound,
      if_true, pure_eq_ok] at h
    have hlength := congrArg (fun s : Tenant => s.comparators.length) h.2
    simp at hlength

theorem acknowledges_of_recordLine {values : LineValues} {keys : LineKeys} {line : ReceiptLine}
    (hkeys : t.Integrity) (h : Service.recordLine ctx header values keys t = .ok (line, t')) :
    Acknowledges header.id (values.namings keys) t t' := by
  obtain ⟨bound, inserted, hrecorded⟩ := recordLine_eq_ok hkeys h
  have hbind := hrecorded.selection
  have hbound : Acknowledges header.id (values.namings keys) t bound := by
    unfold LineValues.namings
    cases hpo : values.poLineId with
    | none =>
        simp only [Service.bindSelected, hpo, pure_eq_ok] at hbind
        exact hbind ▸ .refl header.id t
    | some poLine =>
        simp only [Service.bindSelected, hpo] at hbind
        exact acknowledges_of_bindComparator
          (n := ⟨some keys.lineId, poLine, values.expectedPoGeneration⟩) hbind
  obtain ⟨_, -, -, rfl⟩ := hrecorded.observed
  have hsame := hrecorded.insertion.tenant
  refine hbound.frame ?_ ?_ <;> simp only <;> rw [hsame]

theorem acknowledges_of_recordLines {items : List (LineValues × LineKeys)}
    {lines : List ReceiptLine} (hkeys : t.Integrity)
    (h : Service.recordLines ctx header items t = .ok (lines, t')) :
    Acknowledges header.id (items.flatMap fun item => item.1.namings item.2) t t' ∧
      ∀ item ∈ items, ∃ line ∈ t'.linesOf header.id, line.Stores item.1 item.2 := by
  induction items generalizing t lines with
  | nil =>
      obtain ⟨-, rfl⟩ := Prod.mk.inj (pure_eq_ok.mp h)
      exact ⟨.refl header.id t, by simp⟩
  | cons item rest ih =>
      simp only [Service.recordLines, bind_eq_ok, pure_eq_ok] at h
      obtain ⟨⟨line, middle⟩, hline, ⟨others, _⟩, hrest, heq⟩ := h
      obtain ⟨-, rfl⟩ := Prod.mk.inj heq
      have hwrites := writes_of_recordLine hkeys hline
      have hmiddle := Writes.integrity hwrites hkeys
      obtain ⟨hmore, hothers⟩ := ih hmiddle hrest
      obtain ⟨hlines, hstores⟩ := linesOf_of_recordLine hkeys hline
      refine ⟨(acknowledges_of_recordLine hkeys hline).trans hmore, fun other hother => ?_⟩
      rcases List.mem_cons.mp hother with rfl | hother
      · obtain ⟨hmem, howner⟩ : line ∈ middle.lines ∧ line.receiptId = header.id :=
          Tenant.mem_linesOf.mp (hlines ▸ List.mem_append_right _ (List.mem_singleton_self line))
        obtain ⟨hrestWrites, -⟩ := recordLines_mem hmiddle hrest
        exact ⟨line, Tenant.mem_linesOf.mpr ⟨Writes.mem_lines hrestWrites hmem, howner⟩, hstores⟩
      · exact hothers other hother

theorem acknowledges_of_bindings {bindings : List (Uuid × ℕ)} {ids : Uuid → Uuid}
    (h : bindings.foldlM (fun tenant binding => Service.bindComparator ctx header binding.1
      binding.2 none (ids binding.1) tenant) t = .ok t') :
    Acknowledges header.id (bindings.map fun binding => ⟨none, binding.1, binding.2⟩) t t' := by
  refine Fallible.foldlM_invariant (fun done state => Acknowledges header.id
    (done.map fun binding => ⟨none, binding.1, binding.2⟩) t state) bindings t h
    (.refl header.id t) ?_
  rintro done binding rest before after - hdone hrun
  rw [List.map_append]
  exact hdone.trans
    (acknowledges_of_bindComparator (n := ⟨none, binding.1, binding.2⟩) hrun)

/-! ## Requests -/

/-- What accepting a request that names purchase order lines means for a receipt. -/
structure Answers (receipt : Uuid) (namings : List Naming) (t t' : Tenant) : Prop where
  acknowledges : Acknowledges receipt namings t t'
  /-- A line that names a purchase order line is stored, and selects it. -/
  lines : ∀ n ∈ namings, ∀ id ∈ n.lineId, ∃ line ∈ t'.linesOf receipt, line.id = id ∧
    (t'.effectiveReceiptLine line).fields.poLineId = some n.poLineId

/-- The lines of an open receipt are in force as they were captured. -/
theorem Captured.effectiveReceiptLine (h : Captured receipt t t') (hkeys : t.Integrity)
    {line : ReceiptLine} (hline : line ∈ t'.linesOf receipt) :
    t'.effectiveReceiptLine line = line := by
  have hkeys' := Writes.integrity h.writes hkeys
  obtain ⟨hmem, howner⟩ := Tenant.mem_linesOf.mp hline
  have hnone : Tenant.latestCorrection t'.lineCorrections line.id = none := by
    rw [Tenant.latestCorrection, Query.latestBy_eq_none]
    refine List.filter_eq_nil_iff.mpr fun c hc hfields => h.opened ?_
    simp only [decide_eq_true_eq] at hfields
    obtain ⟨root, hroot, hid, hentity⟩ := hkeys'.correctionLine c hc
    obtain rfl := hkeys'.lines.eq hroot hmem (hid.trans hfields.1)
    exact howner ▸ hentity ▸ hkeys.sealed c (h.uncorrected ▸ hc)
  unfold Tenant.effectiveReceiptLine
  rw [hnone]

/-- A capture answers what its lines name. -/
theorem Captured.answers {namings : List Naming} (h : Captured receipt t t') (hkeys : t.Integrity)
    (hnamings : Acknowledges receipt namings t t')
    (hlines : ∀ n ∈ namings, ∀ id ∈ n.lineId, ∃ line ∈ t'.linesOf receipt, line.id = id ∧
      line.fields.poLineId = some n.poLineId) : Answers receipt namings t t' where
  acknowledges := hnamings
  lines n hn id hid := by
    obtain ⟨line, hline, heq, hpo⟩ := hlines n hn id hid
    exact ⟨line, hline, heq, (h.effectiveReceiptLine hkeys hline).symm ▸ hpo⟩

/-- A stored line selects what its values name. -/
theorem ReceiptLine.Stores.selects {line : ReceiptLine} {values : LineValues} {keys : LineKeys}
    (h : line.Stores values keys) {n : Naming} (hn : n ∈ values.namings keys) {id : Uuid}
    (hid : id ∈ n.lineId) : line.id = id ∧ line.fields.poLineId = some n.poLineId := by
  obtain ⟨poLine, hpo, rfl⟩ := List.mem_map.mp hn
  rw [Option.mem_toList] at hpo
  exact ⟨h.1.trans (Option.some.inj hid), h.2.trans hpo⟩

theorem answers_of_addLine {values : LineValues} {keys : LineKeys} {view : ReceiptView}
    (hkeys : t.Integrity) (h : Service.addLine ctx receipt values keys t = .ok (view, t')) :
    Answers receipt (values.namings keys) t t' := by
  have hcaptured := addLine_eq_ok hkeys h
  obtain ⟨stored, hstored, hstores, -⟩ := lines_of_addLine hkeys h
  obtain ⟨_, _, hadded⟩ := addLine_stages h
  obtain rfl := hadded.header_id
  refine hcaptured.answers hkeys (acknowledges_of_recordLine hkeys hadded.recorded)
    fun n hn id hid => ?_
  exact ⟨stored, hstored ▸ List.mem_append_right _ (List.mem_singleton_self stored),
    hstores.selects hn hid⟩

/-- Reconciling binds nothing. -/
theorem acknowledges_of_reconcile {keys : ReconcileKeys} {namings : List Naming}
    (hbefore : Acknowledges header.id namings t t')
    (h : Service.reconcile ctx header keys t' = .ok t'') : Acknowledges header.id namings t t'' := by
  obtain ⟨_, -, -, ⟨_, -, -, rfl⟩, -⟩ := reconcile_eq_ok h
  exact hbefore.frame rfl rfl

theorem answers_of_receiveScan {values : LineValues} {reconcile : Bool} {keys : ScanKeys}
    {result : ScanResult} (hkeys : t.Integrity)
    (h : Service.receiveScan ctx receipt values reconcile keys t = .ok (result, t')) :
    Answers receipt (values.namings keys.line) t t' := by
  have hcaptured := receiveScan_captured hkeys h
  obtain ⟨_, added, hadd, -, rfl | ⟨_, hclose⟩⟩ := receiveScan_eq_ok h
  · exact answers_of_addLine hkeys hadd
  obtain ⟨stored, hstored, hstores, -⟩ := lines_of_addLine hkeys hadd
  have hsame := linesOf_of_reconcileReceipt hclose
  obtain ⟨header, rfl, hrun⟩ := reconcileReceipt_stages hclose
  refine hcaptured.answers hkeys
    (acknowledges_of_reconcile (answers_of_addLine hkeys hadd).acknowledges hrun) fun n hn id hid =>
      ?_
  exact ⟨stored, hsame ▸ hstored ▸ List.mem_append_right _ (List.mem_singleton_self stored),
    hstores.selects hn hid⟩

theorem answers_of_createReceipt {values : ReceiptValues} {keys : ReceiptKeys} {view : ReceiptView}
    (hkeys : t.Integrity) (h : Service.createReceipt ctx values keys t = .ok (view, t')) :
    Answers keys.receiptId (values.namings keys) t t' := by
  have hcaptured := createReceipt_eq_ok hkeys h
  obtain ⟨row, header, lines, received, bound, recorded, hcreated⟩ := createReceipt_stages h
  have hbind := hcreated.bindings
  obtain ⟨hid, hbound, -, -⟩ := bound_of_insertReceipt hkeys hcreated.receipt hbind
  obtain ⟨hmore, hstored⟩ :=
    acknowledges_of_recordLines (Writes.integrity hbound.writes hkeys) hcreated.lines
  obtain ⟨-, -, rfl⟩ := insertReceipt_eq_ok hcreated.receipt
  rw [← hid.trans hcreated.row_id] at hcaptured ⊢
  have hreceived : Acknowledges header.id [] t { t with receipts := t.receipts ++ [header] } :=
    (Acknowledges.refl header.id t).frame rfl rfl
  have hnamed : Acknowledges header.id (values.namings keys) t recorded := by
    have hall := (hreceived.trans (acknowledges_of_bindings hbind)).trans hmore
    rwa [List.nil_append] at hall
  -- The lines are stored before the receipt may be reconciled, which leaves them as they are.
  have hkept : t'.linesOf header.id = recorded.linesOf header.id ∧
      Acknowledges header.id (values.namings keys) t t' := by
    rcases hcreated.close with rfl | hrun
    · exact ⟨rfl, hnamed⟩
    · refine ⟨?_, acknowledges_of_reconcile hnamed hrun⟩
      obtain ⟨_, -, -, ⟨_, -, -, rfl⟩, -⟩ := reconcile_eq_ok hrun
      rfl
  refine hcaptured.answers hkeys hkept.2 fun n hn id hmem => ?_
  rcases List.mem_append.mp hn with hheader | hline
  · obtain ⟨binding, -, rfl⟩ := List.mem_map.mp hheader
    exact nomatch hmem
  · obtain ⟨item, hitem, hnamed⟩ := List.mem_flatMap.mp hline
    obtain ⟨line, hmemLine, hstores⟩ := hstored item hitem
    exact ⟨line, hkept.1 ▸ hmemLine, hstores.selects hnamed hmem⟩

/-- A correction that names a purchase order line. -/
theorem answers_of_correctReceiptLine {root poLine : Uuid} {values : ReceiptLineCorrection}
    {keys : ReceiptCorrectionKeys} {result : RecordCorrection LineFields × Uuid}
    (hkeys : t.Integrity) (hnamed : values.poLineId = some (some poLine))
    (h : Service.correctReceiptLine ctx receipt root values keys t = .ok (result, t')) :
    Answers receipt [⟨some root, poLine, values.expectedPoGeneration.getD 0⟩] t t' := by
  obtain ⟨corrected, evaluation, hwrite, -⟩ := correctReceiptLine_writes h
  obtain ⟨round, hwritten⟩ := Round.writeReceiptCorrection_eq_ok hkeys hwrite
  obtain ⟨rfl, rfl, rfl⟩ := hwritten.inputs
  obtain ⟨rfl, rfl⟩ := hwritten.rows
  obtain rfl := hwritten.after_eq
  obtain ⟨original, hmem, hid, howner, hpaired⟩ := hwritten.original
  have hselected : round.corrected.fields.poLineId = some poLine := by
    rw [hpaired.fields]
    simp [ReceiptLineCorrection.replacement, hnamed]
  obtain ⟨bound, hbind, hcomparators⟩ := hwritten.bound poLine hselected
  have hpaired' : Acknowledges round.receipt [] round.before
      { round.before with lineCorrections := round.corrections } :=
    (Acknowledges.refl _ _).frame rfl rfl
  have hbound := hpaired'.trans (acknowledges_of_bindComparator
    (n := ⟨some root, poLine, values.expectedPoGeneration.getD 0⟩) hbind)
  refine ⟨hbound.frame ?_ ?_, fun n hn id hmemId => ?_⟩
  · rw [Round.after_eq, hcomparators]
  · rw [hbound.source, Round.after_eq]
  · obtain rfl := List.mem_singleton.mp hn
    obtain rfl := Option.some.inj hmemId
    refine ⟨original, ?_, hid, ?_⟩
    · rw [Round.linesOf_after]
      exact Tenant.mem_linesOf.mpr ⟨hmem, howner⟩
    · have hlatest := Round.latestCorrection_corrections hwritten.valid original.id
      rw [if_pos hpaired.root.symm] at hlatest
      rw [Tenant.effectiveReceiptLine_fields]
      rw [Round.after_eq]
      simp only [hlatest, Option.map_some, Option.getD_some, hselected]

/-- A request that is accepted answers what it names. -/
theorem answers_of_step {posixSpace : Char → Bool} {request : Context × ReceivingCall}
    (hkeys : t.Integrity) (h : Tenant.step posixSpace request t = .ok t') {n : Naming}
    (hn : n ∈ request.2.namings receipt) : Answers receipt (request.2.namings receipt) t t' := by
  obtain ⟨ctx, call⟩ := request
  cases call with
  | createReceipt values keys =>
      simp only [Tenant.step, bind_eq_ok, pure_eq_ok] at h
      obtain ⟨⟨_, _⟩, hrun, rfl⟩ := h
      simp only [ReceivingCall.namings] at hn ⊢
      split at hn
      · rename_i heq
        rw [if_pos heq]
        exact heq ▸ answers_of_createReceipt hkeys hrun
      · exact absurd hn List.not_mem_nil
  | addLine receiptId values keys =>
      simp only [Tenant.step, bind_eq_ok, pure_eq_ok] at h
      obtain ⟨⟨_, _⟩, hrun, rfl⟩ := h
      simp only [ReceivingCall.namings] at hn ⊢
      split at hn
      · rename_i heq
        rw [if_pos heq]
        exact heq ▸ answers_of_addLine hkeys hrun
      · exact absurd hn List.not_mem_nil
  | receiveScan receiptId values reconcile keys =>
      simp only [Tenant.step, bind_eq_ok, pure_eq_ok] at h
      obtain ⟨⟨_, _⟩, hrun, rfl⟩ := h
      simp only [ReceivingCall.namings] at hn ⊢
      split at hn
      · rename_i heq
        rw [if_pos heq]
        exact heq ▸ answers_of_receiveScan hkeys hrun
      · exact absurd hn List.not_mem_nil
  | correctReceiptLine receiptId rootId values keys =>
      simp only [Tenant.step, bind_eq_ok, pure_eq_ok] at h
      obtain ⟨⟨_, _⟩, hrun, rfl⟩ := h
      simp only [ReceivingCall.namings] at hn ⊢
      split at hn
      · rename_i heq
        rw [if_pos heq]
        subst heq
        cases hsent : values.poLineId with
        | none => simp [hsent] at hn
        | some poLine =>
            cases poLine with
            | none => simp [hsent] at hn
            | some poLine => exact answers_of_correctReceiptLine hkeys hsent hrun
      · exact absurd hn List.not_mem_nil
  | _ => exact absurd hn List.not_mem_nil

/-! ## Runs -/

/-- In every state that a run of requests reaches, an accepted request's lines are evaluated through
a comparator for the purchase order line that each names: the one that the receipt has bound, as it
is, or else one that pins the generation which the request acknowledges where it first names the
line.  A request that so acknowledges another generation than the current one is rejected, and
changes nothing. -/
theorem generationAcknowledged (posixSpace : Char → Bool) {start : Tenant} (hfresh : start.Fresh)
    (requests : List (Context × ReceivingCall)) (request : Context × ReceivingCall)
    (receipt : Uuid) :
    let t := Machine.run (Tenant.step posixSpace) requests start
    let namings := request.2.namings receipt
    (∀ t', Tenant.step posixSpace request t = .ok t' → ∀ n ∈ namings,
      ∃ c ∈ t'.comparatorsOf receipt, c.poLineId = n.poLineId ∧
        (∀ id ∈ n.lineId, ∃ line ∈ t'.linesOf receipt, line.id = id ∧ t'.EvaluatedThrough line c) ∧
        (c ∈ t.comparatorsOf receipt ∨
          t.Unbound receipt n.poLineId ∧
            ∃ first, namings.find? (·.poLineId = n.poLineId) = some first ∧
              c.sourceGeneration = first.generation)) ∧
    ∀ first, namings.find? (·.poLineId = first.poLineId) = some first →
      t.Unbound receipt first.poLineId →
      first.generation ≠ Tenant.generation t.purchaseOrderLineCorrections first.poLineId →
        (∃ failure, Tenant.step posixSpace request t = .error failure) ∧
          Machine.run (Tenant.step posixSpace) [request] t = t := by
  intro t namings
  have hkeys : t.Integrity := run_integrity posixSpace hfresh.integrity requests
  refine ⟨fun t' hstep n hn => ?_, fun first hfirst hunbound hstale => ?_⟩
  · obtain ⟨hacknowledged, hlines⟩ := answers_of_step hkeys hstep hn
    have hkeys' := (step_on receipt hkeys hstep).1
    obtain ⟨c, hc, hpo⟩ := hacknowledged.bound n hn
    refine ⟨c, hc, hpo, fun id hid => ?_, ?_⟩
    · obtain ⟨line, hline, heq, hselects⟩ := hlines n hn id hid
      have howner := (Tenant.mem_linesOf.mp hline).2
      exact ⟨line, hline, heq, hkeys'.evaluatedThrough (howner.symm ▸ hc) (hpo ▸ hselects)⟩
    · rcases hacknowledged.first c hc with hold | ⟨hnew, first, hfind, hpinned, -⟩
      · exact .inl hold
      · exact .inr ⟨hpo ▸ hnew, first, hpo ▸ hfind, hpinned⟩
  · cases hstep : Tenant.step posixSpace request t with
    | error failure => exact ⟨⟨failure, rfl⟩, Machine.attempt_of_error hstep⟩
    | ok t' =>
        have hmem := List.mem_of_find?_eq_some hfirst
        obtain ⟨hacknowledged, -⟩ := answers_of_step hkeys hstep hmem
        obtain ⟨c, hc, hpo⟩ := hacknowledged.bound first hmem
        rcases hacknowledged.first c hc with hold | ⟨-, other, hfind, -, hcurrent⟩
        · exact absurd hpo (hunbound c hold)
        · rw [hpo, hfirst] at hfind
          obtain rfl := Option.some.inj hfind
          exact absurd (hpo ▸ hcurrent) hstale

end

/-! ## A delivery against a corrected expectation -/

/-- Six cables are expected instead of five; six arrive and the receipt is completed. -/
def correctedExpectation : List (Context × ReceivingCall) :=
  let correction : ProcurementCorrection :=
    { expectedGeneration := 0, reason := "Miscounted", correctionOccurredAt := .at 30
      quantity := some 6 }
  let cables : LineValues :=
    { poLineId := some 21, expectedPoGeneration := 1, itemId := 50, quantity := 6, uom := .ea
      condition := .good, packingQuantity := none, notes := none, unit := none }
  let delivery : ReceiptValues :=
    { vendorPartyId := 2, poId := some 20, dockLocationId := some 3, packingReference := some "P-1"
      receivedAt := .at 40, comparatorIds := [], comparatorBindings := [], lines := [cables]
      reconcile := true }
  [(sampleContext, .correctProcurement 20 21 correction ⟨700, 701, 702⟩),
    (sampleContext, .createReceipt delivery
      ⟨6, fun poLine => 1000 + poLine, sampleLineKeys, ⟨1600, fun poLine => 3000 + poLine⟩⟩)]

/-- The keys of a correction of the received line. -/
def sampleCorrectionKeys : ReceiptCorrectionKeys where
  pair := ⟨710, 711, 712⟩
  comparatorId := 900
  evaluation :=
    { evaluationId := 800
      lineId := fun line => 4000 + line
      expectationId := fun poLine => 5000 + poLine
      linkId := fun exception => 6000 + exception
      eventId := fun exception => 7000 + exception
      exceptionId := fun key => 8000 + key.exceptionType.ctorIdx
      openedLinkId := fun key => 8100 + key.exceptionType.ctorIdx }

/-- A note on the received line, which still names the line's own expectation, and acknowledges no
generation. -/
def notedLine : Context × ReceivingCall :=
  (sampleContext, .correctReceiptLine 6 1200
    { expectedGeneration := 0, reason := "Noted", correctionOccurredAt := .at 45
      poLineId := some (some 21), notes := some (some "dented") } sampleCorrectionKeys)

theorem generationAcknowledged_sample :
    let t := Machine.run (Tenant.step sampleContext.posixSpace) correctedExpectation expectingTenant
    let namings := notedLine.2.namings 6
    (∀ t', Tenant.step sampleContext.posixSpace notedLine t = .ok t' → ∀ n ∈ namings,
      ∃ c ∈ t'.comparatorsOf 6, c.poLineId = n.poLineId ∧
        (∀ id ∈ n.lineId, ∃ line ∈ t'.linesOf 6, line.id = id ∧ t'.EvaluatedThrough line c) ∧
        (c ∈ t.comparatorsOf 6 ∨
          t.Unbound 6 n.poLineId ∧
            ∃ first, namings.find? (·.poLineId = n.poLineId) = some first ∧
              c.sourceGeneration = first.generation)) ∧
    ∀ first, namings.find? (·.poLineId = first.poLineId) = some first →
      t.Unbound 6 first.poLineId →
      first.generation ≠ Tenant.generation t.purchaseOrderLineCorrections first.poLineId →
        (∃ failure, Tenant.step sampleContext.posixSpace notedLine t = .error failure) ∧
          Machine.run (Tenant.step sampleContext.posixSpace) [notedLine] t = t :=
  generationAcknowledged sampleContext.posixSpace expectingTenant_fresh correctedExpectation
    notedLine 6

/-- The comparator pins generation 1, and yet a correction that acknowledges none is accepted: it
retains what is bound. -/
theorem generationAcknowledged_fails :
    ¬∀ (requests : List (Context × ReceivingCall)) (request : Context × ReceivingCall)
      (receipt : Uuid) (t' : Tenant),
      Tenant.step sampleContext.posixSpace request
        (Machine.run (Tenant.step sampleContext.posixSpace) requests expectingTenant) = .ok t' →
      ∀ n ∈ request.2.namings receipt, ∀ c ∈ t'.comparatorsOf receipt, c.poLineId = n.poLineId →
        c.sourceGeneration = n.generation := by
  intro hclaim
  have hrun : ((Tenant.step sampleContext.posixSpace notedLine
      (Machine.run (Tenant.step sampleContext.posixSpace) correctedExpectation
        expectingTenant)).toOption.map fun t => t.comparators.map fun c =>
          (c.receiptId, c.poLineId, c.sourceGeneration)) = some [(6, 21, 1)] := by decide +kernel
  cases hstep : Tenant.step sampleContext.posixSpace notedLine
      (Machine.run (Tenant.step sampleContext.posixSpace) correctedExpectation expectingTenant) with
  | error failure => simp [hstep, Except.toOption] at hrun
  | ok t' =>
      simp only [hstep, Except.toOption, Option.map_some, Option.some.injEq] at hrun
      obtain ⟨c, hc, heq⟩ := List.mem_map.mp
        (hrun ▸ List.mem_singleton_self _ : (6, 21, 1) ∈ t'.comparators.map fun c =>
          (c.receiptId, c.poLineId, c.sourceGeneration))
      simp only [Prod.mk.injEq] at heq
      have hzero := hclaim correctedExpectation notedLine 6 t' hstep ⟨some 1200, 21, 0⟩ (by decide)
        c (Tenant.mem_comparatorsOf.mpr ⟨hc, heq.1⟩) heq.2.1
      exact absurd (heq.2.2.symm.trans hzero) (by decide)

end FleetOps
