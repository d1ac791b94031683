import FleetOps.Audit.Cancelled

/-!
# One delivery, or many entries

A delivery can be captured by one request, `create_receipt` with its lines, or
by entering its lines one by one and reconciling at the end.  The one request is
a single transaction, whose deferred checks see the whole delivery; the others
are transactions of their own, each of which is checked as it commits.

Capture hardly reads its transaction (`recordLine_within`), and what every
transaction checks holds in every state of a capture (`Entering`).  So both
ways do the same statements, and succeed on the same deliveries.
-/

namespace FleetOps

open Keys

/-- The same session in another transaction. -/
def Context.within (ctx : Context) (transaction : ℕ) : Context :=
  { ctx with transactionId := transaction }

namespace Service

/-- A line of a delivery, in a transaction of its own. -/
def enterLine (ctx : Context) (transactions : ℕ → ℕ) (receiptId : Uuid) (keys : ℕ → LineKeys)
    (tenant : Tenant) (entry : LineValues × ℕ) : Service Tenant := do
  let (_, tenant) ← addLine (ctx.within (transactions (entry.2 + 1))) receiptId entry.1
    (keys entry.2) tenant
  pure tenant

/-- The lines of a delivery, one after another. -/
def addLines (ctx : Context) (transactions : ℕ → ℕ) (receiptId : Uuid) (keys : ℕ → LineKeys)
    (lines : List (LineValues × ℕ)) (tenant : Tenant) : Service Tenant :=
  lines.foldlM (enterLine ctx transactions receiptId keys) tenant

/-- A delivery that is entered bit by bit: its header and comparators, then its lines in their
order, then the conclusion. -/
def receiveIncrementally (ctx : Context) (transactions : ℕ → ℕ) (values : ReceiptValues)
    (keys : ReceiptKeys) (tenant : Tenant) : Service (ReceiptView × Tenant) := do
  let (_, tenant) ← createReceipt (ctx.within (transactions 0))
    { values with lines := [], reconcile := false } keys tenant
  let tenant ← addLines ctx transactions keys.receiptId keys.line values.lines.zipIdx tenant
  reconcileReceipt (ctx.within (transactions (values.lines.length + 1))) keys.receiptId
    keys.reconcile tenant

end Service

section

variable {ctx : Context} {t t' : Tenant} {header : Receipt} (transaction : ℕ)

/-! ## Transactions -/

@[simp] theorem session_within : (ctx.within transaction).session = ctx.session := rfl

@[simp] theorem receivingGate_within :
    receivingGate (ctx.within transaction) = receivingGate ctx := rfl

@[simp] theorem insertReceipt_within (row : Receipt) :
    insertReceipt (ctx.within transaction) row t = insertReceipt ctx row t := rfl

@[simp] theorem getReceipt_within (receipt : Uuid) :
    Service.getReceipt (ctx.within transaction) t receipt = Service.getReceipt ctx t receipt := rfl

@[simp] theorem lock_within (receipt : Uuid) :
    Service.lock (ctx.within transaction) t receipt = Service.lock ctx t receipt := rfl

@[simp] theorem commitUnits_within (lines : List ReceiptLine) :
    Service.commitUnits (ctx.within transaction) lines t = Service.commitUnits ctx lines t := rfl

/-- Only a correction asks in which transaction a comparator is introduced. -/
theorem insertComparator_within {row : Comparator} (hnone : row.introducedByCorrectionId = none) :
    insertComparator (ctx.within transaction) row t = insertComparator ctx row t := by
  have hguard : guardComparator (ctx.within transaction) t row = guardComparator ctx t row := by
    have hintroduced : ∀ context : Context,
        introducedNow context t row.receiptId (some row.poLineId) none = false := by
      intro context
      simp [introducedNow]
    simp only [guardComparator, hnone, hintroduced]
    rfl
  unfold insertComparator
  rw [hguard]
  rfl

@[simp] theorem bindComparator_within (poLine : Uuid) (generation : ℕ) (id : Uuid) :
    Service.bindComparator (ctx.within transaction) header poLine generation none id t =
      Service.bindComparator ctx header poLine generation none id t := by
  unfold Service.bindComparator
  simp only [insertComparator_within, session_within]

/-- Only a correction asks in which transaction an exception is observed. -/
theorem insertException_within {row : ReceivingException} (hnone : row.evaluationId = none) :
    insertException (ctx.within transaction) row t = insertException ctx row t := by
  have hguard : guardException (ctx.within transaction) t row = guardException ctx t row := by
    simp only [guardException, hnone]
    rfl
  unfold insertException
  rw [hguard]
  rfl

@[simp] theorem exception_within (id : Uuid) (key : ExceptionKey) :
    Service.exception (ctx.within transaction) header id key t =
      Service.exception ctx header id key t := by
  unfold Service.exception
  simp only [insertException_within, session_within]

@[simp] theorem lineExceptions_within (line : ReceiptLine) (unreadable : Bool)
    (conflict : Option Uuid) (ids : ExceptionType → Uuid) :
    Service.lineExceptions (ctx.within transaction) header line unreadable conflict ids t =
      Service.lineExceptions ctx header line unreadable conflict ids t := by
  unfold Service.lineExceptions
  simp only [exception_within]

@[simp] theorem insertObservation_within (values : LineValues) (keys : LineKeys) :
    Service.insertObservation (ctx.within transaction) header values keys t =
      Service.insertObservation ctx header values keys t := rfl

@[simp] theorem bindSelected_within (values : LineValues) (id : Uuid) :
    Service.bindSelected (ctx.within transaction) header values id t =
      Service.bindSelected ctx header values id t := by
  unfold Service.bindSelected
  simp only [bindComparator_within]

/-- A line is recorded alike in every transaction. -/
@[simp] theorem recordLine_within (values : LineValues) (keys : LineKeys) :
    Service.recordLine (ctx.within transaction) header values keys t =
      Service.recordLine ctx header values keys t := by
  unfold Service.recordLine
  simp only [bindSelected_within, insertObservation_within, lineExceptions_within]

@[simp] theorem concludeQuantity_within (ids : Uuid → Uuid) (comparator : PurchaseOrderLine) :
    Service.concludeQuantity (ctx.within transaction) header ids t comparator =
      Service.concludeQuantity ctx header ids t comparator := by
  unfold Service.concludeQuantity
  simp only [exception_within]

/-- So is a population closed. -/
@[simp] theorem reconcile_within (keys : ReconcileKeys) :
    Service.reconcile (ctx.within transaction) header keys t =
      Service.reconcile ctx header keys t := by
  have hconclude : Service.concludeQuantity (ctx.within transaction) header keys.exceptionId =
      Service.concludeQuantity ctx header keys.exceptionId := by
    funext tenant comparator
    exact concludeQuantity_within transaction _ _
  unfold Service.reconcile
  rw [hconclude]
  rfl

/-! ## Units of a line -/

/-- A unit that a line has just received. -/
theorem justReceived_of_insertObservation {values : LineValues} {keys : LineKeys}
    {line : ReceiptLine} {unreadable : Bool} {conflict : Option Uuid} (hkeys : t.tables.Keyed)
    (h : Service.insertObservation ctx header values keys t =
      .ok ((line, t'), unreadable, conflict)) :
    ∀ asset ∈ line.fields.assetId, t'.tables.JustReceived asset := by
  intro asset hasset
  cases hunit : values.unit with
  | none =>
      simp only [Service.insertObservation, hunit, bind_eq_ok, pure_eq_ok, Prod.mk.injEq] at h
      obtain ⟨_, hinsert, rfl, -, -⟩ := h
      obtain ⟨-, -, -, _, hfields⟩ := insertPlainLine_eq_ok hinsert
      simp [hfields, Service.plainFields] at hasset
  | some unit =>
      simp only [Service.insertObservation, hunit, bind_eq_ok, Service.ensure_eq_ok,
        exists_unit] at h
      obtain ⟨-, h⟩ := h
      cases hknown : Service.knownConflict t unit with
      | some owner =>
          simp only [hknown, bind_eq_ok, pure_eq_ok, Prod.mk.injEq] at h
          obtain ⟨_, hinsert, rfl, -, -⟩ := h
          obtain ⟨-, -, -, _, hfields⟩ := insertPlainLine_eq_ok hinsert
          simp [hfields, Service.plainFields] at hasset
      | none =>
          simp only [hknown, bind_eq_ok, Service.execute_eq_ok, pure_eq_ok, Prod.mk.injEq] at h
          obtain ⟨_, hcreate, rfl, -, -⟩ := h
          obtain ⟨receipt, owner, performer, hreceived⟩ := createReceivedUnit_iff.mp hcreate
          have hjust := justReceived_of_insertReceivedAsset hkeys.referential hreceived.inserted
          obtain ⟨hguard, -⟩ := insertLine_eq_ok hreceived.recorded
          obtain ⟨_, item, hguarded⟩ := guardLine_eq_ok hguard
          obtain rfl := hguarded.row_eq
          obtain rfl := Option.some.inj (Option.mem_def.mp hasset)
          exact hreceived.tables ▸ hjust

/-! ## Entering lines -/

/-- The session may enter lines of an open receipt, whose capture has stored what it derives. -/
structure Entering (ctx : Context) (header : Receipt) (t : Tenant) : Prop where
  integrity : t.Integrity
  keyed : t.tables.Keyed
  exact : t.Exact header.id
  opened : ¬t.reconciled header.id
  found : t.receipt? header.id = some header
  gate : receivingGate ctx = .ok ()
  organization : ctx.session.organization = some t.tables.orgId

/-- The session sees its own organization's receipt. -/
theorem header_ok (hfound : t.receipt? header.id = some header)
    (horganization : ctx.session.organization = some t.tables.orgId) :
    Service.header ctx t header.id = .ok header := by
  simp only [Service.header, horganization, if_true, hfound, Service.fetch]

theorem getReceipt_ok (hfound : t.receipt? header.id = some header)
    (horganization : ctx.session.organization = some t.tables.orgId) :
    ∃ view, Service.getReceipt ctx t header.id = .ok view := by
  unfold Service.getReceipt
  rw [header_ok hfound horganization]
  exact ⟨_, rfl⟩

theorem organization_of_getReceipt {receipt : Uuid} {view : ReceiptView}
    (h : Service.getReceipt ctx t receipt = .ok view) :
    ctx.session.organization = some t.tables.orgId := by
  simp only [Service.getReceipt, Service.header, bind_eq_ok, Service.fetch_eq_ok] at h
  obtain ⟨_, hfound, -⟩ := h
  by_contra hforeign
  simp [hforeign] at hfound

theorem Entering.within (h : Entering ctx header t) (transaction : ℕ) :
    Entering (ctx.within transaction) header t :=
  ⟨h.integrity, h.keyed, h.exact, h.opened, h.found, h.gate, h.organization⟩

theorem Entering.lock (h : Entering ctx header t) :
    Service.lock ctx t header.id = .ok header := by
  unfold Service.lock lockReceivingContext
  rw [header_ok h.found h.organization, h.gate, if_pos rfl, h.found]
  rfl

/-- What recording a line does not touch. -/
theorem recordLine_receipts {values : LineValues} {keys : LineKeys} {line : ReceiptLine}
    (hkeys : t.Integrity) (h : Service.recordLine ctx header values keys t = .ok (line, t')) :
    t'.receipts = t.receipts := by
  obtain ⟨bound, inserted, hrecorded⟩ := recordLine_eq_ok hkeys h
  obtain ⟨_, -, rfl⟩ := hrecorded.binding
  obtain ⟨_, -, -, rfl⟩ := hrecorded.observed
  change inserted.receipts = _
  rw [hrecorded.insertion.tenant]

/-- A line that was recorded, with its unit as it was just received. -/
theorem Entering.recordLine {values : LineValues} {keys : LineKeys} {line : ReceiptLine}
    (h : Entering ctx header t)
    (hrun : Service.recordLine ctx header values keys t = .ok (line, t')) :
    Entering ctx header t' ∧ line ∈ t'.linesOf header.id ∧
      ∀ asset ∈ line.fields.assetId, t'.tables.JustReceived asset := by
  obtain ⟨hcaptured, hopen⟩ := recordLine_captured h.integrity h.opened hrun
  have hreceipts := recordLine_receipts h.integrity hrun
  have hlines : Service.recordLines ctx header [(values, keys)] t = .ok ([line], t') := by
    rw [Service.recordLines, hrun]
    rfl
  obtain ⟨-, hmem⟩ := recordLines_mem h.integrity hlines
  refine ⟨⟨Writes.integrity hcaptured.writes h.integrity,
    (recordLine_kept keptByUnits_keyed h.integrity hrun).tables h.keyed, hcaptured.exact h.exact,
    hopen, ?_, h.gate, ?_⟩, hmem line (List.mem_singleton_self line), ?_⟩
  · rw [Tenant.receipt?, hreceipts]
    exact h.found
  · rw [h.organization,
      (recordLine_kept (keptByUnits_orgId t.tables.orgId) h.integrity hrun).tables rfl]
  · obtain ⟨bound, inserted, hrecorded⟩ := recordLine_eq_ok h.integrity hrun
    have hunit := justReceived_of_insertObservation (hrecorded.binding.kept.tables h.keyed)
      hrecorded.observation
    intro asset hasset
    have hkept : Kept (fun tables => tables.JustReceived asset) inserted _ := hrecorded.observed.kept
    exact hkept.tables (hunit asset hasset)

/-- The deferred check of units that were just received. -/
theorem commitUnits_ok {lines : List ReceiptLine}
    (h : ∀ line ∈ lines, ∀ asset ∈ line.fields.assetId, t.tables.JustReceived asset) :
    Service.commitUnits ctx lines t = .ok () := by
  rw [Service.commitUnits, Service.execute_eq_ok]
  refine forM_eq_ok fun line hline => ?_
  cases hasset : line.fields.assetId with
  | none => rfl
  | some asset => exact checkPairs_of_justReceived (h line hline asset hasset)

/-- Entering a line is recording it; its transaction's checks cannot fail. -/
theorem Entering.addLine_iff {values : LineValues} {keys : LineKeys} {view : ReceiptView}
    (h : Entering ctx header t) : Service.addLine ctx header.id values keys t = .ok (view, t') ↔
      (∃ line, Service.recordLine ctx header values keys t = .ok (line, t')) ∧
        Service.getReceipt ctx t' header.id = .ok view := by
  simp only [Service.addLine, Service.constraints, Service.translating_eq_ok, bind_eq_ok,
    pure_eq_ok, Service.requireOpen, Service.ensure_eq_ok, exists_unit, h.lock, Except.ok.injEq,
    exists_eq_left', Prod.mk.injEq]
  constructor
  · rintro ⟨-, ⟨line, _⟩, hline, -, _, hview, -, rfl, rfl⟩
    exact ⟨⟨line, hline⟩, hview⟩
  · rintro ⟨⟨line, hline⟩, hview⟩
    obtain ⟨hentering, hmem, hunits⟩ := h.recordLine hline
    refine ⟨h.opened, (line, t'), hline, ?_, view, hview, ?_, rfl, rfl⟩
    · refine validateComplete_ok (fun other hother => ?_) fun id hid =>
        absurd hid (Option.not_mem_none id)
      obtain rfl := List.mem_singleton.mp hother
      exact completeLine_of_exact hentering.integrity hentering.exact hmem
    · refine commitUnits_ok fun other hother => ?_
      obtain rfl := List.mem_singleton.mp hother
      exact hunits

/-- Entering the lines of a delivery is recording them. -/
theorem Entering.addLines_iff {transactions : ℕ → ℕ} {keys : ℕ → LineKeys}
    {entries : List (LineValues × ℕ)} (h : Entering ctx header t) :
    Service.addLines ctx transactions header.id keys entries t = .ok t' ↔
      ∃ lines, Service.recordLines ctx header (entries.map fun entry => (entry.1, keys entry.2)) t =
        .ok (lines, t') := by
  induction entries generalizing t with
  | nil =>
      simp only [Service.addLines, List.foldlM_nil, List.map_nil, Service.recordLines, pure_eq_ok,
        Prod.mk.injEq, exists_and_right, exists_eq', true_and]
  | cons entry rest ih =>
      have hwithin := h.within (transactions (entry.2 + 1))
      have hcons : Service.addLines ctx transactions header.id keys (entry :: rest) t =
          Service.enterLine ctx transactions header.id keys t entry >>=
            Service.addLines ctx transactions header.id keys rest := rfl
      simp only [hcons, Service.enterLine, List.map_cons, Service.recordLines, bind_eq_ok,
        pure_eq_ok, Prod.mk.injEq]
      constructor
      · rintro ⟨middle, ⟨⟨view, _⟩, hadd, rfl⟩, hmore⟩
        obtain ⟨⟨line, hline⟩, -⟩ := hwithin.addLine_iff.mp hadd
        rw [recordLine_within] at hline
        obtain ⟨hentering, -, -⟩ := h.recordLine hline
        obtain ⟨lines, hlines⟩ := (ih hentering).mp hmore
        exact ⟨line :: lines, (line, _), hline, (lines, t'), hlines, rfl, rfl⟩
      · rintro ⟨_, ⟨line, middle⟩, hline, ⟨lines, _⟩, hlines, rfl, rfl⟩
        obtain ⟨hentering, -, -⟩ := h.recordLine hline
        obtain ⟨view, hview⟩ := getReceipt_ok hentering.found hentering.organization
        have hadd := hwithin.addLine_iff.mpr
          ⟨⟨line, (recordLine_within _ entry.1 (keys entry.2)).trans hline⟩, hview⟩
        exact ⟨middle, ⟨(view, middle), hadd, rfl⟩, (ih hentering).mpr ⟨lines, hlines⟩⟩

/-- All the lines of a delivery, with their units as they were just received. -/
theorem Entering.recordLines {items : List (LineValues × LineKeys)} {lines : List ReceiptLine}
    (h : Entering ctx header t)
    (hrun : Service.recordLines ctx header items t = .ok (lines, t')) :
    Entering ctx header t' ∧
      ∀ line ∈ lines, ∀ asset ∈ line.fields.assetId, t'.tables.JustReceived asset := by
  induction items generalizing t lines with
  | nil =>
      obtain ⟨rfl, rfl⟩ := Prod.mk.inj (pure_eq_ok.mp hrun)
      exact ⟨h, by simp⟩
  | cons item rest ih =>
      simp only [Service.recordLines, bind_eq_ok, pure_eq_ok] at hrun
      obtain ⟨⟨line, middle⟩, hline, ⟨others, _⟩, hrest, heq⟩ := hrun
      obtain ⟨rfl, rfl⟩ := Prod.mk.inj heq
      obtain ⟨hentering, -, hunit⟩ := h.recordLine hline
      obtain ⟨hlast, hunits⟩ := ih hentering hrest
      refine ⟨hlast, fun other hother asset hasset => ?_⟩
      rcases List.mem_cons.mp hother with rfl | hother
      · -- Its unit is one of those that the later units leave alone.
        exact (recordLines_kept (keptByUnits_justReceived asset) hentering.integrity hrest).tables
          (hunit asset hasset)
      · exact hunits other hother asset hasset

/-! ## Closing the population -/

/-- Reconciling an open receipt is closing its population; its check cannot fail. -/
theorem Entering.reconcileReceipt_iff {keys : ReconcileKeys} {view : ReceiptView}
    (h : Entering ctx header t) :
    Service.reconcileReceipt ctx header.id keys t = .ok (view, t') ↔
      Service.reconcile ctx header keys t = .ok t' ∧
        Service.getReceipt ctx t' header.id = .ok view := by
  simp only [Service.reconcileReceipt, Service.constraints, Service.translating_eq_ok, bind_eq_ok,
    pure_eq_ok, exists_unit, h.lock, Except.ok.injEq, exists_eq_left', Prod.mk.injEq]
  constructor
  · rintro ⟨_, hclose, -, _, hview, rfl, rfl⟩
    exact ⟨hclose, hview⟩
  · rintro ⟨hclose, hview⟩
    refine ⟨t', hclose, ?_, view, hview, rfl, rfl⟩
    refine validateComplete_ok (by simp) fun id hid => ?_
    obtain rfl := Option.mem_some_iff.mp hid
    exact completeReconciliation_of_reconcile h.integrity h.exact hclose

/-! ## Opening a receipt -/

/-- The receipt and its comparators, as both ways insert them. -/
def Opening (ctx : Context) (values : ReceiptValues) (keys : ReceiptKeys) (header : Receipt)
    (t bound : Tenant) : Prop :=
  ∃ actor received, currentAuthenticatedActor ctx.session = .ok actor ∧
    insertReceipt ctx
      { id := keys.receiptId, vendorPartyId := values.vendorPartyId, poId := values.poId
        dockLocationId := values.dockLocationId, packingReference := values.packingReference
        receivedAt := values.receivedAt, actorId := actor, occurredAt := values.receivedAt
        recordedAt := ctx.session.now } t = .ok (header, received) ∧
    (Service.receiptBindings values).foldlM (fun tenant binding => Service.bindComparator ctx header
      binding.1 binding.2 none (keys.comparatorId binding.1) tenant) received = .ok bound

section

variable {values : ReceiptValues} {keys : ReceiptKeys} {bound : Tenant}

/-- Into an opened receipt lines may be entered. -/
theorem Opening.entering (h : Opening ctx values keys header t bound) (hkeys : t.Integrity)
    (hkeyed : t.tables.Keyed) :
    header.id = keys.receiptId ∧ bound.Integrity ∧
      (ctx.session.organization = some bound.tables.orgId → Entering ctx header bound) := by
  obtain ⟨actor, received, -, hreceipt, hbind⟩ := h
  obtain ⟨hid, hcaptured, hopen, hexact⟩ := bound_of_insertReceipt hkeys hreceipt hbind
  have hgate : receivingGate ctx = .ok () := by
    simp only [insertReceipt, guardReceipt, bind_eq_ok, exists_unit] at hreceipt
    obtain ⟨_, ⟨hgate, -⟩, -⟩ := hreceipt
    exact hgate
  obtain ⟨hheader, hnew, rfl⟩ := insertReceipt_eq_ok hreceipt
  have hbinds : Bound header.id { t with receipts := t.receipts ++ [header] } bound :=
    Fallible.foldlM_rel (Bound header.id) (Bound.refl header.id) (fun h h' => h.trans h') hbind
      fun _ _ _ _ hrun => (bound_of_bindComparator hrun).1
  have hintegrity := Writes.integrity hcaptured.writes hkeys
  obtain ⟨rows, -, rfl⟩ := hbinds
  refine ⟨hid, hintegrity, fun horganization =>
    ⟨hintegrity, hkeyed, hexact, hopen, ?_, hgate, horganization⟩⟩
  refine find?_append_of_forall (fun other hother => ?_) (decide_eq_true rfl)
  rw [hid]
  exact decide_eq_false (hnew other hother)

/-- A receipt without lines yet. -/
theorem createReceipt_header_iff (hkeys : t.Integrity) (hkeyed : t.tables.Keyed)
    {view : ReceiptView} (transaction : ℕ) :
    Service.createReceipt (ctx.within transaction) { values with lines := [], reconcile := false }
        keys t = .ok (view, bound) ↔
      ∃ header, Opening ctx values keys header t bound ∧ Entering ctx header bound ∧
        Service.getReceipt ctx bound header.id = .ok view := by
  simp only [Service.createReceipt, Service.constraints, Service.translating_eq_ok, bind_eq_ok,
    Service.execute_eq_ok, pure_eq_ok, exists_unit, session_within, insertReceipt_within,
    bindComparator_within, getReceipt_within, commitUnits_within, List.zipIdx_nil, List.map_nil,
    Service.recordLines, Bool.false_eq_true, if_false, Prod.mk.injEq]
  constructor
  · rintro ⟨actor, hactor, ⟨header, received⟩, hreceipt, _, hbind, ⟨_, _⟩, ⟨rfl, rfl⟩, _, rfl, -,
      _, hview, -, rfl, rfl⟩
    have hopening : Opening ctx values keys header t _ := ⟨actor, received, hactor, hreceipt, hbind⟩
    refine ⟨header, hopening, (hopening.entering hkeys hkeyed).2.2 ?_, hview⟩
    exact organization_of_getReceipt hview
  · rintro ⟨header, ⟨actor, received, hactor, hreceipt, hbind⟩, -, hview⟩
    exact ⟨actor, hactor, (header, received), hreceipt, bound, hbind, ([], bound), rfl,
      bound, rfl, rfl, view, hview, rfl, rfl, rfl⟩

/-- A whole delivery: its transaction's checks cannot fail. -/
theorem createReceipt_reconciled_iff (hkeys : t.Integrity) (hkeyed : t.tables.Keyed)
    {view : ReceiptView} :
    Service.createReceipt ctx { values with reconcile := true } keys t = .ok (view, t') ↔
      ∃ header bound lines recorded, Opening ctx values keys header t bound ∧
        Entering ctx header bound ∧
        Service.recordLines ctx header
          (values.lines.zipIdx.map fun entry => (entry.1, keys.line entry.2)) bound =
            .ok (lines, recorded) ∧
        Service.reconcile ctx header keys.reconcile recorded = .ok t' ∧
        Service.getReceipt ctx t' header.id = .ok view := by
  simp only [Service.createReceipt, Service.constraints, Service.translating_eq_ok, bind_eq_ok,
    Service.execute_eq_ok, pure_eq_ok, exists_unit, if_true, Prod.mk.injEq]
  constructor
  · rintro ⟨actor, hactor, ⟨header, received⟩, hreceipt, bound, hbind, ⟨lines, recorded⟩, hlines,
      _, hclose, -, _, hview, -, rfl, rfl⟩
    have hopening : Opening ctx values keys header t bound :=
      ⟨actor, received, hactor, hreceipt, hbind⟩
    obtain ⟨-, hintegrity, hentering⟩ := hopening.entering hkeys hkeyed
    refine ⟨header, bound, lines, recorded, hopening, hentering ?_, hlines, hclose, hview⟩
    have hkept : Kept (fun tables => tables.orgId = bound.tables.orgId) bound _ :=
      (recordLines_kept (keptByUnits_orgId bound.tables.orgId) hintegrity hlines).trans
        (reconcile_kept hclose)
    exact (organization_of_getReceipt hview).trans (congrArg some (hkept.tables rfl))
  · rintro ⟨header, bound, lines, recorded, ⟨actor, received, hactor, hreceipt, hbind⟩, hentering,
      hlines, hclose, hview⟩
    obtain ⟨hrecorded, hunits⟩ := hentering.recordLines hlines
    obtain ⟨-, hmem⟩ := recordLines_mem hentering.integrity hlines
    have hcaptured := reconcile_captured hrecorded.integrity hclose
    have hintegrity := Writes.integrity hcaptured.writes hrecorded.integrity
    refine ⟨actor, hactor, (header, received), hreceipt, bound, hbind, (lines, recorded), hlines,
      t', hclose, ?_, view, hview, ?_, rfl, rfl⟩
    · refine validateComplete_ok (fun line hline => ?_) fun id hid => ?_
      · obtain ⟨hstored, hreceipt⟩ := Tenant.mem_linesOf.mp (hmem line hline)
        exact completeLine_of_exact hintegrity (hcaptured.exact hrecorded.exact)
          (Tenant.mem_linesOf.mpr ⟨Writes.mem_lines hcaptured.writes hstored, hreceipt⟩)
      · obtain rfl := Option.mem_some_iff.mp hid
        exact completeReconciliation_of_reconcile hrecorded.integrity hrecorded.exact hclose
    · refine commitUnits_ok fun line hline asset hasset => ?_
      have hkept : Kept (fun tables => tables.JustReceived asset) recorded t' :=
        reconcile_kept hclose
      exact hkept.tables (hunits line hline asset hasset)

/-- Where the keys hold, the delivery and its entries succeed alike and leave the same. -/
theorem receiveIncrementally_iff (hkeys : t.Integrity) (hkeyed : t.tables.Keyed)
    (transactions : ℕ → ℕ) {result : ReceiptView × Tenant} :
    Service.createReceipt ctx { values with reconcile := true } keys t = .ok result ↔
      Service.receiveIncrementally ctx transactions values keys t = .ok result := by
  obtain ⟨view, t'⟩ := result
  rw [createReceipt_reconciled_iff hkeys hkeyed]
  simp only [Service.receiveIncrementally, bind_eq_ok]
  constructor
  · rintro ⟨header, bound, lines, recorded, hopening, hentering, hlines, hclose, hview⟩
    obtain ⟨hid, -, -⟩ := hopening.entering hkeys hkeyed
    obtain ⟨first, hfirst⟩ := getReceipt_ok hentering.found hentering.organization
    obtain ⟨hrecorded, -⟩ := hentering.recordLines hlines
    refine ⟨(first, bound), ?_, recorded, ?_, ?_⟩
    · exact (createReceipt_header_iff hkeys hkeyed _).mpr ⟨header, hopening, hentering, hfirst⟩
    · rw [← hid]
      exact hentering.addLines_iff.mpr ⟨lines, hlines⟩
    · rw [← hid]
      exact (hrecorded.within _).reconcileReceipt_iff.mpr
        ⟨(reconcile_within _ keys.reconcile).trans hclose, hview⟩
  · rintro ⟨⟨first, bound⟩, hfirst, recorded, hlines, hclose⟩
    obtain ⟨header, hopening, hentering, -⟩ := (createReceipt_header_iff hkeys hkeyed _).mp hfirst
    obtain ⟨hid, -, -⟩ := hopening.entering hkeys hkeyed
    rw [← hid] at hlines hclose
    obtain ⟨lines, hlines⟩ := hentering.addLines_iff.mp hlines
    obtain ⟨hrecorded, -⟩ := hentering.recordLines hlines
    obtain ⟨hclose, hview⟩ := (hrecorded.within _).reconcileReceipt_iff.mp hclose
    rw [reconcile_within] at hclose
    exact ⟨header, bound, lines, recorded, hopening, hentering, hlines, hclose, hview⟩

end

end

/-- In every state that a tenant reaches, a delivery that is received at once and the same delivery
that is entered line by line and then reconciled succeed alike, and leave the same receipt, lines,
exceptions and Assets under the same keys. -/
theorem incrementalReceiving (posixSpace : Char → Bool) (orgId : Uuid) (catalog : Catalog)
    (requests : List (Context × ReceivingCall)) (ctx : Context) (transactions : ℕ → ℕ)
    (values : ReceiptValues) (keys : ReceiptKeys) (result : ReceiptView × Tenant) :
    let t := Machine.run (Tenant.step posixSpace) requests (Tenant.opened orgId catalog)
    Service.createReceipt ctx { values with reconcile := true } keys t = .ok result ↔
      Service.receiveIncrementally ctx transactions values keys t = .ok result := by
  intro t
  have haudited : t.Audited := Machine.run_invariant (Tenant.step posixSpace) Tenant.Audited
    (fun _ => True) (fun _ _ _ _ hrun hbefore => hbefore.step hrun) requests
    (Tenant.opened orgId catalog) (fun _ _ => trivial) (Tenant.opened_audited orgId catalog)
  exact receiveIncrementally_iff haudited.integrity haudited.tables.keyed transactions

end FleetOps
