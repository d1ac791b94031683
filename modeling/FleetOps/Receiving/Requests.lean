import FleetOps.Receiving.Frame

/-!
# Requests as statements

Each receiving request that succeeds is a chain of statements about one
receipt (`writes_of_addLine` and its like).  The functions that a request is
composed of are inverted here into what they leave in the tenant.
-/

namespace FleetOps

open Relation Keys

section

variable {ctx : Context} {t t' : Tenant} {header : Receipt}

/-! ## Comparators and exceptions -/

/-- `_bind_comparator` finds the comparator bound, or binds it. -/
theorem bindComparator_eq_ok {poLine : Uuid} {generation : ℕ} {correction : Option Uuid}
    {id : Uuid}
    (h : Service.bindComparator ctx header poLine generation correction id t = .ok t') :
    (t' = t ∧ ∃ c ∈ t.comparators, c.receiptId = header.id ∧ c.poLineId = poLine) ∨
      ∃ row, row.receiptId = header.id ∧ row.poLineId = poLine ∧
        row.introducedByCorrectionId = correction ∧
        (row.sourceGeneration = generation ∧
          generation = Tenant.generation t.purchaseOrderLineCorrections poLine) ∧
        t' = { t with comparators := t.comparators ++ [row] } ∧ Wrote header.id t t' := by
  simp only [Service.bindComparator, bind_eq_ok, Service.ensure_eq_ok, exists_unit] at h
  obtain ⟨-, h⟩ := h
  split at h
  · rename_i hbound
    exact .inl ⟨(pure_eq_ok.mp h).symm, by simpa using hbound⟩
  · simp only [bind_eq_ok, Service.ensure_eq_ok, Service.execute_eq_ok, exists_unit] at h
    obtain ⟨-, actor, -, hinsert⟩ := h
    have hwrote := wrote_of_insertComparator hinsert rfl
    obtain ⟨row', hguard, -, rfl⟩ := insertComparator_eq_ok hinsert
    obtain ⟨⟨_, -, -, rfl⟩, -, hgeneration, -⟩ := guardComparator_eq_ok hguard
    exact .inr ⟨_, rfl, rfl, rfl, ⟨rfl, hgeneration⟩, rfl, hwrote⟩

theorem writes_of_bindComparator {poLine : Uuid} {generation : ℕ} {correction : Option Uuid}
    {id : Uuid}
    (h : Service.bindComparator ctx header poLine generation correction id t = .ok t') :
    Writes header.id t t' := by
  rcases bindComparator_eq_ok h with ⟨rfl, -⟩ | ⟨_, -, -, -, -, -, hwrote⟩
  · exact .refl
  · exact .single hwrote

/-- Exceptions of a receipt with these keys were observed at its capture. -/
def Observed (receipt : Uuid) (keys : List ExceptionKey) (t t' : Tenant) : Prop :=
  ∃ rows : List ReceivingException, rows.map ReceivingException.key = keys ∧
    (∀ row ∈ rows, row.receiptId = receipt ∧ row.evaluationId = none) ∧
    t' = { t with exceptions := t.exceptions ++ rows
                  workflows := t.workflows ++ rows.map ReceivingException.opened }

theorem Observed.refl (receipt : Uuid) (t : Tenant) : Observed receipt [] t t :=
  ⟨[], rfl, by simp, by simp⟩

theorem Observed.trans {receipt : Uuid} {first second : List ExceptionKey} {t'' : Tenant}
    (hfirst : Observed receipt first t t') (hsecond : Observed receipt second t' t'') :
    Observed receipt (first ++ second) t t'' := by
  obtain ⟨rows, rfl, hrows, rfl⟩ := hfirst
  obtain ⟨more, rfl, hmore, rfl⟩ := hsecond
  refine ⟨rows ++ more, by simp, fun row hrow => ?_, by simp⟩
  exact (List.mem_append.mp hrow).elim (hrows row) (hmore row)

/-- `_exception`. -/
theorem exception_eq_ok {id : Uuid} {key : ExceptionKey}
    (h : Service.exception ctx header id key t = .ok t') :
    Observed header.id [key] t t' ∧ Wrote header.id t t' := by
  simp only [Service.exception, bind_eq_ok, Service.execute_eq_ok] at h
  obtain ⟨actor, -, hinsert⟩ := h
  have hwrote := wrote_of_insertException hinsert
  obtain ⟨row', hinserted⟩ := insertException_eq_ok hinsert
  obtain ⟨⟨_, rfl⟩, -⟩ := guardException_eq_ok hinserted.guarded
  obtain rfl := hinserted.after_eq
  exact ⟨⟨[_], rfl, by simp, rfl⟩, hwrote⟩

/-- A loop that observes some keys in each round observes all of them. -/
theorem foldlM_observed {α : Type} {body : Tenant → α → Service Tenant} (receipt : Uuid)
    (keys : α → List ExceptionKey) {items : List α} {start : Tenant}
    (hrun : items.foldlM body start = .ok t')
    (hbody : ∀ done before item after, Observed receipt done start before →
      body before item = .ok after →
      Observed receipt (keys item) before after ∧ Writes receipt before after) :
    Observed receipt (items.flatMap keys) start t' ∧ Writes receipt start t' := by
  refine Fallible.foldlM_invariant
    (fun done state => Observed receipt (done.flatMap keys) start state ∧
      Writes receipt start state) items start hrun ⟨Observed.refl receipt start, .refl⟩ ?_
  rintro done item rest before after - ⟨hobserved, hwrites⟩ hrun
  obtain ⟨hround, hmore⟩ := hbody _ before item after hobserved hrun
  refine ⟨?_, hwrites.trans hmore⟩
  simpa using hobserved.trans hround

/-! ## Lines -/

/-- What a line is compared with: the selected purchase order line, as it is in force. -/
def Tenant.selection (tenant : Tenant) (poLine : Option Uuid) : Option PurchaseOrderFields :=
  (poLine.bind tenant.purchaseOrderLine?).map PurchaseOrderLine.fields

/-- The kinds that are found when a line is captured. -/
def Tenant.capturedKinds (tenant : Tenant) (line : ReceiptLine) : List ExceptionType :=
  Service.lineKinds (tenant.selection line.fields.poLineId) line.fields
    (tenant.unreadable line.fields.assetId) (tenant.conflictOf line.fields)

/-- The exceptions that are stored when a line is captured. -/
def Tenant.capturedKeys (tenant : Tenant) (line : ReceiptLine) : List ExceptionKey :=
  (tenant.capturedKinds line).map (Service.lineKey line (tenant.conflictOf line.fields))

/-- `_comparator`: a selected purchase order line exists. -/
theorem comparator_eq_ok {poLine : Option Uuid} {comparator : Option PurchaseOrderFields}
    (h : Service.comparator t poLine = .ok comparator) :
    comparator = t.selection poLine ∧ (poLine.isSome → comparator.isSome) := by
  cases poLine with
  | none =>
      obtain rfl := pure_eq_ok.mp h
      exact ⟨rfl, by simp⟩
  | some id =>
      simp only [Service.comparator, bind_eq_ok, Service.fetch_eq_ok, pure_eq_ok] at h
      obtain ⟨line, hline, rfl⟩ := h
      simp [Tenant.selection, hline]

/-- `_line_exceptions`, for a line whose facts are those of the tenant. -/
theorem lineExceptions_eq_ok {line : ReceiptLine} {unreadable : Bool} {conflict : Option Uuid}
    {ids : ExceptionType → Uuid}
    (h : Service.lineExceptions ctx header line unreadable conflict ids t = .ok t')
    (hunreadable : t.unreadable line.fields.assetId = unreadable)
    (hconflict : t.conflictOf line.fields = conflict) :
    Observed header.id (t.capturedKeys line) t t' ∧ Writes header.id t t' := by
  simp only [Service.lineExceptions, bind_eq_ok] at h
  obtain ⟨comparator, hcomparator, hrun⟩ := h
  obtain ⟨rfl, -⟩ := comparator_eq_ok hcomparator
  subst hunreadable hconflict
  have hloop := foldlM_observed header.id
    (fun kind => [Service.lineKey line (t.conflictOf line.fields) kind]) hrun
    fun done before kind after _ hbody => ?_
  · rw [← List.map_eq_flatMap] at hloop
    exact hloop
  · obtain ⟨hobserved, hwrote⟩ := exception_eq_ok hbody
    exact ⟨hobserved, .single hwrote⟩

/-- A line was inserted, with the Asset that it created if it created one. -/
structure Inserted (receipt : Uuid) (line : ReceiptLine) (t t' : Tenant) : Prop where
  owner : line.receiptId = receipt
  checks : lineChecks line.fields
  tenant : t' = { t with tables := t'.tables, lines := t.lines ++ [line] }
  identifiers : ∃ more, t'.tables.identifiers = t.tables.identifiers ++ more ∧
    ∀ i ∈ more, ∀ asset ∈ t.tables.assets, asset.id ≠ i.assetId
  writes : Writes receipt t t'

/-- A stored line is the one that was observed, under the key that was drawn for it. -/
def ReceiptLine.Stores (line : ReceiptLine) (values : LineValues) (keys : LineKeys) : Prop :=
  line.id = keys.lineId ∧ line.fields.poLineId = values.poLineId

/-- A line that creates no Asset. -/
theorem insertPlainLine_eq_ok {values : LineValues} {conflict : Option Uuid} {keys : LineKeys}
    {line : ReceiptLine}
    (h : Service.insertPlainLine ctx header values conflict keys t = .ok (line, t')) :
    Inserted header.id line t t' ∧ line.Stores values keys ∧ t'.tables = t.tables ∧
      ∃ serialized, line.fields =
        { Service.plainFields values conflict with serialized := serialized } := by
  simp only [Service.insertPlainLine, bind_eq_ok, Service.execute_eq_ok] at h
  obtain ⟨actor, -, hinsert⟩ := h
  have hwrote := wrote_of_insertLine hinsert
  obtain ⟨hguard, -, -, hchecks, rfl⟩ := insertLine_eq_ok hinsert
  obtain ⟨_, item, hguarded⟩ := guardLine_eq_ok hguard
  obtain rfl := hguarded.row_eq
  exact ⟨⟨rfl, hchecks, rfl, ⟨[], by simp, by simp⟩, .single hwrote⟩, ⟨rfl, rfl⟩, rfl,
    item.serialized, rfl⟩

/-- An Asset without identifiers has no unreadable one. -/
theorem unreadable_of_forall_ne {tenant : Tenant} {asset : Option Uuid}
    (h : ∀ i ∈ tenant.tables.identifiers, some i.assetId ≠ asset) :
    tenant.unreadable asset = false := by
  refine List.any_eq_false.mpr fun i hi => ?_
  simp [h i hi]

/-- The line of a new unit is about the new Asset, which is unreadable if it was observed so. -/
theorem insertUnit_eq_ok {values : LineValues} {unit : UnitValues} {keys : LineKeys}
    {line : ReceiptLine}
    (hidentifiers : ∀ i ∈ t.tables.identifiers, ∃ a ∈ t.tables.assets, a.id = i.assetId)
    (h : createReceivedUnit ctx (Service.unitArgs header.id values unit keys) t = .ok (line, t')) :
    Inserted header.id line t t' ∧ line.Stores values keys ∧
      t'.unreadable line.fields.assetId = unit.identifier.value.isNone ∧
      t'.conflictOf line.fields = none := by
  obtain ⟨receipt, owner, performer, hreceived⟩ := createReceivedUnit_iff.mp h
  have hnew : ∀ asset ∈ t.tables.assets, asset.id ≠ keys.assetId := hreceived.admitted.asset.fresh
  have hreason := hreceived.admitted.identifier.readability
  let bundle := (Service.unitArgs header.id values unit keys).bundle receipt owner performer
    ctx.session.now
  have hunit : Wrote header.id t { t with tables := t.tables.receive bundle } :=
    .unit hnew rfl rfl rfl hreason
  have hline := wrote_of_insertLine hreceived.recorded
  obtain ⟨hguard, -, -, hchecks, rfl⟩ := insertLine_eq_ok hreceived.recorded
  obtain ⟨_, item, hguarded⟩ := guardLine_eq_ok hguard
  obtain rfl := hguarded.row_eq
  refine ⟨⟨rfl, hchecks, rfl, ⟨[bundle.identifier], rfl, ?_⟩, .tail (.single hunit) hline⟩,
    ⟨rfl, rfl⟩, ?_, rfl⟩
  · intro i hi other hother
    rw [List.mem_singleton.mp hi]
    exact hnew other hother
  · have hold : t.tables.identifiers.any (fun i => some i.assetId == some keys.assetId &&
        i.value.isNone && i.unreadableReason.isSome) = false := by
      refine unreadable_of_forall_ne fun i hi heq => ?_
      obtain ⟨a, ha, haid⟩ := hidentifiers i hi
      exact hnew a ha (haid.trans (Option.some.inj heq))
    simp only [Tenant.unreadable, AssetTables.receive, UnitArgs.bundle, UnitArgs.line,
      Service.unitArgs, List.any_append, hold, List.any_cons, List.any_nil, Bool.or_false,
      Bool.false_or, BEq.rfl, Bool.true_and]
    cases hvalue : unit.identifier.value with
    | none =>
        have hunreadable : unit.identifier.unreadableReason.isSome := hreason hvalue
        simp [hunreadable]
    | some value => rfl

/-- What `_record_line` inserts, with what it reports about the line. -/
theorem insertObservation_eq_ok {values : LineValues} {keys : LineKeys} {line : ReceiptLine}
    {unreadable : Bool} {conflict : Option Uuid}
    (hidentifiers : ∀ i ∈ t.tables.identifiers, ∃ a ∈ t.tables.assets, a.id = i.assetId)
    (h : Service.insertObservation ctx header values keys t =
      .ok ((line, t'), unreadable, conflict)) :
    Inserted header.id line t t' ∧ line.Stores values keys ∧
      t'.unreadable line.fields.assetId = unreadable ∧ t'.conflictOf line.fields = conflict := by
  cases hunit : values.unit with
  | none =>
      simp only [Service.insertObservation, hunit, bind_eq_ok, pure_eq_ok, Prod.mk.injEq] at h
      obtain ⟨_, hinsert, rfl, rfl, rfl⟩ := h
      obtain ⟨hinserted, hstores, -, _, hfields⟩ := insertPlainLine_eq_ok hinsert
      exact ⟨hinserted, hstores, by simp [hfields, Service.plainFields, Tenant.unreadable],
        by simp [hfields, Service.plainFields, Tenant.conflictOf]⟩
  | some unit =>
      simp only [Service.insertObservation, hunit, bind_eq_ok, Service.ensure_eq_ok,
        exists_unit] at h
      obtain ⟨-, h⟩ := h
      cases hknown : Service.knownConflict t unit with
      | none =>
          simp only [hknown, bind_eq_ok, Service.execute_eq_ok, pure_eq_ok, Prod.mk.injEq] at h
          obtain ⟨_, hinsert, rfl, rfl, rfl⟩ := h
          exact insertUnit_eq_ok hidentifiers hinsert
      | some asset =>
          simp only [hknown, bind_eq_ok, pure_eq_ok, Prod.mk.injEq] at h
          obtain ⟨_, hinsert, rfl, rfl, rfl⟩ := h
          obtain ⟨hinserted, hstores, htables, _, hfields⟩ := insertPlainLine_eq_ok hinsert
          refine ⟨hinserted, hstores, by simp [hfields, Service.plainFields, Tenant.unreadable], ?_⟩
          obtain ⟨value, hvalue, howner⟩ := Option.bind_eq_some_iff.mp hknown
          rw [← howner]
          simp [hfields, Service.plainFields, Tenant.conflictOf, hunit, hvalue,
            Tenant.identifierOwner, htables]

/-- Comparators were bound at a receipt's capture. -/
def Bound (receipt : Uuid) (t t' : Tenant) : Prop :=
  ∃ rows : List Comparator,
    (∀ row ∈ rows, row.receiptId = receipt ∧ row.introducedByCorrectionId = none) ∧
    t' = { t with comparators := t.comparators ++ rows }

theorem Bound.refl (receipt : Uuid) (t : Tenant) : Bound receipt t t := ⟨[], by simp, by simp⟩

theorem Bound.trans {receipt : Uuid} {t'' : Tenant} (hfirst : Bound receipt t t')
    (hsecond : Bound receipt t' t'') : Bound receipt t t'' := by
  obtain ⟨rows, hrows, rfl⟩ := hfirst
  obtain ⟨more, hmore, rfl⟩ := hsecond
  exact ⟨rows ++ more, fun row hrow => (List.mem_append.mp hrow).elim (hrows row) (hmore row),
    by simp⟩

theorem bound_of_bindComparator {poLine : Uuid} {generation : ℕ} {id : Uuid}
    (h : Service.bindComparator ctx header poLine generation none id t = .ok t') :
    Bound header.id t t' ∧ Writes header.id t t' := by
  refine ⟨?_, writes_of_bindComparator h⟩
  rcases bindComparator_eq_ok h with ⟨rfl, -⟩ | ⟨row, hreceipt, -, hnone, -, rfl, -⟩
  · exact .refl header.id t'
  · exact ⟨[row], by simp [hreceipt, hnone], rfl⟩

/-- A line's own comparator is bound. -/
theorem bindSelected_eq_ok {values : LineValues} {id : Uuid}
    (h : Service.bindSelected ctx header values id t = .ok t') :
    Bound header.id t t' ∧ Writes header.id t t' := by
  cases hpo : values.poLineId with
  | none =>
      simp only [Service.bindSelected, hpo, pure_eq_ok] at h
      exact h ▸ ⟨.refl header.id t, .refl⟩
  | some poLine =>
      simp only [Service.bindSelected, hpo] at h
      exact bound_of_bindComparator h

/-- The stages of `_record_line`: the comparator is bound, the line is inserted, and what it shows is
observed. -/
structure LineRecorded (ctx : Context) (header : Receipt) (values : LineValues) (keys : LineKeys)
    (line : ReceiptLine) (t bound inserted t' : Tenant) : Prop where
  selection : Service.bindSelected ctx header values keys.comparatorId t = .ok bound
  binding : Bound header.id t bound
  binds : Writes header.id t bound
  observation : Service.insertObservation ctx header values keys bound =
    .ok ((line, inserted), inserted.unreadable line.fields.assetId, inserted.conflictOf line.fields)
  insertion : Inserted header.id line bound inserted
  stores : line.Stores values keys
  observed : Observed header.id (inserted.capturedKeys line) inserted t'
  writes : Writes header.id t t'

/-- `_record_line`. -/
theorem recordLine_eq_ok {values : LineValues} {keys : LineKeys} {line : ReceiptLine}
    (hkeys : t.Integrity) (h : Service.recordLine ctx header values keys t = .ok (line, t')) :
    ∃ bound inserted, LineRecorded ctx header values keys line t bound inserted t' := by
  simp only [Service.recordLine, bind_eq_ok, Service.fetch_eq_ok, Service.ensure_eq_ok, pure_eq_ok,
    exists_unit, Prod.mk.injEq] at h
  obtain ⟨bound, hbind, item, -, -, -, ⟨⟨_, inserted⟩, _, _⟩, hinsert, _, hrun, rfl, rfl⟩ := h
  obtain ⟨hbound, hbinds⟩ := bindSelected_eq_ok hbind
  have hidentifiers := (Writes.integrity hbinds hkeys).identifierAsset
  obtain ⟨hinserted, hstores, rfl, rfl⟩ := insertObservation_eq_ok hidentifiers hinsert
  obtain ⟨hobserved, hwrites⟩ := lineExceptions_eq_ok hrun rfl rfl
  exact ⟨bound, inserted,
    { selection := hbind, binding := hbound, binds := hbinds, observation := hinsert
      insertion := hinserted, stores := hstores, observed := hobserved
      writes := (hbinds.trans hinserted.writes).trans hwrites }⟩

theorem writes_of_recordLine {values : LineValues} {keys : LineKeys} {line : ReceiptLine}
    (hkeys : t.Integrity) (h : Service.recordLine ctx header values keys t = .ok (line, t')) :
    Writes header.id t t' := by
  obtain ⟨_, _, hrecorded⟩ := recordLine_eq_ok hkeys h
  exact hrecorded.writes

/-! ## Reconciliation -/

/-- The quantity exceptions that are stored when a receipt is reconciled. -/
def Tenant.quantityKeys (tenant : Tenant) (receipt : Uuid) (comparator : PurchaseOrderLine) :
    List ExceptionKey :=
  (quantityType comparator (tenant.arrivals receipt comparator.id)).toList.map
    (Service.quantityKey comparator.id)

/-- The conclusion on one comparator. -/
theorem concludeQuantity_eq_ok {ids : Uuid → Uuid} {comparator : PurchaseOrderLine}
    (h : Service.concludeQuantity ctx header ids t comparator = .ok t') :
    Observed header.id (t.quantityKeys header.id comparator) t t' ∧ Writes header.id t t' := by
  simp only [Service.concludeQuantity] at h
  simp only [Tenant.quantityKeys, quantityType]
  by_cases hmixed : mixedUnits comparator.fields.uom (t.arrivals header.id comparator.id) = true
  · rw [if_pos hmixed] at h
    obtain rfl := pure_eq_ok.mp h
    rw [if_pos (.inl hmixed)]
    exact ⟨Observed.refl header.id t, .refl⟩
  rw [if_neg hmixed] at h
  by_cases hequal : totalIn comparator.fields.uom (t.arrivals header.id comparator.id) =
      comparator.fields.quantity
  · rw [if_neg (not_not.mpr hequal)] at h
    obtain rfl := pure_eq_ok.mp h
    rw [if_pos (.inr hequal)]
    exact ⟨Observed.refl header.id t, .refl⟩
  · rw [if_pos hequal] at h
    rw [if_neg (not_or.mpr ⟨hmixed, hequal⟩)]
    obtain ⟨hobserved, hwrote⟩ := exception_eq_ok h
    refine ⟨?_, .single hwrote⟩
    split at hobserved <;> simp [*]

/-- `_reconcile`: the population is closed, and its quantities are concluded on. -/
theorem reconcile_eq_ok {keys : ReconcileKeys}
    (h : Service.reconcile ctx header keys t = .ok t') :
    ∃ row, row.receiptId = header.id ∧ ¬t.reconciled header.id ∧
      Observed header.id ((t.boundLines header.id).flatMap (t.quantityKeys header.id))
        { t with reconciliations := t.reconciliations ++ [row] } t' ∧ Writes header.id t t' := by
  simp only [Service.reconcile, bind_eq_ok, Service.execute_eq_ok, exists_unit] at h
  obtain ⟨-, actor, -, closed, hinsert, hrun⟩ := h
  have hwrote := wrote_of_insertReconciliation hinsert
  obtain ⟨row, hreceipt, -, hopen, rfl⟩ := insertReconciliation_eq_ok hinsert
  obtain ⟨hobserved, hwrites⟩ := foldlM_observed header.id
    (t.quantityKeys header.id) hrun fun done before comparator after hbefore hbody => by
      -- The exceptions observed so far change neither lines nor purchase orders.
      obtain ⟨rows, -, -, rfl⟩ := hbefore
      exact concludeQuantity_eq_ok hbody
  exact ⟨row, hreceipt, hopen, hobserved, (Relation.ReflTransGen.single hwrote).trans hwrites⟩

end

end FleetOps
