import FleetOps.Receiving.Arrivals
import FleetOps.Receiving.Exactness

/-!
# What new units keep

A request that records lines changes the Asset tables by creating units.  What
every unit keeps of the tables (`KeptByUnits`), every such request keeps.  Among
it are the tables' keys and, for a unit that has only just been received, its
unbroken history: the check of that history, which is deferred to the commit, is
passed whenever it is made (`checkPairs_of_justReceived`).
-/

namespace FleetOps

open Amendment Keys

/-! ## Units -/

/-- Creating a unit keeps it. -/
def KeptByUnits (inv : AssetTables → Prop) : Prop :=
  ∀ (ctx : Context) (items : List Item) (args : UnitArgs) (receipt : Receipt)
    (owner performer : Uuid) (tables after : AssetTables),
    insertReceivedAsset ctx items args receipt owner performer tables = .ok after →
      inv tables → inv after

section

variable {tables after : AssetTables}

theorem AssetTables.rowsFor_receive_other {b : Bundle} (hb : b.Complete) {asset : Uuid}
    (hne : b.asset.id ≠ asset) (k : HistoryClass) :
    (tables.receive b).rowsFor k asset = tables.rowsFor k asset := by
  by_cases hk : k = .transition
  · subst hk
    rw [AssetTables.rowsFor, AssetTables.history_receive]
    refine filter_append_of_forall fun row hrow => ?_
    rw [List.mem_singleton.mp hrow]
    exact decide_eq_false (hb.creation.1 ▸ hne)
  · rw [AssetTables.rowsFor, AssetTables.history_receive_of_ne tables b hk]
    rfl

/-- Creating a unit keeps the keys. -/
theorem keptByUnits_keyed : KeptByUnits AssetTables.Keyed := by
  intro ctx items args receipt owner performer tables after hinsert hkeyed
  obtain ⟨hadmitted, rfl⟩ := insertReceivedAsset_eq_ok hinsert
  exact hkeyed.receive (args.bundle_complete receipt owner performer ctx.session.now)
    hadmitted.asset.fresh hadmitted.identifier.serial

theorem keptByUnits_orgId (org : Uuid) : KeptByUnits fun tables => tables.orgId = org := by
  intro ctx items args receipt owner performer tables after hinsert horg
  obtain ⟨-, rfl⟩ := insertReceivedAsset_eq_ok hinsert
  exact horg

/-- The Asset exists, and its one transition is its creation. -/
structure AssetTables.JustReceived (tables : AssetTables) (asset : Uuid) : Prop where
  row : ∃ row ∈ tables.assets, row.id = asset
  history : ∃ creation : HistoryRow AssetState, tables.rowsFor .transition asset = [creation] ∧
    creation.role = .none ∧ creation.root = none ∧ creation.pairId = none ∧
    creation.generation = 0 ∧ creation.correctionOccurredAt = none ∧
    creation.evidenceRef = none ∧ creation.toFact = some .received

/-- Another unit is another Asset. -/
theorem keptByUnits_justReceived (asset : Uuid) :
    KeptByUnits fun tables => tables.JustReceived asset := by
  intro ctx items args receipt owner performer tables after hinsert h
  obtain ⟨hadmitted, rfl⟩ := insertReceivedAsset_eq_ok hinsert
  have hcomplete := args.bundle_complete receipt owner performer ctx.session.now
  obtain ⟨row, hrow, rfl⟩ := h.row
  refine ⟨⟨row, List.mem_append_left _ hrow, rfl⟩, ?_⟩
  rw [AssetTables.rowsFor_receive_other hcomplete (hadmitted.asset.fresh row hrow).symm]
  exact h.history

/-- The unit that was just inserted. -/
theorem justReceived_of_insertReceivedAsset {ctx : Context} {items : List Item} {args : UnitArgs}
    {receipt : Receipt} {owner performer : Uuid} (hkeys : tables.Referential)
    (h : insertReceivedAsset ctx items args receipt owner performer tables = .ok after) :
    after.JustReceived args.assetId := by
  have hhistory := history_of_insertReceivedAsset hkeys h
  obtain ⟨-, rfl⟩ := insertReceivedAsset_eq_ok h
  refine ⟨⟨_, List.mem_append_right _ (List.mem_singleton_self _), rfl⟩,
    args.creation receipt performer ctx.session.now, ?_, rfl, rfl, rfl, rfl, rfl, rfl, rfl⟩
  exact (hhistory.classes .transition).rows.trans (by simp [rowsOf])

/-- The history of a unit that was just received is well formed. -/
theorem checkPairs_of_justReceived {ctx : Context} {asset : Uuid} (h : tables.JustReceived asset) :
    checkPairs ctx .transition asset tables = .ok () := by
  obtain ⟨creation, hrows, hrole, hroot, hpair, hgeneration, hcorrection, hevidence, hstate⟩ :=
    h.history
  have hown : ∀ row : HistoryRow AssetState, row ∈ tables.history .transition →
      row.assetId = asset → row = creation := by
    intro row hrow hasset
    have hmem : row ∈ tables.rowsFor .transition asset :=
      List.mem_filter.mpr ⟨hrow, decide_eq_true hasset⟩
    rw [hrows] at hmem
    exact List.mem_singleton.mp hmem
  have hpurpose : evidencePurpose creation = none := by
    simp [evidencePurpose, hstate]
  simp only [checkPairs, require_eq_ok]
  refine ⟨fun hmem => ?_, fun _ hmem => ?_⟩
  · obtain ⟨row, hrow, hasset⟩ := List.mem_map.mp hmem
    obtain ⟨hrow, hbad⟩ := List.mem_filter.mp hrow
    obtain rfl := hown row hrow hasset
    simp [malformedRow, malformedReversal, incoherentSource, hrole, hroot, hpair, hgeneration,
      hcorrection] at hbad
  · obtain ⟨row, hrow, hasset⟩ := List.mem_map.mp hmem
    obtain ⟨hrow, hbad⟩ := List.mem_filter.mp hrow
    obtain rfl := hown row hrow hasset
    simp [hrole, hevidence, hpurpose] at hbad

end

/-! ## Requests that record lines -/

/-- Nothing is corrected, and of the Asset tables this stays true. -/
structure Kept (inv : AssetTables → Prop) (t t' : Tenant) : Prop where
  tables : inv t.tables → inv t'.tables
  lineCorrections : t'.lineCorrections = t.lineCorrections
  orderCorrections : t'.purchaseOrderLineCorrections = t.purchaseOrderLineCorrections

theorem Kept.trans {inv : AssetTables → Prop} {t t' t'' : Tenant} (h : Kept inv t t')
    (h' : Kept inv t' t'') : Kept inv t t'' :=
  ⟨fun hinv => h'.tables (h.tables hinv), h'.lineCorrections.trans h.lineCorrections,
    h'.orderCorrections.trans h.orderCorrections⟩

section

variable {inv : AssetTables → Prop} {ctx : Context} {header : Receipt} {t t' : Tenant}

theorem insertObservation_kept (hunits : KeptByUnits inv) {values : LineValues} {keys : LineKeys}
    {line : ReceiptLine} {unreadable : Bool} {conflict : Option Uuid}
    (h : Service.insertObservation ctx header values keys t =
      .ok ((line, t'), unreadable, conflict)) (hinv : inv t.tables) : inv t'.tables := by
  cases hunit : values.unit with
  | none =>
      simp only [Service.insertObservation, hunit, bind_eq_ok, pure_eq_ok, Prod.mk.injEq] at h
      obtain ⟨_, hinsert, rfl, -, -⟩ := h
      obtain ⟨-, -, htables, -⟩ := insertPlainLine_eq_ok hinsert
      rwa [htables]
  | some unit =>
      simp only [Service.insertObservation, hunit, bind_eq_ok, Service.ensure_eq_ok,
        exists_unit] at h
      obtain ⟨-, h⟩ := h
      cases hknown : Service.knownConflict t unit with
      | none =>
          simp only [hknown, bind_eq_ok, Service.execute_eq_ok, pure_eq_ok, Prod.mk.injEq] at h
          obtain ⟨_, hinsert, rfl, -, -⟩ := h
          obtain ⟨receipt, owner, performer, hunit⟩ := createReceivedUnit_eq_ok hinsert
          exact hunits _ _ _ _ _ _ _ _ hunit hinv
      | some owner =>
          simp only [hknown, bind_eq_ok, pure_eq_ok, Prod.mk.injEq] at h
          obtain ⟨_, hinsert, rfl, -, -⟩ := h
          obtain ⟨-, -, htables, -⟩ := insertPlainLine_eq_ok hinsert
          rwa [htables]

theorem Bound.kept {receipt : Uuid} (h : Bound receipt t t') : Kept inv t t' := by
  obtain ⟨comparators, -, rfl⟩ := h
  exact ⟨id, rfl, rfl⟩

theorem Observed.kept {receipt : Uuid} {keys : List ExceptionKey} (h : Observed receipt keys t t') :
    Kept inv t t' := by
  obtain ⟨rows, -, -, rfl⟩ := h
  exact ⟨id, rfl, rfl⟩

theorem Inserted.kept {receipt : Uuid} {line : ReceiptLine} (h : Inserted receipt line t t')
    (htables : inv t.tables → inv t'.tables) : Kept inv t t' := by
  refine ⟨htables, h.lineCorrections, ?_⟩
  rw [h.tenant]

theorem recordLine_kept (hunits : KeptByUnits inv) {values : LineValues} {keys : LineKeys}
    {line : ReceiptLine} (hkeys : t.Integrity)
    (h : Service.recordLine ctx header values keys t = .ok (line, t')) : Kept inv t t' := by
  obtain ⟨bound, inserted, hrecorded⟩ := recordLine_eq_ok hkeys h
  have hinserted := hrecorded.insertion.kept (insertObservation_kept hunits hrecorded.observation)
  exact (hrecorded.binding.kept.trans hinserted).trans hrecorded.observed.kept

theorem recordLines_kept (hunits : KeptByUnits inv) {items : List (LineValues × LineKeys)}
    {lines : List ReceiptLine} (hkeys : t.Integrity)
    (h : Service.recordLines ctx header items t = .ok (lines, t')) : Kept inv t t' := by
  induction items generalizing t lines with
  | nil =>
      obtain ⟨-, rfl⟩ := Prod.mk.inj (pure_eq_ok.mp h)
      exact ⟨id, rfl, rfl⟩
  | cons item rest ih =>
      simp only [Service.recordLines, bind_eq_ok, pure_eq_ok] at h
      obtain ⟨⟨line, middle⟩, hline, ⟨_, _⟩, hrest, heq⟩ := h
      obtain ⟨-, rfl⟩ := Prod.mk.inj heq
      have hwrites := writes_of_recordLine hkeys hline
      exact (recordLine_kept hunits hkeys hline).trans (ih (Writes.integrity hwrites hkeys) hrest)

theorem reconcile_kept {keys : ReconcileKeys} (h : Service.reconcile ctx header keys t = .ok t') :
    Kept inv t t' := by
  obtain ⟨row, -, -, hobserved, -⟩ := reconcile_eq_ok h
  have hclosed : Kept inv t { t with reconciliations := t.reconciliations ++ [row] } :=
    ⟨id, rfl, rfl⟩
  exact hclosed.trans hobserved.kept

theorem reconcileReceipt_kept {receipt : Uuid} {keys : ReconcileKeys} {view : ReceiptView}
    (h : Service.reconcileReceipt ctx receipt keys t = .ok (view, t')) : Kept inv t t' := by
  obtain ⟨_, -, hrun⟩ := reconcileReceipt_stages h
  exact reconcile_kept hrun

theorem addLine_kept (hunits : KeptByUnits inv) {receipt : Uuid} {values : LineValues}
    {keys : LineKeys} {view : ReceiptView} (hkeys : t.Integrity)
    (h : Service.addLine ctx receipt values keys t = .ok (view, t')) : Kept inv t t' := by
  obtain ⟨_, _, hadded⟩ := addLine_stages h
  exact recordLine_kept hunits hkeys hadded.recorded

theorem createReceipt_kept (hunits : KeptByUnits inv) {values : ReceiptValues} {keys : ReceiptKeys}
    {view : ReceiptView} (hkeys : t.Integrity)
    (h : Service.createReceipt ctx values keys t = .ok (view, t')) : Kept inv t t' := by
  obtain ⟨row, header, lines, received, bound, recorded, hcreated⟩ := createReceipt_stages h
  obtain ⟨-, hcaptured, -, -⟩ := bound_of_insertReceipt hkeys hcreated.receipt hcreated.bindings
  have hbound : Kept inv t bound := by
    obtain ⟨-, -, rfl⟩ := insertReceipt_eq_ok hcreated.receipt
    obtain ⟨_, -, rfl⟩ := Fallible.foldlM_rel (Bound header.id) (Bound.refl header.id)
      (fun h h' => h.trans h') hcreated.bindings fun _ _ _ _ hrun => (bound_of_bindComparator hrun).1
    exact ⟨id, rfl, rfl⟩
  have hrecorded := hbound.trans
    (recordLines_kept hunits (Writes.integrity hcaptured.writes hkeys) hcreated.lines)
  rcases hcreated.close with rfl | hreconcile
  · exact hrecorded
  · exact hrecorded.trans (reconcile_kept hreconcile)

theorem receiveScan_kept (hunits : KeptByUnits inv) {receipt : Uuid} {values : LineValues}
    {reconcile : Bool} {keys : ScanKeys} {result : ScanResult} (hkeys : t.Integrity)
    (h : Service.receiveScan ctx receipt values reconcile keys t = .ok (result, t')) :
    Kept inv t t' := by
  obtain ⟨_, added, hadd, -, rfl | ⟨_, hclose⟩⟩ := receiveScan_eq_ok h
  · exact addLine_kept hunits hkeys hadd
  · exact (addLine_kept hunits hkeys hadd).trans (reconcileReceipt_kept hclose)

end

end FleetOps
