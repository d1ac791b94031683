import FleetOps.Receiving.Arrivals
import FleetOps.Receiving.Exactness

/-!
# Units are created once

What the lines of committed requests came to is kept by every later request:
Assets keep the rows that they began with, and no request gives an Asset a
second line.  `unitsReceivedOnce` is about runs of racing requests.
-/

namespace FleetOps

open Keys

/-! ## What an Asset began with -/

/-- The Asset has one row, one identifier, one witness of each kind, and begins with its creation. -/
structure AssetTables.Holds (tables : AssetTables) (asset : Uuid) : Prop where
  row : ∃ row, tables.assets.filter (·.id = asset) = [row]
  creation : ∃ creation rest, tables.rowsFor .transition asset = creation :: rest ∧
    creation.resultVersion = 1 ∧ creation.fromFact = none ∧ creation.toFact = some .received
  facts : ∃ facts, tables.initialFacts.filter (·.assetId = asset) = [facts]
  unassigned : ∃ facts, tables.initialAssignmentFacts.filter (·.assetId = asset) = [facts]
  identifier : ∃ identifier, tables.identifiers.filter (·.assetId = asset) = [identifier]

section

variable {tables after : AssetTables}

/-- Of rows that are of older Assets, a new one is the only one that is of a new Asset. -/
theorem filter_concat_of_refers {ρ : Type} {rows : List ρ} {assets : List AssetRow} {key : ρ → Uuid}
    {row : ρ} {asset : Uuid} (hrows : Refers rows assets fun r a => a.id = key r)
    (hnew : ∀ a ∈ assets, a.id ≠ asset) (hrow : key row = asset) :
    (rows ++ [row]).filter (fun r => decide (key r = asset)) = [row] := by
  have hold : rows.filter (fun r => decide (key r = asset)) = [] := by
    refine List.filter_eq_nil_iff.mpr fun r hr heq => ?_
    obtain ⟨a, ha, haid⟩ := hrows r hr
    exact hnew a ha (haid.trans (of_decide_eq_true heq))
  rw [List.filter_append, hold]
  simp [hrow]

/-- A new unit is whole. -/
theorem AssetTables.Keyed.holds_receive (hkeyed : tables.Keyed) {b : Bundle} (hb : b.Complete)
    (hnew : ∀ asset ∈ tables.assets, asset.id ≠ b.asset.id) :
    (tables.receive b).Holds b.asset.id := by
  constructor
  case row =>
    have hself : Refers tables.assets tables.assets fun r a => a.id = r.id :=
      fun row hrow => ⟨row, hrow, rfl⟩
    exact ⟨b.asset, filter_concat_of_refers hself hnew rfl⟩
  case creation =>
    refine ⟨b.creation, [], ?_, hb.creation.2.1, hb.creation.2.2.2⟩
    rw [AssetTables.rowsFor, AssetTables.history_receive]
    exact filter_concat_of_refers (hkeyed.referential.history .transition) hnew hb.creation.1
  case facts =>
    exact ⟨b.facts, filter_concat_of_refers hkeyed.referential.initialFacts hnew hb.facts.1⟩
  case unassigned =>
    exact ⟨b.unassigned, filter_concat_of_refers hkeyed.unassigned hnew hb.unassigned⟩
  case identifier =>
    exact ⟨b.identifier, filter_concat_of_refers hkeyed.identifiers hnew hb.identifier⟩

/-- Another Asset's bundle changes nothing of what an Asset began with. -/
theorem AssetTables.Holds.receive {asset : Uuid} (h : tables.Holds asset) {b : Bundle}
    (hb : b.Complete) (hne : b.asset.id ≠ asset) : (tables.receive b).Holds asset := by
  have hkept : ∀ {ρ : Type} {rows : List ρ} {row : ρ} {key : ρ → Uuid}, key row = b.asset.id →
      (rows ++ [row]).filter (fun r => decide (key r = asset)) =
        rows.filter (fun r => decide (key r = asset)) := fun hrow =>
    filter_append_of_forall fun r hr => by simpa [List.mem_singleton.mp hr, hrow] using hne
  constructor
  case row => exact h.row.imp fun row hrow => (hkept rfl).trans hrow
  case creation =>
    have hrows : (tables.receive b).rowsFor .transition asset =
        tables.rowsFor .transition asset := by
      rw [AssetTables.rowsFor, AssetTables.history_receive]
      exact hkept hb.creation.1
    exact hrows ▸ h.creation
  case facts => exact h.facts.imp fun row hrow => (hkept hb.facts.1).trans hrow
  case unassigned => exact h.unassigned.imp fun row hrow => (hkept hb.unassigned).trans hrow
  case identifier => exact h.identifier.imp fun row hrow => (hkept hb.identifier).trans hrow

/-- A call on an Asset records rows of it, and updates its row. -/
theorem perform_record {request : Context × Call} (h : perform request tables = .ok after) :
    ∃ k, ∃ rows : List (HistoryRow (Fact k)), ∃ asset, after = tables.record k rows asset ∧
      (∃ a ∈ tables.assets, a.id = asset.id) ∧ ∀ row ∈ rows, row.assetId = asset.id := by
  rcases perform_cases h with ⟨-, asset, row, hrecorded⟩ | ⟨k, args, -, asset, original, head,
    reversal, corrected, hamended⟩
  · obtain ⟨org, hfound⟩ := hrecorded.found
    obtain ⟨projected, hprojected, rfl⟩ := hrecorded.after_eq
    have hmem := List.mem_of_find?_eq_some (asset?_eq_some.mp hfound).2
    have hid := (setProjection_frame hprojected).1
    exact ⟨_, [row], _, rfl, ⟨asset, hmem, hid.symm⟩, by simpa [hid] using hrecorded.row_asset⟩
  · obtain ⟨org, hfound⟩ := hamended.found
    obtain ⟨actor, now, projected, hprojected, rfl⟩ := hamended.after_eq
    have hmem := List.mem_of_find?_eq_some (asset?_eq_some.mp hfound).2
    have hid : projected.id = asset.id := (setProjection_frame hprojected).1
    exact ⟨k, [reversal, corrected], _, rfl, ⟨asset, hmem, hid.symm⟩, fun row hrow =>
      (hamended.rows_asset row hrow).trans hid.symm⟩

/-- Updated rows keep their ids. -/
theorem AssetTables.ids_record (tables : AssetTables) {k : HistoryClass}
    (rows : List (HistoryRow (Fact k))) (asset : AssetRow) :
    (tables.record k rows asset).assets.map AssetRow.id = tables.assets.map AssetRow.id := by
  unfold AssetTables.record AssetTables.putAsset AssetTables.append
  rw [List.map_map]
  refine List.map_congr_left fun a _ => ?_
  by_cases ha : a.id = asset.id <;> simp [ha]

/-- What an Asset began with stays with it. -/
theorem AssetTables.Holds.perform {asset : Uuid} (h : tables.Holds asset)
    {request : Context × Call} (hrun : perform request tables = .ok after) : after.Holds asset := by
  obtain ⟨k, rows, updated, rfl, -, -⟩ := perform_record hrun
  constructor
  case row =>
    obtain ⟨row, hrow⟩ := h.row
    unfold AssetTables.record AssetTables.putAsset AssetTables.append
    rw [List.filter_map]
    have hfilter : tables.assets.filter ((fun a : AssetRow => decide (a.id = asset)) ∘
        fun a => if a.id = updated.id then updated else a) = [row] := by
      rw [← hrow]
      refine List.filter_congr fun a _ => ?_
      by_cases ha : a.id = updated.id <;> simp [ha]
    rw [hfilter]
    exact ⟨_, rfl⟩
  case creation =>
    obtain ⟨creation, rest, hrows, hcreation⟩ := h.creation
    by_cases hk : k = .transition
    · subst hk
      rw [AssetTables.rowsFor_record, hrows]
      exact ⟨creation, _, rfl, hcreation⟩
    · rw [AssetTables.rowsFor_record_of_ne (Ne.symm hk)]
      exact ⟨creation, rest, hrows, hcreation⟩
  case facts => exact h.facts
  case unassigned => exact h.unassigned
  case identifier => exact h.identifier

/-- Calls on Assets keep the keys. -/
theorem AssetTables.Keyed.perform (h : tables.Keyed) {request : Context × Call}
    (hrun : perform request tables = .ok after) : after.Keyed := by
  obtain ⟨k, rows, updated, rfl, hupdated, hrows⟩ := perform_record hrun
  have hkept : ∀ {id : Uuid}, (∃ a ∈ tables.assets, a.id = id) →
      ∃ a ∈ (tables.record k rows updated).assets, a.id = id := AssetTables.exists_record
  constructor
  case assets =>
    unfold Distinct
    rw [tables.ids_record rows updated]
    exact h.assets
  case serials => exact h.serials
  case referential =>
    refine ⟨fun other row hrow => ?_, fun facts hfacts => hkept (h.referential.initialFacts _ hfacts)⟩
    by_cases hk : other = k
    · subst hk
      rw [AssetTables.history_record] at hrow
      rcases List.mem_append.mp hrow with hold | hnew
      · exact hkept (h.referential.history other row hold)
      · exact hkept (hrows row hnew ▸ hupdated)
    · rw [AssetTables.history_record_of_ne hk] at hrow
      exact hkept (h.referential.history other row hrow)
  case unassigned => exact fun row hrow => hkept (h.unassigned row hrow)
  case identifiers => exact fun row hrow => hkept (h.identifiers row hrow)

end

/-! ## Requests -/

/-- The receipt and the observations of a request that records lines. -/
def ReceivingCall.arriving : ReceivingCall → Option (Uuid × List (LineValues × LineKeys))
  | .createReceipt values keys => some (keys.receiptId, Service.receiptItems values keys)
  | .addLine receiptId values keys => some (receiptId, [(values, keys)])
  | .receiveScan receiptId values _ keys => some (receiptId, [(values, keys.line)])
  | _ => none

section

variable {ctx : Context} {t t' : Tenant}

theorem reconcile_quiet {header : Receipt} {keys : ReconcileKeys}
    (h : Service.reconcile ctx header keys t = .ok t') :
    t'.lines = t.lines ∧ t'.tables = t.tables := by
  obtain ⟨row, -, -, ⟨rows, -, -, rfl⟩, -⟩ := reconcile_eq_ok h
  exact ⟨rfl, rfl⟩

theorem reconcileReceipt_quiet {receipt : Uuid} {keys : ReconcileKeys} {view : ReceiptView}
    (h : Service.reconcileReceipt ctx receipt keys t = .ok (view, t')) :
    t'.lines = t.lines ∧ t'.tables = t.tables := by
  obtain ⟨_, -, hrun⟩ := reconcileReceipt_stages h
  exact reconcile_quiet hrun

theorem addLine_arrivals {receipt : Uuid} {values : LineValues} {keys : LineKeys}
    {view : ReceiptView} (hkeys : t.Integrity)
    (h : Service.addLine ctx receipt values keys t = .ok (view, t')) :
    Arrivals receipt [(values, keys)] t t' := by
  obtain ⟨_, _, hadded⟩ := addLine_stages h
  obtain rfl := hadded.header_id
  obtain ⟨hlines, hid, hreceipt, harrival⟩ := recordLine_arrival hkeys hadded.recorded
  exact .cons hid hreceipt hlines harrival (.nil rfl rfl)

theorem createReceipt_arrivals {values : ReceiptValues} {keys : ReceiptKeys} {view : ReceiptView}
    (hkeys : t.Integrity) (h : Service.createReceipt ctx values keys t = .ok (view, t')) :
    Arrivals keys.receiptId (Service.receiptItems values keys) t t' := by
  obtain ⟨row, header, lines, received, bound, recorded, hcreated⟩ := createReceipt_stages h
  obtain ⟨hid, hcaptured, -, -⟩ :=
    bound_of_insertReceipt hkeys hcreated.receipt hcreated.bindings
  obtain ⟨hsame, htables⟩ := insertReceipt_tables hcreated.receipt hcreated.bindings
  have hintegrity := Writes.integrity hcaptured.writes hkeys
  have harrivals := (recordLines_arrivals hintegrity hcreated.lines).congr_left hsame htables
  rw [hid, hcreated.row_id] at harrivals
  rcases hcreated.close with rfl | hreconcile
  · exact harrivals
  · obtain ⟨hlast, hlast'⟩ := reconcile_quiet hreconcile
    exact harrivals.congr_right hlast hlast'

/-- A request that records lines records what it was asked to. -/
theorem step_arrivals {posixSpace : Char → Bool} {call : ReceivingCall} {receipt : Uuid}
    {items : List (LineValues × LineKeys)} (hkeys : t.Integrity)
    (hcall : call.arriving = some (receipt, items))
    (h : Tenant.step posixSpace (ctx, call) t = .ok t') : Arrivals receipt items t t' := by
  cases call with
  | createReceipt values keys =>
      obtain ⟨rfl, rfl⟩ := Prod.mk.inj (Option.some.inj hcall)
      simp only [Tenant.step, bind_eq_ok, pure_eq_ok] at h
      obtain ⟨⟨_, _⟩, hrun, rfl⟩ := h
      exact createReceipt_arrivals hkeys hrun
  | addLine receiptId values keys =>
      obtain ⟨rfl, rfl⟩ := Prod.mk.inj (Option.some.inj hcall)
      simp only [Tenant.step, bind_eq_ok, pure_eq_ok] at h
      obtain ⟨⟨_, _⟩, hrun, rfl⟩ := h
      exact addLine_arrivals hkeys hrun
  | receiveScan receiptId values reconcile keys =>
      obtain ⟨rfl, rfl⟩ := Prod.mk.inj (Option.some.inj hcall)
      simp only [Tenant.step, bind_eq_ok, pure_eq_ok] at h
      obtain ⟨⟨_, _⟩, hrun, rfl⟩ := h
      obtain ⟨_, added, hadd, -, rfl | ⟨_, hclose⟩⟩ := receiveScan_eq_ok hrun
      · exact addLine_arrivals hkeys hadd
      · obtain ⟨hlines, htables⟩ := reconcileReceipt_quiet hclose
        exact (addLine_arrivals hkeys hadd).congr_right hlines htables
  | _ => simp [ReceivingCall.arriving] at hcall

/-- Any other request records no line, and changes Assets only by a call on one. -/
theorem step_quiet {posixSpace : Char → Bool} {call : ReceivingCall} (hkeys : t.Integrity)
    (hcall : call.arriving = none) (h : Tenant.step posixSpace (ctx, call) t = .ok t') :
    t'.lines = t.lines ∧
      (t'.tables = t.tables ∨ ∃ request, perform request t.tables = .ok t'.tables) := by
  cases call with
  | reconcileReceipt receiptId keys =>
      simp only [Tenant.step, bind_eq_ok, pure_eq_ok] at h
      obtain ⟨⟨_, _⟩, hrun, rfl⟩ := h
      obtain ⟨hlines, htables⟩ := reconcileReceipt_quiet hrun
      exact ⟨hlines, .inl htables⟩
  | correctProcurement poId rootId values keys =>
      simp only [Tenant.step, bind_eq_ok, pure_eq_ok] at h
      obtain ⟨⟨_, _⟩, hrun, rfl⟩ := h
      obtain ⟨_, _, _, _, hpair⟩ := correctProcurement_stages hrun
      obtain ⟨-, -, -, rfl⟩ := insertPurchaseOrderLineCorrection_eq_ok hpair.reversal
      obtain ⟨-, -, -, hafter⟩ := insertPurchaseOrderLineCorrection_eq_ok hpair.corrected
      rw [hafter]
      exact ⟨rfl, .inl rfl⟩
  | correctReceiptLine receiptId rootId values keys =>
      simp only [Tenant.step, bind_eq_ok, pure_eq_ok] at h
      obtain ⟨⟨_, _⟩, hrun, rfl⟩ := h
      obtain ⟨round, -, -, hbefore, -, hafter, -⟩ := correctReceiptLine_eq_ok hkeys hrun
      rw [hafter, round.after_eq, hbefore]
      exact ⟨rfl, .inl rfl⟩
  | transitionException exceptionId values eventId =>
      simp only [Tenant.step, bind_eq_ok, pure_eq_ok] at h
      obtain ⟨⟨event, _⟩, hrun, rfl⟩ := h
      obtain ⟨_, htransition⟩ := transitionException_eq_ok hrun
      rw [htransition.after_eq]
      exact ⟨rfl, .inl rfl⟩
  | changeAsset call =>
      simp only [Tenant.step, Service.assetConstraints, bind_eq_ok, Service.translating_eq_ok,
        Service.execute_eq_ok, pure_eq_ok] at h
      obtain ⟨tables, hrun, rfl⟩ := h
      exact ⟨rfl, .inr ⟨_, hrun⟩⟩
  | procure catalog =>
      simp only [Tenant.step, bind_eq_ok, Service.ensure_eq_ok, pure_eq_ok, exists_unit] at h
      obtain ⟨-, rfl⟩ := h
      exact ⟨rfl, .inl rfl⟩
  | _ => simp [ReceivingCall.arriving] at hcall

/-! ## Lines and their Assets -/

/-- The Asset of a line is whole, and no other line names it. -/
def Tenant.Units (t : Tenant) : Prop :=
  ∀ line ∈ t.lines, ∀ asset ∈ line.fields.assetId, t.tables.Holds asset ∧
    t.lines.filter (·.fields.assetId = some asset) = [line]

/-- The Asset of a line exists. -/
theorem Tenant.Units.ne_of_new (h : t.Units) {id : Uuid} (hnew : ∀ a ∈ t.tables.assets, a.id ≠ id)
    {line : ReceiptLine} (hline : line ∈ t.lines) : line.fields.assetId ≠ some id := by
  intro heq
  obtain ⟨row, hrow⟩ := (h line hline id heq).1.row
  have hmem : row ∈ t.tables.assets.filter (·.id = id) := by simp [hrow]
  obtain ⟨hasset, hid⟩ := List.mem_filter.mp hmem
  exact hnew row hasset (of_decide_eq_true hid)

/-- A line without an Asset changes no other's. -/
theorem Tenant.Units.plain (h : t.Units) {line : ReceiptLine} (hline : line.fields.assetId = none)
    (hlines : t'.lines = t.lines ++ [line]) (htables : t'.tables = t.tables) : t'.Units := by
  unfold Tenant.Units
  rw [hlines, htables]
  intro other hother asset hasset
  rcases List.mem_append.mp hother with hold | hself
  · obtain ⟨hholds, hown⟩ := h other hold asset hasset
    refine ⟨hholds, ?_⟩
    rw [filter_append_of_forall fun l hl => ?_, hown]
    simp [List.mem_singleton.mp hl, hline]
  · rw [List.mem_singleton.mp hself, hline] at hasset
    exact nomatch hasset

/-- One arrival keeps the lines' Assets whole. -/
theorem Arrival.units {values : LineValues} {keys : LineKeys} {line : ReceiptLine}
    (harrival : Arrival values keys line t t') (h : t.Units) (hkeyed : t.tables.Keyed)
    (hlines : t'.lines = t.lines ++ [line]) : t'.Units := by
  cases harrival with
  | plain hunit hserialized hasset htables => exact h.plain hasset hlines htables
  | known hunit hvalue howner hserialized hasset hobserved hexception htables =>
      exact h.plain hasset hlines htables
  | @unit _ bundle hunit hunowned hserialized hasset hof hcomplete hnew htables =>
      unfold Tenant.Units
      rw [hlines, htables]
      intro other hother asset hother_asset
      rcases List.mem_append.mp hother with hold | hself
      · have hne : bundle.asset.id ≠ asset := fun heq =>
          h.ne_of_new hnew hold (heq ▸ hother_asset)
        obtain ⟨hholds, hown⟩ := h other hold asset hother_asset
        refine ⟨hholds.receive hcomplete hne, ?_⟩
        rw [filter_append_of_forall fun l hl => ?_, hown]
        simpa [List.mem_singleton.mp hl, hasset] using hne
      · obtain rfl := List.mem_singleton.mp hself
        obtain rfl : bundle.asset.id = asset := Option.some.inj (hasset.symm.trans hother_asset)
        refine ⟨hkeyed.holds_receive hcomplete hnew, ?_⟩
        have hold : t.lines.filter (·.fields.assetId = some bundle.asset.id) = [] :=
          List.filter_eq_nil_iff.mpr fun l hl heq => h.ne_of_new hnew hl (of_decide_eq_true heq)
        rw [List.filter_append, hold]
        simp [hasset]

theorem Arrivals.units {receipt : Uuid} {items : List (LineValues × LineKeys)}
    (harrivals : Arrivals receipt items t t') (h : t.Units) (hkeyed : t.tables.Keyed) : t'.Units := by
  induction harrivals with
  | nil hlines htables =>
      unfold Tenant.Units
      rw [hlines, htables]
      exact h
  | cons hid hreceipt hlines harrival hrest ih =>
      exact ih (harrival.units h hkeyed hlines) (harrival.keyed hkeyed)

/-- An Asset carries a readable identifier. -/
def AssetTables.Carries (tables : AssetTables) (asset : AssetRow) (type : IdentifierType)
    (value : String) : Prop :=
  asset ∈ tables.assets ∧
    ∃ i ∈ tables.identifiers, i.assetId = asset.id ∧ i.type = type ∧ i.value = some value

/-- No two Assets carry one. -/
theorem AssetTables.Keyed.eq_of_carries (hkeyed : t.tables.Keyed) {type : IdentifierType}
    {value : String} {asset other : AssetRow} (hasset : t.tables.Carries asset type value)
    (hother : t.tables.Carries other type value) : asset = other := by
  obtain ⟨hmem, i, hi, howner, htype, hvalue⟩ := hasset
  obtain ⟨hmem', j, hj, howner', htype', hvalue'⟩ := hother
  have heq : i = j := by
    refine hkeyed.serials.eq (List.mem_filter.mpr ⟨hi, by simp [hvalue]⟩)
      (List.mem_filter.mpr ⟨hj, by simp [hvalue']⟩) ?_
    simp [htype, htype', hvalue, hvalue']
  exact hkeyed.assets.eq hmem hmem' (howner.symm.trans ((congrArg _ heq).trans howner'))

/-- A readable identifier is recorded. -/
def AssetTables.Serial (tables : AssetTables) (type : IdentifierType) (value : String) : Prop :=
  ∃ i ∈ tables.identifiers, i.type = type ∧ i.value = some value

theorem AssetTables.Keyed.existsUnique_carries (hkeyed : t.tables.Keyed) {type : IdentifierType}
    {value : String} (h : t.tables.Serial type value) :
    ∃! asset, t.tables.Carries asset type value := by
  obtain ⟨i, hi, htype, hvalue⟩ := h
  obtain ⟨asset, hasset, hid⟩ := hkeyed.identifiers i hi
  have hcarries : t.tables.Carries asset type value := ⟨hasset, i, hi, hid.symm, htype, hvalue⟩
  exact ⟨asset, hcarries, fun other hother => hkeyed.eq_of_carries hother hcarries⟩

theorem Arrival.serial {values : LineValues} {keys : LineKeys} {line : ReceiptLine}
    (harrival : Arrival values keys line t t') {type : IdentifierType} {value : String}
    (h : t.tables.Serial type value) : t'.tables.Serial type value := by
  cases harrival with
  | plain hunit hserialized hasset htables => exact htables ▸ h
  | known hunit hvalue howner hserialized hasset hobserved hexception htables => exact htables ▸ h
  | unit hunit hunowned hserialized hasset hof hcomplete hnew htables =>
      obtain ⟨i, hi, hmatch⟩ := h
      exact ⟨i, htables ▸ List.mem_append_left _ hi, hmatch⟩

theorem Arrivals.serial {receipt : Uuid} {items : List (LineValues × LineKeys)}
    (harrivals : Arrivals receipt items t t') {type : IdentifierType} {value : String}
    (h : t.tables.Serial type value) : t'.tables.Serial type value := by
  induction harrivals with
  | nil hlines htables => exact htables ▸ h
  | cons hid hreceipt hlines harrival hrest ih => exact ih (harrival.serial h)

/-- What was readable on an arrived unit is recorded, whether it was new or known. -/
theorem Arrival.records {values : LineValues} {keys : LineKeys} {line : ReceiptLine}
    (harrival : Arrival values keys line t t') {unit : UnitValues} (hunit : values.unit = some unit)
    {value : String} (hvalue : unit.identifier.value = some value) :
    t'.tables.Serial unit.identifier.type value := by
  cases harrival with
  | plain hnone hserialized hasset htables => exact nomatch hnone.symm.trans hunit
  | known hsome hread howner hserialized hasset hobserved hexception htables =>
      obtain rfl := Option.some.inj (hsome.symm.trans hunit)
      obtain rfl := Option.some.inj (hread.symm.trans hvalue)
      obtain ⟨i, hi, htype, hsame, -⟩ := Tenant.identifierOwner_eq_some howner
      exact ⟨i, htables ▸ hi, htype, hsame⟩
  | @unit _ bundle hsome hunowned hserialized hasset hof hcomplete hnew htables =>
      obtain rfl := Option.some.inj (hsome.symm.trans hunit)
      refine ⟨bundle.identifier, ?_, hof.type, hof.value.trans hvalue⟩
      rw [htables]
      exact List.mem_append_right _ (List.mem_singleton_self _)

theorem Arrivals.records {receipt : Uuid} {items : List (LineValues × LineKeys)}
    (harrivals : Arrivals receipt items t t') {item : LineValues × LineKeys} (hitem : item ∈ items)
    {unit : UnitValues} (hunit : item.1.unit = some unit) {value : String}
    (hvalue : unit.identifier.value = some value) : t'.tables.Serial unit.identifier.type value := by
  induction harrivals with
  | nil hlines htables => exact absurd hitem List.not_mem_nil
  | cons hid hreceipt hlines harrival hrest ih =>
      rcases List.mem_cons.mp hitem with rfl | hmem
      · exact hrest.serial (harrival.records hunit hvalue)
      · exact ih hmem

/-! ## Runs -/

/-- What every request keeps. -/
structure Tenant.Receiving (t : Tenant) : Prop where
  integrity : t.Integrity
  keyed : t.tables.Keyed
  units : t.Units

/-- What a racing request does that is committed. -/
theorem Tenant.Receiving.race {posixSpace : Char → Bool} {request : Context × RacingCall}
    (hbefore : t.Receiving) (h : Tenant.race posixSpace request t = .ok t') :
    t'.Receiving ∧ (∀ type value, t.tables.Serial type value → t'.tables.Serial type value) ∧
      ∀ receipt items, request.2.call.arriving = some (receipt, items) →
        Arrivals receipt items t t' := by
  have halone := race_eq_ok hbefore.integrity hbefore.keyed h
  have hintegrity := (step_on 0 hbefore.integrity halone).1
  cases hcall : request.2.call.arriving with
  | some arriving =>
      obtain ⟨receipt, items⟩ := arriving
      have harrivals := step_arrivals hbefore.integrity hcall halone
      refine ⟨⟨hintegrity, harrivals.keyed hbefore.keyed,
        harrivals.units hbefore.units hbefore.keyed⟩, fun _ _ => harrivals.serial, ?_⟩
      rintro _ _ heq
      obtain ⟨rfl, rfl⟩ := Prod.mk.inj (Option.some.inj heq)
      exact harrivals
  | none =>
      obtain ⟨hlines, htables | ⟨call, hrun⟩⟩ := step_quiet hbefore.integrity hcall halone
      · refine ⟨⟨hintegrity, htables ▸ hbefore.keyed, ?_⟩, fun _ _ hserial => htables ▸ hserial,
          nofun⟩
        unfold Tenant.Units
        rw [hlines, htables]
        exact hbefore.units
      · refine ⟨⟨hintegrity, hbefore.keyed.perform hrun, ?_⟩, fun type value hserial => ?_, nofun⟩
        · unfold Tenant.Units
          rw [hlines]
          intro line hline asset hasset
          obtain ⟨hholds, hown⟩ := hbefore.units line hline asset hasset
          exact ⟨hholds.perform hrun, hown⟩
        · obtain ⟨i, hi, hmatch⟩ := hserial
          exact ⟨i, (perform_identifiers hrun).1.symm ▸ hi, hmatch⟩

/-- Units are created once in a run of racing requests. -/
structure UnitsReceivedOnce (posixSpace : Char → Bool) (requests : List (Context × RacingCall))
    (start : Tenant) : Prop where
  /-- A line of a committed request is a unit that nobody owned with its bundle, a known one without,
  or no unit. -/
  arrivals : ∀ commit ∈ Machine.commits (Tenant.race posixSpace) requests start,
    ∀ receipt items, commit.action.2.call.arriving = some (receipt, items) →
      Arrivals receipt items commit.before commit.after
  /-- The Asset of a line is whole and the line's own. -/
  units : (Machine.run (Tenant.race posixSpace) requests start).Units
  /-- No two Assets carry the same readable identifier. -/
  serials : ∀ type value asset other,
    (Machine.run (Tenant.race posixSpace) requests start).tables.Carries asset type value →
    (Machine.run (Tenant.race posixSpace) requests start).tables.Carries other type value →
      asset = other
  /-- Of all the requests for a readable identifier there is one Asset. -/
  races : ∀ commit ∈ Machine.commits (Tenant.race posixSpace) requests start,
    ∀ receipt items, commit.action.2.call.arriving = some (receipt, items) →
      ∀ item ∈ items, ∀ unit ∈ item.1.unit, ∀ value ∈ unit.identifier.value,
        ∃! asset, (Machine.run (Tenant.race posixSpace) requests start).tables.Carries asset
          unit.identifier.type value
  /-- A request that fails leaves the tenant as it was. -/
  failures : ∀ request reason,
    Tenant.race posixSpace request (Machine.run (Tenant.race posixSpace) requests start) =
      .error reason →
    Machine.run (Tenant.race posixSpace) (requests ++ [request]) start =
      Machine.run (Tenant.race posixSpace) requests start

/-- The tables keep their keys before anything is received, and so in every run. -/
theorem unitsReceivedOnce (posixSpace : Char → Bool) {start : Tenant} (hfresh : start.Fresh)
    (hkeyed : start.tables.Keyed) (requests : List (Context × RacingCall)) :
    UnitsReceivedOnce posixSpace requests start := by
  have hstart : start.Receiving := by
    refine ⟨hfresh.integrity, hkeyed, fun line hline => ?_⟩
    rw [hfresh.records] at hline
    exact absurd hline List.not_mem_nil
  have hkept : ∀ action before after, True → Tenant.race posixSpace action before = .ok after →
      before.Receiving → after.Receiving := fun _ _ _ _ hrun hbefore => (hbefore.race hrun).1
  have hfinal := Machine.run_invariant (Tenant.race posixSpace) Tenant.Receiving (fun _ => True) hkept
    requests start (fun _ _ => trivial) hstart
  have hcommits := Machine.commits_forall (Tenant.race posixSpace) Tenant.Receiving (fun _ => True)
    hkept requests start (fun _ _ => trivial) hstart
  constructor
  case arrivals =>
    intro commit hcommit receipt items hcall
    obtain ⟨hbefore, -, hrun⟩ := hcommits commit hcommit
    exact (hbefore.race hrun).2.2 receipt items hcall
  case units => exact hfinal.units
  case serials => exact fun _ _ _ _ => hfinal.keyed.eq_of_carries
  case races =>
    intro commit hcommit receipt items hcall item hitem unit hunit value hvalue
    obtain ⟨hbefore, -, hrun⟩ := hcommits commit hcommit
    obtain ⟨hafter, -, harrivals⟩ := hbefore.race hrun
    have hserial := (harrivals receipt items hcall).records hitem hunit hvalue
    -- The identifier stays recorded from the commit to the end of the run.
    obtain ⟨front, back, -, -, -, hrest⟩ := Machine.mem_commits hcommit
    rw [hrest] at hfinal ⊢
    refine hfinal.keyed.existsUnique_carries ?_
    refine (Machine.run_invariant (Tenant.race posixSpace)
      (fun t => t.Receiving ∧ t.tables.Serial unit.identifier.type value) (fun _ => True) ?_
      back commit.after (fun _ _ => trivial) ⟨hafter, hserial⟩).2
    rintro action before after - hnext ⟨hreceiving, hrecorded⟩
    obtain ⟨hreceiving', hserials, -⟩ := hreceiving.race hnext
    exact ⟨hreceiving', hserials _ _ hrecorded⟩
  case failures =>
    intro request reason hrun
    rw [Machine.run_append, Machine.run_cons, Machine.run_nil, Machine.attempt_of_error hrun]

end

/-! ## Two clients receive one radio -/

/-- A tenant that knows radios. -/
def radioTenant : Tenant :=
  { tables := { orgId := 100 }, items := [⟨5, true⟩], vendors := [2] }

theorem radioTenant_fresh : radioTenant.Fresh :=
  ⟨rfl, fun _ hrow => absurd hrow List.not_mem_nil, fun _ hrow => absurd hrow List.not_mem_nil⟩

theorem radioTenant_keyed : radioTenant.tables.Keyed where
  assets := distinct_nil
  serials := distinct_nil
  referential :=
    ⟨fun _ _ hrow => absurd hrow List.not_mem_nil, fun _ hrow => absurd hrow List.not_mem_nil⟩
  unassigned := refers_nil
  identifiers := refers_nil

/-- Two deliveries of the radio S1.  The second looks for its owner before the first is committed,
and is tried again. -/
def sampleRace : List (Context × RacingCall) :=
  let radio (tag : String) : LineValues :=
    { poLineId := none, itemId := 5, quantity := 1, uom := .ea, condition := .good
      packingQuantity := none, notes := none
      unit := some ⟨tag, "Radio", some 2, none, ⟨.manufacturerSerial, some "S1", none⟩⟩ }
  let delivery (tag : String) : ReceiptValues :=
    { vendorPartyId := 2, poId := none, dockLocationId := some 3, packingReference := none
      receivedAt := .at 40, comparatorIds := [], comparatorBindings := [], lines := [radio tag]
      reconcile := false }
  let keys (receipt n : ℕ) : ReceiptKeys :=
    ⟨receipt, fun poLine => 1000 + poLine, fun i => sampleLineKeys (n + i),
      ⟨1600, fun id => 3000 + id⟩⟩
  let late : Missed := ⟨[1400], [1400]⟩
  [(sampleContext, ⟨.createReceipt (delivery "A-1") (keys 6 0), fun _ => ⟨[], []⟩⟩),
    (sampleContext, ⟨.createReceipt (delivery "A-2") (keys 7 1), fun _ => late⟩),
    (sampleContext, ⟨.createReceipt (delivery "A-2") (keys 7 1), fun _ => ⟨[], []⟩⟩)]

theorem unitsReceivedOnce_sample :
    Machine.outcomes (Tenant.race sampleContext.posixSpace) sampleRace radioTenant =
        [true, false, true] ∧
      (Machine.run (Tenant.race sampleContext.posixSpace) sampleRace radioTenant).lines.map
        (·.fields.assetId) = [some 1300, none] ∧
      UnitsReceivedOnce sampleContext.posixSpace sampleRace radioTenant :=
  ⟨by decide +kernel, by decide +kernel,
    unitsReceivedOnce sampleContext.posixSpace radioTenant_fresh radioTenant_keyed sampleRace⟩

end FleetOps
