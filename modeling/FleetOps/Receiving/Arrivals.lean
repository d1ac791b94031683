import FleetOps.Receiving.Races

/-!
# Units that arrive

A received unit is the bundle of five rows that `create_received_unit` inserts.
`Arrival` says what one observation comes to: a line without a unit, a unit that
is known already, or a new one with its bundle; `Arrivals` chains the lines of a
request.  `arrivals_of_race` reads them off a committed request, and
`Tenant.Units` is what runs keep: an Asset of a line is whole, and the line's own.
-/

namespace FleetOps

open Keys

/-! ## Bundles -/

/-- The rows are of one Asset, which begins at version 1 with the facts that they witness. -/
structure Bundle.Complete (b : Bundle) : Prop where
  version : b.asset.version = 1
  state : b.asset.currentState = .received
  assignment : b.asset.currentAssignmentId = none
  creation : b.creation.assetId = b.asset.id ∧ b.creation.resultVersion = 1 ∧
    b.creation.role = .none ∧ b.creation.fromFact = none ∧ b.creation.toFact = some .received
  facts : b.facts.assetId = b.asset.id ∧ b.facts.initialOwnerPartyId = b.asset.ownerPartyId ∧
    b.facts.initialCustodianPartyId = b.asset.custodianPartyId ∧
    b.facts.initialLocationId = b.asset.currentLocationId
  unassigned : b.unassigned.assetId = b.asset.id
  identifier : b.identifier.assetId = b.asset.id

/-- The bundle is of the unit that was observed. -/
structure Bundle.Of (b : Bundle) (unit : UnitValues) (keys : LineKeys) : Prop where
  asset : b.asset.id = keys.assetId
  assetTag : b.asset.assetTag = unit.assetTag
  description : b.asset.description = unit.description
  owner : some b.asset.ownerPartyId = unit.ownerPartyId
  custodian : b.asset.custodianPartyId = unit.custodianPartyId
  type : b.identifier.type = unit.identifier.type
  value : b.identifier.value = unit.identifier.value
  reason : b.identifier.unreadableReason = unit.identifier.unreadableReason

theorem UnitArgs.bundle_complete (args : UnitArgs) (receipt : Receipt) (owner performer : Uuid)
    (now : Timestamp) : (args.bundle receipt owner performer now).Complete :=
  ⟨rfl, rfl, rfl, ⟨rfl, rfl, rfl, rfl, rfl⟩, ⟨rfl, rfl, rfl, rfl⟩, rfl, rfl⟩

/-! ## Keys of the Asset tables -/

/-- No two identifiers have the same readable type and value. -/
def AssetTables.SerialsUnique (tables : AssetTables) : Prop :=
  Distinct (fun i : AssetIdentifier => (i.type, i.value))
    (tables.identifiers.filter fun i => i.value.isSome)

/-- The Assets' primary key, the identifiers' unique constraint and the foreign keys on Assets. -/
structure AssetTables.Keyed (tables : AssetTables) : Prop where
  assets : Distinct AssetRow.id tables.assets
  serials : tables.SerialsUnique
  referential : tables.Referential
  unassigned : Refers tables.initialAssignmentFacts tables.assets fun u a => a.id = u.assetId
  identifiers : Refers tables.identifiers tables.assets fun i a => a.id = i.assetId

/-- A readable identifier is owned by the Asset of its only row. -/
theorem AssetTables.SerialsUnique.owner_eq {t : Tenant} (h : t.tables.SerialsUnique)
    {i : AssetIdentifier} (hi : i ∈ t.tables.identifiers) {value : String}
    (hvalue : i.value = some value) : t.identifierOwner i.type value = some i.assetId := by
  have hreadable : i ∈ t.tables.identifiers.filter fun i => i.value.isSome := by
    simp [hi, hvalue]
  unfold Tenant.identifierOwner
  cases hfind : t.tables.identifiers.find? fun other => other.type = i.type ∧
      other.value = some value with
  | none =>
      have hnone := List.find?_eq_none.mp hfind i hi
      simp [hvalue] at hnone
  | some found =>
      have hmatch := List.find?_some hfind
      simp only [decide_eq_true_eq] at hmatch
      have hfound : found ∈ t.tables.identifiers.filter fun i => i.value.isSome := by
        simp [List.mem_of_find?_eq_some hfind, hmatch.2]
      have heq : found = i := by
        refine h.eq hfound hreadable ?_
        simp [hmatch, hvalue]
      rw [Option.map_some, heq]

/-- Who owns a readable identifier has a row of it. -/
theorem Tenant.identifierOwner_eq_some {t : Tenant} {type : IdentifierType} {value : String}
    {asset : Uuid} (h : t.identifierOwner type value = some asset) :
    ∃ i ∈ t.tables.identifiers, i.type = type ∧ i.value = some value ∧ i.assetId = asset := by
  obtain ⟨i, hfind, hasset⟩ := Option.map_eq_some_iff.mp h
  have hmatch := List.find?_some hfind
  simp only [decide_eq_true_eq] at hmatch
  exact ⟨i, List.mem_of_find?_eq_some hfind, hmatch.1, hmatch.2, hasset⟩

/-- A new unit keeps the keys. -/
theorem AssetTables.Keyed.receive {tables : AssetTables} (h : tables.Keyed) {b : Bundle}
    (hb : b.Complete) (hnew : ∀ asset ∈ tables.assets, asset.id ≠ b.asset.id)
    (hserial : ∀ value, b.identifier.value = some value →
      ∀ i ∈ tables.identifiers, ¬(i.type = b.identifier.type ∧ i.value = some value)) :
    (tables.receive b).Keyed := by
  have hkept : ∀ {id : Uuid}, (∃ a ∈ tables.assets, a.id = id) →
      ∃ a ∈ (tables.receive b).assets, a.id = id := fun ⟨a, ha, hid⟩ =>
    ⟨a, List.mem_append_left _ ha, hid⟩
  have hown : b.asset ∈ (tables.receive b).assets := by simp [AssetTables.receive]
  constructor
  case assets => exact h.assets.concat hnew
  case serials =>
    unfold AssetTables.SerialsUnique AssetTables.receive
    rw [List.filter_append]
    cases hvalue : b.identifier.value with
    | none => simpa [hvalue, AssetTables.SerialsUnique] using h.serials
    | some value =>
        rw [show [b.identifier].filter (fun i => i.value.isSome) = [b.identifier] by simp [hvalue]]
        refine h.serials.concat fun other hother heq => ?_
        obtain ⟨htype, hsame⟩ := Prod.mk.inj heq
        exact hserial value hvalue other (List.mem_of_mem_filter hother) ⟨htype, hsame.trans hvalue⟩
  case referential =>
    constructor
    · intro k row hrow
      by_cases hk : k = .transition
      · subst hk
        rw [AssetTables.history_receive, List.mem_append, List.mem_singleton] at hrow
        rcases hrow with hrow | rfl
        · exact hkept (h.referential.history _ row hrow)
        · exact ⟨b.asset, hown, hb.creation.1.symm⟩
      · rw [AssetTables.history_receive_of_ne tables b hk] at hrow
        exact hkept (h.referential.history k row hrow)
    · intro facts hfacts
      rcases List.mem_append.mp hfacts with hold | hfacts
      · exact hkept (h.referential.initialFacts facts hold)
      · obtain rfl := List.mem_singleton.mp hfacts
        exact ⟨b.asset, hown, hb.facts.1.symm⟩
  case unassigned => exact (h.unassigned.weaken [b.asset]).concat ⟨b.asset, hown, hb.unassigned.symm⟩
  case identifiers =>
    exact (h.identifiers.weaken [b.asset]).concat ⟨b.asset, hown, hb.identifier.symm⟩

/-! ## Races -/

section

variable {ctx : Context} {header : Receipt} {t t' : Tenant}

/-- Whatever its own look missed, the unique constraint finds the owner. -/
theorem createReceivedUnitRacing_eq_ok {args : UnitArgs} {missed : List Uuid}
    {created : ReceiptLine × Tenant}
    (h : createReceivedUnitRacing ctx args missed t = .ok created) :
    createReceivedUnit ctx args t = .ok created := by
  revert h
  unfold createReceivedUnitRacing createReceivedUnit
  -- The two differ in the rows that the look for an owner sees.
  repeat refine bind_imp fun _ => ?_
  simp only [bind_eq_ok, require_eq_ok, exists_unit]
  rintro ⟨-, tables, hinserted, hline⟩
  refine ⟨?_, tables, hinserted, hline⟩
  cases hvalue : args.identifierValue with
  | none => rfl
  | some value => simp [unowned_of_insertReceivedAsset hinserted hvalue]

/-- An owner that a read found that missed some rows is the owner. -/
theorem identifierOwner_of_missing (hkeyed : t.tables.SerialsUnique) {ids : List Uuid}
    {type : IdentifierType} {value : String} {owner : Uuid}
    (h : (t.missing ids).identifierOwner type value = some owner) :
    t.identifierOwner type value = some owner := by
  obtain ⟨i, hi, rfl, hvalue, rfl⟩ := Tenant.identifierOwner_eq_some h
  exact hkeyed.owner_eq (List.mem_of_mem_filter hi) hvalue

/-- A racing observation that is recorded is recorded as it is alone. -/
theorem insertObservationRacing_eq_ok {values : LineValues} {keys : LineKeys} {missed : Missed}
    {result : (ReceiptLine × Tenant) × Bool × Option Uuid} (hkeyed : t.tables.SerialsUnique)
    (h : Service.insertObservationRacing ctx header values keys missed t = .ok result) :
    Service.insertObservation ctx header values keys t = .ok result := by
  unfold Service.insertObservationRacing at h
  unfold Service.insertObservation
  cases hunit : values.unit with
  | none => simpa only [hunit, Service.insertObservation] using h
  | some unit =>
      simp only [hunit, bind_eq_ok, Service.ensure_eq_ok, exists_unit] at h ⊢
      obtain ⟨hparties, h⟩ := h
      refine ⟨hparties, ?_⟩
      cases hseen : Service.knownConflict (t.missing missed.observation) unit with
      | some asset =>
          have hknown : Service.knownConflict t unit = some asset := by
            obtain ⟨value, hvalue, howner⟩ := Option.bind_eq_some_iff.mp hseen
            exact Option.bind_eq_some_iff.mpr
              ⟨value, hvalue, identifierOwner_of_missing hkeyed howner⟩
          simpa only [hknown, hseen] using h
      | none =>
          simp only [hseen, bind_eq_ok, Service.execute_eq_ok] at h
          obtain ⟨created, hcreate, h⟩ := h
          have halone := createReceivedUnitRacing_eq_ok hcreate
          have hknown : Service.knownConflict t unit = none := by
            obtain ⟨_, _, _, hreceived⟩ := createReceivedUnit_iff.mp halone
            exact Option.bind_eq_none_iff.mpr fun _ hvalue =>
              unowned_of_insertReceivedAsset hreceived.inserted hvalue
          simp only [hknown, bind_eq_ok, Service.execute_eq_ok]
          exact ⟨created, halone, h⟩

/-! ## One line -/

/-- What an observation came to. -/
inductive Arrival (values : LineValues) (keys : LineKeys) (line : ReceiptLine) (t t' : Tenant) : Prop
  | plain (hunit : values.unit = none) (hserialized : line.fields.serialized = false)
      (hasset : line.fields.assetId = none) (htables : t'.tables = t.tables)
  | known {unit : UnitValues} {value : String} {owner : Uuid} (hunit : values.unit = some unit)
      (hvalue : unit.identifier.value = some value)
      (howner : t.identifierOwner unit.identifier.type value = some owner)
      (hserialized : line.fields.serialized = true) (hasset : line.fields.assetId = none)
      (hobserved : line.fields.observedIdentifierType = some unit.identifier.type ∧
        line.fields.observedIdentifierValue = some value)
      (hexception : ∃ o ∈ t'.exceptions, o.receiptId = line.receiptId ∧
        o.key = Service.lineKey line (some owner) .serialMismatch)
      (htables : t'.tables = t.tables)
  | unit {unit : UnitValues} {bundle : Bundle} (hunit : values.unit = some unit)
      (hunowned : ∀ value, unit.identifier.value = some value →
        t.identifierOwner unit.identifier.type value = none)
      (hserialized : line.fields.serialized = true)
      (hasset : line.fields.assetId = some bundle.asset.id) (hof : bundle.Of unit keys)
      (hcomplete : bundle.Complete) (hnew : ∀ asset ∈ t.tables.assets, asset.id ≠ bundle.asset.id)
      (htables : t'.tables = t.tables.receive bundle)

/-- A line that passes its checks is serialized exactly if it names an owner, and with it an Asset or
an identifier that was observed. -/
theorem serialized_of_lineChecks {fields : LineFields} (h : lineChecks fields) :
    fields.serialized = fields.ownerPartyId.isSome ∧
      (fields.assetId.isSome ∨ fields.observedIdentifierValue.isSome → fields.serialized = true) := by
  simp only [lineChecks, Bool.and_eq_true, Bool.or_eq_true] at h
  rcases h.2 with hserialized | hplain
  · exact ⟨hserialized.1.1.trans hserialized.1.2.symm, fun _ => hserialized.1.1⟩
  · obtain ⟨⟨⟨⟨hserialized, hasset⟩, hobserved⟩, howner⟩, -⟩ := hplain
    refine ⟨by simp_all, fun hsome => ?_⟩
    simp_all

/-- A line of a unit that nobody owned. -/
theorem insertUnit_arrival {values : LineValues} {unit : UnitValues} {keys : LineKeys}
    {line : ReceiptLine} {inserted : Tenant} (hunit : values.unit = some unit)
    (h : createReceivedUnit ctx (Service.unitArgs header.id values unit keys) t =
      .ok (line, inserted))
    (hsame : t'.tables = inserted.tables) : Arrival values keys line t t' := by
  obtain ⟨receipt, owner, performer, hreceived⟩ := createReceivedUnit_iff.mp h
  obtain ⟨hguard, -, -, hchecks, rfl⟩ := insertLine_eq_ok hreceived.recorded
  obtain ⟨_, item, hguarded⟩ := guardLine_eq_ok hguard
  obtain rfl := hguarded.row_eq
  have hserialized := (serialized_of_lineChecks hchecks).2 (.inl rfl)
  have hcomplete := UnitArgs.bundle_complete (Service.unitArgs header.id values unit keys) receipt
    owner performer ctx.session.now
  exact .unit hunit (fun _ => unowned_of_insertReceivedAsset hreceived.inserted) hserialized rfl
    ⟨rfl, rfl, rfl, hreceived.owned.symm, rfl, rfl, rfl, rfl⟩ hcomplete hreceived.admitted.asset.fresh
    hsame

/-- What an observation is recorded as. -/
theorem insertObservation_arrival {values : LineValues} {keys : LineKeys} {line : ReceiptLine}
    {inserted : Tenant} {unreadable : Bool} {conflict : Option Uuid}
    (h : Service.insertObservation ctx header values keys t =
      .ok ((line, inserted), unreadable, conflict))
    (hsame : t'.tables = inserted.tables)
    (hexceptions : ∀ owner ∈ conflict, ∃ o ∈ t'.exceptions, o.receiptId = line.receiptId ∧
      o.key = Service.lineKey line (some owner) .serialMismatch) :
    Arrival values keys line t t' := by
  cases hunit : values.unit with
  | none =>
      simp only [Service.insertObservation, hunit, bind_eq_ok, pure_eq_ok, Prod.mk.injEq] at h
      obtain ⟨_, hinsert, rfl, -, -⟩ := h
      obtain ⟨hinserted, -, htables, serialized, hfields⟩ := insertPlainLine_eq_ok hinsert
      have hserialized := (serialized_of_lineChecks hinserted.checks).1
      rw [hfields] at hserialized
      refine .plain hunit ?_ (by rw [hfields]; rfl) (hsame.trans htables)
      simpa [hfields, Service.plainFields, hunit] using hserialized
  | some unit =>
      simp only [Service.insertObservation, hunit, bind_eq_ok, Service.ensure_eq_ok,
        exists_unit] at h
      obtain ⟨-, h⟩ := h
      cases hknown : Service.knownConflict t unit with
      | none =>
          simp only [hknown, bind_eq_ok, Service.execute_eq_ok, pure_eq_ok, Prod.mk.injEq] at h
          obtain ⟨_, hinsert, rfl, -, -⟩ := h
          exact insertUnit_arrival hunit hinsert hsame
      | some owner =>
          simp only [hknown, bind_eq_ok, pure_eq_ok, Prod.mk.injEq] at h
          obtain ⟨_, hinsert, rfl, -, rfl⟩ := h
          obtain ⟨hinserted, -, htables, serialized, hfields⟩ := insertPlainLine_eq_ok hinsert
          obtain ⟨value, hvalue, howner⟩ := Option.bind_eq_some_iff.mp hknown
          have hobserved : line.fields.observedIdentifierType = some unit.identifier.type ∧
              line.fields.observedIdentifierValue = some value := by
            simp [hfields, Service.plainFields, hunit, hvalue]
          have hserialized := (serialized_of_lineChecks hinserted.checks).2
            (.inr (by simp [hobserved.2]))
          exact .known hunit hvalue howner hserialized (by rw [hfields]; rfl) hobserved
            (hexceptions owner rfl) (hsame.trans htables)

/-- An arrival is about the Asset tables that it found. -/
theorem Arrival.congr {values : LineValues} {keys : LineKeys} {line : ReceiptLine} {s : Tenant}
    (h : Arrival values keys line s t') (hsame : s.tables = t.tables) :
    Arrival values keys line t t' := by
  have howner : ∀ type value, s.identifierOwner type value = t.identifierOwner type value :=
    fun type value => by simp only [Tenant.identifierOwner, hsame]
  cases h with
  | plain hunit hserialized hasset htables =>
      exact .plain hunit hserialized hasset (htables.trans hsame)
  | known hunit hvalue howned hserialized hasset hobserved hexception htables =>
      exact .known hunit hvalue (howner _ _ ▸ howned) hserialized hasset hobserved hexception
        (htables.trans hsame)
  | unit hunit hunowned hserialized hasset hof hcomplete hnew htables =>
      exact .unit hunit (fun value hvalue => howner _ _ ▸ hunowned value hvalue) hserialized hasset
        hof hcomplete (hsame ▸ hnew) (hsame ▸ htables)

/-- A conflict that a line was found to be in is observed with it. -/
theorem mismatch_mem_capturedKeys {line : ReceiptLine} {owner : Uuid}
    (h : t.conflictOf line.fields = some owner) :
    Service.lineKey line (some owner) .serialMismatch ∈ t.capturedKeys line := by
  unfold Tenant.capturedKeys
  rw [h]
  refine List.mem_map_of_mem ?_
  simp [Tenant.capturedKinds, Service.lineKinds, h]

/-- `_record_line` records one observation. -/
theorem recordLine_arrival {values : LineValues} {keys : LineKeys} {line : ReceiptLine}
    (hkeys : t.Integrity) (h : Service.recordLine ctx header values keys t = .ok (line, t')) :
    t'.lines = t.lines ++ [line] ∧ line.id = keys.lineId ∧ line.receiptId = header.id ∧
      Arrival values keys line t t' := by
  obtain ⟨bound, inserted, hrecorded⟩ := recordLine_eq_ok hkeys h
  obtain ⟨rows, hrows, hreceipts, rfl⟩ := hrecorded.observed
  obtain ⟨comparators, -, rfl⟩ := hrecorded.binding
  have hinserted := hrecorded.insertion
  refine ⟨?_, hrecorded.stores.1, hinserted.owner, ?_⟩
  · rw [hinserted.tenant]
  · refine Arrival.congr
      (insertObservation_arrival hrecorded.observation rfl fun owner howner => ?_) rfl
    have hmem := mismatch_mem_capturedKeys howner
    rw [← hrows] at hmem
    obtain ⟨row, hrow, hkey⟩ := List.mem_map.mp hmem
    exact ⟨row, List.mem_append_right _ hrow, (hreceipts row hrow).1.trans hinserted.owner.symm, hkey⟩

/-- An arrival keeps the keys of the Asset tables. -/
theorem Arrival.keyed {values : LineValues} {keys : LineKeys} {line : ReceiptLine}
    (h : Arrival values keys line t t') (hkeyed : t.tables.Keyed) : t'.tables.Keyed := by
  cases h with
  | plain hunit hserialized hasset htables => exact htables ▸ hkeyed
  | known hunit hvalue howner hserialized hasset hobserved hexception htables =>
      exact htables ▸ hkeyed
  | unit hunit hunowned hserialized hasset hof hcomplete hnew htables =>
      rw [htables]
      refine hkeyed.receive hcomplete hnew fun value hvalue => ?_
      rw [hof.type]
      exact Tenant.identifierOwner_eq_none.mp (hunowned value (hof.value ▸ hvalue))

/-! ## The lines of a request -/

/-- What the observations of a request on a receipt came to, one after another. -/
inductive Arrivals (receipt : Uuid) : List (LineValues × LineKeys) → Tenant → Tenant → Prop
  | nil {t t' : Tenant} (hlines : t'.lines = t.lines) (htables : t'.tables = t.tables) :
      Arrivals receipt [] t t'
  | cons {item : LineValues × LineKeys} {rest : List (LineValues × LineKeys)} {line : ReceiptLine}
      {t middle t' : Tenant} (hid : line.id = item.2.lineId) (hreceipt : line.receiptId = receipt)
      (hlines : middle.lines = t.lines ++ [line]) (harrival : Arrival item.1 item.2 line t middle)
      (hrest : Arrivals receipt rest middle t') : Arrivals receipt (item :: rest) t t'

/-- Statements that touch neither lines nor Assets may come first. -/
theorem Arrivals.congr_left {receipt : Uuid} {items : List (LineValues × LineKeys)} {s : Tenant}
    (h : Arrivals receipt items s t') (hlines : s.lines = t.lines) (htables : s.tables = t.tables) :
    Arrivals receipt items t t' := by
  cases h with
  | nil hlines' htables' => exact .nil (hlines'.trans hlines) (htables'.trans htables)
  | cons hid hreceipt hlines' harrival hrest =>
      exact .cons hid hreceipt (hlines ▸ hlines') (harrival.congr htables) hrest

/-- They may come last. -/
theorem Arrivals.congr_right {receipt : Uuid} {items : List (LineValues × LineKeys)} {s : Tenant}
    (h : Arrivals receipt items t s) (hlines : t'.lines = s.lines) (htables : t'.tables = s.tables) :
    Arrivals receipt items t t' := by
  induction h with
  | nil hlines' htables' => exact .nil (hlines.trans hlines') (htables.trans htables')
  | cons hid hreceipt hlines' harrival hrest ih =>
      exact .cons hid hreceipt hlines' harrival (ih hlines htables)

theorem Arrivals.keyed {receipt : Uuid} {items : List (LineValues × LineKeys)}
    (h : Arrivals receipt items t t') (hkeyed : t.tables.Keyed) : t'.tables.Keyed := by
  induction h with
  | nil hlines htables => exact htables ▸ hkeyed
  | cons hid hreceipt hlines harrival hrest ih => exact ih (harrival.keyed hkeyed)

/-- The lines of a delivery arrive. -/
theorem recordLines_arrivals {items : List (LineValues × LineKeys)} {lines : List ReceiptLine}
    (hkeys : t.Integrity) (h : Service.recordLines ctx header items t = .ok (lines, t')) :
    Arrivals header.id items t t' := by
  induction items generalizing t lines with
  | nil =>
      obtain ⟨-, rfl⟩ := Prod.mk.inj (pure_eq_ok.mp h)
      exact .nil rfl rfl
  | cons item rest ih =>
      simp only [Service.recordLines, bind_eq_ok, pure_eq_ok] at h
      obtain ⟨⟨line, middle⟩, hline, ⟨_, _⟩, hrest, heq⟩ := h
      obtain ⟨-, rfl⟩ := Prod.mk.inj heq
      obtain ⟨hlines, hid, hreceipt, harrival⟩ := recordLine_arrival hkeys hline
      have hwrites := writes_of_recordLine hkeys hline
      exact .cons hid hreceipt hlines harrival (ih (Writes.integrity hwrites hkeys) hrest)

/-! ## Racing requests are the requests -/

theorem recordLineRacing_eq_ok {values : LineValues} {keys : LineKeys} {missed : Missed}
    {result : ReceiptLine × Tenant} (hkeyed : t.tables.SerialsUnique)
    (h : Service.recordLineRacing ctx header values keys missed t = .ok result) :
    Service.recordLine ctx header values keys t = .ok result := by
  simp only [Service.recordLineRacing, Service.recordLine, bind_eq_ok] at h ⊢
  obtain ⟨bound, hbind, item, hitem, _, hserialized, _, hquantity, observed, hinsert, hrest⟩ := h
  have hunique : bound.tables.SerialsUnique := by
    obtain ⟨⟨_, -, rfl⟩, -⟩ := bindSelected_eq_ok hbind
    exact hkeyed
  exact ⟨bound, hbind, item, hitem, (), hserialized, (), hquantity, observed,
    insertObservationRacing_eq_ok hunique hinsert, hrest⟩

theorem recordLinesRacing_eq_ok {items : List ((LineValues × LineKeys) × Missed)}
    {result : List ReceiptLine × Tenant} (hkeys : t.Integrity) (hkeyed : t.tables.Keyed)
    (h : Service.recordLinesRacing ctx header items t = .ok result) :
    Service.recordLines ctx header (items.map Prod.fst) t = .ok result := by
  induction items generalizing t result with
  | nil => exact h
  | cons item rest ih =>
      simp only [Service.recordLinesRacing, bind_eq_ok, pure_eq_ok] at h
      obtain ⟨⟨line, middle⟩, hline, recorded, hrest, heq⟩ := h
      have halone := recordLineRacing_eq_ok hkeyed.serials hline
      obtain ⟨-, -, -, harrival⟩ := recordLine_arrival hkeys halone
      have hwrites := writes_of_recordLine hkeys halone
      simp only [List.map_cons, Service.recordLines, bind_eq_ok, pure_eq_ok]
      exact ⟨(line, middle), halone, recorded,
        ih (Writes.integrity hwrites hkeys) (harrival.keyed hkeyed) hrest, heq⟩

theorem addLineRacing_eq_ok {receipt : Uuid} {values : LineValues} {keys : LineKeys}
    {missed : Missed} {result : ReceiptView × Tenant} (hkeyed : t.tables.Keyed)
    (h : Service.addLineRacing ctx receipt values keys missed t = .ok result) :
    Service.addLine ctx receipt values keys t = .ok result := by
  simp only [Service.addLineRacing, Service.addLine, Service.constraints,
    Service.translating_eq_ok, bind_eq_ok] at h ⊢
  obtain ⟨locked, hlock, _, hopen, recorded, hline, hrest⟩ := h
  exact ⟨locked, hlock, (), hopen, recorded, recordLineRacing_eq_ok hkeyed.serials hline, hrest⟩

theorem receiveScanRacing_eq_ok {receipt : Uuid} {values : LineValues} {reconcile : Bool}
    {keys : ScanKeys} {missed : Missed} {result : ScanResult × Tenant} (hkeyed : t.tables.Keyed)
    (h : Service.receiveScanRacing ctx receipt values reconcile keys missed t = .ok result) :
    Service.receiveScan ctx receipt values reconcile keys t = .ok result := by
  simp only [Service.receiveScanRacing, Service.receiveScan, bind_eq_ok] at h ⊢
  obtain ⟨added, hadd, hrest⟩ := h
  exact ⟨added, addLineRacing_eq_ok hkeyed hadd, hrest⟩

/-- A new receipt and its comparators touch neither lines nor Assets. -/
theorem insertReceipt_tables {row : Receipt} {received bound : Tenant} {bindings : List (Uuid × ℕ)}
    {ids : Uuid → Uuid} (hreceipt : insertReceipt ctx row t = .ok (header, received))
    (hbind : bindings.foldlM (fun tenant binding => Service.bindComparator ctx header binding.1
      binding.2 none (ids binding.1) tenant) received = .ok bound) :
    bound.lines = t.lines ∧ bound.tables = t.tables := by
  obtain ⟨-, -, rfl⟩ := insertReceipt_eq_ok hreceipt
  have hbound := Fallible.foldlM_rel (Bound header.id) (Bound.refl header.id)
    (fun h h' => h.trans h') hbind fun _ _ _ _ hrun => (bound_of_bindComparator hrun).1
  obtain ⟨_, -, rfl⟩ := hbound
  exact ⟨rfl, rfl⟩

theorem createReceiptRacing_eq_ok {values : ReceiptValues} {keys : ReceiptKeys}
    {missed : ℕ → Missed} {result : ReceiptView × Tenant} (hkeys : t.Integrity)
    (hkeyed : t.tables.Keyed)
    (h : Service.createReceiptRacing ctx values keys missed t = .ok result) :
    Service.createReceipt ctx values keys t = .ok result := by
  simp only [Service.createReceiptRacing, Service.createReceipt, Service.constraints,
    Service.translating_eq_ok, bind_eq_ok, Service.execute_eq_ok] at h ⊢
  obtain ⟨actor, hactor, ⟨header, received⟩, hreceipt, bound, hbind, recorded, hlines, hrest⟩ := h
  obtain ⟨-, hcaptured, -, -⟩ := bound_of_insertReceipt hkeys hreceipt hbind
  obtain ⟨-, htables⟩ := insertReceipt_tables hreceipt hbind
  have halone := recordLinesRacing_eq_ok (Writes.integrity hcaptured.writes hkeys)
    (htables ▸ hkeyed) hlines
  have hitems : ((Service.receiptItems values keys).zipIdx.map fun entry =>
      (entry.1, missed entry.2)).map Prod.fst = Service.receiptItems values keys := by
    rw [List.map_map]
    exact List.zipIdx_map_fst 0 _
  rw [hitems] at halone
  exact ⟨actor, hactor, (header, received), hreceipt, bound, hbind, recorded, halone, hrest⟩

/-- A racing request that is committed does what the request does alone. -/
theorem race_eq_ok {posixSpace : Char → Bool} {request : Context × RacingCall}
    (hkeys : t.Integrity) (hkeyed : t.tables.Keyed)
    (h : Tenant.race posixSpace request t = .ok t') :
    Tenant.step posixSpace (request.1, request.2.call) t = .ok t' := by
  obtain ⟨ctx, call, missed⟩ := request
  cases call with
  | createReceipt values keys =>
      simp only [Tenant.race, Tenant.step, bind_eq_ok] at h ⊢
      obtain ⟨result, hrun, heq⟩ := h
      exact ⟨result, createReceiptRacing_eq_ok hkeys hkeyed hrun, heq⟩
  | addLine receiptId values keys =>
      simp only [Tenant.race, Tenant.step, bind_eq_ok] at h ⊢
      obtain ⟨result, hrun, heq⟩ := h
      exact ⟨result, addLineRacing_eq_ok hkeyed hrun, heq⟩
  | receiveScan receiptId values reconcile keys =>
      simp only [Tenant.race, Tenant.step, bind_eq_ok] at h ⊢
      obtain ⟨result, hrun, heq⟩ := h
      exact ⟨result, receiveScanRacing_eq_ok hkeyed hrun, heq⟩
  | _ => exact h

end

end FleetOps
