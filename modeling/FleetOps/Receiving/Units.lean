import FleetOps.Assets.Concurrency
import FleetOps.Assets.History
import FleetOps.Receiving.Guards

/-!
# Creation of a received unit

`create_received_unit` is the only function that makes an Asset.  It inserts
the Asset's row, its creation event at version 1, both witnesses of its initial
facts, its identifier and the receipt line that it arrived on.

`history_of_createReceivedUnit` establishes the history invariant of a new
Asset.  Its one assumption, `Referential`, is the histories' foreign key on
`assets`: no row is of an Asset that does not exist yet.
-/

namespace FleetOps

open Amendment

/-- The arguments of `create_received_unit`. -/
structure UnitArgs where
  receiptId : Uuid
  lineId : Uuid
  poLineId : Option Uuid
  itemId : Uuid
  quantity : ℚ
  uom : UnitOfMeasure
  condition : ReceiptCondition
  packingQuantity : Option ℚ
  notes : Option String
  assetId : Uuid
  assetTag : String
  description : String
  ownerPartyId : Option Uuid
  custodianPartyId : Option Uuid
  identifierId : Uuid
  identifierType : IdentifierType
  identifierValue : Option String
  unreadableReason : Option String
  transitionId : Uuid
  deriving DecidableEq

/-- `INSERT INTO assets`, whose trigger admits version 1 and `RECEIVED` only. -/
def insertAsset (ctx : Context) (items : List Item) (asset : AssetRow) (tables : AssetTables) :
    Sql AssetTables := do
  require (asset.version = 1 ∧ asset.currentState = .received) .checkViolation
    "Asset must begin at version 1 / RECEIVED"
  require (boundedText 200 asset.assetTag ∧ boundedText 4000 asset.description) .checkViolation
    "assets check"
  require (!(ctx.foreignKeys .assets).contains asset.id ∧
      tables.assets.all (fun a => a.id ≠ asset.id ∧ a.assetTag ≠ asset.assetTag))
    .uniqueViolation "assets key"
  require (items.any (fun i => i.id = asset.itemId ∧ i.serialized) ∧
      ctx.refs.parties.contains asset.ownerPartyId ∧
      asset.custodianPartyId.all ctx.refs.parties.contains ∧
      asset.currentLocationId.all ctx.refs.locations.contains ∧
      ctx.refs.actors.contains asset.createdByActorId ∧
      ctx.refs.actors.contains asset.updatedByActorId)
    .foreignKeyViolation "assets reference"
  enforceAuthenticatedCreator ctx.session asset.createdByActorId
  pure { tables with assets := tables.assets ++ [asset] }

/-- `INSERT INTO asset_initial_facts`. -/
def insertInitialFacts (ctx : Context) (facts : InitialFacts) (tables : AssetTables) :
    Sql AssetTables := do
  require (tables.initialFacts.all (·.assetId ≠ facts.assetId)) .uniqueViolation
    "asset_initial_facts key"
  require (tables.assets.any (·.id = facts.assetId)) .foreignKeyViolation
    "asset_initial_facts reference"
  enforceAuthenticatedCreator ctx.session facts.actorId
  pure { tables with initialFacts := tables.initialFacts ++ [facts] }

/-- `INSERT INTO asset_initial_assignment_facts`. -/
def insertInitialAssignment (ctx : Context) (facts : InitialAssignmentFacts)
    (tables : AssetTables) : Sql AssetTables := do
  require (tables.initialAssignmentFacts.all (·.assetId ≠ facts.assetId)) .uniqueViolation
    "asset_initial_assignment_facts key"
  require (tables.assets.any (·.id = facts.assetId)) .foreignKeyViolation
    "asset_initial_assignment_facts reference"
  enforceAuthenticatedCreator ctx.session facts.actorId
  pure { tables with initialAssignmentFacts := tables.initialAssignmentFacts ++ [facts] }

/-- An identifier is readable, or says why it is not. -/
def identifierReadability (posixSpace : Char → Bool) (identifier : AssetIdentifier) : Bool :=
  match identifier.value, identifier.unreadableReason with
  | some value, none => boundedText 500 value
  | none, some reason => decide (reason.length ≤ 4000) && hasNonSpace posixSpace reason
  | _, _ => false

/-- `INSERT INTO asset_identifiers`. -/
def insertIdentifier (ctx : Context) (identifier : AssetIdentifier) (tables : AssetTables) :
    Sql AssetTables := do
  require (identifierReadability ctx.posixSpace identifier) .checkViolation
    "asset_identifiers check"
  require (!(ctx.foreignKeys .assetIdentifiers).contains identifier.id ∧
      tables.identifiers.all (fun other => other.id ≠ identifier.id ∧
        ¬(identifier.value.isSome ∧ other.type = identifier.type ∧ other.value = identifier.value)))
    .uniqueViolation "asset_identifiers key"
  require (tables.assets.any (·.id = identifier.assetId)) .foreignKeyViolation
    "asset_identifiers reference"
  enforceAuthenticatedCreator ctx.session identifier.createdByActorId
  pure { tables with identifiers := tables.identifiers ++ [identifier] }

/-- The Asset's row as it begins. -/
def UnitArgs.asset (args : UnitArgs) (receipt : Receipt) (owner performer : Uuid)
    (now : Timestamp) : AssetRow :=
  { id := args.assetId, itemId := args.itemId, assetTag := args.assetTag
    description := args.description, ownerPartyId := owner
    custodianPartyId := args.custodianPartyId, currentLocationId := receipt.dockLocationId
    currentAssignmentId := none, currentState := .received, version := 1
    createdByActorId := performer, updatedByActorId := performer, createdAt := now
    updatedAt := now }

/-- The creation event. -/
def UnitArgs.creation (args : UnitArgs) (receipt : Receipt) (performer : Uuid) (now : Timestamp) :
    HistoryRow AssetState :=
  { id := args.transitionId, assetId := args.assetId, resultVersion := 1, fromFact := none
    toFact := some .received, reason := "Physical unit received", actorId := performer
    occurredAt := receipt.receivedAt, recordedAt := now }

/-- The witness of the initial physical facts. -/
def UnitArgs.facts (args : UnitArgs) (receipt : Receipt) (owner performer : Uuid)
    (now : Timestamp) : InitialFacts :=
  { assetId := args.assetId, initialOwnerPartyId := owner
    initialCustodianPartyId := args.custodianPartyId, initialLocationId := receipt.dockLocationId
    actorId := performer, occurredAt := receipt.receivedAt, recordedAt := now }

/-- The receipt line that the unit arrived on; its guard fills in the rest. -/
def UnitArgs.line (args : UnitArgs) (owner performer : Uuid) (receipt : Receipt) (now : Timestamp) :
    ReceiptLine :=
  { id := args.lineId, receiptId := args.receiptId
    fields :=
      { poLineId := args.poLineId, itemId := args.itemId, quantity := args.quantity
        uom := args.uom, condition := args.condition, packingQuantity := args.packingQuantity
        notes := args.notes, serialized := true, ownerPartyId := some owner
        custodianPartyId := args.custodianPartyId, assetId := some args.assetId
        observedIdentifierType := none, observedIdentifierValue := none }
    actorId := performer, occurredAt := receipt.receivedAt, recordedAt := now }

/-- The inserts of `create_received_unit` into the Asset tables. -/
def insertReceivedAsset (ctx : Context) (items : List Item) (args : UnitArgs) (receipt : Receipt)
    (owner performer : Uuid) (tables : AssetTables) : Sql AssetTables := do
  let now := ctx.session.now
  let tables ← insertAsset ctx items (args.asset receipt owner performer now) tables
  let tables ← insertHistory ctx .transition (args.creation receipt performer now) tables
  let tables ← insertInitialFacts ctx (args.facts receipt owner performer now) tables
  let tables ← insertInitialAssignment ctx
    { assetId := args.assetId, actorId := performer, occurredAt := receipt.receivedAt
      recordedAt := now } tables
  insertIdentifier ctx
    { id := args.identifierId, assetId := args.assetId, type := args.identifierType
      value := args.identifierValue, unreadableReason := args.unreadableReason
      createdByActorId := performer, createdAt := now } tables

/-- `create_received_unit`. -/
def createReceivedUnit (ctx : Context) (args : UnitArgs) (tenant : Tenant) :
    Sql (ReceiptLine × Tenant) := do
  let invalid := "Invalid serialized receiving facts"
  let org ← trustedOrganization ctx.session "Trusted organization required"
  let performer ← currentAuthenticatedActor ctx.session
  let receipt ← lockReceivingContext ctx tenant org args.receiptId
  require (¬tenant.reconciled args.receiptId) .checkViolation
    "Receipt population is already reconciled"
  let owner ← demand args.ownerPartyId .foreignKeyViolation invalid
  let dock ← demand receipt.dockLocationId .foreignKeyViolation invalid
  require (ctx.refs.parties.contains owner ∧
      args.custodianPartyId.all ctx.refs.parties.contains ∧
      ctx.refs.locations.contains dock ∧
      tenant.items.any (fun i => i.id = args.itemId ∧ i.serialized)) .foreignKeyViolation invalid
  require (args.identifierValue.all fun value =>
      (tenant.identifierOwner args.identifierType value).isNone) .uniqueViolation
    "Readable identifier already recorded"
  let tables ← insertReceivedAsset ctx tenant.items args receipt owner performer tenant.tables
  insertLine ctx (args.line owner performer receipt ctx.session.now) { tenant with tables := tables }

/-- The rows of a new unit. -/
structure Bundle where
  asset : AssetRow
  creation : HistoryRow AssetState
  facts : InitialFacts
  unassigned : InitialAssignmentFacts
  identifier : AssetIdentifier

/-- The tables with a new unit. -/
def AssetTables.receive (tables : AssetTables) (b : Bundle) : AssetTables :=
  { tables with
    assets := tables.assets ++ [b.asset]
    history := Function.update tables.history .transition (tables.history .transition ++ [b.creation])
    initialFacts := tables.initialFacts ++ [b.facts]
    initialAssignmentFacts := tables.initialAssignmentFacts ++ [b.unassigned]
    identifiers := tables.identifiers ++ [b.identifier] }

@[simp] theorem AssetTables.history_receive (tables : AssetTables) (b : Bundle) :
    (tables.receive b).history .transition = tables.history .transition ++ [b.creation] := by
  simp [AssetTables.receive]

theorem AssetTables.history_receive_of_ne (tables : AssetTables) (b : Bundle) {k : HistoryClass}
    (h : k ≠ .transition) : (tables.receive b).history k = tables.history k := by
  simp [AssetTables.receive, h]

/-- The bundle that `create_received_unit` inserts. -/
def UnitArgs.bundle (args : UnitArgs) (receipt : Receipt) (owner performer : Uuid)
    (now : Timestamp) : Bundle where
  asset := args.asset receipt owner performer now
  creation := args.creation receipt performer now
  facts := args.facts receipt owner performer now
  unassigned :=
    { assetId := args.assetId, actorId := performer, occurredAt := receipt.receivedAt
      recordedAt := now }
  identifier :=
    { id := args.identifierId, assetId := args.assetId, type := args.identifierType
      value := args.identifierValue, unreadableReason := args.unreadableReason
      createdByActorId := performer, createdAt := now }

/-! ## The inserts of a received Asset -/

section

variable {ctx : Context} {tables after : AssetTables}

/-- The keys and references with which an Asset's row is inserted. -/
structure AssetAdmitted (ctx : Context) (asset : AssetRow) (tables : AssetTables) : Prop where
  version : asset.version = 1
  fresh : ∀ other ∈ tables.assets, other.id ≠ asset.id
  owner : ctx.refs.parties.contains asset.ownerPartyId = true
  custodian : asset.custodianPartyId.all ctx.refs.parties.contains = true
  location : asset.currentLocationId.all ctx.refs.locations.contains = true

theorem insertAsset_eq_ok {items : List Item} {asset : AssetRow}
    (h : insertAsset ctx items asset tables = .ok after) :
    AssetAdmitted ctx asset tables ∧ after = { tables with assets := tables.assets ++ [asset] } := by
  simp only [insertAsset, bind_eq_ok, require_eq_ok, pure_eq_ok, exists_unit] at h
  obtain ⟨⟨hversion, -⟩, -, ⟨-, hkey⟩, ⟨-, howner, hcustodian, hlocation, -⟩, -, rfl⟩ := h
  refine ⟨⟨hversion, fun other hother => ?_, howner, hcustodian, hlocation⟩, rfl⟩
  have hall := List.all_eq_true.mp hkey other hother
  simp only [decide_eq_true_eq] at hall
  exact hall.1

theorem insertInitialFacts_eq_ok {facts : InitialFacts}
    (h : insertInitialFacts ctx facts tables = .ok after) :
    (∀ other ∈ tables.initialFacts, other.assetId ≠ facts.assetId) ∧
      after = { tables with initialFacts := tables.initialFacts ++ [facts] } := by
  simp only [insertInitialFacts, bind_eq_ok, require_eq_ok, pure_eq_ok, exists_unit] at h
  obtain ⟨hkey, -, -, rfl⟩ := h
  exact ⟨fun other hother => by simpa using List.all_eq_true.mp hkey other hother, rfl⟩

theorem insertInitialAssignment_eq_ok {facts : InitialAssignmentFacts}
    (h : insertInitialAssignment ctx facts tables = .ok after) :
    (∀ other ∈ tables.initialAssignmentFacts, other.assetId ≠ facts.assetId) ∧
      after = { tables with initialAssignmentFacts := tables.initialAssignmentFacts ++ [facts] } := by
  simp only [insertInitialAssignment, bind_eq_ok, require_eq_ok, pure_eq_ok, exists_unit] at h
  obtain ⟨hkey, -, -, rfl⟩ := h
  exact ⟨fun other hother => by simpa using List.all_eq_true.mp hkey other hother, rfl⟩

/-- An identifier is inserted with its value, which nobody has, or with a reason. -/
structure IdentifierAdmitted (identifier : AssetIdentifier) (tables : AssetTables) : Prop where
  readability : identifier.value = none → identifier.unreadableReason.isSome
  serial : ∀ value, identifier.value = some value →
    ∀ i ∈ tables.identifiers, ¬(i.type = identifier.type ∧ i.value = some value)

theorem insertIdentifier_eq_ok {identifier : AssetIdentifier}
    (h : insertIdentifier ctx identifier tables = .ok after) :
    IdentifierAdmitted identifier tables ∧
      after = { tables with identifiers := tables.identifiers ++ [identifier] } := by
  simp only [insertIdentifier, bind_eq_ok, require_eq_ok, pure_eq_ok, exists_unit] at h
  obtain ⟨hreadability, ⟨-, hkey⟩, -, -, rfl⟩ := h
  refine ⟨⟨fun hnone => ?_, fun value hvalue i hi hsame => ?_⟩, rfl⟩
  · cases hreason : identifier.unreadableReason with
    | none => simp [identifierReadability, hnone, hreason] at hreadability
    | some reason => rfl
  · have hall := List.all_eq_true.mp hkey i hi
    simp only [decide_eq_true_eq] at hall
    exact hall.2 ⟨by simp [hvalue], hsame.1, hsame.2.trans hvalue.symm⟩

/-- What the inserts of a received Asset find: each of its rows is admitted. -/
structure BundleAdmitted (ctx : Context) (args : UnitArgs) (receipt : Receipt)
    (owner performer : Uuid) (tables : AssetTables) : Prop where
  asset : AssetAdmitted ctx (args.asset receipt owner performer ctx.session.now) tables
  creation : ∃ after,
    insertHistory ctx .transition (args.creation receipt performer ctx.session.now)
      { tables with
        assets := tables.assets ++ [args.asset receipt owner performer ctx.session.now] } = .ok after
  facts : ∀ other ∈ tables.initialFacts, other.assetId ≠ args.assetId
  unassigned : ∀ other ∈ tables.initialAssignmentFacts, other.assetId ≠ args.assetId
  identifier : IdentifierAdmitted (args.bundle receipt owner performer ctx.session.now).identifier
    tables

/-- The inserts of `create_received_unit` leave its bundle. -/
theorem insertReceivedAsset_eq_ok {items : List Item} {args : UnitArgs} {receipt : Receipt}
    {owner performer : Uuid}
    (h : insertReceivedAsset ctx items args receipt owner performer tables = .ok after) :
    BundleAdmitted ctx args receipt owner performer tables ∧
      after = tables.receive (args.bundle receipt owner performer ctx.session.now) := by
  simp only [insertReceivedAsset, bind_eq_ok] at h
  obtain ⟨_, hfirst, _, hcreation, _, hsecond, _, hthird, hfourth⟩ := h
  obtain ⟨hasset, rfl⟩ := insertAsset_eq_ok hfirst
  obtain ⟨-, -, -, rfl⟩ := insertHistory_eq_ok hcreation
  obtain ⟨hfacts, rfl⟩ := insertInitialFacts_eq_ok hsecond
  obtain ⟨hunassigned, rfl⟩ := insertInitialAssignment_eq_ok hthird
  obtain ⟨hidentifier, rfl⟩ := insertIdentifier_eq_ok hfourth
  exact ⟨⟨hasset, ⟨_, hcreation⟩, hfacts, hunassigned, hidentifier.readability, hidentifier.serial⟩,
    rfl⟩

end

/-! ## The history of a new Asset -/

/-- The foreign key of the histories and witnesses on `assets`. -/
structure AssetTables.Referential (tables : AssetTables) : Prop where
  history : ∀ k, ∀ row ∈ tables.history k, ∃ asset ∈ tables.assets, asset.id = row.assetId
  initialFacts : ∀ facts ∈ tables.initialFacts, ∃ asset ∈ tables.assets, asset.id = facts.assetId

/-- A new Asset has no rows. -/
theorem AssetTables.Referential.rowsFor_eq_nil {tables : AssetTables} (h : tables.Referential)
    {id : Uuid} (hnew : ∀ asset ∈ tables.assets, asset.id ≠ id) (k : HistoryClass) :
    tables.rowsFor k id = [] := by
  refine List.filter_eq_nil_iff.mpr fun row hrow => ?_
  obtain ⟨asset, hasset, heq⟩ := h.history k row hrow
  simpa [← heq] using hnew asset hasset

theorem find?_append_of_forall {α : Type} {p : α → Bool} {rows : List α} {row : α}
    (hrows : ∀ other ∈ rows, p other = false) (hrow : p row = true) :
    (rows ++ [row]).find? p = some row := by
  rw [List.find?_append, List.find?_eq_none.mpr (by simpa using hrows)]
  simp [hrow]

/-- A new Asset satisfies the history invariant. -/
theorem history_of_insertReceivedAsset {ctx : Context} {items : List Item} {args : UnitArgs}
    {receipt : Receipt} {owner performer : Uuid} {tables after : AssetTables}
    (hkeys : tables.Referential)
    (h : insertReceivedAsset ctx items args receipt owner performer tables = .ok after) :
    AssetHistory (args.creation receipt performer ctx.session.now)
      (args.facts receipt owner performer ctx.session.now) after
      (args.asset receipt owner performer ctx.session.now)
      (Function.update (fun _ => []) .transition
        [Entry.plain (args.creation receipt performer ctx.session.now)]) := by
  obtain ⟨hadmitted, rfl⟩ := insertReceivedAsset_eq_ok h
  let bundle := args.bundle receipt owner performer ctx.session.now
  have hnew : ∀ asset ∈ tables.assets, asset.id ≠ args.assetId := hadmitted.asset.fresh
  have hempty := hkeys.rowsFor_eq_nil hnew
  have htransition : (tables.receive bundle).rowsFor .transition args.assetId =
      [args.creation receipt performer ctx.session.now] := by
    have hold := hempty .transition
    unfold AssetTables.rowsFor at hold ⊢
    rw [AssetTables.history_receive, List.filter_append, hold]
    simp [bundle, UnitArgs.bundle, UnitArgs.creation]
  have hother : ∀ k, k ≠ .transition → (tables.receive bundle).rowsFor k args.assetId = [] := by
    intro k hk
    rw [AssetTables.rowsFor, AssetTables.history_receive_of_ne _ _ hk]
    exact hempty k
  refine ⟨?_, ?_, ?_, ?_, ?_, [], Function.update_self ..⟩
  · refine find?_append_of_forall (fun asset hasset => ?_) (decide_eq_true rfl)
    exact decide_eq_false (hnew asset hasset)
  · refine find?_append_of_forall (fun facts hmem => ?_) (decide_eq_true rfl)
    obtain ⟨asset, hasset, heq⟩ := hkeys.initialFacts facts hmem
    simpa [UnitArgs.asset, ← heq] using hnew asset hasset
  · have hversions : (tables.receive bundle).versionsFor args.assetId = [1] := by
      simp [AssetTables.versionsFor, HistoryClass.all, htransition, hother, UnitArgs.creation]
    exact hversions ▸ .refl _
  · intro k
    by_cases hk : k = .transition
    · subst hk
      rw [Function.update_self]
      refine ⟨htransition, ⟨?_, ?_, ?_⟩, ?_, ?_, ⟨⟨rfl, by simp [Entry.plain]⟩, trivial⟩⟩
      · intro entry hentry
        rw [List.mem_singleton.mp hentry]
        exact .plain rfl rfl rfl
      · simp [UnitArgs.creation, UnitArgs.asset]
      · simp
      · intro entry hentry
        rw [List.mem_singleton.mp hentry]
        exact Entry.numbered_plain _
      · simp [Ascending]
    · rw [Function.update_of_ne hk]
      exact ⟨hother k hk, ⟨by simp, by simp, by simp⟩, by simp, by simp [Ascending], trivial⟩
  · intro k
    cases k <;> rfl

/-- Nobody owns a readable identifier without a row. -/
theorem Tenant.identifierOwner_eq_none {t : Tenant} {type : IdentifierType} {value : String} :
    t.identifierOwner type value = none ↔
      ∀ i ∈ t.tables.identifiers, ¬(i.type = type ∧ i.value = some value) := by
  simp [Tenant.identifierOwner, List.find?_eq_none]

/-- What `create_received_unit` finds and does, of the receipt, owner and Actor that it reads. -/
structure UnitReceived (ctx : Context) (args : UnitArgs) (tenant : Tenant)
    (created : ReceiptLine × Tenant) (receipt : Receipt) (owner performer : Uuid) : Prop where
  performing : currentAuthenticatedActor ctx.session = .ok performer
  locked : ∃ org, trustedOrganization ctx.session "Trusted organization required" = .ok org ∧
    lockReceivingContext ctx tenant org args.receiptId = .ok receipt
  unreconciled : ¬tenant.reconciled args.receiptId
  owned : args.ownerPartyId = some owner
  references : ∃ dock, receipt.dockLocationId = some dock ∧ ctx.refs.parties.contains owner ∧
    args.custodianPartyId.all ctx.refs.parties.contains ∧ ctx.refs.locations.contains dock ∧
    tenant.items.any fun i => i.id = args.itemId ∧ i.serialized
  inserted : insertReceivedAsset ctx tenant.items args receipt owner performer tenant.tables =
    .ok (tenant.tables.receive (args.bundle receipt owner performer ctx.session.now))
  recorded : insertLine ctx (args.line owner performer receipt ctx.session.now)
    { tenant with
      tables := tenant.tables.receive (args.bundle receipt owner performer ctx.session.now) } =
    .ok created

section

variable {ctx : Context} {args : UnitArgs} {tenant : Tenant} {created : ReceiptLine × Tenant}
  {receipt : Receipt} {owner performer : Uuid}

theorem UnitReceived.admitted (h : UnitReceived ctx args tenant created receipt owner performer) :
    BundleAdmitted ctx args receipt owner performer tenant.tables :=
  (insertReceivedAsset_eq_ok h.inserted).1

/-- Nobody owned the identifier of a unit whose rows were inserted. -/
theorem unowned_of_insertReceivedAsset {after : AssetTables}
    (h : insertReceivedAsset ctx tenant.items args receipt owner performer tenant.tables =
      .ok after)
    {value : String} (hvalue : args.identifierValue = some value) :
    tenant.identifierOwner args.identifierType value = none :=
  Tenant.identifierOwner_eq_none.mpr
    ((insertReceivedAsset_eq_ok h).1.identifier.serial value hvalue)

/-- The line's insert leaves the Asset tables. -/
theorem UnitReceived.tables (h : UnitReceived ctx args tenant created receipt owner performer) :
    created.2.tables =
      tenant.tables.receive (args.bundle receipt owner performer ctx.session.now) := by
  have hline := h.recorded
  simp only [insertLine, bind_eq_ok, require_eq_ok, pure_eq_ok, exists_unit] at hline
  obtain ⟨_, -, -, -, -, -, rfl⟩ := hline
  rfl

/-- `create_received_unit` receives a unit; its look for an owner finds nobody. -/
theorem createReceivedUnit_iff : createReceivedUnit ctx args tenant = .ok created ↔
    ∃ receipt owner performer, UnitReceived ctx args tenant created receipt owner performer := by
  simp only [createReceivedUnit, bind_eq_ok, require_eq_ok, demand_eq_ok, exists_unit]
  constructor
  · rintro ⟨org, horg, performer, hperformer, receipt, hreceipt, hopen, owner, howner, dock, hdock,
      hreferences, -, tables, hasset, hline⟩
    obtain ⟨-, rfl⟩ := insertReceivedAsset_eq_ok hasset
    exact ⟨receipt, owner, performer,
      { performing := hperformer, locked := ⟨org, horg, hreceipt⟩, unreconciled := hopen
        owned := howner, references := ⟨dock, hdock, hreferences⟩, inserted := hasset
        recorded := hline }⟩
  · rintro ⟨receipt, owner, performer, h⟩
    obtain ⟨org, horg, hreceipt⟩ := h.locked
    obtain ⟨dock, hdock, hreferences⟩ := h.references
    refine ⟨org, horg, performer, h.performing, receipt, hreceipt, h.unreconciled, owner, h.owned,
      dock, hdock, hreferences, ?_, _, h.inserted, h.recorded⟩
    cases hvalue : args.identifierValue with
    | none => rfl
    | some value => simp [unowned_of_insertReceivedAsset h.inserted hvalue]

/-- The Asset tables that `create_received_unit` leaves. -/
theorem createReceivedUnit_eq_ok {after : Tenant} {line : ReceiptLine}
    (h : createReceivedUnit ctx args tenant = .ok (line, after)) :
    ∃ receipt owner performer,
      insertReceivedAsset ctx tenant.items args receipt owner performer tenant.tables =
        .ok after.tables := by
  obtain ⟨receipt, owner, performer, hreceived⟩ := createReceivedUnit_iff.mp h
  exact ⟨receipt, owner, performer, hreceived.tables ▸ hreceived.inserted⟩

end

/-! ## A received unit -/

/-- A tenant with one open receipt at a dock. -/
def sampleTenant : Tenant :=
  { tables := { orgId := 100 }
    items := [⟨5, true⟩]
    receipts := [{ id := 6, vendorPartyId := 2, poId := none, dockLocationId := some 3
                   packingReference := none, receivedAt := .at 40, actorId := 1
                   occurredAt := .at 40, recordedAt := .at 41 }] }

theorem sampleTenant_referential : sampleTenant.tables.Referential :=
  ⟨fun _ _ hrow => absurd hrow List.not_mem_nil, fun _ hrow => absurd hrow List.not_mem_nil⟩

/-- A unit that arrives on it. -/
def sampleUnit : UnitArgs :=
  { receiptId := 6, lineId := 7, poLineId := none, itemId := 5, quantity := 1, uom := .ea
    condition := .good, packingQuantity := none, notes := none, assetId := 8, assetTag := "A-1"
    description := "Radio", ownerPartyId := some 2, custodianPartyId := none, identifierId := 9
    identifierType := .manufacturerSerial, identifierValue := some "S1", unreadableReason := none
    transitionId := 10 }

/-- The unit is admitted. -/
theorem sampleUnit_created :
    ∃ line created, createReceivedUnit sampleContext sampleUnit sampleTenant =
      .ok (line, created) ∧
        (Machine.run perform sampleRequests created.tables).versionOf 8 = 4 := by
  have hrun : ((createReceivedUnit sampleContext sampleUnit sampleTenant).toOption.map
      fun created => (Machine.run perform sampleRequests created.2.tables).versionOf 8) =
        some 4 := by decide +kernel
  cases hcreate : createReceivedUnit sampleContext sampleUnit sampleTenant with
  | error reason => simp [hcreate, Except.toOption] at hrun
  | ok pair => exact ⟨pair.1, pair.2, rfl, by simpa [hcreate, Except.toOption] using hrun⟩

end FleetOps
