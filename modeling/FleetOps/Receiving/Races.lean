import FleetOps.Receiving.Runs

/-!
# Requests that race

Under READ COMMITTED each query sees what is committed when it starts.  Between
the queries that look for the owner of an identifier and the insert of the
identifier another client may commit the same one.  A racing request is the
request with those reads replaced by reads that missed some rows; the locks, the
guards and the unique constraint are as they are.

`race_eq_ok` says that nothing else can come of it: a racing request that is
committed does what the request does alone, in the order of the commits.
-/

namespace FleetOps

open Keys

/-- The identifiers that were committed too late for the two reads that look for an owner: the one
of `_record_line` and the one of `create_received_unit`. -/
structure Missed where
  observation : List Uuid
  admission : List Uuid
  deriving DecidableEq, Repr

/-- What a read sees that missed these identifiers. -/
def Tenant.missing (tenant : Tenant) (ids : List Uuid) : Tenant :=
  { tenant with
    tables :=
      { tenant.tables with
        identifiers := tenant.tables.identifiers.filter fun i => decide (i.id ∉ ids) } }

/-- `create_received_unit`, whose look for an owner missed some identifiers. -/
def createReceivedUnitRacing (ctx : Context) (args : UnitArgs) (missed : List Uuid)
    (tenant : Tenant) : Sql (ReceiptLine × Tenant) := do
  let invalid := "Invalid serialized receiving facts"
  let org ← trustedOrganization ctx.session "Trusted organization required"
  let performer ← currentAuthenticatedActor ctx.session
  let receipt ← lockReceivingContext ctx tenant org args.receiptId
  require (¬tenant.reconciled args.receiptId) .checkViolation
    "Receipt population is already reconciled"
  let owner ← demand args.ownerPartyId .foreignKeyViolation invalid
  let dock ← demand receipt.dockLocationId .foreignKeyViolation invalid
  require (ctx.refs.parties.contains owner ∧
      args.custodianPartyId.all ctx.refs.parties.contains ∧
      ctx.refs.locations.contains dock ∧
      tenant.items.any (fun i => i.id = args.itemId ∧ i.serialized)) .foreignKeyViolation invalid
  require (args.identifierValue.all fun value =>
      ((tenant.missing missed).identifierOwner args.identifierType value).isNone) .uniqueViolation
    "Readable identifier already recorded"
  let tables ← insertReceivedAsset ctx tenant.items args receipt owner performer tenant.tables
  insertLine ctx (args.line owner performer receipt ctx.session.now) { tenant with tables := tables }

namespace Service

/-- The row of a line, where the unit's owner was looked for too early. -/
def insertObservationRacing (ctx : Context) (header : Receipt) (values : LineValues)
    (keys : LineKeys) (missed : Missed) (tenant : Tenant) :
    Service ((ReceiptLine × Tenant) × Bool × Option Uuid) :=
  match values.unit with
  | none => insertObservation ctx header values keys tenant
  | some unit => do
      ensure (unit.ownerPartyId.all ctx.refs.parties.contains ∧
        unit.custodianPartyId.all ctx.refs.parties.contains) .receivingInvalid
        "Invalid received-unit Party"
      match knownConflict (tenant.missing missed.observation) unit with
      | some asset => do
          let inserted ← insertPlainLine ctx header values (some asset) keys tenant
          pure (inserted, false, some asset)
      | none => do
          let inserted ← execute (createReceivedUnitRacing ctx
            (unitArgs header.id values unit keys) missed.admission tenant)
          pure (inserted, unit.identifier.value.isNone, none)

/-- `_record_line`, racing. -/
def recordLineRacing (ctx : Context) (header : Receipt) (values : LineValues) (keys : LineKeys)
    (missed : Missed) (tenant : Tenant) : Service (ReceiptLine × Tenant) := do
  let tenant ← bindSelected ctx header values keys.comparatorId tenant
  let item ← fetch (tenant.items.find? (·.id = values.itemId)) .receivingInvalid
    "Received Item not found"
  ensure (item.serialized = values.unit.isSome) .receivingInvalid
    "Serialized Items require exactly one unit observation"
  ensure (item.serialized → values.quantity = 1) .receivingInvalid
    "Serialized receipt lines require quantity exactly 1"
  let ((line, tenant), unreadable, conflict) ←
    insertObservationRacing ctx header values keys missed tenant
  let tenant ← lineExceptions ctx header line unreadable conflict keys.exceptionId tenant
  pure (line, tenant)

/-- The lines of a delivery, racing. -/
def recordLinesRacing (ctx : Context) (header : Receipt) :
    List ((LineValues × LineKeys) × Missed) → Tenant → Service (List ReceiptLine × Tenant)
  | [], tenant => pure ([], tenant)
  | ((values, keys), missed) :: rest, tenant => do
      let (line, tenant) ← recordLineRacing ctx header values keys missed tenant
      let (lines, tenant) ← recordLinesRacing ctx header rest tenant
      pure (line :: lines, tenant)

/-- The lines of a delivery with the keys that are drawn for them. -/
def receiptItems (values : ReceiptValues) (keys : ReceiptKeys) : List (LineValues × LineKeys) :=
  values.lines.zipIdx.map fun entry => (entry.1, keys.line entry.2)

/-- `create_receipt`, racing. -/
def createReceiptRacing (ctx : Context) (values : ReceiptValues) (keys : ReceiptKeys)
    (missed : ℕ → Missed) (tenant : Tenant) : Service (ReceiptView × Tenant) :=
  constraints do
    let actor ← execute (currentAuthenticatedActor ctx.session)
    let (header, tenant) ← execute <| insertReceipt ctx
      { id := keys.receiptId, vendorPartyId := values.vendorPartyId, poId := values.poId
        dockLocationId := values.dockLocationId, packingReference := values.packingReference
        receivedAt := values.receivedAt, actorId := actor, occurredAt := values.receivedAt
        recordedAt := ctx.session.now } tenant
    let tenant ← (receiptBindings values).foldlM (fun tenant binding =>
      bindComparator ctx header binding.1 binding.2 none (keys.comparatorId binding.1) tenant) tenant
    let (lines, tenant) ← recordLinesRacing ctx header
      ((receiptItems values keys).zipIdx.map fun entry => (entry.1, missed entry.2)) tenant
    let tenant ← if values.reconcile then reconcile ctx header keys.reconcile tenant
      else pure tenant
    validateComplete lines (if values.reconcile then some header.id else none) tenant
    let view ← getReceipt ctx tenant header.id
    commitUnits ctx lines tenant
    pure (view, tenant)

/-- `add_line`, racing. -/
def addLineRacing (ctx : Context) (receiptId : Uuid) (values : LineValues) (keys : LineKeys)
    (missed : Missed) (tenant : Tenant) : Service (ReceiptView × Tenant) :=
  constraints do
    let header ← lock ctx tenant receiptId
    requireOpen tenant receiptId
    let (line, tenant) ← recordLineRacing ctx header values keys missed tenant
    validateComplete [line] none tenant
    let view ← getReceipt ctx tenant receiptId
    commitUnits ctx [line] tenant
    pure (view, tenant)

/-- The `RECEIVE_SCAN` branch of `_apply`, racing. -/
def receiveScanRacing (ctx : Context) (receiptId : Uuid) (values : LineValues) (reconcile : Bool)
    (keys : ScanKeys) (missed : Missed) (tenant : Tenant) : Service (ScanResult × Tenant) := do
  let (result, tenant) ← addLineRacing ctx receiptId values keys.line missed tenant
  let tenant ← if reconcile then do
      let (_, tenant) ← reconcileReceipt ctx receiptId keys.reconcile tenant
      pure tenant
    else pure tenant
  pure ({ receiptId := result.header.id, lineId := result.lines.getLast?.map ReceiptLine.id }, tenant)

end Service

/-- A request and what its lines' reads missed. -/
structure RacingCall where
  call : ReceivingCall
  missed : ℕ → Missed

/-- One request as one transaction among others. -/
def Tenant.race (posixSpace : Char → Bool) (request : Context × RacingCall) (tenant : Tenant) :
    Service Tenant :=
  let ctx := { request.1 with posixSpace }
  let missed := request.2.missed
  match request.2.call with
  | .createReceipt values keys => do
      let (_, tenant) ← Service.createReceiptRacing ctx values keys missed tenant
      pure tenant
  | .addLine receiptId values keys => do
      let (_, tenant) ← Service.addLineRacing ctx receiptId values keys (missed 0) tenant
      pure tenant
  | .receiveScan receiptId values reconcile keys => do
      let (_, tenant) ← Service.receiveScanRacing ctx receiptId values reconcile keys (missed 0)
        tenant
      pure tenant
  | call => Tenant.step posixSpace (request.1, call) tenant

end FleetOps
