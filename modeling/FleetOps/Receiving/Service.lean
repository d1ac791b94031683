import FleetOps.Receiving.Exceptions
import FleetOps.Receiving.Units
import FleetOps.Service

/-!
# The receiving service

`create_receipt`, `add_line` and `reconcile_receipt` capture a delivery.  Every
line is classified as it is recorded; the quantities of a receipt are classified
once, when its population is closed.  The service draws the keys of the rows
that it inserts, which are arguments here.
-/

namespace FleetOps

/-! ## Values and keys -/

/-- The identifier of a unit, as it was observed. -/
structure IdentifierValues where
  type : IdentifierType
  value : Option String
  unreadableReason : Option String
  deriving DecidableEq, Repr

/-- One serialized unit. -/
structure UnitValues where
  assetTag : String
  description : String
  ownerPartyId : Option Uuid
  custodianPartyId : Option Uuid
  identifier : IdentifierValues
  deriving DecidableEq, Repr

/-- A line of a delivery. -/
structure LineValues where
  poLineId : Option Uuid
  expectedPoGeneration : ℕ := 0
  itemId : Uuid
  quantity : ℚ
  uom : UnitOfMeasure
  condition : ReceiptCondition
  packingQuantity : Option ℚ
  notes : Option String
  unit : Option UnitValues
  deriving DecidableEq

/-- The keys that are drawn for one line. -/
structure LineKeys where
  comparatorId : Uuid
  lineId : Uuid
  assetId : Uuid
  identifierId : Uuid
  transitionId : Uuid
  exceptionId : ExceptionType → Uuid

/-- A delivery. -/
structure ReceiptValues where
  vendorPartyId : Uuid
  poId : Option Uuid
  dockLocationId : Option Uuid
  packingReference : Option String
  receivedAt : Timestamp
  comparatorIds : List Uuid
  comparatorBindings : List (Uuid × ℕ)
  lines : List LineValues
  reconcile : Bool

/-- The keys that are drawn for a reconciliation; an exception has one per purchase order line. -/
structure ReconcileKeys where
  reconciliationId : Uuid
  exceptionId : Uuid → Uuid

/-- The keys that are drawn for a delivery. -/
structure ReceiptKeys where
  receiptId : Uuid
  comparatorId : Uuid → Uuid
  line : ℕ → LineKeys
  reconcile : ReconcileKeys

/-- The keys that are drawn for a scan. -/
structure ScanKeys where
  line : LineKeys
  reconcile : ReconcileKeys

/-- What an applied scan stores as its result. -/
structure ScanResult where
  receiptId : Uuid
  lineId : Option Uuid
  deriving DecidableEq, Repr

/-- What a receipt reads as. -/
structure ReceiptView where
  header : Receipt
  reconciled : Bool
  comparators : List Comparator
  lines : List ReceiptLine
  exceptions : List ReceivingException

namespace Service

/-! ## Reading -/

/-- The errors that `constraints` of the receiving service translates. -/
def receivingTranslation : SqlState → Option (FailureKind × String)
  | .serializationFailure | .uniqueViolation =>
      some (.receivingConflict, "Receiving conflicts with current authoritative records")
  | .notNullViolation | .foreignKeyViolation | .checkViolation | .insufficientPrivilege
  | .numericValueOutOfRange =>
      some (.receivingInvalid, "Invalid receiving observation or relationship")
  | .noDataFound | .raiseException => none

/-- `constraints`. -/
def constraints {α : Type} (body : Service α) : Service α := translating receivingTranslation body

/-- `_header`; a session sees its own organization's receipts. -/
def header (ctx : Context) (tenant : Tenant) (receiptId : Uuid) : Service Receipt :=
  fetch (if ctx.session.organization = some tenant.tables.orgId then tenant.receipt? receiptId
    else none) .receivingNotFound "Receipt not found"

/-- `_lock`. -/
def lock (ctx : Context) (tenant : Tenant) (receiptId : Uuid) : Service Receipt := do
  let _ ← header ctx tenant receiptId
  execute (lockReceivingContext ctx tenant tenant.tables.orgId receiptId)

/-- `_require_open`. -/
def requireOpen (tenant : Tenant) (receiptId : Uuid) : Service Unit :=
  ensure (¬tenant.reconciled receiptId) .receivingConflict "Receipt has already been reconciled"

/-- `get_receipt`. -/
def getReceipt (ctx : Context) (tenant : Tenant) (receiptId : Uuid) : Service ReceiptView := do
  let header ← header ctx tenant receiptId
  pure
    { header, reconciled := tenant.reconciled receiptId
      comparators := (tenant.comparators.filter (·.receiptId = receiptId)).mergeSort (·.id ≤ ·.id)
      lines := (tenant.lines.filter (·.receiptId = receiptId)).mergeSort (·.id ≤ ·.id)
      exceptions :=
        (tenant.exceptions.filter (·.receiptId = receiptId)).mergeSort (·.id ≤ ·.id) }

/-! ## Comparators -/

/-- `_bind_comparator`. -/
def bindComparator (ctx : Context) (header : Receipt) (poLineId : Uuid) (expectedGeneration : ℕ)
    (correctionId : Option Uuid) (comparatorId : Uuid) (tenant : Tenant) : Service Tenant := do
  ensure header.poId.isSome .receivingInvalid "Comparator requires a receipt PO"
  if tenant.comparators.any fun c => c.receiptId = header.id ∧ c.poLineId = poLineId then
    pure tenant
  else do
    let source := Tenant.latestCorrection tenant.purchaseOrderLineCorrections poLineId
    ensure ((source.map RecordCorrection.generation).getD 0 = expectedGeneration)
      .receivingConflict "Expected procurement generation is stale"
    let actor ← execute (currentAuthenticatedActor ctx.session)
    execute <| insertComparator ctx
      { id := comparatorId, receiptId := header.id, poLineId
        sourceGeneration := expectedGeneration, sourceId := source.map RecordCorrection.id
        introducedByCorrectionId := correctionId, actorId := actor
        occurredAt := header.receivedAt, recordedAt := ctx.session.now } tenant

/-! ## Lines -/

/-- The row that `_exception` inserts for a line. -/
def lineKey (line : ReceiptLine) (conflict : Option Uuid) (kind : ExceptionType) : ExceptionKey where
  exceptionType := kind
  receiptLineId := some line.id
  poLineId := line.fields.poLineId
  assetId := if kind = .quantityVariance ∨ kind = .serialMismatch then none else line.fields.assetId
  conflictingAssetId := if kind = .serialMismatch then conflict else none

/-- The row that `_exception` inserts for a comparator. -/
def quantityKey (poLine : Uuid) (kind : ExceptionType) : ExceptionKey where
  exceptionType := kind
  receiptLineId := none
  poLineId := some poLine
  assetId := none
  conflictingAssetId := none

/-- `_exception`; capture leaves `evaluation_id` null. -/
def exception (ctx : Context) (header : Receipt) (id : Uuid) (key : ExceptionKey) (tenant : Tenant) :
    Service Tenant := do
  let actor ← execute (currentAuthenticatedActor ctx.session)
  execute <| insertException ctx
    { id, receiptId := header.id, key, evaluationId := none, actorId := actor
      occurredAt := header.receivedAt, recordedAt := ctx.session.now } tenant

/-- The types that `_line_exceptions` finds, given the comparator, what could not be read and the
Asset that the unit conflicts with. -/
def lineKinds (comparator : Option PurchaseOrderFields) (fields : LineFields) (unreadable : Bool)
    (conflict : Option Uuid) : List ExceptionType :=
  (match comparator with
    | none => [.unexpectedItem]
    | some p =>
        (if fields.itemId ≠ p.itemId then [.substitution] else []) ++
          if fields.uom ≠ p.uom then [.uomMismatch] else []) ++
  (match fields.condition with
    | .damaged => [.damaged]
    | .opened => [.opened]
    | .good | .unknown => []) ++
  (if fields.packingQuantity.any (fields.quantity != ·) then [.quantityVariance] else []) ++
  (if unreadable then [.serialUnreadable] else []) ++
  if conflict.isSome then [.serialMismatch] else []

/-- `_comparator`, where the line selects one. -/
def comparator (tenant : Tenant) (poLineId : Option Uuid) : Service (Option PurchaseOrderFields) :=
  match poLineId with
  | none => pure none
  | some id => do
      let line ← fetch (tenant.purchaseOrderLine? id) .receivingInvalid "Invalid receipt comparator"
      pure (some line.fields)

/-- `_line_exceptions`. -/
def lineExceptions (ctx : Context) (header : Receipt) (line : ReceiptLine) (unreadable : Bool)
    (conflict : Option Uuid) (exceptionId : ExceptionType → Uuid) (tenant : Tenant) :
    Service Tenant := do
  let comparator ← comparator tenant line.fields.poLineId
  (lineKinds comparator line.fields unreadable conflict).foldlM
    (fun tenant kind => exception ctx header (exceptionId kind) (lineKey line conflict kind) tenant)
    tenant

/-- The line that `_record_line` inserts itself: not a unit, or one that is known already. -/
def plainFields (values : LineValues) (conflict : Option Uuid) : LineFields where
  poLineId := values.poLineId
  itemId := values.itemId
  quantity := values.quantity
  uom := values.uom
  condition := values.condition
  packingQuantity := values.packingQuantity
  notes := values.notes
  -- `serialized` is filled in by the guard.
  serialized := false
  ownerPartyId := values.unit.bind UnitValues.ownerPartyId
  custodianPartyId := values.unit.bind UnitValues.custodianPartyId
  assetId := none
  observedIdentifierType := conflict.bind fun _ => values.unit.map (·.identifier.type)
  observedIdentifierValue := conflict.bind fun _ => values.unit.bind (·.identifier.value)

/-- The call of `create_received_unit` that `_record_line` makes. -/
def unitArgs (receiptId : Uuid) (values : LineValues) (unit : UnitValues) (keys : LineKeys) :
    UnitArgs where
  receiptId := receiptId
  lineId := keys.lineId
  poLineId := values.poLineId
  itemId := values.itemId
  quantity := values.quantity
  uom := values.uom
  condition := values.condition
  packingQuantity := values.packingQuantity
  notes := values.notes
  assetId := keys.assetId
  assetTag := unit.assetTag
  description := unit.description
  ownerPartyId := unit.ownerPartyId
  custodianPartyId := unit.custodianPartyId
  identifierId := keys.identifierId
  identifierType := unit.identifier.type
  identifierValue := unit.identifier.value
  unreadableReason := unit.identifier.unreadableReason
  transitionId := keys.transitionId

/-- The Asset that a unit's readable identifier belongs to already. -/
def knownConflict (tenant : Tenant) (unit : UnitValues) : Option Uuid :=
  unit.identifier.value.bind (tenant.identifierOwner unit.identifier.type)

/-- A line inserted as such. -/
def insertPlainLine (ctx : Context) (header : Receipt) (values : LineValues)
    (conflict : Option Uuid) (keys : LineKeys) (tenant : Tenant) :
    Service (ReceiptLine × Tenant) := do
  let actor ← execute (currentAuthenticatedActor ctx.session)
  execute <| insertLine ctx
    { id := keys.lineId, receiptId := header.id, fields := plainFields values conflict
      actorId := actor, occurredAt := header.receivedAt, recordedAt := ctx.session.now } tenant

/-- The row of a line: a new unit, a known one, or no unit at all.  With the line come what could
not be read and what it conflicts with. -/
def insertObservation (ctx : Context) (header : Receipt) (values : LineValues) (keys : LineKeys)
    (tenant : Tenant) : Service ((ReceiptLine × Tenant) × Bool × Option Uuid) :=
  match values.unit with
  | none => do
      let inserted ← insertPlainLine ctx header values none keys tenant
      pure (inserted, false, none)
  | some unit => do
      ensure (unit.ownerPartyId.all ctx.refs.parties.contains ∧
        unit.custodianPartyId.all ctx.refs.parties.contains) .receivingInvalid
        "Invalid received-unit Party"
      match knownConflict tenant unit with
      | some asset => do
          let inserted ← insertPlainLine ctx header values (some asset) keys tenant
          pure (inserted, false, some asset)
      | none => do
          let inserted ← execute (createReceivedUnit ctx (unitArgs header.id values unit keys) tenant)
          pure (inserted, unit.identifier.value.isNone, none)

/-- The comparator that a line selects. -/
def bindSelected (ctx : Context) (header : Receipt) (values : LineValues) (comparatorId : Uuid)
    (tenant : Tenant) : Service Tenant :=
  match values.poLineId with
  | none => pure tenant
  | some poLine =>
      bindComparator ctx header poLine values.expectedPoGeneration none comparatorId tenant

/-- `_record_line`. -/
def recordLine (ctx : Context) (header : Receipt) (values : LineValues) (keys : LineKeys)
    (tenant : Tenant) : Service (ReceiptLine × Tenant) := do
  let tenant ← bindSelected ctx header values keys.comparatorId tenant
  let item ← fetch (tenant.items.find? (·.id = values.itemId)) .receivingInvalid
    "Received Item not found"
  ensure (item.serialized = values.unit.isSome) .receivingInvalid
    "Serialized Items require exactly one unit observation"
  ensure (item.serialized → values.quantity = 1) .receivingInvalid
    "Serialized receipt lines require quantity exactly 1"
  let ((line, tenant), unreadable, conflict) ← insertObservation ctx header values keys tenant
  let tenant ← lineExceptions ctx header line unreadable conflict keys.exceptionId tenant
  pure (line, tenant)

/-! ## Reconciliation -/

/-- The quantity conclusion on one comparator. -/
def concludeQuantity (ctx : Context) (header : Receipt) (exceptionId : Uuid → Uuid)
    (tenant : Tenant) (comparator : PurchaseOrderLine) : Service Tenant :=
  let arrivals := tenant.arrivals header.id comparator.id
  let total := totalIn comparator.fields.uom arrivals
  if mixedUnits comparator.fields.uom arrivals then pure tenant
  else if total ≠ comparator.fields.quantity then
    exception ctx header (exceptionId comparator.id) (quantityKey comparator.id
      (if total < comparator.fields.quantity then .short else .over)) tenant
  else pure tenant

/-- `_reconcile`. -/
def reconcile (ctx : Context) (header : Receipt) (keys : ReconcileKeys) (tenant : Tenant) :
    Service Tenant := do
  requireOpen tenant header.id
  let actor ← execute (currentAuthenticatedActor ctx.session)
  let tenant ← execute <| insertReconciliation ctx
    { id := keys.reconciliationId, receiptId := header.id, actorId := actor
      occurredAt := header.receivedAt, recordedAt := ctx.session.now } tenant
  (tenant.boundLines header.id).foldlM (concludeQuantity ctx header keys.exceptionId) tenant

/-! ## The operations -/

/-- The deferred checks of a transaction's own rows, `_validate_complete`. -/
def validateComplete (lines : List ReceiptLine) (reconciled : Option Uuid) (tenant : Tenant) :
    Service Unit := do
  execute (lines.forM (completeLine tenant))
  execute (reconciled.forM (completeReconciliation tenant))

/-- The check of a new unit's history, deferred to the commit. -/
def commitUnits (ctx : Context) (lines : List ReceiptLine) (tenant : Tenant) : Service Unit :=
  execute <| lines.forM fun line =>
    line.fields.assetId.forM fun asset => checkPairs ctx .transition asset tenant.tables

/-- The lines of a delivery, in their order. -/
def recordLines (ctx : Context) (header : Receipt) :
    List (LineValues × LineKeys) → Tenant → Service (List ReceiptLine × Tenant)
  | [], tenant => pure ([], tenant)
  | (values, keys) :: rest, tenant => do
      let (line, tenant) ← recordLine ctx header values keys tenant
      let (lines, tenant) ← recordLines ctx header rest tenant
      pure (line :: lines, tenant)

/-- The comparators of a delivery: those named at generation 0, then those with a generation. -/
def receiptBindings (values : ReceiptValues) : List (Uuid × ℕ) :=
  (values.comparatorIds.map fun id => (id, 0)) ++ values.comparatorBindings

/-- `create_receipt`. -/
def createReceipt (ctx : Context) (values : ReceiptValues) (keys : ReceiptKeys) (tenant : Tenant) :
    Service (ReceiptView × Tenant) :=
  constraints do
    let actor ← execute (currentAuthenticatedActor ctx.session)
    let (header, tenant) ← execute <| insertReceipt ctx
      { id := keys.receiptId, vendorPartyId := values.vendorPartyId, poId := values.poId
        dockLocationId := values.dockLocationId, packingReference := values.packingReference
        receivedAt := values.receivedAt, actorId := actor, occurredAt := values.receivedAt
        recordedAt := ctx.session.now } tenant
    let tenant ← (receiptBindings values).foldlM (fun tenant binding =>
      bindComparator ctx header binding.1 binding.2 none (keys.comparatorId binding.1) tenant) tenant
    let (lines, tenant) ← recordLines ctx header
      (values.lines.zipIdx.map fun entry => (entry.1, keys.line entry.2)) tenant
    let tenant ← if values.reconcile then reconcile ctx header keys.reconcile tenant
      else pure tenant
    validateComplete lines (if values.reconcile then some header.id else none) tenant
    let view ← getReceipt ctx tenant header.id
    commitUnits ctx lines tenant
    pure (view, tenant)

/-- `add_line`. -/
def addLine (ctx : Context) (receiptId : Uuid) (values : LineValues) (keys : LineKeys)
    (tenant : Tenant) : Service (ReceiptView × Tenant) :=
  constraints do
    let header ← lock ctx tenant receiptId
    requireOpen tenant receiptId
    let (line, tenant) ← recordLine ctx header values keys tenant
    validateComplete [line] none tenant
    let view ← getReceipt ctx tenant receiptId
    commitUnits ctx [line] tenant
    pure (view, tenant)

/-- `reconcile_receipt`. -/
def reconcileReceipt (ctx : Context) (receiptId : Uuid) (keys : ReconcileKeys) (tenant : Tenant) :
    Service (ReceiptView × Tenant) :=
  constraints do
    let header ← lock ctx tenant receiptId
    let tenant ← reconcile ctx header keys tenant
    validateComplete [] (some receiptId) tenant
    let view ← getReceipt ctx tenant receiptId
    pure (view, tenant)

/-- The `RECEIVE_SCAN` branch of `_apply`: one more line, after which the receipt may be
reconciled.  The line's key is read off the listing that `add_line` returns. -/
def receiveScan (ctx : Context) (receiptId : Uuid) (values : LineValues) (reconcile : Bool)
    (keys : ScanKeys) (tenant : Tenant) : Service (ScanResult × Tenant) := do
  let (result, tenant) ← addLine ctx receiptId values keys.line tenant
  let tenant ← if reconcile then do
      let (_, tenant) ← reconcileReceipt ctx receiptId keys.reconcile tenant
      pure tenant
    else pure tenant
  pure ({ receiptId := result.header.id, lineId := result.lines.getLast?.map ReceiptLine.id }, tenant)

end Service

end FleetOps
