import FleetOps.Procurement.Lines

/-!
# Procurement authoring

Orders are drafted, issued and from then on amended: a draft's lines are edited in
place, an issued line is superseded by a new one.  The database admits single rows;
a statement, of a service or of another client, is about any number of them.  Its
row triggers see what it has already done to the rows before.
-/

namespace FleetOps

/-! ## Tables -/

/-- A row of `purchase_orders` with what its authoring records. -/
structure OrderRow extends PurchaseOrder where
  vendorPartyId : Uuid
  poNumber : String
  notes : Option String := none
  issuedAt : Option Timestamp := none
  issuedByActorId : Option Uuid := none
  createdByActorId : Uuid
  createdAt : Timestamp := .at 0
  updatedByActorId : Uuid
  updatedAt : Timestamp := .at 0
  deriving DecidableEq

/-- A row of `purchase_order_lines` with its attribution. -/
structure LineRow extends PurchaseOrderLine where
  createdByActorId : Uuid
  updatedByActorId : Uuid
  updatedAt : Timestamp := .at 0
  deriving DecidableEq

/-- One tenant's procurement. -/
structure Procurement where
  orders : List OrderRow := []
  lines : List LineRow := []
  deriving DecidableEq

/-- What a procurement statement reads besides its tables. -/
structure ProcurementContext where
  session : Session
  /-- `session_user = 'fleetops_app'` -/
  runtime : Bool := true
  actors : List Uuid
  /-- The parties with the role `VENDOR`. -/
  vendors : List Uuid
  /-- `items.uom` -/
  uomOf : Uuid → Option UnitOfMeasure
  /-- Primary keys of other tenants' rows. -/
  foreignOrders : List Uuid := []
  foreignLines : List Uuid := []
  /-- Orders and lines that rows of other tables refer to. -/
  referencedOrders : List Uuid := []
  referencedLines : List Uuid := []
  /-- `[[:space:]]` in the database's locale. -/
  posixSpace : Char → Bool

namespace ProcurementContext

variable (ctx : ProcurementContext)

/-- `enforce_authenticated_creator('created_by_actor_id')`, on a row that has an updater too. -/
def enforceCreator (creator updater : Uuid) : Sql Unit :=
  if ctx.runtime then do
    let performer ← currentAuthenticatedActor ctx.session
    require (creator = performer ∧ updater = performer) .insufficientPrivilege
      "Authenticated Actor mismatch"
  else pure ()

/-- `enforce_authenticated_updater`: what a row records of its update. -/
def enforceUpdater (updater : Uuid) (updatedAt : Timestamp) : Sql (Uuid × Timestamp) :=
  if ctx.runtime then do
    let performer ← currentAuthenticatedActor ctx.session
    pure (performer, ctx.session.now)
  else pure (updater, updatedAt)

/-! ## Orders -/

/-- The `CHECK` constraints of `purchase_orders`. -/
def orderChecks (row : OrderRow) : Bool :=
  row.issuedAt.isNone == row.issuedByActorId.isNone &&
    (row.status != .draft || row.issuedAt.isNone) &&
    (row.status != .issued || row.issuedAt.isSome) &&
    row.issuedAt.all Timestamp.isFinite &&
    (decide (1 ≤ (btrim row.poNumber).length ∧ (btrim row.poNumber).length ≤ 200) &&
      hasNonSpace ctx.posixSpace row.poNumber) &&
    row.notes.all fun notes => decide (notes.length ≤ 4000)

/-- The foreign keys of `purchase_orders`. -/
def orderReferences (row : OrderRow) : Sql Unit :=
  require (row.vendorPartyId ∈ ctx.vendors ∧ (∀ issuer ∈ row.issuedByActorId, issuer ∈ ctx.actors) ∧
    row.createdByActorId ∈ ctx.actors ∧ row.updatedByActorId ∈ ctx.actors) .foreignKeyViolation
    "purchase_orders reference"

/-- One row of `INSERT INTO purchase_orders`. -/
def insertOrder (tables : Procurement) (new : OrderRow) : Sql Procurement := do
  require (new.status = .draft ∧ new.issuedAt = none ∧ new.issuedByActorId = none) .checkViolation
    "Purchase order must begin DRAFT"
  let row := { new with createdAt := ctx.session.now, updatedAt := ctx.session.now }
  ctx.enforceCreator row.createdByActorId row.updatedByActorId
  require (ctx.orderChecks row = true) .checkViolation "purchase_orders check"
  require (row.id ∉ ctx.foreignOrders ∧ tables.orders.all (·.id ≠ row.id)) .uniqueViolation
    "purchase_orders key"
  pure { tables with orders := tables.orders ++ [row] }

/-- `INSERT INTO purchase_orders`. -/
def insertOrders (rows : List OrderRow) (tables : Procurement) : Sql Procurement := do
  let tables ← rows.foldlM ctx.insertOrder tables
  rows.forM ctx.orderReferences
  pure tables

/-- `NEW.issued_by_actor_id` of an order that is issued. -/
def issuer (new : OrderRow) : Sql Uuid :=
  if ctx.runtime then currentAuthenticatedActor ctx.session else pure new.updatedByActorId

/-- `enforce_purchase_order` on an update. -/
def enforceOrderUpdate (old new : OrderRow) : Sql OrderRow := do
  require (old.status = .draft ∧ old.issuedAt = none) .checkViolation
    "Issued purchase order is immutable"
  require (new.id = old.id ∧ new.createdByActorId = old.createdByActorId ∧
    new.createdAt = old.createdAt ∧ new.issuedAt = old.issuedAt ∧
    new.issuedByActorId = old.issuedByActorId) .checkViolation
    "Purchase order identity or attribution is immutable"
  require (new.status = .draft ∨ new.status = .issued) .checkViolation
    "Purchase order transition is unavailable"
  if new.status = .issued then do
    let issuer ← ctx.issuer new
    pure { new with issuedAt := some ctx.session.now, issuedByActorId := some issuer }
  else pure new

/-- One row of `UPDATE purchase_orders`. -/
def updateOrder (old new : OrderRow) : Sql OrderRow := do
  let row ← ctx.enforceOrderUpdate old new
  let (updater, updatedAt) ← ctx.enforceUpdater row.updatedByActorId row.updatedAt
  let row := { row with updatedByActorId := updater, updatedAt }
  require (ctx.orderChecks row = true) .checkViolation "purchase_orders check"
  ctx.orderReferences row
  pure row

/-- `UPDATE purchase_orders SET … WHERE …`. -/
def updateOrders (filter : OrderRow → Bool) (set : OrderRow → OrderRow) (tables : Procurement) :
    Sql Procurement := do
  let orders ← tables.orders.mapM fun old =>
    if filter old then ctx.updateOrder old (set old) else pure old
  pure { tables with orders }

/-- `DELETE FROM purchase_orders WHERE …`. -/
def deleteOrders (filter : OrderRow → Bool) (tables : Procurement) : Sql Procurement := do
  let removed := tables.orders.filter filter
  require (∀ old ∈ removed, old.status = .draft ∧ old.issuedAt = none) .checkViolation
    "Issued purchase order is immutable"
  require (∀ old ∈ removed, old.id ∉ ctx.referencedOrders ∧ tables.lines.all (·.poId ≠ old.id))
    .foreignKeyViolation "purchase_orders reference"
  pure { tables with orders := tables.orders.filter fun old => !filter old }

/-! ## Lines -/

/-- The `CHECK` constraints of `purchase_order_lines`; a rational number is finite. -/
def lineChecks (row : LineRow) : Bool :=
  decide (0 < row.lineNumber) && decide (0 < row.fields.quantity) &&
    decide (0 ≤ row.fields.unitPrice) && row.supersedesLineId != some row.id

/-- The foreign keys of `purchase_order_lines` that no trigger has checked. -/
def lineReferences (row : LineRow) : Sql Unit :=
  require ((ctx.uomOf row.fields.itemId).isSome ∧ row.createdByActorId ∈ ctx.actors ∧
    row.updatedByActorId ∈ ctx.actors) .foreignKeyViolation "purchase_order_lines reference"

/-- `SELECT p.status, p.issued_at …`, the authority of a line. -/
def lineOrder (tables : Procurement) (poId : Uuid) : Sql OrderRow :=
  demand (tables.orders.find? (·.id = poId)) .foreignKeyViolation "Purchase order not found"

/-- What `enforce_purchase_order_line` asks of a new line's pointer. -/
def enforcePredecessor (tables : Procurement) (order : OrderRow) (new : LineRow) : Sql Unit :=
  match new.supersedesLineId with
  | none =>
      require (order.status = .draft ∧ order.issuedAt = none) .checkViolation
        "Root lines require a DRAFT purchase order"
  | some prior => do
      require (order.status = .issued) .checkViolation "Amendments require an ISSUED purchase order"
      require (new.id ≠ prior ∧ tables.lines.any fun p =>
        p.poId = new.poId ∧ p.lineNumber = new.lineNumber ∧ p.id = prior) .foreignKeyViolation
        "Invalid predecessor relationship"
      require (tables.lines.all (·.supersedesLineId ≠ some prior)) .serializationFailure
        "Predecessor is no longer active"

/-- The unique constraints of `purchase_order_lines`. -/
def lineUnique (tables : Procurement) (row : LineRow) : Bool :=
  decide (row.id ∉ ctx.foreignLines) && tables.lines.all fun other =>
    decide (other.id ≠ row.id) &&
      decide (¬(row.supersedesLineId = none ∧ other.supersedesLineId = none ∧
        other.poId = row.poId ∧ other.lineNumber = row.lineNumber)) &&
      decide (¬(row.supersedesLineId.isSome ∧ other.supersedesLineId = row.supersedesLineId))

/-- One row of `INSERT INTO purchase_order_lines`. -/
def insertLine (tables : Procurement) (new : LineRow) : Sql Procurement := do
  require (new.lineNumber ≤ intMax) .numericValueOutOfRange "integer out of range"
  let order ← lineOrder tables new.poId
  enforcePredecessor tables order new
  let uom ← demand (ctx.uomOf new.fields.itemId) .foreignKeyViolation "Item not found"
  let row := { new with
    fields := { new.fields with uom }
    createdAt := ctx.session.now
    updatedAt := ctx.session.now }
  ctx.enforceCreator row.createdByActorId row.updatedByActorId
  require (lineChecks row = true) .checkViolation "purchase_order_lines check"
  require (ctx.lineUnique tables row = true) .uniqueViolation "purchase_order_lines key"
  pure { tables with lines := tables.lines ++ [row] }

/-- `INSERT INTO purchase_order_lines`. -/
def insertLines (rows : List LineRow) (tables : Procurement) : Sql Procurement := do
  let tables ← rows.foldlM ctx.insertLine tables
  rows.forM ctx.lineReferences
  pure tables

/-- One row of `UPDATE purchase_order_lines`. -/
def updateLine (tables : Procurement) (old new : LineRow) : Sql LineRow := do
  let order ← lineOrder tables old.poId
  require (order.status = .draft ∧ order.issuedAt = none) .checkViolation "Issued line is immutable"
  require (new.id = old.id ∧ new.poId = old.poId ∧ new.lineNumber = old.lineNumber ∧
    new.supersedesLineId = old.supersedesLineId ∧ new.fields.uom = old.fields.uom ∧
    new.createdByActorId = old.createdByActorId ∧ new.createdAt = old.createdAt) .checkViolation
    "Line identity, lineage, or UOM is immutable"
  let (updater, updatedAt) ← ctx.enforceUpdater new.updatedByActorId new.updatedAt
  let row := { new with updatedByActorId := updater, updatedAt }
  require (lineChecks row = true) .checkViolation "purchase_order_lines check"
  ctx.lineReferences row
  pure row

/-- `UPDATE purchase_order_lines SET … WHERE …`. -/
def updateLines (filter : LineRow → Bool) (set : LineRow → LineRow) (tables : Procurement) :
    Sql Procurement := do
  let lines ← tables.lines.mapM fun old =>
    if filter old then ctx.updateLine tables old (set old) else pure old
  pure { tables with lines }

/-- `DELETE FROM purchase_order_lines WHERE …`. -/
def deleteLines (filter : LineRow → Bool) (tables : Procurement) : Sql Procurement := do
  let removed := tables.lines.filter filter
  removed.forM fun old => do
    let order ← lineOrder tables old.poId
    require (order.status = .draft ∧ order.issuedAt = none) .checkViolation
      "Issued line is immutable"
  let lines := tables.lines.filter fun old => !filter old
  require (∀ old ∈ removed, old.id ∉ ctx.referencedLines ∧
    lines.all (·.supersedesLineId ≠ some old.id)) .foreignKeyViolation
    "purchase_order_lines reference"
  pure { tables with lines }

end ProcurementContext

end FleetOps
