import FleetOps.Foundations.Machine
import FleetOps.Procurement.Authoring

/-!
# Runs of procurement

The services author one order or line each, under the order's lock.  A run mixes
them with statements of other clients, each of which is about any rows.
-/

namespace FleetOps

/-! ## Requests -/

/-- `values` of `create_order`. -/
structure OrderValues where
  vendorPartyId : Uuid
  poNumber : String
  notes : Option String := none
  deriving DecidableEq

/-- `values` of `update_order`; a field that was not sent is `none`. -/
structure OrderPatch where
  vendorPartyId : Option Uuid := none
  poNumber : Option String := none
  notes : Option (Option String) := none
  deriving DecidableEq

/-- `SET` of `update_order`. -/
def OrderPatch.apply (values : OrderPatch) (row : OrderRow) : OrderRow :=
  { row with
    vendorPartyId := values.vendorPartyId.getD row.vendorPartyId
    poNumber := values.poNumber.getD row.poNumber
    notes := values.notes.getD row.notes }

/-- `values` of `create_line`, without the line's number. -/
structure ExpectationValues where
  itemId : Uuid
  quantity : ℚ
  unitPrice : ℚ
  expectedDate : Option ℤ := none
  deriving DecidableEq

/-- `line_number` of a root, or `predecessor_id` of an amendment. -/
inductive LinePlace
  | root (lineNumber : ℕ)
  | successor (predecessorId : Uuid)
  deriving DecidableEq

/-- `values` of `update_line`. -/
structure ExpectationPatch where
  itemId : Option Uuid := none
  quantity : Option ℚ := none
  unitPrice : Option ℚ := none
  expectedDate : Option (Option ℤ) := none
  deriving DecidableEq

/-- `SET` of `update_line`. -/
def ExpectationPatch.apply (values : ExpectationPatch) (row : LineRow) : LineRow :=
  { row with
    fields := { row.fields with
      itemId := values.itemId.getD row.fields.itemId
      quantity := values.quantity.getD row.fields.quantity
      unitPrice := values.unitPrice.getD row.fields.unitPrice
      expectedDate := values.expectedDate.getD row.fields.expectedDate } }

/-! ## Services -/

/-- A row of `line_query` with its attribution. -/
structure AuthoredLine extends LineRow where
  active : Bool
  superseded : Bool
  deriving DecidableEq

namespace Procurement

variable (tables : Procurement)

/-- What `list_lines` reads. -/
def orderList : List PurchaseOrder := tables.orders.map (·.toPurchaseOrder)

/-- What `line_query` reads. -/
def lineList : List PurchaseOrderLine := tables.lines.map (·.toPurchaseOrderLine)

/-- `get_order`, with the order's attribution. -/
def getOrder (poId : Uuid) : Service OrderRow :=
  Service.fetch (tables.orders.find? (·.id = poId)) .procurementNotFound "Purchase order not found"

/-- `superseded` in `line_query`. -/
def superseded (line : LineRow) : Bool :=
  tables.lines.any fun successor =>
    successor.poId = line.poId ∧ successor.supersedesLineId = some line.id

/-- `get_line`. -/
def getLine (poId lineId : Uuid) : Service AuthoredLine := do
  let row ← Service.fetch (tables.lines.find? fun line => line.poId = poId ∧ line.id = lineId)
    .procurementNotFound "Purchase order line not found"
  let superseded := tables.superseded row
  pure { toLineRow := row, active := !superseded, superseded }

end Procurement

namespace Service

/-- The translation of `constraints`. -/
def procurementTranslation : SqlState → Option (FailureKind × String)
  | .uniqueViolation | .serializationFailure =>
      some (.procurementConflict, "Purchase order or line conflicts with current history")
  | .notNullViolation | .foreignKeyViolation | .checkViolation | .numericValueOutOfRange =>
      some (.procurementInvalid, "Invalid procurement value or relationship")
  | .insufficientPrivilege | .noDataFound | .raiseException => none

/-- `constraints`. -/
def procurementConstraints {α : Type} (body : Service α) : Service α :=
  translating procurementTranslation body

/-- `require_state` for a draft. -/
def requireDraft (order : OrderRow) : Service Unit :=
  ensure (order.status = .draft) .procurementConflict "Purchase order must be DRAFT"

/-- `require_state` for an issued order. -/
def requireIssued (order : OrderRow) : Service Unit :=
  ensure (order.status = .issued) .procurementConflict "Purchase order must be ISSUED"

/-- `.returning(orders)` and `.one()`. -/
def returnedOrder (poId : Uuid) (tables : Procurement) : Service (OrderRow × Procurement) := do
  let order ← fetch (tables.orders.find? (·.id = poId)) .noResultFound "No row was found"
  pure (order, tables)

variable (ctx : ProcurementContext)

/-- `create_order`; `id` is its `uuid7()`. -/
def createOrder (performerId : Uuid) (values : OrderValues) (id : Uuid) (tables : Procurement) :
    Service (OrderRow × Procurement) :=
  procurementConstraints do
    let row : OrderRow :=
      { id, status := .draft, vendorPartyId := values.vendorPartyId, poNumber := values.poNumber
        notes := values.notes, createdByActorId := performerId, updatedByActorId := performerId }
    let tables ← execute (ctx.insertOrders [row] tables)
    returnedOrder id tables

/-- `update_order`. -/
def updateOrder (poId : Uuid) (values : OrderPatch) (tables : Procurement) :
    Service (OrderRow × Procurement) :=
  procurementConstraints do
    let order ← tables.getOrder poId
    requireDraft order
    if values = {} then pure (order, tables)
    else do
      let tables ← execute (ctx.updateOrders (·.id = poId) values.apply tables)
      returnedOrder poId tables

/-- `issue_order`. -/
def issueOrder (poId : Uuid) (tables : Procurement) : Service (OrderRow × Procurement) :=
  procurementConstraints do
    let order ← tables.getOrder poId
    requireDraft order
    let tables ← execute
      (ctx.updateOrders (·.id = poId) (fun row => { row with status := .issued }) tables)
    returnedOrder poId tables

/-- The number and the pointer of the line that `create_line` appends. -/
def linePlace (poId : Uuid) (order : OrderRow) (tables : Procurement) :
    LinePlace → Service (ℕ × Option Uuid)
  | .root lineNumber => do
      requireDraft order
      pure (lineNumber, none)
  | .successor predecessorId => do
      requireIssued order
      let prior ← tables.getLine poId predecessorId
      ensure (prior.active = true) .procurementConflict "Predecessor is no longer active"
      pure (prior.lineNumber, some predecessorId)

/-- The row that `create_line` inserts; the database gives it its unit of measure. -/
def expectationRow (performerId poId : Uuid) (values : ExpectationValues) (number : ℕ)
    (prior : Option Uuid) (id : Uuid) : LineRow :=
  { id, poId, lineNumber := number, supersedesLineId := prior, createdAt := .at 0
    fields :=
      { itemId := values.itemId, quantity := values.quantity, uom := .ea
        unitPrice := values.unitPrice, expectedDate := values.expectedDate }
    createdByActorId := performerId, updatedByActorId := performerId }

/-- `create_line`; `id` is its `uuid7()`. -/
def createLine (performerId poId : Uuid) (values : ExpectationValues) (place : LinePlace) (id : Uuid)
    (tables : Procurement) : Service (AuthoredLine × Procurement) :=
  procurementConstraints do
    let order ← tables.getOrder poId
    let (number, prior) ← linePlace poId order tables place
    let row := expectationRow performerId poId values number prior id
    let tables ← execute (ctx.insertLines [row] tables)
    let line ← tables.getLine poId id
    pure (line, tables)

/-- `update_line`. -/
def updateLine (poId lineId : Uuid) (values : ExpectationPatch) (tables : Procurement) :
    Service (AuthoredLine × Procurement) :=
  procurementConstraints do
    let order ← tables.getOrder poId
    requireDraft order
    let _ ← tables.getLine poId lineId
    let tables ← if values = {} then pure tables else
      execute (ctx.updateLines (fun row => row.poId = poId ∧ row.id = lineId) values.apply tables)
    let line ← tables.getLine poId lineId
    pure (line, tables)

end Service

/-! ## The machine -/

/-- A statement, about any rows. -/
inductive ProcurementStatement
  | insertOrders (rows : List OrderRow)
  | updateOrders (filter : OrderRow → Bool) (set : OrderRow → OrderRow)
  | deleteOrders (filter : OrderRow → Bool)
  | insertLines (rows : List LineRow)
  | updateLines (filter : LineRow → Bool) (set : LineRow → LineRow)
  | deleteLines (filter : LineRow → Bool)

/-- One statement. -/
def ProcurementContext.execute (ctx : ProcurementContext) :
    ProcurementStatement → Procurement → Sql Procurement
  | .insertOrders rows => ctx.insertOrders rows
  | .updateOrders filter set => ctx.updateOrders filter set
  | .deleteOrders filter => ctx.deleteOrders filter
  | .insertLines rows => ctx.insertLines rows
  | .updateLines filter set => ctx.updateLines filter set
  | .deleteLines filter => ctx.deleteLines filter

/-- A request, or a statement of another client. -/
inductive ProcurementCall
  | createOrder (performerId : Uuid) (values : OrderValues) (id : Uuid)
  | updateOrder (poId : Uuid) (values : OrderPatch)
  | issueOrder (poId : Uuid)
  | createLine (performerId poId : Uuid) (values : ExpectationValues) (place : LinePlace) (id : Uuid)
  | updateLine (poId lineId : Uuid) (values : ExpectationPatch)
  | statement (statement : ProcurementStatement)

/-- One request or statement as one transaction. -/
def Procurement.step (request : ProcurementContext × ProcurementCall) (tables : Procurement) :
    Service Procurement :=
  let ctx := request.1
  match request.2 with
  | .createOrder performerId values id => do
      let (_, tables) ← Service.createOrder ctx performerId values id tables
      pure tables
  | .updateOrder poId values => do
      let (_, tables) ← Service.updateOrder ctx poId values tables
      pure tables
  | .issueOrder poId => do
      let (_, tables) ← Service.issueOrder ctx poId tables
      pure tables
  | .createLine performerId poId values place id => do
      let (_, tables) ← Service.createLine ctx performerId poId values place id tables
      pure tables
  | .updateLine poId lineId values => do
      let (_, tables) ← Service.updateLine ctx poId lineId values tables
      pure tables
  | .statement statement => Service.execute (ctx.execute statement tables)

end FleetOps
