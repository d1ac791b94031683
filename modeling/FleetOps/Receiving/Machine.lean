import FleetOps.Assets.Calls
import FleetOps.Foundations.Machine
import FleetOps.Receiving.CorrectionService

/-!
# Runs of receiving

One tenant's receiving goes from state to state by requests, each one
transaction: deliveries are captured and reconciled, records corrected,
exceptions worked on.  Between them procurement moves on and Assets change; of
these only what receiving relies on is modelled, that an issued order's lines
stay as they are.
-/

namespace FleetOps

/-- The catalog and procurement rows that other services write. -/
structure Catalog where
  items : List Item
  vendors : List Uuid
  purchaseOrders : List PurchaseOrder
  purchaseOrderLines : List PurchaseOrderLine

/-- The tenant with another catalog. -/
def Tenant.withCatalog (tenant : Tenant) (catalog : Catalog) : Tenant :=
  { tenant with
    items := catalog.items
    vendors := catalog.vendors
    purchaseOrders := catalog.purchaseOrders
    purchaseOrderLines := catalog.purchaseOrderLines }

/-- An issued order and its lines are immutable; lines of a draft, and new lines, are not. -/
def Tenant.admits (tenant : Tenant) (catalog : Catalog) : Prop :=
  (∀ order ∈ tenant.purchaseOrders, order.status = .issued →
    catalog.purchaseOrders.any fun o => o.id = order.id ∧ o.status = .issued) ∧
  ∀ line ∈ tenant.purchaseOrderLines, tenant.issued line.poId →
    catalog.purchaseOrderLines.find? (·.id = line.id) = some line

instance (tenant : Tenant) (catalog : Catalog) : Decidable (tenant.admits catalog) :=
  inferInstanceAs (Decidable (_ ∧ _))

/-- A request. -/
inductive ReceivingCall
  | createReceipt (values : ReceiptValues) (keys : ReceiptKeys)
  | addLine (receiptId : Uuid) (values : LineValues) (keys : LineKeys)
  | reconcileReceipt (receiptId : Uuid) (keys : ReconcileKeys)
  | receiveScan (receiptId : Uuid) (values : LineValues) (reconcile : Bool) (keys : ScanKeys)
  | correctProcurement (poId rootId : Uuid) (values : ProcurementCorrection) (keys : PairKeys)
  | correctReceiptLine (receiptId rootId : Uuid) (values : ReceiptLineCorrection)
      (keys : ReceiptCorrectionKeys)
  | transitionException (exceptionId : Uuid) (values : Service.WorkflowValues) (eventId : Uuid)
  | changeAsset (call : Call)
  | procure (catalog : Catalog)

/-- One request as one transaction, in a database with this `[[:space:]]`. -/
def Tenant.step (posixSpace : Char → Bool) (request : Context × ReceivingCall) (tenant : Tenant) :
    Service Tenant :=
  let ctx := { request.1 with posixSpace }
  match request.2 with
  | .createReceipt values keys => do
      let (_, tenant) ← Service.createReceipt ctx values keys tenant
      pure tenant
  | .addLine receiptId values keys => do
      let (_, tenant) ← Service.addLine ctx receiptId values keys tenant
      pure tenant
  | .reconcileReceipt receiptId keys => do
      let (_, tenant) ← Service.reconcileReceipt ctx receiptId keys tenant
      pure tenant
  | .receiveScan receiptId values reconcile keys => do
      let (_, tenant) ← Service.receiveScan ctx receiptId values reconcile keys tenant
      pure tenant
  | .correctProcurement poId rootId values keys => do
      let (_, tenant) ← Service.correctProcurement ctx poId rootId values keys tenant
      pure tenant
  | .correctReceiptLine receiptId rootId values keys => do
      let (_, tenant) ← Service.correctReceiptLine ctx receiptId rootId values keys tenant
      pure tenant
  | .transitionException exceptionId values eventId => do
      let (_, tenant) ← Service.transitionException ctx exceptionId values eventId tenant
      pure tenant
  | .changeAsset call => do
      let tables ← Service.assetConstraints (Service.execute (perform (ctx, call) tenant.tables))
      pure { tenant with tables }
  | .procure catalog => do
      Service.ensure (tenant.admits catalog) (.database .checkViolation) "Issued line is immutable"
      pure (tenant.withCatalog catalog)

end FleetOps
