import FleetOps.Assets.Effective
import Mathlib.Data.Rat.Defs
import Mathlib.Algebra.Order.Ring.Unbundled.Rat
import Mathlib.Algebra.Ring.Rat

/-!
# Procurement and receiving records

A receipt collects the lines of one delivery.  It may be bound to lines of a
purchase order, its comparators, against which it is classified.  Once it is
reconciled its population is closed, and its lines can only be corrected: each
correction is followed by an evaluation that pins the sources of the whole
receipt and says which exceptions they support.

All the records are one tenant's, and all but the workflow projections are only
ever appended to.
-/

namespace FleetOps

/-- `uom`, the units of measure. -/
inductive UnitOfMeasure
  | ea | m | mm | cm | inch | ft | g | mg | kg | ml | l
  deriving DecidableEq, Repr

/-- The physical condition of a line. -/
inductive ReceiptCondition
  | good | damaged | opened | unknown
  deriving DecidableEq, Repr

/-- `exception_type`, as receiving derives it. -/
inductive ExceptionType
  | short | over | substitution | damaged | opened | serialUnreadable | serialMismatch
  | unexpectedItem | quantityVariance | uomMismatch
  deriving DecidableEq, Repr

/-- The status of a purchase order. -/
inductive PurchaseOrderStatus
  | draft | issued | closed | cancelled
  deriving DecidableEq, Repr

/-- The status of an exception's workflow. -/
inductive ExceptionStatus
  | open | acknowledged | resolved | waived
  deriving DecidableEq, Repr

/-! ## Catalog and procurement -/

/-- A row of `items`. -/
structure Item where
  id : Uuid
  serialized : Bool
  deriving DecidableEq, Repr

/-- A row of `purchase_orders`. -/
structure PurchaseOrder where
  id : Uuid
  status : PurchaseOrderStatus
  deriving DecidableEq, Repr

/-- The correctable columns of a purchase order line. -/
structure PurchaseOrderFields where
  itemId : Uuid
  quantity : ℚ
  uom : UnitOfMeasure
  unitPrice : ℚ
  expectedDate : Option ℤ
  deriving DecidableEq

/-- A row of `purchase_order_lines`. -/
structure PurchaseOrderLine where
  id : Uuid
  poId : Uuid
  lineNumber : ℕ
  fields : PurchaseOrderFields
  supersedesLineId : Option Uuid
  createdAt : Timestamp
  deriving DecidableEq

/-! ## Receiving -/

/-- A row of `receipts`. -/
structure Receipt where
  id : Uuid
  vendorPartyId : Uuid
  poId : Option Uuid
  dockLocationId : Option Uuid
  packingReference : Option String
  receivedAt : Timestamp
  actorId : Uuid
  occurredAt : Timestamp
  recordedAt : Timestamp
  deriving DecidableEq, Repr

/-- A row of `receipt_comparators`, a receipt's expectation with its pinned source. -/
structure Comparator where
  id : Uuid
  receiptId : Uuid
  poLineId : Uuid
  sourceGeneration : ℕ
  sourceId : Option Uuid
  introducedByCorrectionId : Option Uuid
  actorId : Uuid
  occurredAt : Timestamp
  recordedAt : Timestamp
  deriving DecidableEq, Repr

/-- The correctable columns of a receipt line. -/
structure LineFields where
  poLineId : Option Uuid
  itemId : Uuid
  quantity : ℚ
  uom : UnitOfMeasure
  condition : ReceiptCondition
  packingQuantity : Option ℚ
  notes : Option String
  serialized : Bool
  ownerPartyId : Option Uuid
  custodianPartyId : Option Uuid
  assetId : Option Uuid
  observedIdentifierType : Option IdentifierType
  observedIdentifierValue : Option String
  deriving DecidableEq

/-- A row of `receipt_lines`. -/
structure ReceiptLine where
  id : Uuid
  receiptId : Uuid
  fields : LineFields
  actorId : Uuid
  occurredAt : Timestamp
  recordedAt : Timestamp
  deriving DecidableEq

/-- A row of `receipt_reconciliations`, the witness that a receipt's population is closed. -/
structure Reconciliation where
  id : Uuid
  receiptId : Uuid
  actorId : Uuid
  occurredAt : Timestamp
  recordedAt : Timestamp
  deriving DecidableEq, Repr

/-- The typed relationships of a disagreement; `_key` of a row. -/
structure ExceptionKey where
  exceptionType : ExceptionType
  receiptLineId : Option Uuid
  poLineId : Option Uuid
  assetId : Option Uuid
  conflictingAssetId : Option Uuid
  deriving DecidableEq, Repr

/-- A row of `receiving_exceptions`. -/
structure ReceivingException where
  id : Uuid
  receiptId : Uuid
  key : ExceptionKey
  /-- The evaluation that observed it, if a correction did. -/
  evaluationId : Option Uuid
  actorId : Uuid
  occurredAt : Timestamp
  recordedAt : Timestamp
  deriving DecidableEq, Repr

/-! ## Corrections of records -/

/-- A row of `purchase_order_line_corrections` or `receipt_line_corrections`. -/
structure RecordCorrection (φ : Type) where
  id : Uuid
  /-- `po_line_id` or `receipt_line_id` -/
  rootId : Uuid
  /-- `po_id` or `receipt_id` -/
  entityId : Uuid
  recordingTransactionId : ℕ
  role : CorrectionRole
  pairId : Uuid
  generation : ℕ
  correctionOccurredAt : Timestamp
  reason : String
  fields : φ
  /-- `conflicting_asset_id`, a column of receipt line corrections only. -/
  conflictingAssetId : Option Uuid
  actorId : Uuid
  occurredAt : Timestamp
  recordedAt : Timestamp
  deriving DecidableEq

/-- A row of `receipt_correction_evaluations`. -/
structure Evaluation where
  id : Uuid
  receiptId : Uuid
  receiptLineId : Uuid
  correctionId : Uuid
  correctionGeneration : ℕ
  evaluationSeq : ℕ
  recordingTransactionId : ℕ
  actorId : Uuid
  occurredAt : Timestamp
  recordedAt : Timestamp
  deriving DecidableEq, Repr

/-- A row of `receipt_evaluation_lines` or `receipt_evaluation_expectations`: the source that an
evaluation pins for a receipt line or a purchase order line. -/
structure EvaluationSource where
  id : Uuid
  evaluationId : Uuid
  /-- `receipt_line_id` or `po_line_id` -/
  rootId : Uuid
  sourceGeneration : ℕ
  sourceId : Option Uuid
  actorId : Uuid
  occurredAt : Timestamp
  recordedAt : Timestamp
  deriving DecidableEq, Repr

/-- A row of `receipt_evaluation_exceptions`. -/
structure EvaluationException where
  id : Uuid
  evaluationId : Uuid
  exceptionId : Uuid
  supported : Bool
  priorEventSeq : ℕ
  actorId : Uuid
  occurredAt : Timestamp
  recordedAt : Timestamp
  deriving DecidableEq, Repr

/-- `exception_workflows.entity_type`. -/
inductive ExceptionEntity
  | receipt | receiptLine
  deriving DecidableEq, Repr

/-- A row of `exception_workflows`, the projection of an exception's events. -/
structure ExceptionWorkflow where
  exceptionId : Uuid
  exceptionType : ExceptionType
  entityType : ExceptionEntity
  entityId : Uuid
  status : ExceptionStatus
  eventSeq : ℕ
  resolvedByActorId : Option Uuid
  resolvedAt : Option Timestamp
  resolutionNote : Option String
  deriving DecidableEq, Repr

/-- A row of `exception_events`. -/
structure ExceptionEvent where
  id : Uuid
  exceptionId : Uuid
  eventSeq : ℕ
  fromStatus : ExceptionStatus
  toStatus : ExceptionStatus
  note : Option String
  evaluationId : Option Uuid
  actorId : Uuid
  occurredAt : Timestamp
  recordedAt : Timestamp
  deriving DecidableEq, Repr

/-! ## A tenant -/

/-- One tenant's records. -/
structure Tenant where
  tables : AssetTables
  items : List Item := []
  /-- The parties with the role `VENDOR`. -/
  vendors : List Uuid := []
  purchaseOrders : List PurchaseOrder := []
  purchaseOrderLines : List PurchaseOrderLine := []
  purchaseOrderLineCorrections : List (RecordCorrection PurchaseOrderFields) := []
  receipts : List Receipt := []
  comparators : List Comparator := []
  lines : List ReceiptLine := []
  reconciliations : List Reconciliation := []
  exceptions : List ReceivingException := []
  lineCorrections : List (RecordCorrection LineFields) := []
  evaluations : List Evaluation := []
  evaluationLines : List EvaluationSource := []
  evaluationExpectations : List EvaluationSource := []
  evaluationExceptions : List EvaluationException := []
  workflows : List ExceptionWorkflow := []
  events : List ExceptionEvent := []

/-! ## Corrected records -/

section

variable {φ : Type}

/-- A correction row that contradicts its own columns or the authority that it cancels. -/
def malformedCorrection [DecidableEq φ] (posixSpace : Char → Bool)
    (original : Uuid → Option (Uuid × φ)) (corrections : List (RecordCorrection φ))
    (h : RecordCorrection φ) : Bool :=
  let previous := corrections.find? fun p =>
    p.rootId == h.rootId && p.generation + 1 == h.generation && p.role == .corrected
  (original h.rootId).isNone || !hasNonSpace posixSpace h.reason ||
    h.reason != normalizeCorrectionReason h.reason ||
    !decide (1 ≤ h.reason.length ∧ h.reason.length ≤ 4000) ||
    (original h.rootId).any (fun r => r.1 != h.entityId) ||
    (h.role == .reversal && ((decide (1 < h.generation) && previous.isNone) ||
      decide ((if h.generation = 1 then (original h.rootId).map Prod.snd
        else previous.map RecordCorrection.fields) ≠ some h.fields)))

/-- The correction rows that share a pair id are not one complete pair. -/
def malformedCorrectionPair (corrections : List (RecordCorrection φ)) (pair : Uuid) : Bool :=
  let group := corrections.filter fun h => h.pairId == pair
  group.length != 2 || countDistinct (group.map RecordCorrection.rootId) != 1 ||
    countDistinct (group.map RecordCorrection.entityId) != 1 ||
    countDistinct (group.map RecordCorrection.generation) != 1 ||
    group.countP (·.role == .reversal) != 1 || group.countP (·.role == .corrected) != 1 ||
    countDistinct (group.map RecordCorrection.reason) != 1 ||
    countDistinct (group.map RecordCorrection.actorId) != 1 ||
    countDistinct (group.map RecordCorrection.correctionOccurredAt) != 1 ||
    countDistinct (group.map RecordCorrection.recordingTransactionId) != 1

/-- The replacements of a record do not count its generations. -/
def malformedCorrectionGenerations (corrections : List (RecordCorrection φ)) (root : Uuid) : Bool :=
  let generations := (corrections.filter fun h => h.role == .corrected && h.rootId == root).map
    RecordCorrection.generation
  some generations.length != generations.max? ||
    some (countDistinct generations) != generations.max?

/-- `pair_anomalies`: the roots of malformed correction authority. -/
def pairAnomalies [DecidableEq φ] (posixSpace : Char → Bool)
    (original : Uuid → Option (Uuid × φ)) (corrections : List (RecordCorrection φ)) : List Uuid :=
  (corrections.filter fun h => malformedCorrection posixSpace original corrections h ||
    malformedCorrectionPair corrections h.pairId ||
    (h.role == .corrected && malformedCorrectionGenerations corrections h.rootId)).map
      RecordCorrection.rootId

end

namespace Tenant

/-- The newest replacement of a record. -/
def latestCorrection {φ : Type} (corrections : List (RecordCorrection φ)) (root : Uuid) :
    Option (RecordCorrection φ) :=
  Query.latestBy RecordCorrection.generation
    (corrections.filter fun c => c.rootId = root ∧ c.role = .corrected)

/-- `COALESCE(max(correction_generation), 0)` of a record. -/
def generation {φ : Type} (corrections : List (RecordCorrection φ)) (root : Uuid) : ℕ :=
  ((latestCorrection corrections root).map RecordCorrection.generation).getD 0

/-- A row of the view `effective_purchase_order_lines`. -/
def effectivePurchaseOrderLine (tenant : Tenant) (line : PurchaseOrderLine) : PurchaseOrderLine :=
  match latestCorrection tenant.purchaseOrderLineCorrections line.id with
  | some c => { line with fields := c.fields }
  | none => line

/-- A row of the view `effective_receipt_lines`. -/
def effectiveReceiptLine (tenant : Tenant) (line : ReceiptLine) : ReceiptLine :=
  match latestCorrection tenant.lineCorrections line.id with
  | some c => { line with fields := c.fields }
  | none => line

/-- `SELECT … FROM effective_purchase_order_lines WHERE id = …`. -/
def purchaseOrderLine? (tenant : Tenant) (id : Uuid) : Option PurchaseOrderLine :=
  (tenant.purchaseOrderLines.find? (·.id = id)).map tenant.effectivePurchaseOrderLine

def receipt? (tenant : Tenant) (id : Uuid) : Option Receipt :=
  tenant.receipts.find? (·.id = id)

/-- The order of a receipt is issued. -/
def issued (tenant : Tenant) (po : Uuid) : Bool :=
  tenant.purchaseOrders.any fun p => p.id == po && p.status == .issued

/-- A line of the order has been superseded. -/
def isSuperseded (tenant : Tenant) (line : Uuid) : Bool :=
  tenant.purchaseOrderLines.any fun s => s.supersedesLineId == some line

/-- The population of a receipt is closed. -/
def reconciled (tenant : Tenant) (receipt : Uuid) : Bool :=
  tenant.reconciliations.any (·.receiptId = receipt)

/-- The view `purchase_order_line_corrections_anomalies`. -/
def purchaseOrderLineAnomalies (tenant : Tenant) (posixSpace : Char → Bool) : List Uuid :=
  pairAnomalies posixSpace (fun root => (tenant.purchaseOrderLines.find? (·.id = root)).map
    fun line => (line.poId, line.fields)) tenant.purchaseOrderLineCorrections

/-- The view `receipt_line_corrections_anomalies`. -/
def receiptLineAnomalies (tenant : Tenant) (posixSpace : Char → Bool) : List Uuid :=
  pairAnomalies posixSpace (fun root => (tenant.lines.find? (·.id = root)).map
    fun line => (line.receiptId, line.fields)) tenant.lineCorrections

/-- The Asset that carries a readable identifier; the pair is unique in a tenant. -/
def identifierOwner (tenant : Tenant) (type : IdentifierType) (value : String) : Option Uuid :=
  (tenant.tables.identifiers.find? fun i => i.type = type ∧ i.value = some value).map
    AssetIdentifier.assetId

/-- The Asset that a line's observed identifier conflicts with. -/
def conflictOf (tenant : Tenant) (fields : LineFields) : Option Uuid :=
  match fields.observedIdentifierType, fields.observedIdentifierValue with
  | some type, some value => tenant.identifierOwner type value
  | _, _ => none

/-- An Asset has an identifier that could not be read. -/
def unreadable (tenant : Tenant) (asset : Option Uuid) : Bool :=
  tenant.tables.identifiers.any fun i => some i.assetId == asset && i.value.isNone &&
    i.unreadableReason.isSome

end Tenant

end FleetOps
