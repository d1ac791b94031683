import FleetOps.Receiving.Guards
import FleetOps.Receiving.Evaluation

/-!
# Receiving exceptions in the database

Exceptions are derived by the service.  The database derives them again: one
trigger admits only an exception that the receipt's facts support, a second,
deferred one asks for every exception that they require.  An admitted exception
starts its own workflow.
-/

namespace FleetOps

/-! ## Inserts -/

/-- `INSERT INTO receipts`. -/
def insertReceipt (ctx : Context) (row : Receipt) (tenant : Tenant) : Sql (Receipt × Tenant) := do
  let row ← guardReceipt ctx tenant row
  require (ctx.session.organization = some tenant.tables.orgId) .insufficientPrivilege
    "row-level security"
  require (row.receivedAt.isFinite ∧ row.packingReference.all (boundedText 500)) .checkViolation
    "receipts check"
  require (!(ctx.foreignKeys .receipts).contains row.id ∧
      tenant.receipts.all (·.id ≠ row.id)) .uniqueViolation "receipts key"
  require (tenant.vendors.contains row.vendorPartyId ∧
      row.dockLocationId.all ctx.refs.locations.contains ∧ ctx.refs.actors.contains row.actorId)
    .foreignKeyViolation "receipts reference"
  enforceAuthenticatedCreator ctx.session row.actorId
  pure (row, { tenant with receipts := tenant.receipts ++ [row] })

/-- The pinned source of a comparator or an evaluation: the record itself, or one replacement. -/
def sourceExists {φ : Type} (corrections : List (RecordCorrection φ)) (root : Uuid)
    (generation : ℕ) (source : Option Uuid) : Bool :=
  match source with
  | none => generation == 0
  | some id => decide (0 < generation) && corrections.any fun c =>
      c.id == id && c.rootId == root && c.generation == generation && c.role == .corrected

/-- `INSERT INTO receipt_comparators`. -/
def insertComparator (ctx : Context) (row : Comparator) (tenant : Tenant) : Sql Tenant := do
  let row ← guardComparator ctx tenant row
  require (row.occurredAt.isFinite) .checkViolation "receipt_comparators check"
  require (!(ctx.foreignKeys .receiptComparators).contains row.id ∧
      tenant.comparators.all fun other => other.id ≠ row.id ∧
        ¬(other.receiptId = row.receiptId ∧ other.poLineId = row.poLineId))
    .uniqueViolation "receipt_comparators key"
  require (sourceExists tenant.purchaseOrderLineCorrections row.poLineId row.sourceGeneration
      row.sourceId ∧ ctx.refs.actors.contains row.actorId)
    .foreignKeyViolation "receipt_comparators reference"
  enforceAuthenticatedCreator ctx.session row.actorId
  pure { tenant with comparators := tenant.comparators ++ [row] }

/-- `INSERT INTO receipt_reconciliations`. -/
def insertReconciliation (ctx : Context) (row : Reconciliation) (tenant : Tenant) :
    Sql Tenant := do
  let row ← guardReconciliation ctx tenant row
  require (row.occurredAt.isFinite) .checkViolation "receipt_reconciliations check"
  require (!(ctx.foreignKeys .receiptReconciliations).contains row.id ∧
      tenant.reconciliations.all fun other => other.id ≠ row.id ∧ other.receiptId ≠ row.receiptId)
    .uniqueViolation "receipt_reconciliations key"
  require (ctx.refs.actors.contains row.actorId) .foreignKeyViolation
    "receipt_reconciliations reference"
  enforceAuthenticatedCreator ctx.session row.actorId
  pure { tenant with reconciliations := tenant.reconciliations ++ [row] }

/-! ## The trigger on exceptions -/

/-- The lines of a receipt that arrived for a purchase order line. -/
def Tenant.arrivals (tenant : Tenant) (receipt poLine : Uuid) : List ReceiptLine :=
  tenant.lines.filter fun l => l.receiptId = receipt ∧ l.fields.poLineId = some poLine

/-- `sum(quantity) FILTER (WHERE uom = …)`, zero when there is none. -/
def totalIn (uom : UnitOfMeasure) (lines : List ReceiptLine) : ℚ :=
  ((lines.filter fun l => l.fields.uom = uom).map fun l => l.fields.quantity).sum

/-- `bool_or(uom <> …)`, false when there is none. -/
def mixedUnits (uom : UnitOfMeasure) (lines : List ReceiptLine) : Bool :=
  lines.any fun l => l.fields.uom != uom

/-- The `SHORT` and `OVER` branch of `enforce_receiving_exception`. -/
def quantitySupported (tenant : Tenant) (row : ReceivingException) : Sql Bool := do
  require (tenant.reconciled row.receiptId) .checkViolation "Quantity requires completed capture"
  let poLine ← demand (row.key.poLineId.filter fun poLine => tenant.comparators.any fun c =>
      c.receiptId = row.receiptId ∧ c.poLineId = poLine) .foreignKeyViolation
    "Invalid aggregate comparator"
  let comparator ← demand (tenant.purchaseOrderLine? poLine) .foreignKeyViolation
    "Invalid aggregate comparator"
  let arrivals := tenant.arrivals row.receiptId poLine
  let total := totalIn comparator.fields.uom arrivals
  pure (!mixedUnits comparator.fields.uom arrivals &&
    ((row.key.exceptionType == .short && decide (total < comparator.fields.quantity)) ||
      (row.key.exceptionType == .over && decide (comparator.fields.quantity < total))))

/-- The predicate of a line's exception; a comparison with no comparator is not true. -/
def lineSupports (tenant : Tenant) (line : ReceiptLine) (row : ReceivingException) : Bool :=
  let comparator := line.fields.poLineId.bind tenant.purchaseOrderLine?
  match row.key.exceptionType with
  | .substitution => comparator.any fun p => line.fields.itemId != p.fields.itemId
  | .damaged => line.fields.condition == .damaged
  | .opened => line.fields.condition == .opened
  | .unexpectedItem => line.fields.poLineId.isNone
  | .uomMismatch => comparator.any fun p => line.fields.uom != p.fields.uom
  | .quantityVariance => line.fields.packingQuantity.any (line.fields.quantity != ·)
  | .serialUnreadable => line.fields.assetId.isSome && tenant.unreadable line.fields.assetId
  | .serialMismatch =>
      line.fields.serialized && line.fields.assetId.isNone &&
        tenant.tables.identifiers.any fun i =>
          some i.assetId == row.key.conflictingAssetId &&
            line.fields.observedIdentifierType == some i.type && i.value.isSome &&
            line.fields.observedIdentifierValue == i.value
  | .short | .over => false

/-- The branch of `enforce_receiving_exception` for a line. -/
def lineSupported (tenant : Tenant) (row : ReceivingException) (lineId : Uuid) : Sql Bool := do
  let line ← demand (tenant.lines.find? fun l => l.id = lineId ∧ l.receiptId = row.receiptId)
    .checkViolation "Exception relationships disagree"
  require (line.fields.poLineId = row.key.poLineId ∧
      (row.key.assetId.isSome → row.key.assetId = line.fields.assetId))
    .checkViolation "Exception relationships disagree"
  pure (lineSupports tenant line row)

/-- `enforce_receiving_exception`. -/
def enforceReceivingException (tenant : Tenant) (row : ReceivingException) : Sql Unit :=
  match row.evaluationId, row.key.receiptLineId with
  | some evaluation, _ =>
      require ((row.receiptId, row.key) ∈ tenant.receiptEvaluationDisagreements evaluation)
        .checkViolation "Correction observation unsupported"
  | none, some lineId => do
      let supported ← lineSupported tenant row lineId
      require supported .checkViolation "Exception is not supported by receipt facts"
  | none, none =>
      if row.key.exceptionType = .short ∨ row.key.exceptionType = .over then do
        let supported ← quantitySupported tenant row
        require supported .checkViolation "Exception is not supported by receipt facts"
      else pure ()

/-! ## Constraints on exceptions -/

/-- `ck_receiving_exceptions_shape`. -/
def exceptionShape (key : ExceptionKey) : Bool :=
  match key.exceptionType with
  | .short | .over => key.receiptLineId.isNone && key.poLineId.isSome && key.assetId.isNone &&
      key.conflictingAssetId.isNone
  | .substitution | .uomMismatch => key.receiptLineId.isSome && key.poLineId.isSome &&
      key.conflictingAssetId.isNone
  | .damaged | .opened => key.receiptLineId.isSome && key.conflictingAssetId.isNone
  | .serialUnreadable => key.receiptLineId.isSome && key.assetId.isSome &&
      key.conflictingAssetId.isNone
  | .serialMismatch => key.receiptLineId.isSome && key.assetId.isNone &&
      key.conflictingAssetId.isSome
  | .unexpectedItem => key.receiptLineId.isSome && key.poLineId.isNone &&
      key.conflictingAssetId.isNone
  | .quantityVariance => key.receiptLineId.isSome && key.assetId.isNone &&
      key.conflictingAssetId.isNone

/-- The unique indexes on exceptions: one observation of a type for a line, or for a purchase order
line of the receipt, at capture and in each evaluation. -/
def sameObservation (row other : ReceivingException) : Bool :=
  row.evaluationId == other.evaluationId && row.key.receiptLineId == other.key.receiptLineId &&
    row.key.exceptionType == other.key.exceptionType &&
    (row.key.receiptLineId.isSome ||
      (row.key.poLineId.isSome && row.key.poLineId == other.key.poLineId &&
        (row.evaluationId.isSome || row.receiptId == other.receiptId)))

/-- The foreign keys of an exception. -/
def exceptionReferences (refs : References) (tenant : Tenant) (row : ReceivingException) : Bool :=
  tenant.receipts.any (·.id = row.receiptId) &&
    row.key.receiptLineId.all (fun line => tenant.lines.any (·.id = line)) &&
    row.key.poLineId.all (fun poLine => tenant.comparators.any fun c =>
      c.receiptId = row.receiptId ∧ c.poLineId = poLine) &&
    row.key.assetId.all (fun asset => tenant.tables.assets.any (·.id = asset)) &&
    row.key.conflictingAssetId.all (fun asset => tenant.tables.assets.any (·.id = asset)) &&
    row.evaluationId.all (fun evaluation => tenant.evaluations.any (·.id = evaluation)) &&
    refs.actors.contains row.actorId

/-- The workflow that `initialize_exception_workflow` opens. -/
def ReceivingException.opened (row : ReceivingException) : ExceptionWorkflow where
  exceptionId := row.id
  exceptionType := row.key.exceptionType
  entityType := if row.key.receiptLineId.isNone then .receipt else .receiptLine
  entityId := row.key.receiptLineId.getD row.receiptId
  status := .open
  eventSeq := 0
  resolvedByActorId := none
  resolvedAt := none
  resolutionNote := none

/-- `INSERT INTO receiving_exceptions`, with the workflow that it opens. -/
def insertException (ctx : Context) (row : ReceivingException) (tenant : Tenant) : Sql Tenant := do
  let row ← guardException ctx tenant row
  enforceReceivingException tenant row
  require (exceptionShape row.key ∧ row.occurredAt.isFinite) .checkViolation
    "receiving_exceptions check"
  require (!(ctx.foreignKeys .receivingExceptions).contains row.id ∧
      tenant.exceptions.all fun other => other.id ≠ row.id ∧ !sameObservation row other)
    .uniqueViolation "receiving_exceptions key"
  require (exceptionReferences ctx.refs tenant row) .foreignKeyViolation
    "receiving_exceptions reference"
  require (ctx.session.organization = some tenant.tables.orgId) .insufficientPrivilege
    "Tenant context required"
  require (tenant.workflows.all (·.exceptionId ≠ row.id)) .uniqueViolation
    "exception_workflows key"
  enforceAuthenticatedCreator ctx.session row.actorId
  pure { tenant with exceptions := tenant.exceptions ++ [row]
                     workflows := tenant.workflows ++ [row.opened] }

/-! ## The deferred trigger -/

/-- The types that `enforce_receiving_completeness` requires for a line. -/
def requiredTypes (tenant : Tenant) (line : ReceiptLine) : List ExceptionType :=
  let comparator := line.fields.poLineId.bind tenant.purchaseOrderLine?
  (if line.fields.poLineId.isNone then [.unexpectedItem]
    else (if comparator.any fun p => line.fields.itemId != p.fields.itemId then [.substitution]
        else []) ++
      if comparator.any fun p => line.fields.uom != p.fields.uom then [.uomMismatch] else []) ++
  (match line.fields.condition with
    | .damaged => [.damaged]
    | .opened => [.opened]
    | .good | .unknown => []) ++
  (if line.fields.packingQuantity.any (line.fields.quantity != ·) then [.quantityVariance]
    else []) ++
  (if line.fields.observedIdentifierValue.isSome then [.serialMismatch] else []) ++
  if line.fields.assetId.isSome && tenant.tables.identifiers.any (fun i =>
      some i.assetId == line.fields.assetId && i.value.isNone) then [.serialUnreadable] else []

/-- `enforce_receiving_completeness`, for a line that the transaction inserted. -/
def completeLine (tenant : Tenant) (line : ReceiptLine) : Sql Unit :=
  match tenant.lines.find? (·.id = line.id) with
  | none => pure ()
  | some line =>
      require (∀ type ∈ requiredTypes tenant line, tenant.exceptions.any fun e =>
          e.key.receiptLineId = some line.id ∧ e.key.exceptionType = type)
        .checkViolation "Required line Exception missing"

/-- The quantity conclusion on a comparator, `SHORT` or `OVER`; mixed units suppress it. -/
def quantityType (comparator : PurchaseOrderLine) (arrivals : List ReceiptLine) :
    Option ExceptionType :=
  let total := totalIn comparator.fields.uom arrivals
  if mixedUnits comparator.fields.uom arrivals ∨ total = comparator.fields.quantity then none
  else if total < comparator.fields.quantity then some .short else some .over

/-- The effective lines that the receipt is bound to. -/
def Tenant.boundLines (tenant : Tenant) (receipt : Uuid) : List PurchaseOrderLine :=
  (tenant.comparators.filter (·.receiptId = receipt)).filterMap fun c =>
    tenant.purchaseOrderLine? c.poLineId

/-- `enforce_receiving_completeness`, for a reconciliation that the transaction inserted. -/
def completeReconciliation (tenant : Tenant) (receipt : Uuid) : Sql Unit :=
  require (∀ comparator ∈ tenant.boundLines receipt,
      ∀ type ∈ quantityType comparator (tenant.arrivals receipt comparator.id),
        tenant.exceptions.any fun e => e.receiptId = receipt ∧ e.key.poLineId = some comparator.id ∧
          e.key.receiptLineId = none ∧ e.key.exceptionType = type)
    .checkViolation "Required quantity Exception missing"

end FleetOps
