import FleetOps.Receiving.Tables

/-!
# The receiving tables' guards

`enforce_receiving_record` is one trigger for five tables; each `guard…` here is
its branch for one of them, which fills in the columns that the caller may not
choose.  The comparison and admission reads are those of the correction
migration, over effective purchase order lines.
-/

namespace FleetOps

/-- Actor hints and older snapshots have no receiving authority. -/
def receivingGate (ctx : Context) : Sql Unit := do
  require (ctx.session.actorHint = none) .insufficientPrivilege
    "Caller Actor context is not permitted"
  require ctx.readCommitted .serializationFailure "Receiving requires READ COMMITTED"

/-- `lock_receiving_context`. -/
def lockReceivingContext (ctx : Context) (tenant : Tenant) (org receipt : Uuid) : Sql Receipt := do
  receivingGate ctx
  demand (if org = tenant.tables.orgId then tenant.receipt? receipt else none)
    .foreignKeyViolation "Receipt not found"

/-- A selected comparator has to be an active line of the receipt's issued order. -/
def admitComparator (tenant : Tenant) (receipt : Receipt) (poLineId : Uuid) : Sql Unit := do
  let comparator ← demand (tenant.purchaseOrderLine? poLineId) .foreignKeyViolation
    "Invalid receipt comparator"
  require (receipt.poId = some comparator.poId) .foreignKeyViolation "Invalid receipt comparator"
  require (tenant.issued comparator.poId) .checkViolation "Comparator requires issued PO"
  require (!tenant.isSuperseded comparator.id) .serializationFailure "Receipt comparator is stale"

/-- The `receipts` branch of the guard. -/
def guardReceipt (ctx : Context) (tenant : Tenant) (receipt : Receipt) : Sql Receipt := do
  receivingGate ctx
  match receipt.poId with
  | none => pure ()
  | some po => do
      require (tenant.purchaseOrders.any (·.id = po)) .foreignKeyViolation "Purchase order not found"
      require (tenant.issued po) .checkViolation "Receipt requires issued PO"
  pure { receipt with occurredAt := receipt.receivedAt, recordedAt := ctx.session.now }

/-- A `CORRECTED` row of this transaction selected the comparator. -/
def introducedNow (ctx : Context) (tenant : Tenant) (receipt : Uuid) (poLineId : Option Uuid)
    (correction : Option Uuid) : Bool :=
  tenant.lineCorrections.any fun c => c.entityId == receipt && c.fields.poLineId == poLineId &&
    some c.id == correction && c.role == .corrected &&
    c.recordingTransactionId == ctx.transactionId

/-- The `receipt_comparators` branch of the guard. -/
def guardComparator (ctx : Context) (tenant : Tenant) (row : Comparator) : Sql Comparator := do
  receivingGate ctx
  let receipt ← lockReceivingContext ctx tenant tenant.tables.orgId row.receiptId
  let introduced := introducedNow ctx tenant row.receiptId (some row.poLineId)
    row.introducedByCorrectionId
  require (introduced ∨ ¬tenant.reconciled row.receiptId) .checkViolation
    "Receipt population is already reconciled"
  admitComparator tenant receipt row.poLineId
  require (row.introducedByCorrectionId.isSome → introduced) .checkViolation
    "Invalid comparator introduction"
  require (row.sourceGeneration =
      Tenant.generation tenant.purchaseOrderLineCorrections row.poLineId)
    .serializationFailure "Expected procurement generation stale"
  require (row.poLineId ∉ tenant.purchaseOrderLineAnomalies ctx.posixSpace) .raiseException
    "Malformed procurement authority"
  pure { row with occurredAt := receipt.receivedAt, recordedAt := ctx.session.now }

/-- A received Asset began as its line says. -/
def receivedAsset (tenant : Tenant) (receipt : Receipt) (fields : LineFields) (asset : Uuid) :
    Bool :=
  tenant.tables.assets.any fun a => a.id == asset && a.itemId == fields.itemId &&
    tenant.tables.initialFacts.any fun b => b.assetId == asset &&
      some b.initialOwnerPartyId == fields.ownerPartyId &&
      b.initialCustodianPartyId == fields.custodianPartyId &&
      b.initialLocationId.isSome && b.initialLocationId == receipt.dockLocationId

/-- The `receipt_lines` branch of the guard. -/
def guardLine (ctx : Context) (tenant : Tenant) (row : ReceiptLine) : Sql ReceiptLine := do
  receivingGate ctx
  let receipt ← lockReceivingContext ctx tenant tenant.tables.orgId row.receiptId
  require (¬tenant.reconciled row.receiptId) .checkViolation
    "Receipt population is already reconciled"
  match row.fields.poLineId with
  | none => pure ()
  | some poLine => admitComparator tenant receipt poLine
  let item ← demand (tenant.items.find? (·.id = row.fields.itemId)) .foreignKeyViolation
    "Received Item not found"
  let fields := { row.fields with serialized := item.serialized }
  require (fields.packingQuantity.isSome → receipt.packingReference.isSome) .checkViolation
    "Packing count requires its reference"
  require (fields.serialized → fields.quantity = 1) .checkViolation
    "Serialized line represents one unit"
  require (fields.observedIdentifierValue.isSome → (tenant.conflictOf fields).isSome)
    .checkViolation "Known canonical conflict required"
  require (fields.assetId.all (receivedAsset tenant receipt fields)) .checkViolation
    "Invalid received Asset relationship"
  pure { row with fields, occurredAt := receipt.receivedAt, recordedAt := ctx.session.now }

/-- The `receipt_reconciliations` branch of the guard. -/
def guardReconciliation (ctx : Context) (tenant : Tenant) (row : Reconciliation) :
    Sql Reconciliation := do
  receivingGate ctx
  let receipt ← lockReceivingContext ctx tenant tenant.tables.orgId row.receiptId
  require (¬tenant.reconciled row.receiptId) .checkViolation
    "Receipt population is already reconciled"
  pure { row with occurredAt := receipt.receivedAt, recordedAt := ctx.session.now }

/-- The `receiving_exceptions` branch of the guard: an exception observed by a correction takes
its time from an evaluation of the same transaction. -/
def guardException (ctx : Context) (tenant : Tenant) (row : ReceivingException) :
    Sql ReceivingException := do
  receivingGate ctx
  match row.evaluationId with
  | some evaluation => do
      let actor ← currentAuthenticatedActor ctx.session
      let cause ← demand (tenant.evaluations.find? fun e => e.id = evaluation ∧
          e.receiptId = row.receiptId ∧ e.actorId = actor ∧
          e.recordingTransactionId = ctx.transactionId)
        .checkViolation "Invalid correction observation cause"
      pure { row with occurredAt := cause.occurredAt, recordedAt := ctx.session.now }
  | none => do
      let receipt ← lockReceivingContext ctx tenant tenant.tables.orgId row.receiptId
      pure { row with occurredAt := receipt.receivedAt, recordedAt := ctx.session.now }

/-! ## Constraints -/

/-- `length(btrim(text)) BETWEEN 1 AND limit`. -/
def boundedText (limit : ℕ) (text : String) : Bool :=
  1 ≤ (btrim text).length && (btrim text).length ≤ limit

/-- The `CHECK` constraints of a receipt line. -/
def lineChecks (fields : LineFields) : Bool :=
  decide (0 < fields.quantity) && fields.packingQuantity.all (fun q => decide (0 ≤ q)) &&
    fields.notes.all (fun notes => decide (notes.length ≤ 4000)) &&
    fields.observedIdentifierType.isNone == fields.observedIdentifierValue.isNone &&
    fields.observedIdentifierValue.all (boundedText 500) &&
    ((fields.serialized && fields.ownerPartyId.isSome &&
        (fields.assetId.isSome != fields.observedIdentifierValue.isSome)) ||
      (!fields.serialized && fields.assetId.isNone && fields.observedIdentifierValue.isNone &&
        fields.ownerPartyId.isNone && fields.custodianPartyId.isNone))

/-- The foreign keys of a receipt line; a selected purchase order line is a bound comparator. -/
def lineReferences (refs : References) (tenant : Tenant) (row : ReceiptLine) : Bool :=
  tenant.receipts.any (·.id = row.receiptId) && tenant.items.any (·.id = row.fields.itemId) &&
    row.fields.ownerPartyId.all refs.parties.contains &&
    row.fields.custodianPartyId.all refs.parties.contains &&
    row.fields.assetId.all (fun asset => tenant.tables.assets.any (·.id = asset)) &&
    row.fields.poLineId.all (fun poLine => tenant.comparators.any fun c =>
      c.receiptId = row.receiptId ∧ c.poLineId = poLine) &&
    refs.actors.contains row.actorId

/-- `INSERT INTO receipt_lines`. -/
def insertLine (ctx : Context) (row : ReceiptLine) (tenant : Tenant) :
    Sql (ReceiptLine × Tenant) := do
  let row ← guardLine ctx tenant row
  require (lineChecks row.fields ∧ row.occurredAt.isFinite) .checkViolation "receipt_lines check"
  require (!(ctx.foreignKeys .receiptLines).contains row.id ∧
      tenant.lines.all (fun other => other.id ≠ row.id ∧
        (row.fields.assetId.isSome → other.fields.assetId ≠ row.fields.assetId)))
    .uniqueViolation "receipt_lines key"
  require (lineReferences ctx.refs tenant row) .foreignKeyViolation "receipt_lines reference"
  enforceAuthenticatedCreator ctx.session row.actorId
  pure (row, { tenant with lines := tenant.lines ++ [row] })

end FleetOps
