import FleetOps.Receiving.Consequences

/-!
# Corrections of procurement and receipt lines

A correction appends a `REVERSAL` that repeats the line's effective values and a
`CORRECTED` replacement, one generation up.  The two tables have one guard with
an admission of its own for each: a procurement line is correctable until a
receipt is bound to it, a receipt line once its receipt's population is closed.
-/

namespace FleetOps

section

variable {φ : Type}

/-- The preamble of `guard_…_corrections`. -/
def correctionGate (ctx : Context) (tenant : Tenant) : Sql Uuid := do
  require (ctx.session.organization = some tenant.tables.orgId ∧ ctx.session.actorHint = none)
    .insufficientPrivilege "Trusted credential context required"
  let actor ← currentAuthenticatedActor ctx.session
  require ctx.readCommitted .serializationFailure "Correction requires READ COMMITTED"
  pure actor

/-- The end of `guard_…_corrections`: the next generation, of authority that is not malformed. -/
def guardGeneration (ctx : Context) (actor : Uuid) (occurredAt : Timestamp)
    (corrections : List (RecordCorrection φ)) (anomalies : List Uuid) (row : RecordCorrection φ) :
    Sql (RecordCorrection φ) := do
  require (row.generation = Tenant.generation corrections row.rootId + 1) .serializationFailure
    "Correction generation stale"
  require (row.role = .reversal → row.rootId ∉ anomalies) .raiseException
    "Malformed correction authority"
  pure { row with
    actorId := actor
    recordedAt := ctx.session.now
    recordingTransactionId := ctx.transactionId
    occurredAt
    reason := normalizeCorrectionReason row.reason }

/-- `ck_…_metadata`, and the finite time of every such table. -/
def correctionChecks (posixSpace : Char → Bool) (row : RecordCorrection φ) : Bool :=
  row.role != .none && decide (0 < row.generation) && row.correctionOccurredAt.isFinite &&
    decide (1 ≤ row.reason.length ∧ row.reason.length ≤ 4000) &&
    hasNonSpace posixSpace row.reason && row.reason == normalizeCorrectionReason row.reason &&
    row.occurredAt.isFinite

/-- The unique constraints of a corrections table. -/
def correctionUnique (foreign : List Uuid) (corrections : List (RecordCorrection φ))
    (row : RecordCorrection φ) : Bool :=
  !foreign.contains row.id && corrections.all fun other =>
    other.id != row.id && !(other.pairId == row.pairId && other.role == row.role) &&
      !(other.rootId == row.rootId && other.generation == row.generation && other.role == row.role)

end

/-! ## Procurement lines -/

/-- `guard_purchase_order_line_corrections`. -/
def guardPurchaseOrderLineCorrection (ctx : Context) (tenant : Tenant)
    (row : RecordCorrection PurchaseOrderFields) : Sql (RecordCorrection PurchaseOrderFields) := do
  let actor ← correctionGate ctx tenant
  let original ← demand (tenant.purchaseOrderLines.find? (·.id = row.rootId)) .foreignKeyViolation
    "Ordinary root not found"
  require (tenant.issued original.poId) .checkViolation "Only issued procurement is correctable"
  require (tenant.comparators.all (·.poLineId ≠ original.id)) .serializationFailure
    "Receipt-bound procurement is frozen"
  require (row.entityId = original.poId) .checkViolation "Procurement lineage is immutable"
  guardGeneration ctx actor original.createdAt tenant.purchaseOrderLineCorrections
    (tenant.purchaseOrderLineAnomalies ctx.posixSpace) row

/-- `INSERT INTO purchase_order_line_corrections`. -/
def insertPurchaseOrderLineCorrection (ctx : Context) (row : RecordCorrection PurchaseOrderFields)
    (tenant : Tenant) : Sql (RecordCorrection PurchaseOrderFields × Tenant) := do
  let row ← guardPurchaseOrderLineCorrection ctx tenant row
  require (correctionChecks ctx.posixSpace row ∧ 0 < row.fields.quantity ∧
      0 ≤ row.fields.unitPrice) .checkViolation "purchase_order_line_corrections check"
  require (correctionUnique (ctx.foreignKeys .purchaseOrderLineCorrections)
      tenant.purchaseOrderLineCorrections row) .uniqueViolation
    "purchase_order_line_corrections key"
  require (tenant.items.any (·.id = row.fields.itemId) ∧ ctx.refs.actors.contains row.actorId)
    .foreignKeyViolation "purchase_order_line_corrections reference"
  enforceAuthenticatedCreator ctx.session row.actorId
  pure (row, { tenant with
    purchaseOrderLineCorrections := tenant.purchaseOrderLineCorrections ++ [row] })

/-- `complete_purchase_order_line_corrections`, deferred to the commit. -/
def completePurchaseOrderLineCorrections (ctx : Context) (root : Uuid) (tenant : Tenant) :
    Sql Unit :=
  require (root ∉ tenant.purchaseOrderLineAnomalies ctx.posixSpace) .checkViolation
    "Incomplete correction pair"

/-! ## Receipt lines -/

/-- What created an Asset, or could not, stays as it was captured. -/
def admitReplacement (tenant : Tenant) (receipt : Receipt) (original : ReceiptLine)
    (row : RecordCorrection LineFields) : Sql Unit := do
  require (row.entityId = original.receiptId ∧ row.fields.serialized = original.fields.serialized ∧
      row.fields.assetId = original.fields.assetId ∧
      row.fields.ownerPartyId = original.fields.ownerPartyId ∧
      row.fields.custodianPartyId = original.fields.custodianPartyId)
    .checkViolation "Creation identity is immutable"
  require (original.fields.serialized → row.fields.quantity = 1 ∧
      row.fields.itemId = original.fields.itemId)
    .checkViolation "Serialized creation cannot be replaced"
  require (¬original.fields.serialized → row.fields.observedIdentifierValue = none ∧
      ¬tenant.items.any fun i => i.id = row.fields.itemId ∧ i.serialized)
    .checkViolation "Nonserialized capture cannot create an Asset"
  require (original.fields.assetId.isSome → row.fields.observedIdentifierType = none ∧
      row.fields.observedIdentifierValue = none)
    .checkViolation "Normal creation cannot become a conflict"
  require (row.fields.packingQuantity.isSome → receipt.packingReference.isSome)
    .checkViolation "Packing count requires reference"
  -- The comparator in force may have been superseded; only another one has to be active.
  require (row.fields.poLineId.isSome →
      row.fields.poLineId ≠ (tenant.effectiveReceiptLine original).fields.poLineId →
      tenant.purchaseOrderLines.any fun p => some p.id = row.fields.poLineId ∧
        some p.poId = receipt.poId ∧ tenant.issued p.poId ∧ !tenant.isSuperseded p.id)
    .serializationFailure "Invalid active receipt comparator"

/-- The conflicting Asset that the guard records, where the line was captured as a conflict. -/
def correctedConflict (tenant : Tenant) (original : ReceiptLine)
    (row : RecordCorrection LineFields) : Sql (Option Uuid) :=
  if original.fields.observedIdentifierValue.isSome then do
    let asset ← demand (tenant.conflictOf row.fields) .checkViolation "Canonical conflict required"
    pure (some asset)
  else pure none

/-- `guard_receipt_line_corrections`. -/
def guardReceiptLineCorrection (ctx : Context) (tenant : Tenant)
    (row : RecordCorrection LineFields) : Sql (RecordCorrection LineFields) := do
  let actor ← correctionGate ctx tenant
  let original ← demand (tenant.lines.find? (·.id = row.rootId)) .foreignKeyViolation
    "Ordinary root not found"
  let receipt ← lockReceivingContext ctx tenant tenant.tables.orgId original.receiptId
  require (tenant.reconciled original.receiptId) .checkViolation
    "Receipt correction requires sealed capture"
  require (row.role = .reversal → ¬tenant.hasEvaluationAnomaly original.receiptId) .raiseException
    "Receipt consequence history malformed"
  if row.role = .corrected then
    admitReplacement tenant receipt original row
  let conflictingAssetId ← correctedConflict tenant original row
  guardGeneration ctx actor original.occurredAt tenant.lineCorrections
    (tenant.receiptLineAnomalies ctx.posixSpace) { row with conflictingAssetId }

/-- `ck_receipt_line_corrections_business` and `…_observations`. -/
def replacementChecks (fields : LineFields) : Bool :=
  decide (0 < fields.quantity) && fields.packingQuantity.all (fun q => decide (0 ≤ q)) &&
    fields.notes.all (fun notes => decide (notes.length ≤ 4000)) &&
    fields.observedIdentifierType.isNone == fields.observedIdentifierValue.isNone &&
    fields.observedIdentifierValue.all (boundedText 500)

/-- The foreign keys of a receipt line's correction; a selected purchase order line need not be a
bound comparator. -/
def replacementReferences (refs : References) (tenant : Tenant)
    (row : RecordCorrection LineFields) : Bool :=
  tenant.receipts.any (·.id = row.entityId) && tenant.items.any (·.id = row.fields.itemId) &&
    row.fields.poLineId.all (fun poLine => tenant.purchaseOrderLines.any (·.id = poLine)) &&
    row.fields.ownerPartyId.all refs.parties.contains &&
    row.fields.custodianPartyId.all refs.parties.contains &&
    row.fields.assetId.all (fun asset => tenant.tables.assets.any (·.id = asset)) &&
    row.conflictingAssetId.all (fun asset => tenant.tables.assets.any (·.id = asset)) &&
    refs.actors.contains row.actorId

/-- `INSERT INTO receipt_line_corrections`. -/
def insertReceiptLineCorrection (ctx : Context) (row : RecordCorrection LineFields)
    (tenant : Tenant) : Sql (RecordCorrection LineFields × Tenant) := do
  let row ← guardReceiptLineCorrection ctx tenant row
  require (correctionChecks ctx.posixSpace row ∧ replacementChecks row.fields) .checkViolation
    "receipt_line_corrections check"
  require (correctionUnique (ctx.foreignKeys .receiptLineCorrections) tenant.lineCorrections row)
    .uniqueViolation "receipt_line_corrections key"
  require (replacementReferences ctx.refs tenant row) .foreignKeyViolation
    "receipt_line_corrections reference"
  enforceAuthenticatedCreator ctx.session row.actorId
  pure (row, { tenant with lineCorrections := tenant.lineCorrections ++ [row] })

/-- `complete_receipt_line_corrections`, deferred to the commit. -/
def completeReceiptLineCorrections (ctx : Context) (row : RecordCorrection LineFields)
    (tenant : Tenant) : Sql Unit := do
  require (row.rootId ∉ tenant.receiptLineAnomalies ctx.posixSpace) .checkViolation
    "Incomplete correction pair"
  assertReceiptCorrectionComplete row.entityId row.pairId tenant

end FleetOps
