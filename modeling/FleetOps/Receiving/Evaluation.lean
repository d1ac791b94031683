import FleetOps.Receiving.Snapshot

/-!
# Evaluated facts

An evaluation pins, for every line and every expectation of a receipt, the
source that is in force when it is made: the record itself or one of its
replacements.  These are the views that read the pinned sources back and
classify them.
-/

namespace FleetOps

/-- `sum(quantity)`, zero when there is none. -/
def evaluatedTotal (lines : List EvaluatedLine) : ℚ := (lines.map EvaluatedLine.quantity).sum

/-- `bool_or(uom <> …)`, false when there is none. -/
def evaluatedMismatch (uom : UnitOfMeasure) (lines : List EvaluatedLine) : Bool :=
  lines.any fun line => line.uom != uom

/-- The kinds that `receipt_evaluation_disagreements` finds for a line.  A comparison with a null
is not true. -/
def disagreementKinds (line : EvaluatedLine) (expected : Option EvaluatedExpectation) :
    List ExceptionType :=
  (if line.poLineId.isNone then [.unexpectedItem] else []) ++
  (if expected.any fun p => line.itemId != p.itemId then [.substitution] else []) ++
  (if expected.any fun p => line.uom != p.uom then [.uomMismatch] else []) ++
  (match line.condition with
    | .damaged => [.damaged]
    | .opened => [.opened]
    | .good | .unknown => []) ++
  (if line.unreadable then [.serialUnreadable] else []) ++
  (if line.conflictingAssetId.isSome then [.serialMismatch] else []) ++
  if line.packingQuantity.any (line.quantity != ·) then [.quantityVariance] else []

/-- The kind that `receipt_evaluation_disagreements` finds for an expectation, after `HAVING`. -/
def quantityKind (expected : EvaluatedExpectation) (arrivals : List EvaluatedLine) :
    Option ExceptionType :=
  if !evaluatedMismatch expected.uom arrivals && evaluatedTotal arrivals != expected.quantity then
    if evaluatedTotal arrivals < expected.quantity then some .short else some .over
  else none

/-- The replacement that a pinned source names, if it names one. -/
def pinnedSource {φ : Type} (corrections : List (RecordCorrection φ)) (source : Option Uuid) :
    Option (RecordCorrection φ) :=
  source.bind fun id => corrections.find? (·.id = id)

namespace Tenant

variable (tenant : Tenant)

/-- A line as one of its sources states it; its Asset stays that of the line itself. -/
def lineAt (line : ReceiptLine) (source : Option (RecordCorrection LineFields)) : EvaluatedLine :=
  let fields := (source.map RecordCorrection.fields).getD line.fields
  { receiptLineId := line.id
    receiptId := line.receiptId
    poLineId := fields.poLineId
    itemId := fields.itemId
    quantity := fields.quantity
    uom := fields.uom
    condition := fields.condition
    packingQuantity := fields.packingQuantity
    assetId := line.fields.assetId
    serialized := line.fields.serialized
    conflictingAssetId :=
      match source with
      | none => tenant.conflictOf line.fields
      | some c => c.conflictingAssetId
    unreadable := tenant.unreadable line.fields.assetId }

/-- An expectation as one of its sources states it. -/
def expectationAt (line : PurchaseOrderLine)
    (source : Option (RecordCorrection PurchaseOrderFields)) : EvaluatedExpectation :=
  let fields := (source.map RecordCorrection.fields).getD line.fields
  { poLineId := line.id, itemId := fields.itemId, quantity := fields.quantity, uom := fields.uom }

/-- `evaluated_receipt_lines`, for one evaluation. -/
def evaluatedReceiptLines (evaluation : Uuid) : List EvaluatedLine :=
  (tenant.evaluationLines.filter (·.evaluationId = evaluation)).filterMap fun s =>
    (tenant.lines.find? (·.id = s.rootId)).map fun line =>
      tenant.lineAt line (pinnedSource tenant.lineCorrections s.sourceId)

/-- `evaluated_receipt_expectations`, for one evaluation. -/
def evaluatedReceiptExpectations (evaluation : Uuid) : List EvaluatedExpectation :=
  (tenant.evaluationExpectations.filter (·.evaluationId = evaluation)).filterMap fun s =>
    (tenant.purchaseOrderLines.find? (·.id = s.rootId)).map fun line =>
      expectationAt line (pinnedSource tenant.purchaseOrderLineCorrections s.sourceId)

/-- What an evaluation compares. -/
def evaluated (evaluation : Uuid) : Snapshot where
  lines := tenant.evaluatedReceiptLines evaluation
  expectations := tenant.evaluatedReceiptExpectations evaluation

/-- `receipt_evaluation_disagreements`, for one evaluation: the receipt of each row and its key. -/
def receiptEvaluationDisagreements (evaluation : Uuid) : List (Uuid × ExceptionKey) :=
  let snapshot := tenant.evaluated evaluation
  (snapshot.lines.flatMap fun line =>
    (disagreementKinds line
        (line.poLineId.bind fun poLine => snapshot.expectations.find? (·.poLineId = poLine))).map
      fun kind => (line.receiptId, lineKey line kind)) ++
  (tenant.evaluations.filter (·.id = evaluation)).flatMap fun e =>
    snapshot.expectations.flatMap fun expected =>
      (quantityKind expected (snapshot.arrivals expected.poLineId)).toList.map fun kind =>
        (e.receiptId, quantityKey expected.poLineId kind)

end Tenant

end FleetOps
