import FleetOps.Assets.Lifecycle
import FleetOps.Foundations.Dictionary
import FleetOps.Receiving.Corrections
import FleetOps.Receiving.Service

/-!
# The correction service

`correct_procurement` and `correct_receipt_line` append correction pairs under
the lock of what they correct.  A receipt line's correction is evaluated in the
same transaction: the whole receipt is pinned and classified anew, what lost its
support is resolved, what is new is observed.
-/

namespace FleetOps

/-! ## Values and keys -/

/-- What every correction states. -/
structure CorrectionValues where
  expectedGeneration : ℕ
  reason : String
  correctionOccurredAt : Timestamp

/-- `values` of `correct_procurement`; a field that was not sent is `none`. -/
structure ProcurementCorrection extends CorrectionValues where
  itemId : Option Uuid := none
  quantity : Option ℚ := none
  uom : Option UnitOfMeasure := none
  unitPrice : Option ℚ := none
  expectedDate : Option (Option ℤ) := none

/-- `values` of `correct_receipt_line`; a field that was not sent is `none`. -/
structure ReceiptLineCorrection extends CorrectionValues where
  poLineId : Option (Option Uuid) := none
  expectedPoGeneration : Option ℕ := none
  itemId : Option Uuid := none
  quantity : Option ℚ := none
  uom : Option UnitOfMeasure := none
  condition : Option ReceiptCondition := none
  packingQuantity : Option (Option ℚ) := none
  notes : Option (Option String) := none
  observedIdentifierType : Option (Option IdentifierType) := none
  observedIdentifierValue : Option (Option String) := none

/-- The keys that are drawn for an evaluation, each for the row that it is about. -/
structure EvaluationKeys where
  evaluationId : Uuid
  lineId : Uuid → Uuid
  expectationId : Uuid → Uuid
  linkId : Uuid → Uuid
  eventId : Uuid → Uuid
  exceptionId : ExceptionKey → Uuid
  openedLinkId : ExceptionKey → Uuid

/-- The keys that are drawn for a receipt line's correction. -/
structure ReceiptCorrectionKeys where
  pair : PairKeys
  comparatorId : Uuid
  evaluation : EvaluationKeys

/-- The sent fields over those in force, `PO_FIELDS`. -/
def ProcurementCorrection.replacement (values : ProcurementCorrection)
    (head : PurchaseOrderFields) : PurchaseOrderFields where
  itemId := values.itemId.getD head.itemId
  quantity := values.quantity.getD head.quantity
  uom := values.uom.getD head.uom
  unitPrice := values.unitPrice.getD head.unitPrice
  expectedDate := values.expectedDate.getD head.expectedDate

/-- The sent fields over those in force, `LINE_FIELDS`. -/
def ReceiptLineCorrection.replacement (values : ReceiptLineCorrection) (head : LineFields) :
    LineFields :=
  { head with
    poLineId := values.poLineId.getD head.poLineId
    itemId := values.itemId.getD head.itemId
    quantity := values.quantity.getD head.quantity
    uom := values.uom.getD head.uom
    condition := values.condition.getD head.condition
    packingQuantity := values.packingQuantity.getD head.packingQuantity
    notes := values.notes.getD head.notes
    observedIdentifierType := values.observedIdentifierType.getD head.observedIdentifierType
    observedIdentifierValue := values.observedIdentifierValue.getD head.observedIdentifierValue }

namespace Service

/-! ## Pairs -/

/-- `_head`: the newest replacement, if there is one, of authority that is not malformed. -/
def head {φ : Type} (anomalies : List Uuid) (corrections : List (RecordCorrection φ))
    (root : Uuid) : Service (Option (RecordCorrection φ)) := do
  ensure (root ∉ anomalies) .assetConflict "Malformed correction authority"
  pure (Tenant.latestCorrection corrections root)

/-- `_pair`: the effective values cancelled and replaced.  `root` and `entity` are the keys of the
record and of what it belongs to, `original` its own values and `recorded` its own time. -/
def pair {φ : Type} (ctx : Context)
    (insert : RecordCorrection φ → Tenant → Sql (RecordCorrection φ × Tenant))
    (root entity : Uuid) (original : φ) (recorded : Timestamp)
    (head : Option (RecordCorrection φ)) (values : CorrectionValues) (replacement : φ → φ)
    (keys : PairKeys) (tenant : Tenant) : Service (RecordCorrection φ × Tenant) := do
  ensure (values.expectedGeneration = (head.map RecordCorrection.generation).getD 0) .assetConflict
    "Correction generation is stale"
  let effective := (head.map RecordCorrection.fields).getD original
  assetConstraints do
    let actor ← execute (currentAuthenticatedActor ctx.session)
    let row : RecordCorrection φ :=
      { id := keys.reversalId, rootId := root, entityId := entity
        recordingTransactionId := ctx.transactionId, role := .reversal, pairId := keys.pairId
        generation := values.expectedGeneration + 1
        correctionOccurredAt := values.correctionOccurredAt, reason := values.reason
        fields := effective, conflictingAssetId := none, actorId := actor
        occurredAt := (head.map RecordCorrection.occurredAt).getD recorded
        recordedAt := ctx.session.now }
    let (_, tenant) ← execute (insert row tenant)
    execute <| insert
      { row with id := keys.correctedId, role := .corrected, fields := replacement effective } tenant

/-- `correct_procurement`, with the deferred check of its pair. -/
def correctProcurement (ctx : Context) (poId rootId : Uuid) (values : ProcurementCorrection)
    (keys : PairKeys) (tenant : Tenant) :
    Service (RecordCorrection PurchaseOrderFields × Tenant) := do
  let order ← fetch (if ctx.session.organization = some tenant.tables.orgId
    then tenant.purchaseOrders.find? (·.id = poId) else none) .procurementNotFound
    "Purchase order not found"
  ensure (order.status = .issued) .assetInvalid "Only issued procurement lines are correctable"
  let original ← fetch (tenant.purchaseOrderLines.find? fun l => l.id = rootId ∧ l.poId = poId)
    .assetNotFound "Procurement line not found"
  ensure (tenant.comparators.all (·.poLineId ≠ rootId)) .assetConflict
    "Receipt-bound procurement facts are frozen"
  let head ← head (tenant.purchaseOrderLineAnomalies ctx.posixSpace)
    tenant.purchaseOrderLineCorrections rootId
  let (corrected, tenant) ← pair ctx (insertPurchaseOrderLineCorrection ctx) rootId original.poId
    original.fields original.createdAt head values.toCorrectionValues values.replacement keys tenant
  execute (completePurchaseOrderLineCorrections ctx rootId tenant)
  pure (corrected, tenant)

/-! ## Disagreements -/

/-- The kinds of a line that `_disagreements` finds, with the comparator that it selects. -/
def evaluatedKinds (comparators : List EvaluatedExpectation) (line : EvaluatedLine) :
    Service (List ExceptionType) := do
  let selection ← match line.poLineId with
    | none => pure [ExceptionType.unexpectedItem]
    | some poLine => do
        let comparator ← fetch (comparators.find? (·.poLineId = poLine)) .assetConflict
          "Receipt comparator source missing"
        pure ((if line.itemId ≠ comparator.itemId then [.substitution] else []) ++
          if line.uom ≠ comparator.uom then [.uomMismatch] else [])
  pure (selection ++
    (match line.condition with
      | .damaged => [.damaged]
      | .opened => [.opened]
      | .good | .unknown => []) ++
    (if line.packingQuantity.any (· != line.quantity) then [.quantityVariance] else []) ++
    (if line.unreadable then [.serialUnreadable] else []) ++
    if line.conflictingAssetId.isSome then [.serialMismatch] else [])

/-- The quantity conclusion of `_disagreements` on a comparator. -/
def evaluatedQuantity (lines : List EvaluatedLine) (comparator : EvaluatedExpectation) :
    Option ExceptionType :=
  let arrivals := lines.filter (·.poLineId = some comparator.poLineId)
  let total := evaluatedTotal arrivals
  if !evaluatedMismatch comparator.uom arrivals ∧ total ≠ comparator.quantity then
    some (if total < comparator.quantity then .short else .over)
  else none

/-- The keys of one line's disagreements. -/
def evaluatedLine (comparators : List EvaluatedExpectation) (line : EvaluatedLine) :
    Service (List ExceptionKey) := do
  let kinds ← evaluatedKinds comparators line
  pure (kinds.map (FleetOps.lineKey line))

/-- `_disagreements`, as the keys of its rows. -/
def disagreements (tenant : Tenant) (evaluation : Uuid) : Service (List ExceptionKey) := do
  let lines := tenant.evaluatedReceiptLines evaluation
  let comparators := Dictionary.ofRows EvaluatedExpectation.poLineId
    (tenant.evaluatedReceiptExpectations evaluation)
  let found ← lines.mapM (evaluatedLine comparators)
  pure (found.flatten ++ comparators.flatMap fun comparator =>
    (evaluatedQuantity lines comparator).toList.map (FleetOps.quantityKey comparator.poLineId))

/-! ## Evaluation -/

/-- The evaluation's own row. -/
def openEvaluation (ctx : Context) (header : Receipt) (corrected : RecordCorrection LineFields)
    (id : Uuid) (tenant : Tenant) : Service (Evaluation × Tenant) := do
  let sequence ← execute <| addInteger
    (((tenant.evaluations.filter (·.receiptId = header.id)).map Evaluation.evaluationSeq).max?.getD 0)
    1
  let actor ← execute (currentAuthenticatedActor ctx.session)
  execute <| insertEvaluation ctx
    { id, receiptId := header.id, receiptLineId := corrected.rootId, correctionId := corrected.id
      correctionGeneration := corrected.generation, evaluationSeq := sequence
      recordingTransactionId := ctx.transactionId, actorId := actor
      occurredAt := corrected.correctionOccurredAt, recordedAt := ctx.session.now } tenant

/-- A line's source in force, pinned. -/
def pinLine (ctx : Context) (evaluation : Evaluation) (lineId : Uuid → Uuid) (tenant : Tenant)
    (original : ReceiptLine) : Service Tenant := do
  let head ← head (tenant.receiptLineAnomalies ctx.posixSpace) tenant.lineCorrections original.id
  execute <| insertEvaluationLine ctx
    { id := lineId original.id, evaluationId := evaluation.id, rootId := original.id
      sourceGeneration := (head.map RecordCorrection.generation).getD 0
      sourceId := head.map RecordCorrection.id, actorId := evaluation.actorId
      occurredAt := evaluation.occurredAt, recordedAt := ctx.session.now } tenant

/-- A comparator's source, pinned. -/
def pinExpectation (ctx : Context) (evaluation : Evaluation) (expectationId : Uuid → Uuid)
    (tenant : Tenant) (binding : Comparator) : Service Tenant :=
  execute <| insertEvaluationExpectation ctx
    { id := expectationId binding.poLineId, evaluationId := evaluation.id
      rootId := binding.poLineId, sourceGeneration := binding.sourceGeneration
      sourceId := binding.sourceId, actorId := evaluation.actorId
      occurredAt := evaluation.occurredAt, recordedAt := ctx.session.now } tenant

/-- The newest evaluation's word on an exception. -/
def priorSupport (tenant : Tenant) (exception : Uuid) : Option Bool :=
  let rows := (tenant.evaluationExceptions.filter (·.exceptionId = exception)).filterMap fun x =>
    (tenant.evaluations.find? (·.id = x.evaluationId)).map fun e => (e.evaluationSeq, x.supported)
  (Query.latestBy Prod.fst rows).map Prod.snd

/-- One existing observation: whether the evaluation supports it, and the resolution of what it
does not.  The keys that are supported so far are carried along. -/
def observe (ctx : Context) (corrected : RecordCorrection LineFields) (evaluation : Evaluation)
    (keys : EvaluationKeys) (workflows : List ExceptionWorkflow) (desired : List ExceptionKey)
    (state : List ExceptionKey × Tenant) (observation : ReceivingException) :
    Service (List ExceptionKey × Tenant) := do
  let (claimed, tenant) := state
  let supported := decide (priorSupport tenant observation.id ≠ some false ∧
    observation.key ∈ desired)
  let workflow ← fetch (workflows.find? (·.exceptionId = observation.id)) .keyError "exception_id"
  ensure (supported → observation.key ∉ claimed) .assetConflict "Duplicate supported observation"
  let tenant ← execute <| insertEvaluationException ctx
    { id := keys.linkId observation.id, evaluationId := evaluation.id
      exceptionId := observation.id, supported, priorEventSeq := workflow.eventSeq
      actorId := evaluation.actorId, occurredAt := evaluation.occurredAt
      recordedAt := ctx.session.now } tenant
  let claimed := if supported then observation.key :: claimed else claimed
  if ¬supported ∧ ¬workflow.status.terminal then do
    let (_, tenant) ← execute <| transitionExceptionSql ctx
      { exceptionId := observation.id, expectedStatus := workflow.status, toStatus := .resolved
        note := some (supersessionNote corrected.pairId), occurredAt := evaluation.occurredAt
        eventId := keys.eventId observation.id, evaluationId := some evaluation.id } tenant
    pure (claimed, tenant)
  else pure (claimed, tenant)

/-- A disagreement that nothing supports yet, observed anew. -/
def openObservation (ctx : Context) (header : Receipt) (evaluation : Evaluation)
    (keys : EvaluationKeys) (tenant : Tenant) (key : ExceptionKey) : Service Tenant := do
  let tenant ← execute <| insertException ctx
    { id := keys.exceptionId key, receiptId := header.id, key, evaluationId := some evaluation.id
      actorId := evaluation.actorId, occurredAt := evaluation.occurredAt
      recordedAt := ctx.session.now } tenant
  execute <| insertEvaluationException ctx
    { id := keys.openedLinkId key, evaluationId := evaluation.id
      exceptionId := keys.exceptionId key, supported := true, priorEventSeq := 0
      actorId := evaluation.actorId, occurredAt := evaluation.occurredAt
      recordedAt := ctx.session.now } tenant

/-- `_evaluate`. -/
def evaluate (ctx : Context) (header : Receipt) (corrected : RecordCorrection LineFields)
    (keys : EvaluationKeys) (tenant : Tenant) : Service (Evaluation × Tenant) := do
  let (evaluation, tenant) ← openEvaluation ctx header corrected keys.evaluationId tenant
  let tenant ← (tenant.lines.filter (·.receiptId = header.id)).foldlM
    (pinLine ctx evaluation keys.lineId) tenant
  let tenant ← (tenant.comparators.filter (·.receiptId = header.id)).foldlM
    (pinExpectation ctx evaluation keys.expectationId) tenant
  let observations := (tenant.exceptions.filter (·.receiptId = header.id)).mergeSort (·.id ≤ ·.id)
  let workflows := tenant.workflows.filter fun w => observations.any (·.id = w.exceptionId)
  let disagreements ← disagreements tenant evaluation.id
  let desired := Dictionary.ofRows id disagreements
  let (claimed, tenant) ← observations.foldlM
    (observe ctx corrected evaluation keys workflows desired) ([], tenant)
  let tenant ← (desired.filter (· ∉ claimed)).foldlM (openObservation ctx header evaluation keys)
    tenant
  pure (evaluation, tenant)

/-! ## Receipt lines -/

/-- The writes of `correct_receipt_line`: the pair, a newly selected comparator, the evaluation. -/
def writeReceiptCorrection (ctx : Context) (receiptId rootId : Uuid)
    (values : ReceiptLineCorrection) (keys : ReceiptCorrectionKeys) (tenant : Tenant) :
    Service (RecordCorrection LineFields × Evaluation × Tenant) := do
  let header ← lock ctx tenant receiptId
  ensure (tenant.reconciled receiptId) .assetConflict "Receipt correction requires completed capture"
  let original ← fetch (tenant.lines.find? fun l => l.id = rootId ∧ l.receiptId = receiptId)
    .assetNotFound "Receipt line not found"
  let head ← head (tenant.receiptLineAnomalies ctx.posixSpace) tenant.lineCorrections rootId
  let (corrected, tenant) ← pair ctx (insertReceiptLineCorrection ctx) rootId original.receiptId
    original.fields original.occurredAt head values.toCorrectionValues values.replacement keys.pair
    tenant
  let tenant ← match corrected.fields.poLineId with
    | none => pure tenant
    | some poLine =>
        bindComparator ctx header poLine (values.expectedPoGeneration.getD 0) (some corrected.id)
          keys.comparatorId tenant
  let (evaluation, tenant) ← evaluate ctx header corrected keys.evaluation tenant
  pure (corrected, evaluation, tenant)

/-- The checks that the triggers of a pair's rows defer to the commit. -/
def commitReceiptCorrection (ctx : Context) (corrected : RecordCorrection LineFields)
    (tenant : Tenant) : Sql Unit :=
  (tenant.lineCorrections.filter (·.pairId = corrected.pairId)).forM fun row =>
    completeReceiptLineCorrections ctx row tenant

/-- `correct_receipt_line`. -/
def correctReceiptLine (ctx : Context) (receiptId rootId : Uuid) (values : ReceiptLineCorrection)
    (keys : ReceiptCorrectionKeys) (tenant : Tenant) :
    Service ((RecordCorrection LineFields × Uuid) × Tenant) := do
  let (corrected, evaluation, tenant) ← assetConstraints do
    let (corrected, evaluation, tenant) ←
      writeReceiptCorrection ctx receiptId rootId values keys tenant
    execute (assertReceiptCorrectionComplete receiptId corrected.pairId tenant)
    pure (corrected, evaluation, tenant)
  execute (commitReceiptCorrection ctx corrected tenant)
  pure ((corrected, evaluation.id), tenant)

/-! ## Workflows -/

/-- `WORKFLOW` -/
def workflowTargets : ExceptionStatus → List ExceptionStatus
  | .open => [.acknowledged, .resolved, .waived]
  | .acknowledged => [.resolved, .waived]
  | .resolved | .waived => []

/-- `values` of `transition_exception`. -/
structure WorkflowValues where
  expectedStatus : ExceptionStatus
  toStatus : ExceptionStatus
  note : Option String
  occurredAt : Timestamp

/-- `transition_exception`, of an exception that receiving observed. -/
def transitionException (ctx : Context) (exceptionId : Uuid) (values : WorkflowValues)
    (eventId : Uuid) (tenant : Tenant) : Service (ExceptionEvent × Tenant) := do
  ensure (values.toStatus ∈ workflowTargets values.expectedStatus) .assetInvalid
    "Illegal Exception workflow transition"
  assetConstraints <| execute <| transitionExceptionSql ctx
    { exceptionId, expectedStatus := values.expectedStatus, toStatus := values.toStatus
      note := values.note, occurredAt := values.occurredAt, eventId, evaluationId := none } tenant

end Service

end FleetOps
