import FleetOps.Receiving.Workflow

/-!
# Evaluations and their consequences

Each correction of a receipt line is followed by one evaluation of the whole
receipt.  It pins the sources in force and says of every exception whether they
still support it.  `receipt_evaluation_anomalies` reconstructs each evaluation
from the rows that existed when it was made, however many corrections followed;
`assert_receipt_correction_complete` checks the newest one against the present.
-/

namespace FleetOps

/-- `LEFT JOIN`: the matching rows, or one row of nulls. -/
def leftJoin {ρ : Type} (rows : List ρ) : List (Option ρ) :=
  if rows.isEmpty then [none] else rows.map some

/-- The note of an automatic resolution, which refers to the reason of the correction pair. -/
def supersessionNote (pair : Uuid) : String :=
  "Corrected receipt reality superseded this observation's assertion. " ++
    "Reason: see receipt-line correction pair " ++ uuidText pair ++ "."

namespace Tenant

variable (tenant : Tenant)

/-! ## Anomalies -/

/-- The lines that an evaluation pins. -/
def pinnedLines (evaluation : Uuid) : List EvaluationSource :=
  tenant.evaluationLines.filter (·.evaluationId = evaluation)

/-- The expectations that an evaluation pins. -/
def pinnedExpectations (evaluation : Uuid) : List EvaluationSource :=
  tenant.evaluationExpectations.filter (·.evaluationId = evaluation)

/-- What an evaluation says of the exceptions. -/
def linksOf (evaluation : Uuid) : List EvaluationException :=
  tenant.evaluationExceptions.filter (·.evaluationId = evaluation)

/-- `missing_correction_evaluation`, of a correction row. -/
def missingEvaluation (c : RecordCorrection LineFields) : Bool :=
  c.role == .corrected &&
    match tenant.evaluations.find? (·.correctionId = c.id) with
    | none => true
    | some e =>
        e.receiptId != c.entityId || e.receiptLineId != c.rootId ||
          e.correctionGeneration != c.generation || e.actorId != c.actorId ||
          e.occurredAt != c.correctionOccurredAt ||
          e.recordingTransactionId != c.recordingTransactionId

/-- The generation of a line when the evaluation was made. -/
def generationAt (e : Evaluation) (root : Uuid) : ℕ :=
  ((tenant.lineCorrections.filter fun c => c.rootId = root ∧
      tenant.evaluations.any fun cause => cause.correctionId = c.id ∧
        cause.receiptId = e.receiptId ∧ cause.evaluationSeq ≤ e.evaluationSeq).map
    RecordCorrection.generation).max?.getD 0

/-- `evaluation_line_population`. -/
def malformedLinePopulation (e : Evaluation) : Bool :=
  (tenant.lines.any fun r => r.receiptId == e.receiptId &&
    !(tenant.pinnedLines e.id).any (·.rootId == r.id)) ||
  (tenant.pinnedLines e.id).any fun s =>
    (tenant.lines.find? (·.id = s.rootId)).any fun r =>
      r.receiptId != e.receiptId || s.actorId != e.actorId || s.occurredAt != e.occurredAt ||
        s.sourceGeneration != tenant.generationAt e s.rootId

/-- The comparator was bound when the evaluation was made. -/
def boundAt (e : Evaluation) (b : Comparator) : Bool :=
  b.receiptId == e.receiptId && (b.introducedByCorrectionId.isNone ||
    tenant.evaluations.any fun intro => some intro.correctionId == b.introducedByCorrectionId &&
      decide (intro.evaluationSeq ≤ e.evaluationSeq))

/-- A pinned expectation repeats a comparator. -/
def pins (s : EvaluationSource) (b : Comparator) : Bool :=
  s.rootId == b.poLineId && s.sourceGeneration == b.sourceGeneration && s.sourceId == b.sourceId

/-- `evaluation_expectation_population`. -/
def malformedExpectationPopulation (e : Evaluation) : Bool :=
  (tenant.comparators.any fun b => tenant.boundAt e b &&
    !(tenant.pinnedExpectations e.id).any fun s => pins s b) ||
  (tenant.pinnedExpectations e.id).any fun s => s.actorId != e.actorId ||
    s.occurredAt != e.occurredAt || !tenant.comparators.any fun b => tenant.boundAt e b && pins s b

/-- The exception had been observed when the evaluation was complete. -/
def observedAt (e : Evaluation) (o : ReceivingException) : Bool :=
  o.receiptId == e.receiptId && (o.evaluationId.isNone ||
    tenant.evaluations.any fun origin => some origin.id == o.evaluationId &&
      decide (origin.evaluationSeq ≤ e.evaluationSeq))

/-- `evaluation_exception_links`. -/
def missingLink (e : Evaluation) : Bool :=
  tenant.exceptions.any fun o => tenant.observedAt e o &&
    !(tenant.linksOf e.id).any (·.exceptionId == o.id)

/-- The evaluated facts disagree with this key. -/
def disagreesAt (e : Evaluation) (key : ExceptionKey) : Bool :=
  (tenant.receiptEvaluationDisagreements e.id).any (·.2 == key)

/-- An evaluation before `e`, of any receipt that `visible` admits, did not support the exception. -/
def unsupportedBefore (visible : Evaluation → Bool) (e : Evaluation) (exception : Uuid) : Bool :=
  tenant.evaluationExceptions.any fun old => old.exceptionId == exception && !old.supported &&
    tenant.evaluations.any fun oldE => oldE.id == old.evaluationId && visible oldE &&
      decide (oldE.evaluationSeq < e.evaluationSeq)

/-- `evaluation_exception_support`, of one link. -/
def malformedSupport (e : Evaluation) (x : EvaluationException) : Bool :=
  (tenant.exceptions.find? (·.id = x.exceptionId)).any fun o =>
    o.receiptId != e.receiptId || x.actorId != e.actorId || x.occurredAt != e.occurredAt ||
      x.supported != (tenant.disagreesAt e o.key &&
        !tenant.unsupportedBefore (·.receiptId == e.receiptId) e o.id)

/-- How many observations an evaluation supports a key with. -/
def supportCount (e : Evaluation) (key : ExceptionKey) : ℕ :=
  (tenant.linksOf e.id).countP fun x => x.supported &&
    (tenant.exceptions.find? (·.id = x.exceptionId)).any (·.key == key)

/-- `evaluation_disagreement_coverage`. -/
def malformedCoverage (e : Evaluation) : Bool :=
  (tenant.receiptEvaluationDisagreements e.id).any fun d => tenant.supportCount e d.2 != 1

/-- The event with a number. -/
def event? (exception : Uuid) (seq : ℕ) : Option ExceptionEvent :=
  tenant.events.find? fun p => p.exceptionId = exception ∧ p.eventSeq = seq

/-- The events that an evaluation caused on an exception. -/
def resolutionsOf (x : EvaluationException) : List ExceptionEvent :=
  tenant.events.filter fun r => r.exceptionId = x.exceptionId ∧ r.evaluationId = some x.evaluationId

/-- A workflow consequence is not the one that the evaluation requires.  `noted` is what is asked
of the note. -/
def malformedConsequence (noted : ExceptionEvent → Bool) (e : Evaluation)
    (x : EvaluationException) (resolution : Option ExceptionEvent) : Bool :=
  let prior := tenant.event? x.exceptionId x.priorEventSeq
  (decide (0 < x.priorEventSeq) && prior.isNone) ||
  (!x.supported && !((prior.map ExceptionEvent.toStatus).getD .open).terminal &&
    resolution.all fun r => r.toStatus != .resolved || r.eventSeq != x.priorEventSeq + 1 ||
      r.actorId != e.actorId || r.occurredAt != e.occurredAt || !noted r) ||
  ((x.supported || prior.any (·.toStatus.terminal)) && resolution.isSome)

/-- `evaluation_workflow_consequence`. -/
def malformedConsequences (e : Evaluation) : Bool :=
  (tenant.lineCorrections.find? (·.id = e.correctionId)).any fun cause =>
    (tenant.linksOf e.id).any fun x => (leftJoin (tenant.resolutionsOf x)).any
      (tenant.malformedConsequence (fun r => r.note == some (supersessionNote cause.pairId)) e x)

/-- The view `receipt_evaluation_anomalies`: the receipts, with the issue that each has. -/
def receiptEvaluationAnomalies : List (Uuid × String) :=
  ((tenant.lineCorrections.filter tenant.missingEvaluation).map fun c =>
    (c.entityId, "missing_correction_evaluation")) ++
  ((tenant.evaluations.filter tenant.malformedLinePopulation).map fun e =>
    (e.receiptId, "evaluation_line_population")) ++
  ((tenant.evaluations.filter tenant.malformedExpectationPopulation).map fun e =>
    (e.receiptId, "evaluation_expectation_population")) ++
  ((tenant.evaluations.filter tenant.missingLink).map fun e =>
    (e.receiptId, "evaluation_exception_links")) ++
  ((tenant.evaluations.filter fun e => (tenant.linksOf e.id).any (tenant.malformedSupport e)).map
    fun e => (e.receiptId, "evaluation_exception_support")) ++
  ((tenant.evaluations.filter tenant.malformedCoverage).map fun e =>
    (e.receiptId, "evaluation_disagreement_coverage")) ++
  ((tenant.evaluations.filter tenant.malformedConsequences).map fun e =>
    (e.receiptId, "evaluation_workflow_consequence"))

/-- Some row of the view is about the receipt. -/
def hasEvaluationAnomaly (receipt : Uuid) : Bool :=
  tenant.receiptEvaluationAnomalies.any (·.1 == receipt)

/-! ## The assertion -/

/-- `Evaluation source population incomplete`. -/
def sourcesIncomplete (receipt : Uuid) (e : Evaluation) : Bool :=
  (tenant.lines.any fun r => r.receiptId == receipt &&
    !(tenant.pinnedLines e.id).any (·.rootId == r.id)) ||
  ((tenant.pinnedLines e.id).any fun s =>
    (tenant.lines.find? (·.id = s.rootId)).any (·.receiptId != receipt)) ||
  (tenant.comparators.any fun b => b.receiptId == receipt &&
    !(tenant.pinnedExpectations e.id).any fun s => pins s b) ||
  ((tenant.pinnedExpectations e.id).any fun s =>
    !tenant.comparators.any fun b => b.receiptId == receipt && pins s b) ||
  ((tenant.pinnedLines e.id).any fun s =>
    s.sourceGeneration != generation tenant.lineCorrections s.rootId) ||
  (tenant.evaluatedReceiptLines e.id).any fun l => l.poLineId.isSome &&
    !(tenant.pinnedExpectations e.id).any fun s => some s.rootId == l.poLineId

/-- `Exception consequence links missing`. -/
def linksMissing (receipt : Uuid) (e : Evaluation) : Bool :=
  tenant.exceptions.any fun o => o.receiptId == receipt &&
    !(tenant.linksOf e.id).any (·.exceptionId == o.id)

/-- `Exception support disagrees with evaluated facts`. -/
def supportDisagrees (receipt : Uuid) (e : Evaluation) : Bool :=
  (tenant.linksOf e.id).any fun x =>
    (tenant.exceptions.find? (·.id = x.exceptionId)).any fun o => o.receiptId != receipt ||
      (x.supported != tenant.disagreesAt e o.key &&
        !(!x.supported && tenant.unsupportedBefore (fun _ => true) e x.exceptionId))

/-- `Correction workflow consequences incomplete`. -/
def consequencesIncomplete (e : Evaluation) : Bool :=
  (tenant.linksOf e.id).any fun x =>
    (leftJoin (tenant.resolutionsOf x)).any (tenant.malformedConsequence (fun _ => true) e x)

/-- The evaluation that a pair of a receipt caused. -/
def evaluationOf? (receipt pair : Uuid) : Option Evaluation :=
  tenant.evaluations.find? fun v => tenant.lineCorrections.any fun c => c.id = v.correctionId ∧
    c.entityId = receipt ∧ c.pairId = pair ∧ c.role = .corrected

end Tenant

/-- `assert_receipt_correction_complete`. -/
def assertReceiptCorrectionComplete (receipt pair : Uuid) (tenant : Tenant) : Sql Unit := do
  let e ← demand (tenant.evaluationOf? receipt pair) .checkViolation
    "Receipt correction evaluation missing"
  require (!tenant.hasEvaluationAnomaly receipt ∧
      !tenant.exceptions.any fun o => o.receiptId = receipt ∧
        o.id ∈ tenant.exceptionWorkflowAnomalies)
    .checkViolation "Correction history or consequence malformed"
  require (!tenant.sourcesIncomplete receipt e) .checkViolation
    "Evaluation source population incomplete"
  require (!tenant.linksMissing receipt e) .checkViolation "Exception consequence links missing"
  require (!tenant.supportDisagrees receipt e) .checkViolation
    "Exception support disagrees with evaluated facts"
  require (!tenant.malformedCoverage e) .checkViolation
    "Disagreement needs exactly one supported observation"
  require (!tenant.consequencesIncomplete e) .checkViolation
    "Correction workflow consequences incomplete"

/-! ## Inserts -/

/-- `guard_receipt_evaluation`, for the four tables. -/
def evaluationGate (ctx : Context) (tenant : Tenant) : Sql Uuid := do
  require (ctx.session.organization = some tenant.tables.orgId ∧ ctx.session.actorHint = none)
    .insufficientPrivilege "Trusted credential context required"
  currentAuthenticatedActor ctx.session

/-- The branch for `receipt_correction_evaluations`: the cause is this transaction's. -/
def guardEvaluation (ctx : Context) (tenant : Tenant) (row : Evaluation) : Sql Evaluation := do
  let actor ← evaluationGate ctx tenant
  let cause ← demand (tenant.lineCorrections.find? fun c => c.id = row.correctionId ∧
      c.role = .corrected) .checkViolation "Invalid evaluation cause"
  require (cause.entityId = row.receiptId ∧ cause.rootId = row.receiptLineId ∧
      cause.actorId = actor ∧ cause.generation = row.correctionGeneration ∧
      cause.recordingTransactionId = ctx.transactionId) .checkViolation "Invalid evaluation cause"
  let _ ← lockReceivingContext ctx tenant tenant.tables.orgId row.receiptId
  let last := ((tenant.evaluations.filter (·.receiptId = row.receiptId)).map
    Evaluation.evaluationSeq).max?.getD 0
  let next ← addInteger last 1
  require (row.evaluationSeq = next) .serializationFailure "Evaluation sequence stale"
  pure { row with
    actorId := actor
    recordedAt := ctx.session.now
    occurredAt := cause.correctionOccurredAt
    recordingTransactionId := ctx.transactionId }

/-- The branch for the consequences, which share the evaluation's transaction. -/
def guardConsequence (ctx : Context) (tenant : Tenant) (evaluation : Uuid) : Sql Evaluation := do
  let actor ← evaluationGate ctx tenant
  let e ← demand (tenant.evaluations.find? (·.id = evaluation)) .checkViolation
    "Evaluation consequences must share transaction"
  require (e.recordingTransactionId = ctx.transactionId ∧ e.actorId = actor) .checkViolation
    "Evaluation consequences must share transaction"
  pure e

/-- `INSERT INTO receipt_correction_evaluations`. -/
def insertEvaluation (ctx : Context) (row : Evaluation) (tenant : Tenant) :
    Sql (Evaluation × Tenant) := do
  let row ← guardEvaluation ctx tenant row
  require (0 < row.evaluationSeq ∧ row.occurredAt.isFinite) .checkViolation
    "receipt_correction_evaluations check"
  require (!(ctx.foreignKeys .receiptCorrectionEvaluations).contains row.id ∧
      tenant.evaluations.all fun other => other.id ≠ row.id ∧
        other.correctionId ≠ row.correctionId ∧
        ¬(other.receiptId = row.receiptId ∧ other.evaluationSeq = row.evaluationSeq))
    .uniqueViolation "receipt_correction_evaluations key"
  require (ctx.refs.actors.contains row.actorId) .foreignKeyViolation
    "receipt_correction_evaluations reference"
  enforceAuthenticatedCreator ctx.session row.actorId
  pure (row, { tenant with evaluations := tenant.evaluations ++ [row] })

/-- The guard, key and reference of a pinned source; `pinned` are the rows of its table. -/
def pinSource {φ : Type} (ctx : Context) (table : TableName)
    (corrections : List (RecordCorrection φ)) (rootExists : Bool)
    (pinned : List EvaluationSource) (row : EvaluationSource) (tenant : Tenant) :
    Sql EvaluationSource := do
  let e ← guardConsequence ctx tenant row.evaluationId
  let row := { row with actorId := e.actorId, recordedAt := ctx.session.now
                        occurredAt := e.occurredAt }
  require (row.occurredAt.isFinite) .checkViolation "evaluation source check"
  require (!(ctx.foreignKeys table).contains row.id ∧ pinned.all fun other =>
      other.id ≠ row.id ∧ ¬(other.evaluationId = row.evaluationId ∧ other.rootId = row.rootId))
    .uniqueViolation "evaluation source key"
  require (rootExists ∧ sourceExists corrections row.rootId row.sourceGeneration row.sourceId ∧
      ctx.refs.actors.contains row.actorId) .foreignKeyViolation "evaluation source reference"
  enforceAuthenticatedCreator ctx.session row.actorId
  pure row

/-- `INSERT INTO receipt_evaluation_lines`. -/
def insertEvaluationLine (ctx : Context) (row : EvaluationSource) (tenant : Tenant) :
    Sql Tenant := do
  let row ← pinSource ctx .receiptEvaluationLines tenant.lineCorrections
    (tenant.lines.any (·.id = row.rootId)) tenant.evaluationLines row tenant
  pure { tenant with evaluationLines := tenant.evaluationLines ++ [row] }

/-- `INSERT INTO receipt_evaluation_expectations`. -/
def insertEvaluationExpectation (ctx : Context) (row : EvaluationSource) (tenant : Tenant) :
    Sql Tenant := do
  let row ← pinSource ctx .receiptEvaluationExpectations tenant.purchaseOrderLineCorrections
    (tenant.purchaseOrderLines.any (·.id = row.rootId)) tenant.evaluationExpectations row tenant
  pure { tenant with evaluationExpectations := tenant.evaluationExpectations ++ [row] }

/-- `INSERT INTO receipt_evaluation_exceptions`. -/
def insertEvaluationException (ctx : Context) (row : EvaluationException) (tenant : Tenant) :
    Sql Tenant := do
  let e ← guardConsequence ctx tenant row.evaluationId
  let row := { row with actorId := e.actorId, recordedAt := ctx.session.now
                        occurredAt := e.occurredAt }
  require (row.occurredAt.isFinite) .checkViolation "receipt_evaluation_exceptions check"
  require (!(ctx.foreignKeys .receiptEvaluationExceptions).contains row.id ∧
      tenant.evaluationExceptions.all fun other => other.id ≠ row.id ∧
        ¬(other.evaluationId = row.evaluationId ∧ other.exceptionId = row.exceptionId))
    .uniqueViolation "receipt_evaluation_exceptions key"
  require (tenant.exceptions.any (·.id = row.exceptionId) ∧ ctx.refs.actors.contains row.actorId)
    .foreignKeyViolation "receipt_evaluation_exceptions reference"
  enforceAuthenticatedCreator ctx.session row.actorId
  pure { tenant with evaluationExceptions := tenant.evaluationExceptions ++ [row] }

end FleetOps
