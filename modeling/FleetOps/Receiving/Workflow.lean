import FleetOps.Receiving.Exceptions

/-!
# Exception workflows

An exception's status is derived from its events.  The workflow's row projects
the newest one, and `transition_exception` appends the next only while the
projection and the history agree.
-/

namespace FleetOps

namespace ExceptionStatus

/-- The statuses that end a workflow. -/
def terminal : ExceptionStatus → Bool
  | .resolved | .waived => true
  | .open | .acknowledged => false

/-- The transitions that `ck_exception_events_transition` admits. -/
def admits : ExceptionStatus → ExceptionStatus → Bool
  | .open, .acknowledged | .open, .resolved | .open, .waived => true
  | .acknowledged, .resolved | .acknowledged, .waived => true
  | _, _ => false

end ExceptionStatus

/-- The event if it ended the workflow: what the resolution columns are taken from. -/
def ExceptionEvent.resolution (event : ExceptionEvent) : Option ExceptionEvent :=
  if event.toStatus.terminal then some event else none

namespace Tenant

/-- The events of an exception. -/
def eventsOf (tenant : Tenant) (exception : Uuid) : List ExceptionEvent :=
  tenant.events.filter (·.exceptionId = exception)

/-- `… ORDER BY event_seq DESC LIMIT 1`. -/
def latestEvent (tenant : Tenant) (exception : Uuid) : Option ExceptionEvent :=
  Query.latestBy ExceptionEvent.eventSeq (tenant.eventsOf exception)

def workflow? (tenant : Tenant) (exception : Uuid) : Option ExceptionWorkflow :=
  tenant.workflows.find? (·.exceptionId = exception)

/-- An exception's workflow does not project its events. -/
def malformedWorkflow (tenant : Tenant) (o : ReceivingException) : Bool :=
  match tenant.workflow? o.id with
  | none => true
  | some w =>
      let e := tenant.latestEvent o.id
      let resolution := e.bind ExceptionEvent.resolution
      w.exceptionType != o.key.exceptionType || w.entityType != o.opened.entityType ||
        w.entityId != o.opened.entityId || w.status != (e.map (·.toStatus)).getD .open ||
        w.eventSeq != (e.map (·.eventSeq)).getD 0 || w.eventSeq != (tenant.eventsOf o.id).length ||
        w.resolvedByActorId != resolution.map (·.actorId) ||
        w.resolvedAt != resolution.map (·.occurredAt) ||
        w.resolutionNote != resolution.bind (·.note)

/-- An event does not follow its predecessor. -/
def malformedEvent (tenant : Tenant) (e : ExceptionEvent) : Bool :=
  let p := tenant.events.find? fun p => p.exceptionId = e.exceptionId ∧ p.eventSeq + 1 = e.eventSeq
  e.fromStatus != (p.map (·.toStatus)).getD .open || (decide (1 < e.eventSeq) && p.isNone) ||
    !e.fromStatus.admits e.toStatus

/-- The view `exception_workflow_anomalies`. -/
def exceptionWorkflowAnomalies (tenant : Tenant) : List Uuid :=
  (tenant.exceptions.filter tenant.malformedWorkflow).map (·.id) ++
    (tenant.events.filter tenant.malformedEvent).map (·.exceptionId)

end Tenant

/-! ## Transitions -/

/-- The notes that `ck_exception_events_transition` admits: an explanation where one is needed, and
normalized where there is one. -/
def eventNote (posixSpace : Char → Bool) (toStatus : ExceptionStatus) (note : Option String) :
    Bool :=
  (toStatus == .acknowledged || note.isSome) && note.all fun text =>
    decide (1 ≤ text.length ∧ text.length ≤ 4000) && text == normalizeCorrectionReason text &&
      hasNonSpace posixSpace text

/-- `INSERT INTO exception_events`. -/
def insertEvent (ctx : Context) (event : ExceptionEvent) (tenant : Tenant) : Sql Tenant := do
  require (0 < event.eventSeq ∧ event.fromStatus.admits event.toStatus ∧
      eventNote ctx.posixSpace event.toStatus event.note ∧ event.occurredAt.isFinite)
    .checkViolation "exception_events check"
  require (!(ctx.foreignKeys .exceptionEvents).contains event.id ∧
      tenant.events.all fun other => other.id ≠ event.id ∧
        ¬(other.exceptionId = event.exceptionId ∧ other.eventSeq = event.eventSeq))
    .uniqueViolation "exception_events key"
  require (tenant.exceptions.any (·.id = event.exceptionId) ∧
      event.evaluationId.all (fun evaluation => tenant.evaluations.any (·.id = evaluation)) ∧
      ctx.refs.actors.contains event.actorId)
    .foreignKeyViolation "exception_events reference"
  enforceAuthenticatedCreator ctx.session event.actorId
  pure { tenant with events := tenant.events ++ [event] }

/-- The workflow after an event. -/
def ExceptionWorkflow.after (workflow : ExceptionWorkflow) (event : ExceptionEvent) :
    ExceptionWorkflow :=
  { workflow with
    status := event.toStatus
    eventSeq := event.eventSeq
    resolvedByActorId := event.resolution.map (·.actorId)
    resolvedAt := event.resolution.map (·.occurredAt)
    resolutionNote := event.resolution.bind (·.note) }

/-- `UPDATE exception_workflows … WHERE exception_id = …`. -/
def Tenant.advance (tenant : Tenant) (event : ExceptionEvent) : Tenant :=
  { tenant with
    workflows := tenant.workflows.map fun w =>
      if w.exceptionId = event.exceptionId then w.after event else w }

/-- The arguments of `transition_exception`. -/
structure ExceptionTransition where
  exceptionId : Uuid
  expectedStatus : ExceptionStatus
  toStatus : ExceptionStatus
  note : Option String
  occurredAt : Timestamp
  eventId : Uuid
  evaluationId : Option Uuid
  deriving DecidableEq, Repr

/-- A correction resolves only what its own evaluation left unsupported. -/
def derivedTransition (ctx : Context) (args : ExceptionTransition) (performer : Uuid)
    (workflow : ExceptionWorkflow) (tenant : Tenant) (evaluation : Uuid) : Bool :=
  (tenant.evaluations.find? (·.id = evaluation)).any fun e =>
    e.actorId == performer && e.occurredAt == args.occurredAt &&
      e.recordingTransactionId == ctx.transactionId && args.toStatus == .resolved &&
      tenant.evaluationExceptions.any fun x => x.evaluationId == evaluation &&
        x.exceptionId == args.exceptionId && !x.supported && x.priorEventSeq == workflow.eventSeq

/-- `transition_exception` of the database. -/
def transitionExceptionSql (ctx : Context) (args : ExceptionTransition) (tenant : Tenant) :
    Sql (ExceptionEvent × Tenant) := do
  let org ← trustedOrganization ctx.session "Trusted credential context required"
  require (ctx.session.actorHint = none) .insufficientPrivilege
    "Trusted credential context required"
  let performer ← currentAuthenticatedActor ctx.session
  let workflow ← demand (if org = tenant.tables.orgId then tenant.workflow? args.exceptionId
    else none) .noDataFound "Exception not found"
  require (args.exceptionId ∉ tenant.exceptionWorkflowAnomalies) .raiseException
    "Workflow projection disagrees with history"
  let latest := tenant.latestEvent args.exceptionId
  let status := (latest.map (·.toStatus)).getD .open
  require (args.expectedStatus = status) .serializationFailure "Exception status stale"
  require (args.evaluationId.all (derivedTransition ctx args performer workflow tenant))
    .checkViolation "Invalid correction-derived transition"
  let event : ExceptionEvent :=
    { id := args.eventId, exceptionId := args.exceptionId
      eventSeq := (latest.map (·.eventSeq)).getD 0 + 1, fromStatus := status
      toStatus := args.toStatus, note := args.note.map normalizeCorrectionReason
      evaluationId := args.evaluationId, actorId := performer, occurredAt := args.occurredAt
      recordedAt := ctx.session.now }
  let tenant ← insertEvent ctx event tenant
  pure (event, tenant.advance event)

end FleetOps
