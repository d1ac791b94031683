import FleetOps.Capture.Facts
import FleetOps.Receiving.Logs

/-!
# Sync conflicts

A stale operation on an Asset leaves a conflict.  A conflict has no workflow
row: its status is read from its events each time (`getConflict`), and the
trigger on those events repeats the comparison that the service makes.
-/

namespace FleetOps

/-! ## Tables -/

/-- A row of `sync_conflicts`. -/
structure SyncConflict where
  id : Uuid
  operationId : Uuid
  assetId : Uuid
  expectedVersion : ℕ
  currentVersion : ℕ
  expectedFacts : AssetFacts
  currentFacts : AssetFacts
  actorId : Uuid
  occurredAt : Timestamp
  recordedAt : Timestamp
  deriving DecidableEq, Repr

/-- The conflicts of one tenant with their events, which have the columns of an exception's events
except `evaluation_id`. -/
structure ConflictTables where
  conflicts : List SyncConflict := []
  events : List ExceptionEvent := []

namespace ConflictTables

/-- The events of a conflict. -/
def eventsOf (tables : ConflictTables) (conflict : Uuid) : List ExceptionEvent :=
  tables.events.filter (·.exceptionId = conflict)

/-- `… ORDER BY event_seq DESC LIMIT 1`. -/
def latestEvent (tables : ConflictTables) (conflict : Uuid) : Option ExceptionEvent :=
  Query.latestBy ExceptionEvent.eventSeq (tables.eventsOf conflict)

def conflict? (tables : ConflictTables) (conflict : Uuid) : Option SyncConflict :=
  tables.conflicts.find? (·.id = conflict)

end ConflictTables

/-! ## Statements -/

/-- The columns of an `INSERT INTO sync_conflicts`. -/
structure SyncConflictValues where
  id : Uuid
  operationId : Uuid
  assetId : Uuid
  expectedVersion : ℕ
  currentVersion : ℕ
  expectedFacts : AssetFacts
  currentFacts : AssetFacts
  occurredAt : Timestamp

/-- `guard_sync_conflict` -/
def guardSyncConflict (ctx : Context) (assets : AssetTables) (values : SyncConflictValues) :
    Sql SyncConflict := do
  let actor ← currentAuthenticatedActor ctx.session
  let actual := (assets.assets.find? (·.id = values.assetId)).map AssetRow.version
  require (actual = some values.currentVersion ∧ actual ≠ some values.expectedVersion)
    .checkViolation "Sync conflict requires current mismatch"
  require (some values.expectedFacts =
        captureAssetFacts ctx.session assets values.assetId values.expectedVersion ∧
      some values.currentFacts =
        captureAssetFacts ctx.session assets values.assetId values.currentVersion)
    .checkViolation "Sync facts must match immutable history"
  pure
    { id := values.id, operationId := values.operationId, assetId := values.assetId
      expectedVersion := values.expectedVersion, currentVersion := values.currentVersion
      expectedFacts := values.expectedFacts, currentFacts := values.currentFacts
      actorId := actor, occurredAt := values.occurredAt, recordedAt := ctx.session.now }

/-- `INSERT INTO sync_conflicts`; that it belongs to a rejected operation is deferred. -/
def insertSyncConflict (ctx : Context) (assets : AssetTables) (values : SyncConflictValues)
    (tables : ConflictTables) : Sql ConflictTables := do
  let row ← guardSyncConflict ctx assets values
  require (0 < row.expectedVersion ∧ 0 < row.currentVersion ∧
      row.expectedVersion ≠ row.currentVersion ∧ row.occurredAt.isFinite)
    .checkViolation "sync_conflicts check"
  require (!(ctx.foreignKeys .syncConflicts).contains row.id ∧
      !(ctx.foreignKeys .syncConflictOperations).contains row.operationId ∧
      tables.conflicts.all fun other => other.id ≠ row.id ∧ other.operationId ≠ row.operationId)
    .uniqueViolation "sync_conflicts key"
  require (assets.assets.any (·.id = row.assetId) ∧ ctx.refs.actors.contains row.actorId)
    .foreignKeyViolation "sync_conflicts reference"
  pure { tables with conflicts := tables.conflicts ++ [row] }

/-- The columns of an `INSERT INTO sync_conflict_events`. -/
structure SyncConflictEventValues where
  id : Uuid
  exceptionId : Uuid
  eventSeq : ℕ
  fromStatus : ExceptionStatus
  toStatus : ExceptionStatus
  note : Option String
  occurredAt : Timestamp

/-- `guard_sync_conflict_event` -/
def guardSyncConflictEvent (ctx : Context) (tables : ConflictTables)
    (values : SyncConflictEventValues) : Sql ExceptionEvent := do
  let actor ← currentAuthenticatedActor ctx.session
  let target ← demand (tables.conflict? values.exceptionId) .noDataFound "Exception not found"
  let prior := tables.latestEvent target.id
  require (values.fromStatus = (prior.map ExceptionEvent.toStatus).getD .open ∧
      values.eventSeq = (prior.map ExceptionEvent.eventSeq).getD 0 + 1)
    .serializationFailure "Exception status changed"
  pure
    { id := values.id, exceptionId := values.exceptionId, eventSeq := values.eventSeq
      fromStatus := values.fromStatus, toStatus := values.toStatus
      note := values.note.map normalizeCorrectionReason, evaluationId := none, actorId := actor
      occurredAt := values.occurredAt, recordedAt := ctx.session.now }

/-- `INSERT INTO sync_conflict_events`. -/
def insertSyncConflictEvent (ctx : Context) (values : SyncConflictEventValues)
    (tables : ConflictTables) : Sql (ExceptionEvent × ConflictTables) := do
  let event ← guardSyncConflictEvent ctx tables values
  require (0 < event.eventSeq ∧ event.fromStatus.admits event.toStatus ∧
      eventNote ctx.posixSpace event.toStatus event.note ∧ event.occurredAt.isFinite)
    .checkViolation "sync_conflict_events check"
  require (!(ctx.foreignKeys .syncConflictEvents).contains event.id ∧
      tables.events.all fun other => other.id ≠ event.id ∧
        ¬(other.exceptionId = event.exceptionId ∧ other.eventSeq = event.eventSeq))
    .uniqueViolation "sync_conflict_events key"
  require (ctx.refs.actors.contains event.actorId)
    .foreignKeyViolation "sync_conflict_events reference"
  pure (event, { tables with events := tables.events ++ [event] })

/-! ## The service -/

/-- What an exception's workflow reports. -/
structure WorkflowView where
  status : ExceptionStatus
  eventSeq : ℕ
  resolvedByActorId : Option Uuid
  resolvedAt : Option Timestamp
  resolutionNote : Option String
  deriving DecidableEq, Repr

/-- What `get_conflict` returns. -/
structure ConflictView extends WorkflowView where
  row : SyncConflict
  events : List ExceptionEvent

namespace Service

/-- `get_conflict`, of the rows that the tenant's session sees. -/
def getConflict (tables : ConflictTables) (conflict : Uuid) : Service ConflictView := do
  let row ← fetch (tables.conflict? conflict) .assetNotFound "Exception not found"
  let events := (tables.eventsOf conflict).mergeSort fun a b => a.eventSeq ≤ b.eventSeq
  let latest := events.getLast?
  let terminal := latest.bind ExceptionEvent.resolution
  pure
    { row, events
      status := (latest.map ExceptionEvent.toStatus).getD .open
      eventSeq := (latest.map ExceptionEvent.eventSeq).getD 0
      resolvedByActorId := terminal.map ExceptionEvent.actorId
      resolvedAt := terminal.map ExceptionEvent.occurredAt
      resolutionNote := terminal.bind ExceptionEvent.note }

/-- `conflicts.transition` -/
def transition (ctx : Context) (conflict : Uuid) (values : WorkflowValues) (eventId : Uuid)
    (tables : ConflictTables) : Service (ExceptionEvent × ConflictTables) := do
  let current ← getConflict tables conflict
  assetConstraints <| execute <| insertSyncConflictEvent ctx
    { id := eventId, exceptionId := conflict, eventSeq := current.eventSeq + 1
      fromStatus := values.expectedStatus, toStatus := values.toStatus, note := values.note
      occurredAt := values.occurredAt } tables

end Service

/-! ## Exceptions of both kinds -/

/-- One tenant's records with its conflicts. -/
structure Database where
  tenant : Tenant
  conflicts : ConflictTables := {}

/-- `transition_exception` of the service: a conflict's own transition, or receiving's. -/
def Service.transitionAnyException (ctx : Context) (exception : Uuid) (values : WorkflowValues)
    (eventId : Uuid) (db : Database) : Service Database := do
  ensure (values.toStatus ∈ workflowTargets values.expectedStatus) .assetInvalid
    "Illegal Exception workflow transition"
  if ctx.session.organization = some db.tenant.tables.orgId ∧
      (db.conflicts.conflict? exception).isSome then do
    let (_, conflicts) ← transition ctx exception values eventId db.conflicts
    pure { db with conflicts }
  else do
    let (_, tenant) ← transitionException ctx exception values eventId db.tenant
    pure { db with tenant }

/-- A request that makes exceptions, or works on them. -/
inductive ExceptionCall
  | receive (call : ReceivingCall)
  | observeConflict (values : SyncConflictValues)
  | transition (exception : Uuid) (values : Service.WorkflowValues) (eventId : Uuid)

/-- One request as one transaction. -/
def Database.step (posixSpace : Char → Bool) (request : Context × ExceptionCall) (db : Database) :
    Service Database :=
  let ctx := { request.1 with posixSpace }
  match request.2 with
  | .receive call => do
      let tenant ← Tenant.step posixSpace (request.1, call) db.tenant
      pure { db with tenant }
  | .observeConflict values => do
      let conflicts ← Service.execute (insertSyncConflict ctx db.tenant.tables values db.conflicts)
      pure { db with conflicts }
  | .transition exception values eventId =>
      Service.transitionAnyException ctx exception values eventId db

end FleetOps
