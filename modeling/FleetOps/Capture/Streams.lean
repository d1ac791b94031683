import FleetOps.Capture.Conflicts
import FleetOps.Capture.Payload
import FleetOps.Foundations.Dictionary
import Mathlib.Data.List.Sort
import Mathlib.Data.Prod.Lex

/-!
# Capture streams

A batch of queued operations is processed one transaction each: first the
operation's identity, then its stream's counter, then its verb inside a
savepoint, and last the record of how it ended.  `process` is that transaction's
body and `batch` the loop around it.

The streams and records of all tenants are in one state, since an operation's id
is a primary key for all of them.  What the seven verbs do to a tenant's other
records is a parameter (`Verbs`); the comparison of an Asset's version, which
`process` makes itself, is not.
-/

namespace FleetOps

open Json

/-! ## Requests -/

inductive CaptureOperationKind
  | receiveScan | move | assign | unassign | transition | attachEvidence | resolve
  deriving DecidableEq, Repr

/-- `VERSIONED` -/
def CaptureOperationKind.versioned : CaptureOperationKind → Bool
  | .move | .assign | .unassign | .transition => true
  | .receiveScan | .attachEvidence | .resolve => false

/-- `CaptureOperation`, as the request boundary validates it. -/
structure CaptureOperation where
  operationId : Uuid
  actorId : Uuid
  clientId : Uuid
  clientEpoch : Uuid
  clientSeq : ℕ
  entityType : String
  entityId : Uuid
  expectedVersion : Option ℕ
  operation : CaptureOperationKind
  payload : Payload
  occurredAt : Timestamp
  sequence : 0 < clientSeq ∧ clientSeq ≤ 9223372036854775807
  version : ∀ v ∈ expectedVersion, 0 < v ∧ v ≤ intMax
  entity : 1 ≤ entityType.length ∧ entityType.length ≤ 64
  boundedPayload : payload.bounded = true
  aware : occurredAt.isFinite = true

/-- `AuthenticatedIdentity`, of which the processing uses the tenant and the Actor. -/
structure AuthenticatedIdentity where
  organizationId : Uuid
  actorId : Uuid
  deriving DecidableEq, Repr

/-- The primary key of `capture_streams`. -/
structure StreamKey where
  orgId : Uuid
  clientId : Uuid
  clientEpoch : Uuid
  deriving DecidableEq, Repr

/-! ## Failures -/

/-- What may be raised while an operation is processed. -/
inductive CaptureError
  | credentialExpired
  /-- `ValidationError` -/
  | validation
  | failure (raised : Failure)
  /-- Any other exception. -/
  | other
  deriving DecidableEq

/-- The codes of rejected operations. -/
inductive RejectionCode
  | notFound | invalidOperation
  deriving DecidableEq, Repr

def RejectionCode.text : RejectionCode → String
  | .notFound => "NOT_FOUND"
  | .invalidOperation => "INVALID_OPERATION"

/-- The exceptions in `FAILURES`, with their code. -/
def FailureKind.rejection : FailureKind → Option RejectionCode
  | .assetNotFound | .receivingNotFound | .evidenceNotFound => some .notFound
  | .assetConflict | .assetInvalid | .lifecycleInvalid | .receivingConflict | .receivingInvalid
  | .evidenceConflict | .evidenceInvalid => some .invalidOperation
  | .evidenceStorageError | .procurementNotFound | .procurementConflict | .procurementInvalid
  | .spaceNotFound | .spaceConflict | .spaceInvalid | .spaceHierarchyInvalid
  | .labelNotFound | .labelConflict | .keyError | .noResultFound | .database _ => none

/-- `except (ValidationError, *FAILURES)`. -/
def CaptureError.rejection : CaptureError → Option RejectionCode
  | .validation => some .invalidOperation
  | .failure raised => raised.kind.rejection
  | .credentialExpired | .other => none

/-- `except (DBAPIError, AssetInvalid)`. -/
def CaptureError.unavailable : CaptureError → Bool
  | .failure raised =>
      match raised.kind with
      | .database _ | .assetInvalid => true
      | _ => false
  | .credentialExpired | .validation | .other => false

abbrev Capture := Except CaptureError

namespace Capture

/-- A service's exception passes through. -/
def run {α : Type} (body : Service α) : Capture α := body.mapError CaptureError.failure

/-- A statement's error is a `DBAPIError`. -/
def execute {α : Type} (statement : Sql α) : Capture α := run (Service.execute statement)

def invalid {α : Type} (message : String) : Capture α := run (Service.fail .assetInvalid message)

@[simp] theorem run_eq_ok {α : Type} {body : Service α} {value : α} :
    run body = .ok value ↔ body = .ok value := by
  cases body <;> simp [run, Except.mapError]

@[simp] theorem execute_eq_ok {α : Type} {statement : Sql α} {value : α} :
    execute statement = .ok value ↔ statement = .ok value := by
  simp [execute]

@[simp] theorem invalid_ne_ok {α : Type} {message : String} {value : α} :
    (invalid message : Capture α) ≠ .ok value := by
  simp [invalid]

end Capture

/-! ## Results -/

/-- The text of a state. -/
def AssetState.text : AssetState → String
  | .received => "RECEIVED"
  | .inStock => "IN_STOCK"
  | .configuring => "CONFIGURING"
  | .ready => "READY"
  | .deployed => "DEPLOYED"
  | .onHold => "ON_HOLD"
  | .outOfService => "OUT_OF_SERVICE"
  | .retired => "RETIRED"

def uuidJson (id : Uuid) : Json PyNumber := .string (uuidText id)

def optionJson {α : Type} (encode : α → Json PyNumber) : Option α → Json PyNumber
  | some value => encode value
  | none => .null

/-- The facts as JSON. -/
def AssetFacts.json : AssetFacts → Json PyNumber
  | .unknown version => .object [("version", .number (.int version)), ("known_version", .bool false)]
  | .known version state locationId custodianPartyId ownerPartyId assigneeId =>
      .object
        [("version", .number (.int version)), ("known_version", .bool true),
          ("state", optionJson (fun s => .string s.text) state),
          ("location_id", optionJson uuidJson locationId),
          ("custodian_party_id", optionJson uuidJson custodianPartyId),
          ("owner_party_id", optionJson uuidJson ownerPartyId),
          ("assignee_id", optionJson uuidJson assigneeId)]

@[simp] theorem distinctKeys_optionJson {α : Type} {encode : α → Json PyNumber}
    (h : ∀ value, (encode value).distinctKeys = true) (value : Option α) :
    (optionJson encode value).distinctKeys = true := by
  cases value with
  | none => rfl
  | some value => exact h value

theorem AssetFacts.distinctKeys_json (facts : AssetFacts) : facts.json.distinctKeys = true := by
  cases facts with
  | unknown version => rfl
  | known version state locationId custodianPartyId ownerPartyId assigneeId =>
      have hstate : (optionJson (fun s : AssetState => .string s.text) state).distinctKeys = true :=
        distinctKeys_optionJson (fun _ => rfl) state
      have hid : ∀ id : Option Uuid, (optionJson uuidJson id).distinctKeys = true :=
        distinctKeys_optionJson fun _ => rfl
      simp only [json, distinctKeys, distinctKeysOfMembers, hstate, hid, List.map_cons, List.map_nil]
      decide

/-- What an operation's record keeps as its result. -/
inductive CaptureResult
  | rejection (code : RejectionCode)
  | conflict (exceptionId : Uuid) (expected current : AssetFacts)
  /-- What the operation's verb returns. -/
  | applied (value : Payload)

/-- `jsonable_encoder(result)` -/
def CaptureResult.json : CaptureResult → Payload
  | .rejection code => ⟨[("code", .string code.text)], rfl⟩
  | .conflict exceptionId expected current =>
      ⟨[("code", .string "SYNC_CONFLICT"), ("exception_id", uuidJson exceptionId),
        ("expected", expected.json), ("current", current.json)], by
        simp only [distinctKeys, distinctKeysOfMembers, uuidJson, expected.distinctKeys_json,
          current.distinctKeys_json, List.map_cons, List.map_nil]
        decide⟩
  | .applied value => value

/-! ## Tables -/

/-- A row of `capture_streams`. -/
structure CaptureStream where
  key : StreamKey
  lastSeq : ℕ
  actorId : Uuid
  deriving DecidableEq, Repr

inductive SyncState
  | applied | rejected
  deriving DecidableEq, Repr

inductive SequenceFlag
  | reused | gap
  deriving DecidableEq, Repr

/-- A row of `capture_operations`; its columns `org_id`, `client_id` and `client_epoch` are the
key of its stream. -/
structure CaptureRecord where
  operationId : Uuid
  stream : StreamKey
  actorId : Uuid
  claimedActorId : Uuid
  clientSeq : ℕ
  entityType : String
  entityId : Uuid
  expectedVersion : Option ℕ
  operation : CaptureOperationKind
  payload : Payload
  occurredAt : Timestamp
  recordedAt : Timestamp
  syncState : SyncState
  result : CaptureResult
  sequenceFlags : List SequenceFlag

/-- The result is that of a conflict. -/
def CaptureResult.observes (result : CaptureResult) (conflict : SyncConflict) : Bool :=
  match result with
  | .conflict id expected current =>
      decide (id = conflict.id ∧ expected = conflict.expectedFacts ∧ current = conflict.currentFacts)
  | .rejection _ | .applied _ => false

/-- The capture tables with the other records of each tenant. -/
structure CaptureState where
  streams : List CaptureStream := []
  operations : List CaptureRecord := []
  db : Uuid → Database

namespace CaptureOperation

/-- The stream that an operation belongs to in a tenant. -/
def stream (op : CaptureOperation) (orgId : Uuid) : StreamKey := ⟨orgId, op.clientId, op.clientEpoch⟩

end CaptureOperation

namespace CaptureState

/-- An operation's record, of those that the tenant's session sees. -/
def operation? (s : CaptureState) (orgId operationId : Uuid) : Option CaptureRecord :=
  s.operations.find? fun row => row.stream.orgId = orgId ∧ row.operationId = operationId

/-- The records of one tenant changed. -/
def putDb (s : CaptureState) (orgId : Uuid) (db : Database) : CaptureState :=
  { s with db := fun org => if org = orgId then db else s.db org }

end CaptureState

/-! ## Statements -/

/-- `INSERT INTO capture_streams … ON CONFLICT DO NOTHING`; the trigger stamps the Actor. -/
def insertStream (ctx : Context) (key : StreamKey) (streams : List CaptureStream) :
    Sql (List CaptureStream) := do
  let performer ← currentAuthenticatedActor ctx.session
  if streams.any (·.key = key) then pure streams
  else do
    require (ctx.refs.actors.contains performer) .foreignKeyViolation "fk_capture_streams_actor"
    pure (streams ++ [⟨key, 0, performer⟩])

/-- The `UPDATE` branch of `guard_capture_stream`. -/
def guardCaptureStream (ctx : Context) (old new : CaptureStream) : Sql Unit := do
  let performer ← currentAuthenticatedActor ctx.session
  require (new.key = old.key ∧ new.actorId = old.actorId ∧ performer = old.actorId ∧
      old.lastSeq ≤ new.lastSeq)
    .checkViolation "Invalid capture stream change"

/-- `UPDATE capture_streams SET last_seq = …`. -/
def updateStream (ctx : Context) (row : CaptureStream) (lastSeq : ℕ)
    (streams : List CaptureStream) : Sql (List CaptureStream) := do
  guardCaptureStream ctx row { row with lastSeq }
  pure (streams.map fun other => if other.key = row.key then { other with lastSeq } else other)

/-- `guard_capture_record`, which stamps the Actor and the time. -/
def guardCaptureRecord (ctx : Context) (row : CaptureRecord) : Sql CaptureRecord := do
  let performer ← currentAuthenticatedActor ctx.session
  require (row.syncState = .applied → row.claimedActorId = performer)
    .checkViolation "Applied capture requires matching Actor"
  pure { row with actorId := performer, recordedAt := ctx.session.now }

/-- `INSERT INTO capture_operations`. -/
def insertOperation (ctx : Context) (row : CaptureRecord) (s : CaptureState) :
    Sql (CaptureRecord × CaptureState) := do
  let row ← guardCaptureRecord ctx row
  require (0 < row.clientSeq ∧ ∀ v ∈ row.expectedVersion, 0 < v)
    .checkViolation "ck_capture_operations_version_sequence"
  require (row.payload.recordable ∧ row.result.json.jsonbText.any fun text => size text ≤ 262144)
    .checkViolation "ck_capture_operations_json"
  require (row.occurredAt.isFinite ∧ row.recordedAt.isFinite)
    .checkViolation "ck_capture_operations_times"
  require (s.operations.all (·.operationId ≠ row.operationId))
    .uniqueViolation "capture_operations_pkey"
  require (s.streams.any (·.key = row.stream) ∧ ctx.refs.actors.contains row.actorId)
    .foreignKeyViolation "capture_operations reference"
  pure (row, { s with operations := s.operations ++ [row] })

/-- `guard_sync_conflict_origin` -/
def guardSyncConflictOrigin (orgId : Uuid) (s : CaptureState) (conflict : SyncConflict) : Sql Unit :=
  match s.operation? orgId conflict.operationId with
  | none => raise .checkViolation "Conflict must match its rejected operation"
  | some captured =>
      require (captured.syncState = .rejected ∧ captured.actorId = conflict.actorId ∧
          captured.claimedActorId = conflict.actorId ∧ captured.entityType = "ASSET" ∧
          captured.entityId = conflict.assetId ∧
          captured.expectedVersion = some conflict.expectedVersion ∧
          captured.operation.versioned ∧ captured.occurredAt = conflict.occurredAt ∧
          captured.result.observes conflict)
        .checkViolation "Conflict must match its rejected operation"

/-! ## The service -/

/-- What the seven verbs do: `_validate`, `_apply`, and what their statements leave to be checked
when the transaction commits. -/
structure Verbs (ν : Type) where
  validate : CaptureOperation → Capture ν
  apply : Context → CaptureOperation → ν → Database → Capture (Payload × Database)
  deferred : Context → Database → Database → Sql Unit

/-- The part of a transaction that its operation does not determine: what the token resolves to,
the database's session, and the identifier that a conflict would get. -/
structure CaptureTurn where
  identity : Option AuthenticatedIdentity
  ctx : Context
  conflictId : Uuid

/-- An entry of a response. -/
structure CaptureResponse where
  operationId : Uuid
  /-- `DUPLICATE` is `none`. -/
  syncState : Option SyncState
  recordedAt : Option Timestamp
  /-- `OPERATION_UNAVAILABLE` is `none`. -/
  result : Option CaptureResult
  sequenceFlags : List SequenceFlag

/-- `_out` -/
def CaptureRecord.out (row : CaptureRecord) (duplicate : Bool) : CaptureResponse where
  operationId := row.operationId
  syncState := if duplicate then none else some row.syncState
  recordedAt := some row.recordedAt
  result := some row.result
  sequenceFlags := row.sequenceFlags

/-- The flags of a number, after a stream's last. -/
def sequenceFlags (clientSeq lastSeq : ℕ) : List SequenceFlag :=
  if clientSeq ≤ lastSeq then [.reused] else if clientSeq ≠ lastSeq + 1 then [.gap] else []

namespace Capture

/-- `_sequence` -/
def sequence (turn : CaptureTurn) (identity : AuthenticatedIdentity) (op : CaptureOperation)
    (streams : List CaptureStream) : Capture (List SequenceFlag × List CaptureStream) := do
  let key := op.stream identity.organizationId
  let streams ← execute (insertStream turn.ctx key streams)
  let row ← match streams.find? (·.key = key) with
    | some row => pure row
    | none => throw .other
  if row.actorId ≠ identity.actorId then
    invalid "Use a new client epoch after changing the performing Actor"
  else do
    let streams ← execute (updateStream turn.ctx row (max op.clientSeq row.lastSeq) streams)
    pure (sequenceFlags op.clientSeq row.lastSeq, streams)

variable {ν : Type} (verbs : Verbs ν)

/-- The savepoint: what an operation does to its tenant's records, with how it ends. -/
def savepoint (turn : CaptureTurn) (identity : AuthenticatedIdentity) (op : CaptureOperation)
    (db : Database) : Capture (SyncState × CaptureResult × Database) := do
  if op.actorId ≠ identity.actorId then
    invalid "Queued Actor does not match the current credential"
  else do
    let values ← verbs.validate op
    let asset ← if op.operation.versioned then
        some <$> run (Service.fetch (db.tenant.tables.asset? identity.organizationId op.entityId)
          .assetNotFound "Asset not found")
      else pure none
    match asset with
    | some asset =>
        if op.expectedVersion ≠ some asset.version then do
          -- The facts are observed and recorded; the verb is not called.
          let version := op.expectedVersion.getD 0
          let expected := Service.facts db.tenant.tables asset version
          let current := Service.facts db.tenant.tables asset asset.version
          let conflicts ← execute <| insertSyncConflict turn.ctx db.tenant.tables
            { id := turn.conflictId, operationId := op.operationId, assetId := asset.id
              expectedVersion := version, currentVersion := asset.version
              expectedFacts := expected, currentFacts := current, occurredAt := op.occurredAt }
            db.conflicts
          pure (.rejected, .conflict turn.conflictId expected current, { db with conflicts })
        else do
          let (result, db) ← verbs.apply turn.ctx op values db
          pure (.applied, .applied result, db)
    | none => do
        let (result, db) ← verbs.apply turn.ctx op values db
        pure (.applied, .applied result, db)

/-- How the savepoint ends: an exception in `FAILURES` undoes it and rejects the operation. -/
def settle (turn : CaptureTurn) (identity : AuthenticatedIdentity) (op : CaptureOperation)
    (db : Database) : Capture (SyncState × CaptureResult × Database) :=
  match savepoint verbs turn identity op db with
  | .ok outcome => .ok outcome
  | .error error =>
      match error.rejection with
      | some code => .ok (.rejected, .rejection code, db)
      | none => .error error

/-- `process`, under the lock on the operation's id. -/
def process (turn : CaptureTurn) (identity : AuthenticatedIdentity) (op : CaptureOperation)
    (s : CaptureState) : Capture (CaptureResponse × CaptureState) :=
  match s.operation? identity.organizationId op.operationId with
  | some original =>
      if original.actorId ≠ identity.actorId then
        invalid "Operation is unavailable to this credential"
      else pure (original.out true, s)
  | none => do
      let (flags, streams) ← sequence turn identity op s.streams
      let (syncState, result, db) ← settle verbs turn identity op (s.db identity.organizationId)
      let (row, s) ← execute <| insertOperation turn.ctx
        { operationId := op.operationId, stream := op.stream identity.organizationId
          actorId := identity.actorId, claimedActorId := op.actorId, clientSeq := op.clientSeq
          entityType := op.entityType, entityId := op.entityId
          expectedVersion := op.expectedVersion, operation := op.operation, payload := op.payload
          occurredAt := op.occurredAt, recordedAt := turn.ctx.session.now, syncState, result
          sequenceFlags := flags }
        ({ s with streams }.putDb identity.organizationId db)
      pure (row.out false, s)

/-- One operation's transaction: the credential, the processing, and the checks at its commit. -/
def attempt (turn : CaptureTurn) (op : CaptureOperation) (s : CaptureState) :
    Capture (CaptureResponse × CaptureState) :=
  match turn.identity with
  | none => throw .credentialExpired
  | some identity => do
      let org := identity.organizationId
      let ctx := { turn.ctx with session := { turn.ctx.session with organization := some org } }
      let (response, after) ← process verbs { turn with ctx } identity op s
      execute (verbs.deferred ctx (s.db org) (after.db org))
      let observed := (after.db org).conflicts.conflicts.filter
        (· ∉ (s.db org).conflicts.conflicts)
      execute (observed.forM (guardSyncConflictOrigin org after))
      pure (response, after)

/-- The answer to an operation whose transaction is rolled back. -/
def unavailable (op : CaptureOperation) : CaptureResponse where
  operationId := op.operationId
  syncState := some .rejected
  recordedAt := none
  result := none
  sequenceFlags := []

/-- An operation's answer, with the state after its transaction. -/
def answer (turn : CaptureTurn) (op : CaptureOperation) (s : CaptureState) :
    Capture CaptureResponse × CaptureState :=
  match attempt verbs turn op s with
  | .ok (response, after) => (.ok response, after)
  | .error error => (if error.unavailable then .ok (unavailable op) else .error error, s)

end Capture

/-! ## Runs -/

/-- What is committed: an operation, or anything else in the tenants' other records. -/
inductive CaptureStep
  | attempt (turn : CaptureTurn) (op : CaptureOperation)
  | elsewhere (db : Uuid → Database)

/-- A step as one transaction. -/
def CaptureState.exec {ν : Type} (verbs : Verbs ν) (step : CaptureStep) (s : CaptureState) :
    Capture CaptureState :=
  match step with
  | .attempt turn op => Prod.snd <$> Capture.attempt verbs turn op s
  | .elsewhere db => pure { s with db }

/-- A batch: its operations, and for each of them by position the steps that other sessions take
before its turn, and the turn. -/
structure CaptureBatch where
  operations : List CaptureOperation
  meanwhile : ℕ → List CaptureStep
  turns : ℕ → CaptureTurn

namespace Capture

/-- The client and epoch by which an entry is grouped. -/
abbrev groupKey (entry : CaptureOperation × ℕ) : Uuid × Uuid :=
  (entry.1.clientId, entry.1.clientEpoch)

/-- The number and position by which a group is sorted. -/
abbrev sortKey (entry : CaptureOperation × ℕ) : ℕ ×ₗ ℕ := toLex (entry.1.clientSeq, entry.2)

/-- `ordered` -/
def ordered (operations : List CaptureOperation) : List (CaptureOperation × ℕ) :=
  (Dictionary.group groupKey operations.zipIdx).flatMap fun group =>
    group.2.insertionSort fun a b => sortKey a ≤ sortKey b

variable {ν : Type} (verbs : Verbs ν)

/-- The loop of `batch`; an exception that it does not expect leaves it. -/
def serve (request : CaptureBatch) : List (CaptureOperation × ℕ) →
    List (Option CaptureResponse) → CaptureState →
    Capture (List (Option CaptureResponse)) × CaptureState
  | [], responses, s => (.ok responses, s)
  | (op, index) :: rest, responses, s =>
      let s := Machine.run (CaptureState.exec verbs) (request.meanwhile index) s
      match answer verbs (request.turns index) op s with
      | (.ok response, after) => serve request rest (responses.set index (some response)) after
      | (.error error, after) => (.error error, after)

/-- `batch` -/
def batch (request : CaptureBatch) (s : CaptureState) :
    Capture (List (Option CaptureResponse)) × CaptureState :=
  serve verbs request (ordered request.operations)
    (List.replicate request.operations.length none) s

/-- Batches one after another. -/
def batches (requests : List CaptureBatch) (s : CaptureState) : CaptureState :=
  requests.foldl (fun s request => (batch verbs request s).2) s

end Capture

end FleetOps
