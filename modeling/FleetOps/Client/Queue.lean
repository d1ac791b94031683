import FleetOps.Sql
import FleetOps.Foundations.Json

/-!
# The client's capture queue

The browser keeps captures in an IndexedDB database until they are replayed.
Its store `meta` has the device's counters, its store `queue` a row for every
capture.  A capture draws an ordinal, an epoch and a sequence number in the same
transaction that adds its row; a row whose photo was uploaded draws a second
operation, the link of the evidence.

A function here is one transaction over the database.  `.error` is a
transaction that changed nothing, whether it threw before its first write or was
aborted.  What a call draws from `crypto.randomUUID()` is an argument.
-/

namespace FleetOps

namespace Client

abbrev Scope := String

/-- `Session`; `expiresAt` is `Date.parse(expires_at)`, where that is a number. -/
structure Session where
  orgId : Uuid
  actorId : Uuid
  expiresAt : Option ℕ
  deriving DecidableEq, Repr

/-- `scopeOf`. -/
def scopeOf (session : Session) : Scope :=
  uuidText session.orgId ++ "|" ++ uuidText session.actorId

inductive OperationKind
  | receiveScan | move | assign | unassign | transition | attachEvidence | resolve
  deriving DecidableEq, Repr

abbrev Record := List (String × Json ℕ)

/-- What an operator captures. -/
structure Claim where
  operation : OperationKind
  entityId : Uuid
  entityType : String
  expectedVersion : Option ℕ
  payload : Record

/-- An envelope, as it is sent to the server. -/
structure Operation extends Claim where
  operationId : Uuid
  actorId : Uuid
  clientId : Uuid
  clientEpoch : Uuid
  clientSeq : ℕ
  occurredAt : String

structure OperationResult where
  operationId : Uuid
  syncState : String
  recordedAt : Option String
  result : Record
  sequenceFlags : List String

structure Photo where
  blob : List UInt8
  filename : String
  mediaType : String
  capturedAt : String

inductive Status
  | queued | applied | rejected
  deriving DecidableEq, Repr

/-- A record of the store `queue`. -/
structure QueueRow where
  id : Uuid
  scope : Scope
  ordinal : ℕ
  envelope : Operation
  status : Status
  response : Option OperationResult := none
  photo : Option Photo := none
  attachmentId : Option Uuid := none
  evidenceOperation : Option Operation := none
  evidenceOrdinal : Option ℕ := none
  evidenceDone : Bool := false
  evidenceError : Option String := none
  error : Option String := none

/-- The record `device` of the store `meta`. -/
structure Device where
  client : Uuid
  epoch : Uuid
  scope : Scope
  seq : ℕ
  ordinal : ℕ
  deriving DecidableEq, Repr

structure Database where
  device : Option Device := none
  queue : List QueueRow := []

/-- What one call of `crypto.randomUUID()` after the other gives, by what it is for. -/
structure Draws where
  client : Uuid
  epoch : Uuid
  scopeEpoch : Uuid
  limitEpoch : Uuid
  operation : Uuid
  deriving DecidableEq, Repr

def Draws.all (draws : Draws) : List Uuid :=
  [draws.client, draws.epoch, draws.scopeEpoch, draws.limitEpoch, draws.operation]

/-- The greatest sequence number that a device assigns in one epoch. -/
def seqMax : ℕ := 2147483647

/-! ## Allocation -/

/-- The device before an allocation: the stored one, or a new one. -/
def savedDevice (draws : Draws) (saved : Option Device) (scope : Scope) : Device :=
  saved.getD { client := draws.client, epoch := draws.epoch, scope, seq := 0, ordinal := 0 }

/-- A reset or another scope starts a new epoch. -/
def Device.rescope (draws : Draws) (scope : Scope) (reset : Bool) (device : Device) : Device :=
  if reset ∨ device.scope ≠ scope then
    { device with epoch := draws.scopeEpoch, seq := 0, scope }
  else device

/-- So does an epoch whose numbers are used up. -/
def Device.renumber (draws : Draws) (device : Device) : Device :=
  if seqMax ≤ device.seq then { device with epoch := draws.limitEpoch, seq := 0 } else device

/-- `allocate`; the result is what it puts back. -/
def allocate (draws : Draws) (saved : Option Device) (scope : Scope) (reset : Bool) : Device :=
  let device := ((savedDevice draws saved scope).rescope draws scope reset).renumber draws
  { device with seq := device.seq + 1, ordinal := device.ordinal + 1 }

def envelope (operationId : Uuid) (device : Device) (session : Session) (claim : Claim)
    (occurred : String) : Operation :=
  { claim with
    operationId
    actorId := session.actorId
    clientId := device.client
    clientEpoch := device.epoch
    clientSeq := device.seq
    occurredAt := occurred }

/-! ## Transactions -/

/-- `enqueue`, at the time `now`. -/
def enqueue (draws : Draws) (now : ℕ) (session : Session) (claim : Claim) (photo : Option Photo)
    (occurred : String) (db : Database) : Except String (QueueRow × Database) :=
  if session.expiresAt.all (· ≤ now) then .error "Sign in again before capturing"
  else
    let device := allocate draws db.device (scopeOf session) false
    let op := envelope draws.operation device session claim occurred
    let row : QueueRow :=
      { id := op.operationId, scope := scopeOf session, ordinal := device.ordinal, envelope := op
        status := .queued, photo }
    -- `add` aborts the transaction where the key is taken.
    if db.queue.any (·.id = row.id) then .error "ConstraintError"
    else .ok (row, { device := some device, queue := db.queue ++ [row] })

/-- `resetEpoch`, with the new epoch that it draws. -/
def resetEpoch (epoch : Uuid) (session : Session) (db : Database) : Database :=
  { db with
    device := db.device.map fun saved => { saved with epoch, seq := 0, scope := scopeOf session } }

/-- `store.put` of a row whose key is there. -/
def put (row : QueueRow) (queue : List QueueRow) : List QueueRow :=
  queue.map fun other => if other.id = row.id then row else other

/-- What `synchronize` writes back of a row. -/
inductive Outcome
  | answered (rejected : Bool) (response : OperationResult)
  | linkRejected (message : String)
  | linked
  | uploaded (attachmentId : Uuid)
  | failed (message : String)

/-- `{ ...old, ...changes }`. -/
def Outcome.change (old : QueueRow) : Outcome → QueueRow
  | answered rejected response =>
      { old with status := if rejected then .rejected else .applied, response, error := none }
  | linkRejected message => { old with evidenceError := message }
  | linked => { old with evidenceDone := true, photo := none, error := none }
  | uploaded attachmentId => { old with attachmentId }
  | failed message => { old with error := message }

/-- `updateRow`. -/
def updateRow (id : Uuid) (outcome : Outcome) (db : Database) : Except String (QueueRow × Database) :=
  match db.queue.find? (·.id = id) with
  | none => .error "Capture record is missing"
  | some old =>
      let row := outcome.change old
      .ok (row, { db with queue := put row db.queue })

/-- The claim of an evidence link. -/
def evidenceClaim (lineId attachmentId : Uuid) : Claim where
  operation := .attachEvidence
  entityId := lineId
  entityType := "RECEIPT_LINE"
  expectedVersion := none
  payload := [("attachment_id", .string (uuidText attachmentId)),
    ("link_role", .string "RECEIVING_EVIDENCE")]

/-- `{ ...saved, evidence_operation, evidence_ordinal }`. -/
def QueueRow.link (op : Operation) (ordinal : ℕ) (saved : QueueRow) : QueueRow :=
  { saved with evidenceOperation := some op, evidenceOrdinal := some ordinal }

/-- `evidenceOperation`, for the row of this id.  Without an operation its promise was rejected,
though what it put before that is committed. -/
def evidenceOperation (draws : Draws) (session : Session) (id lineId : Uuid) (db : Database) :
    Except String (Option Operation × Database) :=
  match db.queue.find? (·.id = id) with
  | none => .error "Evidence capture has no matching actor or upload"
  | some saved =>
      match saved.attachmentId with
      | none => .error "Evidence capture has no matching actor or upload"
      | some attachmentId =>
          if saved.scope ≠ scopeOf session then
            .error "Evidence capture has no matching actor or upload"
          else
            match saved.evidenceOperation with
            | some op => .ok (some op, db)
            | none =>
                let device := allocate draws db.device saved.scope false
                match saved.photo with
                -- `saved.photo!.captured_at` throws after the allocation was put.
                | none => .ok (none, { db with device })
                | some photo =>
                    let op := envelope draws.operation device session
                      (evidenceClaim lineId attachmentId) photo.capturedAt
                    let row := saved.link op device.ordinal
                    .ok (some op, { device := some device, queue := put row db.queue })

end Client

end FleetOps
