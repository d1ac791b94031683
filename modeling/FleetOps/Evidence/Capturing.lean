import FleetOps.Evidence.Service
import FleetOps.Foundations.WriteOnce

/-!
# Capturing evidence

A capture first publishes the bytes in the content store and then inserts their
metadata.  Any number of processes capture and put content at once, and each of
them may stop between any two of its steps.  `EvidenceSystem.next` is the next
step of one process: it reads the shared state as it is then, and moves on, links
a file or commits a row.

A temporary file is private to its process, so it is the bytes that the process
has written so far; a final name is linked exclusively.  Statements see the rows
that are committed when they start, and an insertion waits for another one of the
same key that is not decided yet.
-/

namespace FleetOps

open WriteOnce

/-! ## Requests -/

/-- The metadata of an upload. -/
structure CaptureValues where
  sha256 : Option String
  mediaType : String
  sourceType : EvidenceSource
  capturedAt : Timestamp
  originalFilename : String
  supersedesAttachmentId : Option Uuid
  deriving DecidableEq, Repr

/-- A call of `put` or of `capture`. -/
inductive EvidenceTask
  | put (org : Uuid) (content : List UInt8)
  | capture (org : Uuid) (content : List UInt8) (values : CaptureValues)
  deriving DecidableEq, Repr

namespace EvidenceTask

def org : EvidenceTask → Uuid
  | put org _ | capture org _ _ => org

def content : EvidenceTask → List UInt8
  | put _ content | capture _ content _ => content

def parent : EvidenceTask → Option Uuid
  | put .. => none
  | capture _ _ values => values.supersedesAttachmentId

end EvidenceTask

/-- How far a process is. -/
inductive EvidencePhase
  | begun
  /-- The row to be superseded is read, its content is not. -/
  | verifying (original : Attachment)
  /-- `put` is called. -/
  | storing
  /-- The temporary file holds these bytes. -/
  | writing (written : List UInt8)
  /-- The temporary file is flushed. -/
  | linking (written : List UInt8)
  /-- The name was taken. -/
  | comparing
  /-- The temporary file is to be removed. -/
  | cleaning
  /-- `put` has returned. -/
  | stored
  /-- The row is inserted and not committed. -/
  | inserted (row : Attachment)
  /-- Nothing was inserted. -/
  | conflicted
  /-- The committed row is read. -/
  | chosen (row : Attachment)
  /-- Its content is read too. -/
  | returning (row : Attachment)
  | finished (row : Attachment)
  | failed (failure : Failure)
  deriving DecidableEq, Repr

structure EvidenceProcess where
  task : EvidenceTask
  phase : EvidencePhase
  deriving DecidableEq, Repr

/-- The row that a process has inserted and not committed. -/
def EvidenceProcess.uncommitted (process : EvidenceProcess) : Option Attachment :=
  match process.phase with
  | .inserted row => some row
  | _ => none

/-- The committed rows of every tenant, the files, and the processes with the numbers that were
given to them. -/
structure EvidenceSystem where
  attachments : Uuid → List Attachment
  files : Store String (List UInt8)
  started : List ℕ
  processes : ℕ → Option EvidenceProcess

/-- What a step draws: how much it writes, an id, and the session. -/
structure StepInput where
  chunk : ℕ
  id : Uuid
  session : Session

/-! ## Statements -/

/-- The `CHECK` constraints of an attachment. -/
def attachmentChecks (org : Uuid) (row : Attachment) : Bool :=
  row.WellFormed org && row.supersedesAttachmentId.all (· ≠ row.id)

/-- The row of a capture, as `guard_evidence_capture` completes it. -/
def capturedRow (sha256 : List UInt8 → String) (input : StepInput) (org : Uuid)
    (content : List UInt8) (values : CaptureValues) (performer : Uuid) : Attachment :=
  { id := input.id
    sha256 := sha256 content
    byteSize := content.length
    mediaType := values.mediaType
    storageKey := evidenceKey org (sha256 content)
    sourceType := values.sourceType
    capturedBy := performer
    capturedAt := values.capturedAt
    recordedAt := input.session.now
    supersedesAttachmentId := values.supersedesAttachmentId
    originalFilename := values.originalFilename }

/-- What an insertion checks beyond the row, if its key is free. -/
def admitAttachment (rows : List Attachment) (row : Attachment) : Sql (Option Attachment) := do
  require (∀ other ∈ rows, other.id ≠ row.id) .uniqueViolation "attachments_pkey"
  require (row.supersedesAttachmentId.all fun parent => rows.any (·.id = parent))
    .foreignKeyViolation "fk_attachments_supersedes_attachment_id"
  pure (some row)

/-- `INSERT … ON CONFLICT ON CONSTRAINT uq_attachments_org_sha256 DO NOTHING RETURNING`. -/
def insertAttachment (sha256 : List UInt8 → String) (input : StepInput) (org : Uuid)
    (content : List UInt8) (values : CaptureValues) (rows : List Attachment) :
    Sql (Option Attachment) := do
  let performer ← currentAuthenticatedActor input.session
  let row := capturedRow sha256 input org content values performer
  require (attachmentChecks org row) .checkViolation "attachment check"
  if rows.any (·.sha256 = row.sha256) then pure none else admitAttachment rows row

namespace EvidenceService

/-- `_constraints`. -/
def constraints : SqlState → Option (FailureKind × String)
  | .notNullViolation | .foreignKeyViolation | .checkViolation | .insufficientPrivilege =>
      some (.evidenceInvalid, "Invalid evidence provenance, target or attribution")
  | .uniqueViolation =>
      some (.evidenceConflict, "Evidence identity conflicts with an existing record")
  | .noDataFound | .serializationFailure | .raiseException | .numericValueOutOfRange => none

/-- `capture` up to the content of the superseded row. -/
def prepareCapture (sha256 : List UInt8 → String) (rows : List Attachment)
    (content : List UInt8) (values : CaptureValues) : Service EvidencePhase := do
  Service.ensure (values.sha256.all (· = sha256 content)) .evidenceInvalid
    "Supplied SHA-256 does not match uploaded bytes"
  match values.supersedesAttachmentId with
  | none => pure .storing
  | some parent => do
      let original ← Service.fetch (rows.find? (·.id = parent)) .evidenceNotFound
        "Attachment not found"
      Service.ensure (original.sha256 ≠ sha256 content) .evidenceInvalid
        "Supersession requires modified content"
      pure (.verifying original)

/-- The existing row of the same content. -/
def chooseExisting (sha256 : List UInt8 → String) (rows : List Attachment)
    (content : List UInt8) (values : CaptureValues) : Service Attachment := do
  let row ← Service.fetch (rows.find? (·.sha256 = sha256 content)) .noResultFound ""
  Service.ensure (values.supersedesAttachmentId = none ∨
      row.supersedesAttachmentId = values.supersedesAttachmentId)
    .evidenceConflict "Existing content has different supersession provenance"
  pure row

end EvidenceService

/-! ## Steps -/

/-- The effect of a step. -/
inductive Move
  /-- Another transaction has to end first, or the process has ended. -/
  | wait
  | goto (phase : EvidencePhase)
  | link (content : List UInt8)
  | commit (row : Attachment)

namespace EvidenceSystem

/-- An undecided insertion of the same key or id. -/
def contended (system : EvidenceSystem) (org : Uuid) (row : Attachment) : Bool :=
  system.started.any fun pid => (system.processes pid).any fun process =>
    process.task.org = org && process.uncommitted.any fun other =>
      other.sha256 = row.sha256 || other.id = row.id

/-- The insertion of `capture`. -/
def insertion (sha256 : List UInt8 → String) (system : EvidenceSystem) (input : StepInput)
    (org : Uuid) (content : List UInt8) (values : CaptureValues) : Service Move := do
  let inserted ← Service.translating EvidenceService.constraints
    (Service.execute (insertAttachment sha256 input org content values (system.attachments org)))
  pure <| match inserted with
    | none => .goto .conflicted
    | some row => if system.contended org row then .wait else .goto (.inserted row)

/-- The next step of a process. -/
def next (sha256 : List UInt8 → String) (system : EvidenceSystem) (input : StepInput)
    (process : EvidenceProcess) : Service Move :=
  let org := process.task.org
  let content := process.task.content
  let rows := system.attachments org
  let storage : EvidenceStorage := ⟨system.files, sha256⟩
  let reference : StoredEvidence :=
    ⟨evidenceKey org (sha256 content), sha256 content, content.length⟩
  match process.phase with
  | .begun =>
      match process.task with
      | .put .. => .ok (.goto .storing)
      | .capture _ _ values => do
          let phase ← EvidenceService.prepareCapture sha256 rows content values
          pure (.goto phase)
  | .verifying original => do
      let _ ← EvidenceService.readContent (some storage) org original
      pure (.goto .storing)
  | .storing => do
      Service.ensure (isSha256 reference.sha256) .evidenceStorageError
        "Invalid evidence storage reference"
      pure (.goto (.writing []))
  | .writing written =>
      if written = content then .ok (.goto (.linking written))
      else .ok (.goto (.writing (content.take (written.length + input.chunk))))
  | .linking written =>
      if (system.files reference.key).isSome then .ok (.goto .comparing) else .ok (.link written)
  | .comparing => do
      let existing ← storage.read org reference
      Service.ensure (existing = content) .evidenceStorageError "Existing evidence content differs"
      pure (.goto .cleaning)
  | .cleaning => .ok (.goto .stored)
  | .stored =>
      match process.task with
      | .put .. => .ok .wait
      | .capture _ _ values => insertion sha256 system input org content values
  | .inserted row => .ok (.commit row)
  | .conflicted =>
      match process.task with
      | .put .. => .ok .wait
      | .capture _ _ values => do
          let row ← EvidenceService.chooseExisting sha256 rows content values
          pure (.goto (.chosen row))
  | .chosen row => do
      let _ ← EvidenceService.readContent (some storage) org row
      pure (.goto (.returning row))
  | .returning row => .ok (.goto (.finished row))
  | .finished _ | .failed _ => .ok .wait

/-- A process is in another phase. -/
def set (system : EvidenceSystem) (pid : ℕ) (task : EvidenceTask) (phase : EvidencePhase) :
    EvidenceSystem :=
  { system with processes := Function.update system.processes pid (some ⟨task, phase⟩) }

/-- What a step of a process leads to. -/
def apply (sha256 : List UInt8 → String) (system : EvidenceSystem) (pid : ℕ)
    (task : EvidenceTask) : Service Move → EvidenceSystem
  | .error failure => system.set pid task (.failed failure)
  | .ok .wait => system
  | .ok (.goto phase) => system.set pid task phase
  | .ok (.link content) =>
      let key := evidenceKey task.org (sha256 task.content)
      { system with files := WriteOnce.link system.files key content }.set pid task .cleaning
  | .ok (.commit row) =>
      let rows := system.attachments task.org ++ [row]
      { system with attachments := Function.update system.attachments task.org rows }.set pid task
        (.finished row)

end EvidenceSystem

/-! ## Runs -/

/-- A process starts, takes a step, or stops: it raises for a reason outside the model, its
transaction is lost, or it crashes. -/
inductive EvidenceAction
  | start (pid : ℕ) (task : EvidenceTask)
  | advance (pid : ℕ) (input : StepInput)
  | stop (pid : ℕ)

namespace EvidenceSystem

def step (sha256 : List UInt8 → String) (system : EvidenceSystem) : EvidenceAction → EvidenceSystem
  | .start pid task =>
      if pid ∈ system.started then system
      else { system with started := pid :: system.started }.set pid task .begun
  | .advance pid input =>
      match system.processes pid with
      | none => system
      | some process => system.apply sha256 pid process.task (system.next sha256 input process)
  | .stop pid => { system with processes := Function.update system.processes pid none }

def run (sha256 : List UInt8 → String) (actions : List EvidenceAction) (system : EvidenceSystem) :
    EvidenceSystem :=
  actions.foldl (step sha256) system

/-- Nothing captured, nothing stored. -/
def empty : EvidenceSystem := ⟨fun _ => [], fun _ => none, [], fun _ => none⟩

end EvidenceSystem

end FleetOps
