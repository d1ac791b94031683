import FleetOps.Evidence.Tables
import FleetOps.Foundations.WriteOnce
import FleetOps.Labels.Zpl
import FleetOps.Service

/-!
# Print jobs

A print job is a row with a frozen snapshot of what it prints.  `dispatch` renders
the snapshot, publishes the artifact under a name that only the job determines,
and then records the delivery in the row.  File and row are two stores: a
transaction that is lost leaves the file where it is, so a later dispatch meets
its own artifact and has to accept it.

What a dispatch cannot choose is its `Circumstances`: the session, whether output
is configured, which of its steps on the disk fail, and where it dies.
-/

namespace FleetOps.Labels

open WriteOnce

/-! ## Rows -/

inductive OutputFormat
  | png | pdf | zpl
  deriving DecidableEq, Repr

/-- The registered adapters. -/
inductive AdapterName
  | file | zpl
  deriving DecidableEq, Repr

inductive Symbology
  | code128 | datamatrix
  deriving DecidableEq, Repr

inductive HumanField
  | id | assetTag | description | itemMpn
  deriving DecidableEq, Repr

inductive PrintStatus
  | pending | succeeded | failed
  deriving DecidableEq, Repr

/-- `print_jobs.error_code`. -/
inductive PrintErrorCode
  | outputUnavailable | renderFailed
  deriving DecidableEq, Repr

/-- A row of `label_templates`, without what only a reader of templates sees. -/
structure LabelTemplate where
  id : Uuid
  humanFields : List HumanField
  symbology : Symbology
  deriving DecidableEq, Repr

/-- An Asset with its item. -/
structure LabelTarget where
  id : Uuid
  assetTag : Option String
  description : Option String
  manufacturerPartNumber : Option String
  deriving DecidableEq, Repr

/-- `print_jobs.render_snapshot`. -/
structure RenderSnapshot where
  id : String
  assetTag : Option String
  description : Option String
  itemMpn : Option String
  humanFields : List HumanField
  symbology : Symbology
  deriving DecidableEq, Repr

/-- What a job asks for, which no retry rewrites. -/
structure PrintRequest where
  id : Uuid
  orgId : Uuid
  templateId : Uuid
  entityId : Uuid
  requestedBy : Uuid
  requestedAt : Timestamp
  adapterName : AdapterName
  outputFormat : OutputFormat
  renderSnapshot : RenderSnapshot
  deriving DecidableEq, Repr

/-- How far its delivery is. -/
structure Delivery where
  status : PrintStatus := .pending
  attempts : ℕ := 0
  artifactSha256 : Option String := none
  errorCode : Option PrintErrorCode := none
  updatedByActorId : Option Uuid := none
  updatedAt : Option Timestamp := none
  deriving DecidableEq, Repr

/-- A row of `print_jobs`. -/
structure PrintJob extends PrintRequest, Delivery
  deriving DecidableEq, Repr

/-- `adapter_for`. -/
def adapterFor (format : OutputFormat) : AdapterName :=
  if format = .zpl then .zpl else .file

/-- `ck_print_jobs_delivery`. -/
def Delivery.check (d : Delivery) : Bool :=
  (d.status = .pending ∧ d.attempts = 0 ∧ d.artifactSha256 = none ∧ d.errorCode = none ∧
      d.updatedByActorId = none ∧ d.updatedAt = none) ||
    (d.status ≠ .pending ∧ 0 < d.attempts ∧ d.updatedByActorId ≠ none ∧ d.updatedAt ≠ none ∧
      ((d.status = .succeeded ∧ d.artifactSha256.any isSha256 ∧ d.errorCode = none) ∨
        (d.status = .failed ∧ d.artifactSha256 = none ∧ d.errorCode ≠ none)))

/-- The `CHECK` constraints of a job. -/
def PrintJob.checks (job : PrintJob) : Bool :=
  decide (job.adapterName = adapterFor job.outputFormat) &&
    decide (job.renderSnapshot.id = uuidText job.entityId) && job.toDelivery.check &&
    job.requestedAt.isFinite && job.updatedAt.all (·.isFinite)

/-- The name of a job's artifact below the output root. -/
structure ArtifactPath where
  org : Uuid
  jobId : Uuid
  extension : OutputFormat
  deriving DecidableEq, Repr

def PrintRequest.path (request : PrintRequest) : ArtifactPath :=
  ⟨request.orgId, request.id, request.outputFormat⟩

/-! ## The guard -/

/-- What an insert reads besides the jobs. -/
structure LabelContext where
  session : Session
  templates : List LabelTemplate
  targets : List LabelTarget

/-- `guard_print_job` on an insert.  The runtime role names the request's own columns alone, so the
delivery has its defaults. -/
def guardPrintJobInsert (ctx : LabelContext) (request : PrintRequest) : Sql PrintJob := do
  let message := "Invalid print target or template"
  let target ← demand (ctx.targets.find? (·.id = request.entityId)) .checkViolation message
  let template ← demand (ctx.templates.find? (·.id = request.templateId)) .checkViolation message
  let performer ← currentAuthenticatedActor ctx.session
  pure { request with
    renderSnapshot :=
      { id := uuidText target.id
        assetTag := target.assetTag
        description := target.description
        itemMpn := target.manufacturerPartNumber
        humanFields := template.humanFields
        symbology := template.symbology }
    requestedBy := performer
    requestedAt := ctx.session.now }

/-- `guard_print_job` on an update. -/
def guardPrintJobUpdate (session : Session) (old new : PrintJob) : Sql PrintJob := do
  require (new.toPrintRequest = old.toPrintRequest) .checkViolation "Print request is immutable"
  require (old.status ≠ .succeeded ∧ new.status ≠ .pending) .checkViolation
    "Invalid print delivery transition"
  let performer ← currentAuthenticatedActor session
  let attempts ← addInteger old.attempts 1
  pure { new with
    attempts
    updatedByActorId := some performer
    updatedAt := some session.now }

/-- What `dispatch` sets. -/
structure Outcome where
  status : PrintStatus
  digest : Option String
  errorCode : Option PrintErrorCode

/-- `UPDATE print_jobs SET status, artifact_sha256, error_code`. -/
def updatePrintJob (session : Session) (outcome : Outcome) (old : PrintJob) : Sql PrintJob := do
  let row ← guardPrintJobUpdate session old
    { old with
      status := outcome.status
      artifactSha256 := outcome.digest
      errorCode := outcome.errorCode }
  require row.checks .checkViolation "print job check"
  pure row

/-! ## Rendering -/

/-- The images and encoders that artifacts are made with. -/
structure Renderer where
  Image : Type
  /-- `render` -/
  render : RenderSnapshot → Image
  /-- `png_bytes` -/
  pngBytes : Image → List UInt8
  /-- `image.convert("1")` -/
  convert : Image → Bilevel
  /-- `image.save(buffer, format="PDF", …)` with its fixed metadata -/
  pdfBytes : Bilevel → List UInt8
  tobytes : Bilevel → List UInt8

/-- Why a dispatch stops. -/
inductive Stop
  /-- The process or its connection is gone. -/
  | crashed
  /-- `OutputUnavailable` -/
  | unavailable (message : String)
  /-- A service's or the database's exception. -/
  | raised (failure : Failure)
  /-- An exception that `dispatch` does not catch. -/
  | uncaught (message : String)
  deriving DecidableEq, Repr

/-- The content that a registered adapter publishes. -/
def Renderer.artifact (renderer : Renderer) (request : PrintRequest) : Except Stop (List UInt8) :=
  let image := renderer.render request.renderSnapshot
  match request.adapterName, request.outputFormat with
  | .file, .png => .ok (renderer.pngBytes image)
  | .file, .pdf => .ok (renderer.pdfBytes (renderer.convert image))
  | .file, .zpl => .error (.uncaught "Unsupported file output")
  | .zpl, .zpl => .ok (zplText renderer.tobytes (renderer.convert image)).toUTF8.data.toList
  | .zpl, _ => .error (.uncaught "Unsupported printer output")

/-! ## The artifact store -/

abbrev Files := Store ArtifactPath (List UInt8)

/-- `4 * 1024 * 1024` -/
def artifactLimit : ℕ := 4194304

/-- What `render` does at this dispatch. -/
inductive Rendering
  | succeeds
  /-- `ValueError`, `TypeError`, `KeyError` or `RuntimeError` -/
  | fails
  /-- Any other exception. -/
  | breaks
  deriving DecidableEq, Repr

/-- Where a dispatch dies. -/
inductive CrashPoint
  | beforeRendering | beforeLinking | afterLinking | beforeCommit
  deriving DecidableEq, Repr

/-- What a dispatch meets. -/
structure Circumstances where
  session : Session
  /-- The output root is configured. -/
  configured : Bool
  rendering : Rendering
  /-- The directory is checked and the temporary file written and flushed. -/
  prepares : Bool
  /-- The link fails at most because the name is taken. -/
  links : Bool
  /-- An existing artifact can be read. -/
  reads : Bool
  /-- The name is checked again and the temporary file removed. -/
  finishes : Bool
  crash : Option CrashPoint
  /-- The transaction commits. -/
  commits : Bool

/-- The dispatch does not die here. -/
def Circumstances.survive (env : Circumstances) (point : CrashPoint) : Except Stop Unit :=
  if env.crash = some point then .error .crashed else .ok ()

/-- `raise OutputUnavailable` unless a condition holds. -/
def available (condition : Prop) [Decidable condition] (message : String) : Except Stop Unit :=
  if condition then .ok () else .error (.unavailable message)

/-- What `publish` does up to the link. -/
def prepareArtifact (env : Circumstances) (content : List UInt8) : Except Stop Unit := do
  available (content.length ≤ artifactLimit) "Output artifact exceeds the configured boundary"
  available env.prepares "Output storage is unavailable"
  env.survive .beforeLinking
  available env.links "Output storage is unavailable"

/-- `_read`. -/
def readFile (reads : Bool) (files : Files) (path : ArtifactPath) :
    Except Stop (List UInt8) := do
  let message := "Output storage is unavailable"
  let content ← (files path).elim (.error (.unavailable message)) .ok
  available (content.length ≤ artifactLimit) "Invalid output artifact"
  available reads message
  pure content

/-- `if self._read(target) != content: raise …`, where the name is taken. -/
def compareArtifact (env : Circumstances) (files : Files) (path : ArtifactPath)
    (content : List UInt8) : Except Stop Unit :=
  if (files path).isSome then do
    let existing ← readFile env.reads files path
    available (existing = content) "Existing output does not match the job"
  else .ok ()

/-- `publish`, which leaves the link whatever comes after it. -/
def publish (env : Circumstances) (sha256 : List UInt8 → String) (path : ArtifactPath)
    (content : List UInt8) (files : Files) : Files × Except Stop String :=
  match prepareArtifact env content with
  | .error stop => (files, .error stop)
  | .ok () =>
      (link files path content, do
        compareArtifact env files path content
        env.survive .afterLinking
        available env.finishes "Output cleanup failed"
        pure (sha256 content))

/-! ## Dispatch -/

/-- The jobs of a tenant, and the artifacts. -/
structure Outbox where
  jobs : Uuid → Option PrintJob
  files : Files

/-- `get_job`. -/
def Outbox.getJob (outbox : Outbox) (id : Uuid) : Service PrintJob :=
  Service.fetch (outbox.jobs id) .labelNotFound "Print job not found"

/-- A service's or the database's exception passes through. -/
def passing {α : Type} (service : Service α) : Except Stop α := service.mapError .raised

/-- `read_artifact`. -/
def Outbox.readArtifact (outbox : Outbox) (sha256 : List UInt8 → String) (configured reads : Bool)
    (id : Uuid) : Except Stop (PrintJob × List UInt8) := do
  let job ← passing (outbox.getJob id)
  passing (Service.ensure (job.status = .succeeded) .labelConflict "Print output is not ready")
  available configured "Output storage is unavailable"
  let content ← readFile reads outbox.files job.path
  available (some (sha256 content) = job.artifactSha256)
    "Output artifact failed integrity validation"
  pure (job, content)

/-- `except OutputUnavailable`. -/
def settle : Except Stop String → Except Stop Outcome
  | .ok digest => .ok ⟨.succeeded, some digest, none⟩
  | .error (.unavailable _) => .ok ⟨.failed, none, some .outputUnavailable⟩
  | .error stop => .error stop

/-- What `dispatch` does between its lock and its update. -/
def deliver (env : Circumstances) (renderer : Renderer) (sha256 : List UInt8 → String)
    (job : PrintRequest) (files : Files) : Files × Except Stop Outcome :=
  if !env.configured then (files, .ok ⟨.failed, none, some .outputUnavailable⟩)
  else if env.crash = some .beforeRendering then (files, .error .crashed)
  else
    match env.rendering with
    | .fails => (files, .ok ⟨.failed, none, some .renderFailed⟩)
    | .breaks => (files, .error (.uncaught "render"))
    | .succeeds =>
        match renderer.artifact job with
        | .error stop => (files, .error stop)
        | .ok content =>
            let published := publish env sha256 job.path content files
            (published.1, settle published.2)

/-- The update of `dispatch`, and the end of its transaction. -/
def recordDelivery (env : Circumstances) (job : PrintJob) (delivered : Except Stop Outcome) :
    Except Stop PrintJob := do
  let outcome ← delivered
  let row ← passing (Service.execute (updatePrintJob env.session outcome job))
  env.survive .beforeCommit
  if env.commits then .ok row else .error .crashed

/-- `dispatch`, whose lock keeps other dispatches of the job away until it ends. -/
def Outbox.dispatch (env : Circumstances) (renderer : Renderer) (sha256 : List UInt8 → String)
    (id : Uuid) (outbox : Outbox) : Outbox × Except Stop PrintJob :=
  match outbox.getJob id with
  | .error failure => (outbox, .error (.raised failure))
  | .ok job =>
      if job.status = .succeeded then
        (outbox, do
          let _ ← outbox.readArtifact sha256 env.configured env.reads id
          pure job)
      else
        let delivered := deliver env renderer sha256 job.toPrintRequest outbox.files
        match recordDelivery env job delivered.2 with
        | .error stop => (⟨outbox.jobs, delivered.1⟩, .error stop)
        | .ok row => (⟨Function.update outbox.jobs id (some row), delivered.1⟩, .ok row)

/-! ## Queueing -/

/-- `INSERT INTO print_jobs`. -/
def insertPrintJob (ctx : LabelContext) (request : PrintRequest) (outbox : Outbox) :
    Sql (PrintJob × Outbox) := do
  let row ← guardPrintJobInsert ctx request
  require row.checks .checkViolation "print job check"
  require (outbox.jobs row.id = none) .uniqueViolation "print_jobs_pkey"
  pure (row, { outbox with jobs := Function.update outbox.jobs row.id (some row) })

/-- `enqueue`, with the id that it draws. -/
def Outbox.enqueue (ctx : LabelContext) (request : PrintRequest) (outbox : Outbox) :
    Service (PrintJob × Outbox) := do
  let _ ← Service.fetch (ctx.templates.find? (·.id = request.templateId)) .labelNotFound
    "Label template not found"
  let _ ← Service.fetch (ctx.targets.find? (·.id = request.entityId)) .labelNotFound
    "Asset not found"
  Service.execute (insertPrintJob ctx
    { request with adapterName := adapterFor request.outputFormat } outbox)

/-! ## Runs -/

/-- A request on the outbox. -/
inductive PrintAction
  | enqueue (ctx : LabelContext) (request : PrintRequest)
  | dispatch (env : Circumstances) (id : Uuid)

/-- What a request leaves behind, whether it commits or not. -/
def Outbox.step (renderer : Renderer) (sha256 : List UInt8 → String) (outbox : Outbox) :
    PrintAction → Outbox
  | .enqueue ctx request =>
      match outbox.enqueue ctx request with
      | .ok (_, after) => after
      | .error _ => outbox
  | .dispatch env id => (outbox.dispatch env renderer sha256 id).1

/-- Requests one after another. -/
def Outbox.run (renderer : Renderer) (sha256 : List UInt8 → String) (actions : List PrintAction)
    (outbox : Outbox) : Outbox :=
  actions.foldl (Outbox.step renderer sha256) outbox

/-- Nothing queued, nothing published. -/
def Outbox.empty : Outbox := ⟨fun _ => none, fun _ => none⟩

end FleetOps.Labels
