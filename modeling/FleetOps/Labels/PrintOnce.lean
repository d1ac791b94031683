import FleetOps.Labels.PrintJobs

/-!
# A print job publishes once

Whatever befalls the dispatches of a job, its artifact is the one that its
snapshot renders to, and a job that has succeeded names that artifact's digest.
`Outbox.Sound` says so of one state, `Outbox.Evolves` of two states of a run.  A
dispatch keeps both wherever it stops (`Outbox.Sound.dispatch`).
-/

namespace FleetOps.Labels

open WriteOnce

/-! ## What the steps of a dispatch leave behind -/

section

variable {env : Circumstances} {content : List UInt8} {path : ArtifactPath} {files : Files}
  {sha256 : List UInt8 → String} {renderer : Renderer} {digest : String} {u : Unit}

@[simp] theorem available_eq_ok {condition : Prop} [Decidable condition] {message : String} :
    available condition message = .ok u ↔ condition := by
  unfold available
  split <;> simp_all

@[simp] theorem survive_eq_ok {point : CrashPoint} :
    env.survive point = .ok u ↔ env.crash ≠ some point := by
  unfold Circumstances.survive
  split <;> simp_all

@[simp] theorem passing_eq_ok {α : Type} {service : Service α} {value : α} :
    passing service = .ok value ↔ service = .ok value := by
  cases service <;> simp [passing, Except.mapError]

theorem prepareArtifact_eq_ok : prepareArtifact env content = .ok u ↔
    content.length ≤ artifactLimit ∧ env.prepares = true ∧
      env.crash ≠ some .beforeLinking ∧ env.links = true := by
  simp only [prepareArtifact, bind_eq_ok, available_eq_ok, survive_eq_ok, exists_unit]

theorem readFile_eq_ok {reads : Bool} {found : List UInt8} :
    readFile reads files path = .ok found ↔
      files path = some found ∧ found.length ≤ artifactLimit ∧ reads = true := by
  unfold readFile
  cases hfile : files path with
  | none => simp
  | some existing =>
      simp only [Option.elim_some, bind_eq_ok, available_eq_ok, exists_unit, pure_eq_ok,
        Except.ok.injEq, Option.some.injEq, exists_eq_left']
      constructor
      · rintro ⟨hlength, hreads, rfl⟩
        exact ⟨rfl, hlength, hreads⟩
      · rintro ⟨rfl, hlength, hreads⟩
        exact ⟨hlength, hreads, rfl⟩

/-- The comparison is passed where the name is free or carries the same content. -/
theorem compareArtifact_eq_ok : compareArtifact env files path content = .ok u ↔
    ∀ existing, files path = some existing →
      existing = content ∧ existing.length ≤ artifactLimit ∧ env.reads = true := by
  unfold compareArtifact
  cases hfile : files path with
  | none => simp
  | some existing =>
      simp only [Option.isSome_some, if_true, bind_eq_ok, readFile_eq_ok, hfile, available_eq_ok,
        Option.some.injEq]
      constructor
      · rintro ⟨_, ⟨rfl, hlength, hreads⟩, hsame⟩ _ rfl
        exact ⟨hsame, hlength, hreads⟩
      · intro h
        obtain ⟨hsame, hlength, hreads⟩ := h existing rfl
        exact ⟨existing, ⟨rfl, hlength, hreads⟩, hsame⟩

theorem publish_of_prepared (h : prepareArtifact env content = .ok ()) :
    publish env sha256 path content files = (link files path content, do
      compareArtifact env files path content
      env.survive .afterLinking
      available env.finishes "Output cleanup failed"
      pure (sha256 content)) := by
  rw [publish, h]

/-- Wherever `publish` stops, it has linked its content or left the files alone. -/
theorem publish_files : (publish env sha256 path content files).1 = files ∨
    content.length ≤ artifactLimit ∧
      (publish env sha256 path content files).1 = link files path content := by
  cases hprepared : prepareArtifact env content with
  | error stop =>
      left
      rw [publish, hprepared]
  | ok prepared =>
      right
      rw [publish_of_prepared hprepared]
      exact ⟨(prepareArtifact_eq_ok.mp hprepared).1, rfl⟩

/-- Where `publish` returns a digest, the name carries the content with that digest. -/
theorem publish_eq_ok (h : (publish env sha256 path content files).2 = .ok digest) :
    digest = sha256 content ∧
      (publish env sha256 path content files).1 path = some content := by
  cases hprepared : prepareArtifact env content with
  | error stop =>
      rw [publish, hprepared] at h
      exact nomatch h
  | ok prepared =>
      rw [publish_of_prepared hprepared] at h ⊢
      simp only [bind_eq_ok, compareArtifact_eq_ok, survive_eq_ok, available_eq_ok, exists_unit,
        pure_eq_ok] at h
      obtain ⟨hcompared, -, -, rfl⟩ := h
      refine ⟨rfl, ?_⟩
      show link files path content path = some content
      rw [link_self]
      cases hfile : files path with
      | none => rfl
      | some existing => rw [Option.getD_some, (hcompared existing hfile).1]

theorem settle_eq_ok {published : Except Stop String} {outcome : Outcome}
    (h : settle published = .ok outcome) (hstatus : outcome.status = .succeeded) :
    ∃ digest, published = .ok digest ∧ outcome.digest = some digest := by
  unfold settle at h
  split at h
  · obtain rfl := Except.ok.inj h
    exact ⟨_, rfl, rfl⟩
  · obtain rfl := Except.ok.inj h
    exact nomatch hstatus
  · exact nomatch h

variable {request : PrintRequest}

/-- Wherever a delivery stops, it has linked the request's artifact or left the files alone. -/
theorem deliver_files : (deliver env renderer sha256 request files).1 = files ∨
    ∃ content, renderer.artifact request = .ok content ∧ content.length ≤ artifactLimit ∧
      (deliver env renderer sha256 request files).1 = link files request.path content := by
  unfold deliver
  split
  · exact .inl rfl
  split
  · exact .inl rfl
  cases env.rendering with
  | fails => exact .inl rfl
  | breaks => exact .inl rfl
  | succeeds =>
      cases hartifact : renderer.artifact request with
      | error stop => exact .inl rfl
      | ok content =>
          rcases publish_files with hsame | ⟨hlength, hlinked⟩
          · exact .inl hsame
          · exact .inr ⟨content, rfl, hlength, hlinked⟩

/-- A delivery that succeeds has the request's artifact in its place. -/
theorem deliver_eq_ok {outcome : Outcome}
    (h : (deliver env renderer sha256 request files).2 = .ok outcome)
    (hstatus : outcome.status = .succeeded) :
    ∃ content, renderer.artifact request = .ok content ∧
      outcome.digest = some (sha256 content) ∧
        (deliver env renderer sha256 request files).1 request.path = some content := by
  unfold deliver at h ⊢
  split at h
  · obtain rfl := Except.ok.inj h
    exact nomatch hstatus
  rename_i hconfigured
  rw [if_neg hconfigured]
  split at h
  · exact nomatch h
  rename_i hcrash
  rw [if_neg hcrash]
  cases hrendering : env.rendering with
  | fails =>
      rw [hrendering] at h
      obtain rfl := Except.ok.inj h
      exact nomatch hstatus
  | breaks =>
      rw [hrendering] at h
      exact nomatch h
  | succeeds =>
      cases hartifact : renderer.artifact request with
      | error stop =>
          rw [hrendering, hartifact] at h
          exact nomatch h
      | ok content =>
          rw [hrendering, hartifact] at h
          obtain ⟨digest, hpublished, hdigest⟩ := settle_eq_ok h hstatus
          obtain ⟨rfl, hfile⟩ := publish_eq_ok hpublished
          exact ⟨content, rfl, hdigest, hfile⟩

/-! ## What an update leaves behind -/

theorem guardPrintJobUpdate_eq_ok {session : Session} {old new row : PrintJob} :
    guardPrintJobUpdate session old new = .ok row ↔
      new.toPrintRequest = old.toPrintRequest ∧
      (old.status ≠ .succeeded ∧ new.status ≠ .pending) ∧
      ∃ performer, currentAuthenticatedActor session = .ok performer ∧
        old.attempts + 1 ≤ intMax ∧
        { new with
          attempts := old.attempts + 1
          updatedByActorId := some performer
          updatedAt := some session.now } = row := by
  simp only [guardPrintJobUpdate, bind_eq_ok, require_eq_ok, exists_unit, addInteger_eq_ok,
    pure_eq_ok]
  constructor
  · rintro ⟨hrequest, hstatus, performer, hperformer, _, ⟨hmax, rfl⟩, hrow⟩
    exact ⟨hrequest, hstatus, performer, hperformer, hmax, hrow⟩
  · rintro ⟨hrequest, hstatus, performer, hperformer, hmax, hrow⟩
    exact ⟨hrequest, hstatus, performer, hperformer, _, ⟨hmax, rfl⟩, hrow⟩

/-- The row that a delivery leads to. -/
def PrintJob.delivered (job : PrintJob) (session : Session) (outcome : Outcome)
    (performer : Uuid) : PrintJob :=
  { job with
    status := outcome.status
    artifactSha256 := outcome.digest
    errorCode := outcome.errorCode
    attempts := job.attempts + 1
    updatedByActorId := some performer
    updatedAt := some session.now }

theorem updatePrintJob_eq_ok {session : Session} {outcome : Outcome} {old row : PrintJob} :
    updatePrintJob session outcome old = .ok row ↔
      (old.status ≠ .succeeded ∧ outcome.status ≠ .pending) ∧ old.attempts + 1 ≤ intMax ∧
      ∃ performer, currentAuthenticatedActor session = .ok performer ∧
        row = old.delivered session outcome performer ∧ row.checks = true := by
  simp only [updatePrintJob, bind_eq_ok, guardPrintJobUpdate_eq_ok, require_eq_ok, exists_unit,
    pure_eq_ok]
  constructor
  · rintro ⟨_, ⟨-, hstatus, performer, hperformer, hmax, rfl⟩, hchecks, rfl⟩
    exact ⟨hstatus, hmax, performer, hperformer, rfl, hchecks⟩
  · rintro ⟨hstatus, hmax, performer, hperformer, rfl, hchecks⟩
    exact ⟨_, ⟨trivial, hstatus, performer, hperformer, hmax, rfl⟩, hchecks, rfl⟩

theorem recordDelivery_eq_ok {job row : PrintJob} {delivered : Except Stop Outcome} :
    recordDelivery env job delivered = .ok row ↔
      ∃ outcome, delivered = .ok outcome ∧ updatePrintJob env.session outcome job = .ok row ∧
        env.crash ≠ some .beforeCommit ∧ env.commits = true := by
  simp only [recordDelivery, bind_eq_ok, passing_eq_ok, Service.execute_eq_ok, survive_eq_ok,
    exists_unit]
  refine exists_congr fun outcome => and_congr_right fun _ => ?_
  by_cases hcommits : env.commits = true
  · simp [hcommits, and_comm]
  · simp [hcommits]

end

/-! ## Sound states -/

section

variable (renderer : Renderer) (sha256 : List UInt8 → String)

/-- The artifact of a job. -/
def Outbox.IsArtifact (outbox : Outbox) (path : ArtifactPath) (content : List UInt8) : Prop :=
  ∃ job, outbox.jobs path.jobId = some job ∧ job.path = path ∧
    renderer.artifact job.toPrintRequest = .ok content ∧ content.length ≤ artifactLimit

/-- Every file is the artifact of its job, and a job that succeeded has its file. -/
structure Outbox.Sound (outbox : Outbox) : Prop where
  ids : ∀ id job, outbox.jobs id = some job → job.id = id
  checks : ∀ id job, outbox.jobs id = some job → job.checks = true
  filed : Holds (outbox.IsArtifact renderer) outbox.files
  delivered : ∀ id job, outbox.jobs id = some job → job.status = .succeeded →
    ∃ content, outbox.files job.path = some content ∧ job.artifactSha256 = some (sha256 content)

end

/-- Between two states of a run nothing published and nothing delivered is changed. -/
structure Outbox.Evolves (before after : Outbox) : Prop where
  files : Extends before.files after.files
  jobs : ∀ id job, before.jobs id = some job → ∃ later, after.jobs id = some later ∧
    later.toPrintRequest = job.toPrintRequest ∧ (job.status = .succeeded → later = job)

section

variable {renderer : Renderer} {sha256 : List UInt8 → String} {outbox before middle after : Outbox}

theorem Outbox.Evolves.refl (outbox : Outbox) : Evolves outbox outbox :=
  ⟨.refl _, fun _ job hjob => ⟨job, hjob, rfl, fun _ => rfl⟩⟩

theorem Outbox.Evolves.trans (h : Evolves before middle) (h' : Evolves middle after) :
    Evolves before after := by
  refine ⟨h.files.trans h'.files, fun id job hjob => ?_⟩
  obtain ⟨later, hlater, hrequest, hkept⟩ := h.jobs id job hjob
  obtain ⟨last, hlast, hrequest', hkept'⟩ := h'.jobs id later hlater
  refine ⟨last, hlast, hrequest'.trans hrequest, fun hsucceeded => ?_⟩
  obtain rfl := hkept hsucceeded
  exact hkept' hsucceeded

/-- A file stays the artifact of its job. -/
theorem Outbox.IsArtifact.evolves {path : ArtifactPath} {content : List UInt8}
    (h : before.IsArtifact renderer path content) (hevolves : Evolves before after) :
    after.IsArtifact renderer path content := by
  obtain ⟨job, hjob, hpath, hartifact, hlength⟩ := h
  obtain ⟨later, hlater, hrequest, -⟩ := hevolves.jobs _ job hjob
  refine ⟨later, hlater, ?_, ?_, hlength⟩
  · rw [hrequest, hpath]
  · rw [hrequest, hartifact]

/-- Files are linked with the artifacts of jobs alone. -/
theorem Outbox.Sound.linked (h : outbox.Sound renderer sha256) {id : Uuid} {job : PrintJob}
    (hjob : outbox.jobs id = some job) (env : Circumstances) :
    let files := (deliver env renderer sha256 job.toPrintRequest outbox.files).1
    Extends outbox.files files ∧ Holds (outbox.IsArtifact renderer) files := by
  rcases deliver_files with hsame | ⟨content, hartifact, hlength, hlinked⟩
  · exact ⟨fun path content hfile => hsame ▸ hfile, fun path content hfile =>
      h.filed path content (hsame ▸ hfile)⟩
  · have hnew : outbox.IsArtifact renderer job.path content := by
      refine ⟨job, ?_, rfl, hartifact, hlength⟩
      rw [PrintRequest.path, h.ids id job hjob, hjob]
    intro files
    have hfiles : files = link outbox.files job.path content := hlinked
    rw [hfiles]
    exact ⟨extends_link _ _ _, h.filed.link hnew⟩

/-- A lost transaction leaves the files that it linked. -/
theorem Outbox.Sound.lost (h : outbox.Sound renderer sha256) {files : Files}
    (hextends : Extends outbox.files files) (hholds : Holds (outbox.IsArtifact renderer) files) :
    Outbox.Sound renderer sha256 ⟨outbox.jobs, files⟩ ∧ Evolves outbox ⟨outbox.jobs, files⟩ := by
  refine ⟨⟨h.ids, h.checks, hholds, fun id job hjob hstatus => ?_⟩, hextends,
    (Evolves.refl outbox).jobs⟩
  obtain ⟨content, hfile, hdigest⟩ := h.delivered id job hjob hstatus
  exact ⟨content, hextends _ _ hfile, hdigest⟩

/-- A committed transaction also updates the row, which may have succeeded with its file. -/
theorem Outbox.Sound.recorded (h : outbox.Sound renderer sha256) {files : Files}
    (hextends : Extends outbox.files files) (hholds : Holds (outbox.IsArtifact renderer) files)
    {id : Uuid} {job row : PrintJob} (hjob : outbox.jobs id = some job)
    (hstatus : job.status ≠ .succeeded) (hrequest : row.toPrintRequest = job.toPrintRequest)
    (hchecks : row.checks = true) (hfile : row.status = .succeeded →
      ∃ content, files row.path = some content ∧ row.artifactSha256 = some (sha256 content)) :
    Outbox.Sound renderer sha256 ⟨Function.update outbox.jobs id (some row), files⟩ ∧
      Evolves outbox ⟨Function.update outbox.jobs id (some row), files⟩ := by
  have hevolves : Evolves outbox ⟨Function.update outbox.jobs id (some row), files⟩ := by
    refine ⟨hextends, fun other old hold => ?_⟩
    by_cases hsame : other = id
    · subst hsame
      obtain rfl : job = old := Option.some.inj (hjob.symm.trans hold)
      exact ⟨row, Function.update_self .., hrequest, fun hs => absurd hs hstatus⟩
    · exact ⟨old, (Function.update_of_ne hsame ..).trans hold, rfl, fun _ => rfl⟩
  have hcases : ∀ other new, Function.update outbox.jobs id (some row) other = some new →
      (other = id ∧ new = row) ∨ outbox.jobs other = some new := by
    intro other new hnew
    by_cases hsame : other = id
    · subst hsame
      exact .inl ⟨rfl, by simpa using hnew.symm⟩
    · rw [Function.update_of_ne hsame] at hnew
      exact .inr hnew
  refine ⟨⟨fun other new hnew => ?_, fun other new hnew => ?_, fun path content hlinked =>
    (hholds path content hlinked).evolves hevolves, fun other new hnew hs => ?_⟩,
    hevolves⟩
  · rcases hcases other new hnew with ⟨rfl, rfl⟩ | hold
    · rw [hrequest, h.ids other job hjob]
    · exact h.ids other new hold
  · rcases hcases other new hnew with ⟨rfl, rfl⟩ | hold
    · exact hchecks
    · exact h.checks other new hold
  · rcases hcases other new hnew with ⟨rfl, rfl⟩ | hold
    · exact hfile hs
    · obtain ⟨content, hlinked, hdigest⟩ := h.delivered other new hold hs
      exact ⟨content, hextends _ _ hlinked, hdigest⟩

/-- Wherever a dispatch stops, the state is sound and only evolves. -/
theorem Outbox.Sound.dispatch (h : outbox.Sound renderer sha256) (env : Circumstances) (id : Uuid) :
    (outbox.dispatch env renderer sha256 id).1.Sound renderer sha256 ∧
      Evolves outbox (outbox.dispatch env renderer sha256 id).1 := by
  unfold Outbox.dispatch
  cases hfound : outbox.getJob id with
  | error failure => exact ⟨h, .refl _⟩
  | ok job =>
      have hjob : outbox.jobs id = some job := by simpa [Outbox.getJob] using hfound
      by_cases hstatus : job.status = .succeeded
      · simp only [hstatus, if_true]
        exact ⟨h, .refl _⟩
      · simp only [hstatus, if_false]
        obtain ⟨hextends, hholds⟩ := h.linked hjob env
        cases hrecorded : recordDelivery env job
            (deliver env renderer sha256 job.toPrintRequest outbox.files).2 with
        | error stop => exact h.lost hextends hholds
        | ok row =>
            obtain ⟨outcome, houtcome, hupdate, -⟩ := recordDelivery_eq_ok.mp hrecorded
            obtain ⟨-, -, performer, -, hrow, hchecks⟩ := updatePrintJob_eq_ok.mp hupdate
            have hrequest : row.toPrintRequest = job.toPrintRequest := by rw [hrow]; rfl
            refine h.recorded hextends hholds hjob hstatus hrequest hchecks fun hsucceeded => ?_
            have houtcome' : outcome.status = .succeeded := by
              rw [hrow] at hsucceeded
              exact hsucceeded
            obtain ⟨content, -, hdigest, hfile⟩ := deliver_eq_ok houtcome houtcome'
            refine ⟨content, by rw [hrequest, hfile], ?_⟩
            rw [hrow]
            exact hdigest

/-! ## Queueing -/

theorem guardPrintJobInsert_eq_ok {ctx : LabelContext} {request : PrintRequest} {row : PrintJob}
    (h : guardPrintJobInsert ctx request = .ok row) :
    row.id = request.id ∧ row.status = .pending := by
  simp only [guardPrintJobInsert, bind_eq_ok, demand_eq_ok, pure_eq_ok] at h
  obtain ⟨target, -, template, -, performer, -, rfl⟩ := h
  exact ⟨rfl, rfl⟩

theorem Outbox.enqueue_eq_ok {ctx : LabelContext} {request : PrintRequest} {row : PrintJob}
    (h : outbox.enqueue ctx request = .ok (row, after)) :
    outbox.jobs row.id = none ∧ row.checks = true ∧ row.status = .pending ∧
      after = { outbox with jobs := Function.update outbox.jobs row.id (some row) } := by
  simp only [Outbox.enqueue, bind_eq_ok, Service.execute_eq_ok, insertPrintJob, require_eq_ok,
    exists_unit, pure_eq_ok, Prod.mk.injEq] at h
  obtain ⟨-, -, -, -, _, hguard, hchecks, hfree, rfl, rfl⟩ := h
  exact ⟨hfree, hchecks, (guardPrintJobInsert_eq_ok hguard).2, rfl⟩

theorem Outbox.Sound.enqueue (h : outbox.Sound renderer sha256) {ctx : LabelContext}
    {request : PrintRequest} {row : PrintJob}
    (hqueued : outbox.enqueue ctx request = .ok (row, after)) :
    after.Sound renderer sha256 ∧ Evolves outbox after := by
  obtain ⟨hfree, hchecks, hpending, rfl⟩ := Outbox.enqueue_eq_ok hqueued
  have hevolves : Evolves outbox
      { outbox with jobs := Function.update outbox.jobs row.id (some row) } := by
    refine ⟨.refl _, fun id job hjob => ⟨job, ?_, rfl, fun _ => rfl⟩⟩
    have hne : id ≠ row.id := by
      rintro rfl
      exact nomatch hfree.symm.trans hjob
    exact (Function.update_of_ne hne ..).trans hjob
  -- A job is the new one, which is pending, or one that was there.
  have hcases : ∀ id job, Function.update outbox.jobs row.id (some row) id = some job →
      (id = row.id ∧ job = row) ∨ outbox.jobs id = some job := by
    intro id job hjob
    by_cases hsame : id = row.id
    · subst hsame
      exact .inl ⟨rfl, by simpa using hjob.symm⟩
    · rw [Function.update_of_ne hsame] at hjob
      exact .inr hjob
  refine ⟨⟨fun id job hjob => ?_, fun id job hjob => ?_, fun path content hfile =>
    (h.filed path content hfile).evolves hevolves, fun id job hjob hs => ?_⟩, hevolves⟩
  · rcases hcases id job hjob with ⟨rfl, rfl⟩ | hold
    · rfl
    · exact h.ids id job hold
  · rcases hcases id job hjob with ⟨rfl, rfl⟩ | hold
    · exact hchecks
    · exact h.checks id job hold
  · rcases hcases id job hjob with ⟨rfl, rfl⟩ | hold
    · exact nomatch hpending.symm.trans hs
    · exact h.delivered id job hold hs

/-! ## Runs -/

theorem Outbox.Sound.step (h : outbox.Sound renderer sha256) (action : PrintAction) :
    (outbox.step renderer sha256 action).Sound renderer sha256 ∧
      Evolves outbox (outbox.step renderer sha256 action) := by
  cases action with
  | dispatch env id => exact h.dispatch env id
  | enqueue ctx request =>
      simp only [Outbox.step]
      cases hqueued : outbox.enqueue ctx request with
      | error failure => exact ⟨h, .refl _⟩
      | ok queued =>
          obtain ⟨row, after⟩ := queued
          exact h.enqueue hqueued

theorem Outbox.Sound.run (actions : List PrintAction) {outbox : Outbox}
    (h : outbox.Sound renderer sha256) :
    (outbox.run renderer sha256 actions).Sound renderer sha256 ∧
      Evolves outbox (outbox.run renderer sha256 actions) := by
  induction actions generalizing outbox with
  | nil => exact ⟨h, .refl _⟩
  | cons action rest ih =>
      obtain ⟨hsound, hevolves⟩ := h.step action
      obtain ⟨hrun, hlater⟩ := ih hsound
      exact ⟨hrun, hevolves.trans hlater⟩

theorem Outbox.Sound.empty : Outbox.empty.Sound renderer sha256 := by
  constructor
  · exact fun _ _ h => nomatch h
  · exact fun _ _ h => nomatch h
  · exact fun _ _ h => nomatch h
  · exact fun _ _ h => nomatch h

/-! ## Retries -/

/-- Rendering and output are available to an authenticated request that commits. -/
structure Circumstances.Clear (env : Circumstances) : Prop where
  authenticated : ∃ performer, currentAuthenticatedActor env.session = .ok performer
  now : env.session.now.isFinite = true
  configured : env.configured = true
  rendering : env.rendering = .succeeds
  prepares : env.prepares = true
  links : env.links = true
  reads : env.reads = true
  finishes : env.finishes = true
  crash : env.crash = none
  commits : env.commits = true

/-- With its artifact in place a delivery succeeds and links nothing. -/
theorem deliver_of_file {env : Circumstances} (henv : env.Clear) {request : PrintRequest}
    {files : Files} {content : List UInt8} (hartifact : renderer.artifact request = .ok content)
    (hlength : content.length ≤ artifactLimit) (hfile : files request.path = some content) :
    deliver env renderer sha256 request files =
      (files, .ok ⟨.succeeded, some (sha256 content), none⟩) := by
  have hprepared : prepareArtifact env content = .ok () := by
    refine prepareArtifact_eq_ok.mpr ⟨hlength, henv.prepares, ?_, henv.links⟩
    simp [henv.crash]
  have hpublished : publish env sha256 request.path content files =
      (files, .ok (sha256 content)) := by
    rw [publish_of_prepared hprepared, link_of_taken hfile]
    refine Prod.ext rfl ?_
    simp only [bind_eq_ok, compareArtifact_eq_ok, survive_eq_ok, available_eq_ok, exists_unit,
      pure_eq_ok, henv.crash, henv.finishes, and_true]
    refine ⟨fun existing hexisting => ?_, by decide⟩
    obtain rfl : content = existing := Option.some.inj (hfile.symm.trans hexisting)
    exact ⟨rfl, hlength, henv.reads⟩
  simp only [deliver, henv.configured, henv.crash, henv.rendering, hartifact, hpublished, settle,
    Bool.not_true, Bool.false_eq_true, if_false, reduceCtorEq]

/-- The row of a delivery passes the constraints if what is delivered fits its status. -/
theorem PrintJob.checks_delivered {job : PrintJob} (h : job.checks = true) {session : Session}
    (hnow : session.now.isFinite = true) {outcome : Outcome} {performer : Uuid}
    (houtcome : (outcome.status = .succeeded ∧ outcome.digest.any isSha256 = true ∧
        outcome.errorCode = none) ∨
      (outcome.status = .failed ∧ outcome.digest = none ∧ outcome.errorCode ≠ none)) :
    (job.delivered session outcome performer).checks = true := by
  simp only [PrintJob.checks, Bool.and_eq_true, decide_eq_true_eq] at h ⊢
  obtain ⟨⟨⟨⟨hadapter, hsnapshot⟩, -⟩, hrequested⟩, -⟩ := h
  refine ⟨⟨⟨⟨hadapter, hsnapshot⟩, ?_⟩, hrequested⟩, by simpa [PrintJob.delivered] using hnow⟩
  rcases houtcome with ⟨hstatus, hdigest, herror⟩ | ⟨hstatus, hdigest, herror⟩
  · simp [Delivery.check, PrintJob.delivered, hstatus, hdigest, herror]
  · simp [Delivery.check, PrintJob.delivered, hstatus, hdigest, herror]

/-- The job of a file renders to that file. -/
theorem Outbox.Sound.artifact (h : outbox.Sound renderer sha256) {id : Uuid} {job : PrintJob}
    (hjob : outbox.jobs id = some job) {content : List UInt8}
    (hfile : outbox.files job.path = some content) :
    renderer.artifact job.toPrintRequest = .ok content ∧ content.length ≤ artifactLimit := by
  obtain ⟨owner, howner, -, hartifact, hlength⟩ := h.filed _ content hfile
  have hid : job.path.jobId = id := h.ids id job hjob
  rw [hid, hjob] at howner
  obtain rfl := Option.some.inj howner
  exact ⟨hartifact, hlength⟩

/-- A clear dispatch of a job that has its file ends with the job succeeded and that file. -/
theorem Outbox.Sound.retry (h : outbox.Sound renderer sha256)
    (hhash : ∀ content, isSha256 (sha256 content) = true) {id : Uuid} {job : PrintJob}
    (hjob : outbox.jobs id = some job) {content : List UInt8}
    (hfile : outbox.files job.path = some content) {env : Circumstances} (henv : env.Clear)
    (hattempts : job.status = .succeeded ∨ job.attempts < intMax) :
    ∃ row, (outbox.dispatch env renderer sha256 id).2 = .ok row ∧
      (outbox.dispatch env renderer sha256 id).1.jobs id = some row ∧
      (outbox.dispatch env renderer sha256 id).1.files = outbox.files ∧
      row.status = .succeeded ∧ row.artifactSha256 = some (sha256 content) := by
  obtain ⟨hartifact, hlength⟩ := h.artifact hjob hfile
  have hfound : outbox.getJob id = .ok job := by simp [Outbox.getJob, hjob]
  by_cases hstatus : job.status = .succeeded
  · obtain ⟨published, hpublished, hdigest⟩ := h.delivered id job hjob hstatus
    obtain rfl : content = published := Option.some.inj (hfile.symm.trans hpublished)
    have hread : outbox.readArtifact sha256 env.configured env.reads id = .ok (job, content) := by
      simp only [Outbox.readArtifact, bind_eq_ok, passing_eq_ok, hfound, Service.ensure_eq_ok,
        available_eq_ok, readFile_eq_ok, exists_unit, pure_eq_ok, Prod.mk.injEq]
      exact ⟨job, rfl, hstatus, henv.configured, content, ⟨hfile, hlength, henv.reads⟩,
        hdigest.symm, rfl, rfl⟩
    have hdispatch : outbox.dispatch env renderer sha256 id = (outbox, .ok job) := by
      rw [Outbox.dispatch, hfound]
      simp only [hstatus, if_true, hread]
      rfl
    rw [hdispatch]
    exact ⟨job, rfl, hjob, rfl, hstatus, hdigest⟩
  · obtain ⟨performer, hperformer⟩ := henv.authenticated
    let outcome : Outcome := ⟨.succeeded, some (sha256 content), none⟩
    let row := job.delivered env.session outcome performer
    have hattempt : job.attempts + 1 ≤ intMax := hattempts.resolve_left hstatus
    have hchecks : row.checks = true :=
      PrintJob.checks_delivered (h.checks id job hjob) henv.now (.inl ⟨rfl, hhash content, rfl⟩)
    have hupdate : updatePrintJob env.session outcome job = .ok row :=
      updatePrintJob_eq_ok.mpr
        ⟨⟨hstatus, by simp [outcome]⟩, hattempt, performer, hperformer, rfl, hchecks⟩
    have hrecorded : recordDelivery env job (.ok outcome) = .ok row := by
      refine recordDelivery_eq_ok.mpr ⟨outcome, rfl, hupdate, ?_, henv.commits⟩
      simp [henv.crash]
    have hdispatch : outbox.dispatch env renderer sha256 id =
        (⟨Function.update outbox.jobs id (some row), outbox.files⟩, .ok row) := by
      rw [Outbox.dispatch, hfound]
      simp only [hstatus, if_false, deliver_of_file henv hartifact hlength hfile]
      rw [hrecorded]
    rw [hdispatch]
    exact ⟨row, rfl, Function.update_self .., rfl, rfl, rfl⟩

/-- What is read is what the job names. -/
theorem readArtifact_eq_ok {configured reads : Bool} {id : Uuid} {job : PrintJob}
    {content : List UInt8}
    (h : outbox.readArtifact sha256 configured reads id = .ok (job, content)) :
    outbox.jobs id = some job ∧ outbox.files job.path = some content ∧
      job.status = .succeeded ∧ job.artifactSha256 = some (sha256 content) := by
  simp only [Outbox.readArtifact, bind_eq_ok, passing_eq_ok, Outbox.getJob, Service.fetch_eq_ok,
    Service.ensure_eq_ok, available_eq_ok, readFile_eq_ok, exists_unit, pure_eq_ok,
    Prod.mk.injEq] at h
  obtain ⟨_, hjob, hstatus, -, _, ⟨hfile, -, -⟩, hdigest, rfl, rfl⟩ := h
  exact ⟨hjob, hfile, hstatus, hdigest.symm⟩

end

/-- A job publishes once: what has succeeded stays as it is and names its file's digest, no file is
ever changed, a job whose file is in place succeeds with it as soon as rendering and output are
available and its attempts can still be counted, and only content with the job's digest is read. -/
theorem printOnce (renderer : Renderer) (sha256 : List UInt8 → String)
    (hhash : ∀ content, isSha256 (sha256 content) = true) (actions later : List PrintAction) :
    let before := Outbox.empty.run renderer sha256 actions
    let after := before.run renderer sha256 later
    (∀ id job, before.jobs id = some job → job.status = .succeeded →
      after.jobs id = some job ∧ ∃ content, after.files job.path = some content ∧
        job.artifactSha256 = some (sha256 content)) ∧
    (∀ path content, before.files path = some content → after.files path = some content) ∧
    (∀ id job content env, before.jobs id = some job → before.files job.path = some content →
      env.Clear → job.status = .succeeded ∨ job.attempts < intMax →
      ∃ row, (before.dispatch env renderer sha256 id).2 = .ok row ∧
        (before.dispatch env renderer sha256 id).1.jobs id = some row ∧
        (before.dispatch env renderer sha256 id).1.files = before.files ∧
        row.status = .succeeded ∧ row.artifactSha256 = some (sha256 content)) ∧
    ∀ (outbox : Outbox) configured reads id job content,
      outbox.readArtifact sha256 configured reads id = .ok (job, content) →
        outbox.files job.path = some content ∧ job.artifactSha256 = some (sha256 content) := by
  intro before after
  have hsound : before.Sound renderer sha256 := (Outbox.Sound.empty.run actions).1
  obtain ⟨hafter, hevolves⟩ := hsound.run later
  refine ⟨fun id job hjob hstatus => ?_, hevolves.files, ?_, ?_⟩
  · obtain ⟨row, hrow, -, hkept⟩ := hevolves.jobs id job hjob
    obtain rfl := hkept hstatus
    exact ⟨hrow, hafter.delivered id _ hrow hstatus⟩
  · intro id job content env hjob hfile henv hattempts
    exact hsound.retry hhash hjob hfile henv hattempts
  · intro outbox configured reads id job content hread
    obtain ⟨-, hfile, -, hdigest⟩ := readArtifact_eq_ok hread
    exact ⟨hfile, hdigest⟩

/-! ## The counter of attempts -/

/-- A renderer of one image. -/
def sampleRenderer : Renderer where
  Image := Unit
  render _ := ()
  pngBytes _ := [137, 80]
  convert _ := blankLabel
  pdfBytes _ := [37, 80]
  tobytes := packedBytes

/-- The SHA-256 of the sample's bytes; no other content is hashed in it. -/
def sampleHash (content : List UInt8) : String :=
  if content = [137, 80] then "ceb31d4697a6ea6c5b1f1c11d5e80712847b7d989d9b337eaaa24eea470708a2"
  else String.ofList (List.replicate 64 '0')

/-- A request of the sample's actor. -/
def samplePrinting : Session := ⟨some 1, some ⟨1, some 2⟩, none, .at 0⟩

/-- An Asset and a template to label it with. -/
def sampleLabels : LabelContext :=
  ⟨samplePrinting, [⟨3, [.id], .datamatrix⟩], [⟨4, none, none, none⟩]⟩

/-- A job for that label. -/
def sampleRequest : PrintRequest :=
  ⟨5, 1, 3, 4, 2, .at 0, .file, .png, ⟨uuidText 4, none, none, none, [.id], .datamatrix⟩⟩

/-- Nothing fails. -/
def sampleClear : Circumstances :=
  ⟨samplePrinting, true, .succeeds, true, true, true, true, none, true⟩

/-- The queued job. -/
def sampleJob : PrintJob := { sampleRequest with }

/-- The file is linked and the process dies. -/
def sampleCrash : Circumstances := { sampleClear with crash := some .afterLinking }

/-- Rendering fails. -/
def sampleFailing : Circumstances := { sampleClear with rendering := .fails }

theorem sampleClear_clear : sampleClear.Clear :=
  ⟨⟨2, rfl⟩, rfl, rfl, rfl, rfl, rfl, rfl, rfl, rfl, rfl⟩

/-- The job after some failed attempts. -/
def sampleFailed (attempts : ℕ) : PrintJob :=
  if attempts = 0 then sampleJob
  else { sampleJob with
    status := .failed
    errorCode := some .renderFailed
    attempts
    updatedByActorId := some 2
    updatedAt := some (.at 0) }

theorem dispatch_failing {outbox : Outbox} {attempts : ℕ}
    (hjob : outbox.jobs 5 = some (sampleFailed attempts)) (hattempts : attempts < intMax) :
    let after := (outbox.dispatch sampleFailing sampleRenderer sampleHash 5).1
    after.jobs 5 = some (sampleFailed (attempts + 1)) ∧ after.files = outbox.files := by
  let outcome : Outcome := ⟨.failed, none, some .renderFailed⟩
  have hstatus : (sampleFailed attempts).status ≠ .succeeded := by
    unfold sampleFailed
    split <;> exact nofun
  have hrow : (sampleFailed attempts).delivered samplePrinting outcome 2 =
      sampleFailed (attempts + 1) := by
    by_cases hzero : attempts = 0
    · subst hzero
      rfl
    · rw [sampleFailed, if_neg hzero, sampleFailed, if_neg (Nat.succ_ne_zero attempts)]
      rfl
  have hrequest : (sampleFailed attempts).toPrintRequest = sampleRequest := by
    unfold sampleFailed
    split <;> rfl
  have hattempt : (sampleFailed attempts).attempts = attempts := by
    unfold sampleFailed
    split
    · rename_i hzero
      exact hzero.symm
    · rfl
  have hsnapshot : sampleRequest.renderSnapshot.id = uuidText sampleRequest.entityId := rfl
  have hchecks : (sampleFailed (attempts + 1)).checks = true := by
    simp [sampleFailed, PrintJob.checks, Delivery.check, sampleJob, sampleRequest, adapterFor,
      Timestamp.isFinite]
  have hupdate : updatePrintJob samplePrinting outcome (sampleFailed attempts) =
      .ok (sampleFailed (attempts + 1)) := by
    refine updatePrintJob_eq_ok.mpr ⟨⟨hstatus, nofun⟩, ?_, 2, rfl, hrow.symm, hchecks⟩
    rw [hattempt]
    exact hattempts
  have hdelivered : deliver sampleFailing sampleRenderer sampleHash
      (sampleFailed attempts).toPrintRequest outbox.files = (outbox.files, .ok outcome) := rfl
  have hrecorded : recordDelivery sampleFailing (sampleFailed attempts) (.ok outcome) =
      .ok (sampleFailed (attempts + 1)) :=
    recordDelivery_eq_ok.mpr ⟨outcome, rfl, hupdate, nofun, rfl⟩
  have hfound : outbox.getJob 5 = .ok (sampleFailed attempts) := by simp [Outbox.getJob, hjob]
  intro after
  have hdispatch : after =
      ⟨Function.update outbox.jobs 5 (some (sampleFailed (attempts + 1))), outbox.files⟩ := by
    simp only [after, Outbox.dispatch, hfound, hstatus, if_false, hdelivered]
    rw [hrecorded]
  rw [hdispatch]
  exact ⟨Function.update_self (5 : Uuid) _ outbox.jobs, rfl⟩

/-- Each failed dispatch is counted. -/
theorem run_failing {outbox : Outbox} (hjob : outbox.jobs 5 = some (sampleFailed 0))
    {attempts : ℕ} (hattempts : attempts ≤ intMax) :
    let after := outbox.run sampleRenderer sampleHash
      (List.replicate attempts (.dispatch sampleFailing 5))
    after.jobs 5 = some (sampleFailed attempts) ∧ after.files = outbox.files := by
  induction attempts with
  | zero => exact ⟨hjob, rfl⟩
  | succ attempts ih =>
      obtain ⟨hfailed, hfiles⟩ := ih (by omega)
      rw [List.replicate_succ', Outbox.run, List.foldl_append]
      obtain ⟨hnext, hkept⟩ := dispatch_failing hfailed hattempts
      exact ⟨hnext, hkept.trans hfiles⟩

/-- A dispatch that returns has found the job delivered or has counted an attempt. -/
theorem dispatch_counts {renderer : Renderer} {sha256 : List UInt8 → String} {outbox : Outbox}
    {env : Circumstances} {id : Uuid} {job row : PrintJob} (hjob : outbox.jobs id = some job)
    (h : (outbox.dispatch env renderer sha256 id).2 = .ok row) :
    job.status = .succeeded ∨ job.attempts + 1 ≤ intMax := by
  by_cases hstatus : job.status = .succeeded
  · exact .inl hstatus
  right
  have hfound : outbox.getJob id = .ok job := by simp [Outbox.getJob, hjob]
  rw [Outbox.dispatch, hfound] at h
  simp only [hstatus, if_false] at h
  cases hrecorded : recordDelivery env job
      (deliver env renderer sha256 job.toPrintRequest outbox.files).2 with
  | error stop =>
      rw [hrecorded] at h
      exact nomatch h
  | ok row =>
      obtain ⟨_, -, hupdate, -⟩ := recordDelivery_eq_ok.mp hrecorded
      exact (updatePrintJob_eq_ok.mp hupdate).2.1

/-- After as many failed dispatches as the counter counts, the job never succeeds, although its
file is in place. -/
theorem printOnce_exhausted :
    ¬∀ (actions : List PrintAction) id job content env,
      let outbox := Outbox.empty.run sampleRenderer sampleHash actions
      outbox.jobs id = some job → outbox.files job.path = some content → env.Clear →
        ∃ row, (outbox.dispatch env sampleRenderer sampleHash id).2 = .ok row ∧
          row.status = .succeeded := by
  intro hall
  let crashed := Outbox.empty.run sampleRenderer sampleHash
    [.enqueue sampleLabels sampleRequest, .dispatch sampleCrash 5]
  have hjob : crashed.jobs 5 = some (sampleFailed 0) := by decide
  have hfile : crashed.files sampleRequest.path = some [137, 80] := by decide
  obtain ⟨hfailed, hkept⟩ := run_failing hjob (Nat.le_refl intMax)
  have hrequest : (sampleFailed intMax).path = sampleRequest.path := by
    unfold sampleFailed
    split <;> rfl
  have hsplit : Outbox.empty.run sampleRenderer sampleHash
      ([.enqueue sampleLabels sampleRequest, .dispatch sampleCrash 5] ++
        List.replicate intMax (.dispatch sampleFailing 5)) =
      crashed.run sampleRenderer sampleHash (List.replicate intMax (.dispatch sampleFailing 5)) :=
    List.foldl_append ..
  have hrun := hall ([.enqueue sampleLabels sampleRequest, .dispatch sampleCrash 5] ++
    List.replicate intMax (.dispatch sampleFailing 5)) 5 (sampleFailed intMax) [137, 80] sampleClear
  rw [hsplit] at hrun
  generalize crashed.run sampleRenderer sampleHash
    (List.replicate intMax (.dispatch sampleFailing 5)) = outbox at hrun hfailed hkept
  have hplace : outbox.files (sampleFailed intMax).path = some [137, 80] := by
    rw [hrequest, hkept, hfile]
  obtain ⟨row, hrow, -⟩ := hrun hfailed hplace sampleClear_clear
  have hpositive : intMax ≠ 0 := by decide
  rcases dispatch_counts hfailed hrow with hstatus | hcount
  · simp [sampleFailed, hpositive] at hstatus
  · simp [sampleFailed, hpositive] at hcount

/-- The sample's job, whose file a crash left in place, succeeds with it when nothing fails. -/
theorem printOnce_retry :
    let crashed := Outbox.empty.run sampleRenderer sampleHash
      [.enqueue sampleLabels sampleRequest, .dispatch sampleCrash 5]
    ∃ row, (crashed.dispatch sampleClear sampleRenderer sampleHash 5).2 = .ok row ∧
      row.status = .succeeded := by
  intro crashed
  have hhash : ∀ content, isSha256 (sampleHash content) = true := by
    intro content
    unfold sampleHash
    split
    · decide
    · decide
  obtain ⟨-, -, hretry, -⟩ := printOnce sampleRenderer sampleHash hhash
    [.enqueue sampleLabels sampleRequest, .dispatch sampleCrash 5] []
  have hjob : crashed.jobs 5 = some sampleJob := by decide
  have hfile : crashed.files sampleJob.path = some [137, 80] := by decide
  obtain ⟨row, hrow, -, -, hstatus, -⟩ := hretry 5 sampleJob _ sampleClear hjob hfile
    sampleClear_clear (.inr (by decide))
  exact ⟨row, hrow, hstatus⟩

end FleetOps.Labels
