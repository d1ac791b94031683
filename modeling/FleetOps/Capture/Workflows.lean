import FleetOps.Capture.Conflicts
import FleetOps.Receiving.Exactness

/-!
# Two workflows

Receiving exceptions keep a row that projects their events; conflicts derive
everything from theirs.  Both are the same workflow: in every reachable state
the report is the fold of a legal log (`Reports`), and each side accepts exactly
the requests that the workflow's edges accept (`EventLog.verdicts`).
-/

namespace FleetOps

open Keys

/-! ## Reports -/

/-- What a workflow's row reports. -/
def ExceptionWorkflow.view (w : ExceptionWorkflow) : WorkflowView where
  status := w.status
  eventSeq := w.eventSeq
  resolvedByActorId := w.resolvedByActorId
  resolvedAt := w.resolvedAt
  resolutionNote := w.resolutionNote

/-- A report is the fold of a legal log: the status that the log leaves, the number of its events,
and the resolution that the terminal event made, if there is one. -/
structure Reports (log : List ExceptionEvent) (view : WorkflowView) : Prop where
  legal : LegalLog log
  status : view.status = log.foldl (fun _ event => event.toStatus) .open
  eventSeq : view.eventSeq = log.length
  resolved : ∀ event ∈ log, event.toStatus.terminal = true →
    view.resolvedByActorId = some event.actorId ∧ view.resolvedAt = some event.occurredAt ∧
      view.resolutionNote = event.note
  unresolved : (∀ event ∈ log, event.toStatus.terminal = false) →
    view.resolvedByActorId = none ∧ view.resolvedAt = none ∧ view.resolutionNote = none

/-- What the newest event says, reported. -/
theorem reports_of_latest {log : List ExceptionEvent} (hlegal : LegalLog log) {view : WorkflowView}
    (hstatus : view.status = (log.getLast?.map ExceptionEvent.toStatus).getD .open)
    (hseq : view.eventSeq = (log.getLast?.map ExceptionEvent.eventSeq).getD 0)
    (hactor : view.resolvedByActorId =
      (log.getLast?.bind ExceptionEvent.resolution).map ExceptionEvent.actorId)
    (hat : view.resolvedAt =
      (log.getLast?.bind ExceptionEvent.resolution).map ExceptionEvent.occurredAt)
    (hnote : view.resolutionNote =
      (log.getLast?.bind ExceptionEvent.resolution).bind ExceptionEvent.note) :
    Reports log view := by
  refine ⟨hlegal, ?_, hseq.trans hlegal.number_latest, ?_, ?_⟩
  · rw [hstatus]
    cases log using List.reverseRecOn <;> simp
  · intro event hevent hterminal
    obtain ⟨earlier, later, rfl⟩ := List.append_of_mem hevent
    -- Nothing follows a terminal event, so it is the newest one.
    have hwhole : LegalLog ((earlier ++ [event]) ++ later) := by simpa using hlegal
    have hlast : later = [] := by
      refine EventLog.Legal.eq_nil_of_terminal hwhole ?_
      rw [EventLog.status_concat]
      exact ExceptionStatus.not_admits hterminal
    subst hlast
    simp only [List.getLast?_concat, Option.bind_some, ExceptionEvent.resolution, hterminal,
      if_true, Option.map_some] at hactor hat hnote
    exact ⟨hactor, hat, hnote⟩
  · intro hopen
    have hnone : log.getLast?.bind ExceptionEvent.resolution = none := by
      cases hlast : log.getLast? with
      | none => rfl
      | some event =>
          have hevent := hopen event (List.mem_of_getLast? hlast)
          simp [ExceptionEvent.resolution, hevent]
    rw [hnone] at hactor hat hnote
    exact ⟨hactor, hat, hnote⟩

/-- The row of a logged exception reports its log. -/
theorem Tenant.Logged.reports {t : Tenant} {o : ReceivingException} (h : t.Logged o) :
    ∃ w, t.workflow? o.id = some w ∧ Reports (t.eventsOf o.id) w.view := by
  refine ⟨_, h.projection, ?_⟩
  rw [foldl_after]
  refine reports_of_latest h.legal ?_ ?_ ?_ ?_ ?_ <;>
    cases (t.eventsOf o.id).getLast? <;> rfl

/-! ## Conflicts -/

/-- Conflicts have keys, and their events are legal logs. -/
structure ConflictTables.Sound (tables : ConflictTables) : Prop where
  conflicts : Distinct SyncConflict.id tables.conflicts
  eventConflict : Refers tables.events tables.conflicts fun v c => c.id = v.exceptionId
  legal : ∀ c ∈ tables.conflicts, LegalLog (tables.eventsOf c.id)

section

variable {ctx : Context} {tables tables' : ConflictTables}

theorem insertSyncConflict_eq_ok {assets : AssetTables} {values : SyncConflictValues}
    (h : insertSyncConflict ctx assets values tables = .ok tables') :
    ∃ row : SyncConflict, (∀ other ∈ tables.conflicts, other.id ≠ row.id) ∧
      tables' = { tables with conflicts := tables.conflicts ++ [row] } := by
  simp only [insertSyncConflict, bind_eq_ok, require_eq_ok, pure_eq_ok, exists_unit] at h
  obtain ⟨row, -, -, ⟨-, -, hkey⟩, -, rfl⟩ := h
  refine ⟨row, fun other hother => ?_, rfl⟩
  have hnew := List.all_eq_true.mp hkey other hother
  simp only [decide_eq_true_eq] at hnew
  exact hnew.1

/-- An event as it was asked for, which continues its conflict's log. -/
structure ConflictEventAppended (values : SyncConflictEventValues) (event : ExceptionEvent)
    (tables tables' : ConflictTables) : Prop where
  conflict : ∃ c ∈ tables.conflicts, c.id = values.exceptionId
  id : event.id = values.id
  event_of : event.exceptionId = values.exceptionId
  fromStatus : event.fromStatus = values.fromStatus
  toStatus : event.toStatus = values.toStatus
  status : event.fromStatus =
    ((tables.latestEvent values.exceptionId).map ExceptionEvent.toStatus).getD .open
  number : event.eventSeq =
    ((tables.latestEvent values.exceptionId).map ExceptionEvent.eventSeq).getD 0 + 1
  admits : event.fromStatus.admits event.toStatus = true
  after_eq : tables' = { tables with events := tables.events ++ [event] }

/-- An accepted event continues its conflict's log. -/
theorem insertSyncConflictEvent_eq_ok {values : SyncConflictEventValues} {event : ExceptionEvent}
    (h : insertSyncConflictEvent ctx values tables = .ok (event, tables')) :
    ConflictEventAppended values event tables tables' := by
  simp only [insertSyncConflictEvent, guardSyncConflictEvent, bind_eq_ok, require_eq_ok,
    demand_eq_ok, pure_eq_ok, exists_unit, Prod.mk.injEq] at h
  obtain ⟨_, ⟨actor, -, target, htarget, ⟨hstatus, hseq⟩, rfl⟩, ⟨-, hadmits, -⟩, -, -, rfl, rfl⟩ := h
  obtain ⟨hmem, hid⟩ := key_of_find? htarget
  rw [hid] at hstatus hseq
  exact ⟨⟨target, hmem, hid⟩, rfl, rfl, rfl, rfl, hstatus, hseq, hadmits, rfl⟩

namespace ConflictTables.Sound

theorem empty : ({} : ConflictTables).Sound :=
  ⟨distinct_nil, fun _ h => absurd h List.not_mem_nil, fun _ h => absurd h List.not_mem_nil⟩

/-- A new conflict has no events. -/
theorem insert (h : tables.Sound) {assets : AssetTables} {values : SyncConflictValues}
    (hinsert : insertSyncConflict ctx assets values tables = .ok tables') : tables'.Sound := by
  obtain ⟨row, hnew, rfl⟩ := insertSyncConflict_eq_ok hinsert
  refine ⟨h.conflicts.concat hnew, h.eventConflict.weaken _, fun c hc => ?_⟩
  rcases List.mem_append.mp hc with hold | hrow
  · exact h.legal c hold
  · obtain rfl := List.mem_singleton.mp hrow
    have hnone : tables.events.filter (·.exceptionId = c.id) = [] := by
      refine List.filter_eq_nil_iff.mpr fun event hevent heq => ?_
      obtain ⟨other, hother, hid⟩ := h.eventConflict event hevent
      exact hnew other hother (hid.trans (of_decide_eq_true heq))
    rw [ConflictTables.eventsOf, hnone]
    exact .nil

theorem latestEvent (h : tables.Sound) {c : SyncConflict} (hc : c ∈ tables.conflicts) :
    tables.latestEvent c.id = (tables.eventsOf c.id).getLast? :=
  (h.legal c hc).latestBy

/-- An accepted event keeps every log legal. -/
theorem insertEvent (h : tables.Sound) {values : SyncConflictEventValues} {event : ExceptionEvent}
    (hinsert : insertSyncConflictEvent ctx values tables = .ok (event, tables')) :
    tables'.Sound := by
  have happended := insertSyncConflictEvent_eq_ok hinsert
  obtain ⟨target, htarget, hid⟩ := happended.conflict
  have hevent := happended.event_of
  have hstatus := happended.status
  have hseq := happended.number
  obtain rfl := happended.after_eq
  refine ⟨h.conflicts, h.eventConflict.concat ⟨target, htarget, hid.trans hevent.symm⟩,
    fun c hc => ?_⟩
  by_cases hown : event.exceptionId = c.id
  · have hevents : (tables.events ++ [event]).filter (·.exceptionId = c.id) =
        tables.eventsOf c.id ++ [event] := by
      simp [ConflictTables.eventsOf, hown]
    rw [← hevent, hown, h.latestEvent hc] at hstatus hseq
    rw [ConflictTables.eventsOf, hevents]
    exact (h.legal c hc).concat (hseq.trans (congrArg (· + 1) (h.legal c hc).number_latest)) hstatus
      happended.admits
  · have hevents : (tables.events ++ [event]).filter (·.exceptionId = c.id) =
        tables.eventsOf c.id := filter_append_of_forall fun other hother => by
      simpa [List.mem_singleton.mp hother] using hown
    rw [ConflictTables.eventsOf, hevents]
    exact h.legal c hc

end ConflictTables.Sound

/-- `get_conflict` reports the log of a conflict. -/
theorem ConflictTables.Sound.reports (h : tables.Sound) {c : SyncConflict}
    (hc : c ∈ tables.conflicts) :
    ∃ view, Service.getConflict tables c.id = .ok view ∧ view.row = c ∧
      view.events = tables.eventsOf c.id ∧
      Reports (tables.eventsOf c.id) view.toWorkflowView := by
  have hfound : tables.conflict? c.id = some c := h.conflicts.find?_eq hc rfl
  have hsorted : (tables.eventsOf c.id).mergeSort (fun a b => a.eventSeq ≤ b.eventSeq) =
      tables.eventsOf c.id := by
    refine List.mergeSort_of_pairwise ((h.legal c hc).ascending.imp fun hlt => ?_)
    exact decide_eq_true (Nat.le_of_lt hlt)
  simp only [Service.getConflict, hfound, Service.fetch, hsorted]
  refine ⟨_, rfl, rfl, rfl, reports_of_latest (h.legal c hc) rfl rfl rfl rfl rfl⟩

end

/-! ## Runs -/

/-- What every state that requests reach satisfies. -/
structure Database.Sound (db : Database) : Prop where
  integrity : db.tenant.Integrity
  logged : ∀ o ∈ db.tenant.exceptions, db.tenant.Logged o
  conflicts : db.conflicts.Sound

section

variable {posixSpace : Char → Bool} {db db' : Database}

theorem Database.Sound.loggedOf (h : db.Sound) (receipt : Uuid) :
    ∀ o ∈ db.tenant.exceptionsOf receipt, db.tenant.Logged o :=
  fun o ho => h.logged o (Tenant.mem_exceptionsOf.mp ho).1

/-- A conflict's own transition. -/
theorem transition_eq_ok {ctx : Context} {conflict : Uuid} {values : Service.WorkflowValues}
    {eventId : Uuid} {tables tables' : ConflictTables} {event : ExceptionEvent}
    (h : Service.transition ctx conflict values eventId tables = .ok (event, tables')) :
    ∃ view : ConflictView, Service.getConflict tables conflict = .ok view ∧
      insertSyncConflictEvent ctx
        { id := eventId, exceptionId := conflict, eventSeq := view.eventSeq + 1
          fromStatus := values.expectedStatus, toStatus := values.toStatus, note := values.note
          occurredAt := values.occurredAt } tables = .ok (event, tables') := by
  simp only [Service.transition, Service.assetConstraints, bind_eq_ok, Service.translating_eq_ok,
    Service.execute_eq_ok] at h
  exact h

/-- What a request does: receiving's step, a new conflict, or an event of a conflict. -/
theorem Database.step_cases {request : Context × ExceptionCall}
    (h : Database.step posixSpace request db = .ok db') :
    (∃ call tenant, Tenant.step posixSpace (request.1, call) db.tenant = .ok tenant ∧
        db' = { db with tenant }) ∨
      (∃ values conflicts, insertSyncConflict { request.1 with posixSpace } db.tenant.tables values
        db.conflicts = .ok conflicts ∧ db' = { db with conflicts }) ∨
      ∃ exception values eventId event conflicts,
        Service.transition { request.1 with posixSpace } exception values eventId db.conflicts =
          .ok (event, conflicts) ∧ db' = { db with conflicts } := by
  obtain ⟨ctx, call⟩ := request
  cases call with
  | receive call =>
      simp only [Database.step, bind_eq_ok, pure_eq_ok] at h
      obtain ⟨tenant, hrun, rfl⟩ := h
      exact .inl ⟨call, tenant, hrun, rfl⟩
  | observeConflict values =>
      simp only [Database.step, bind_eq_ok, Service.execute_eq_ok, pure_eq_ok] at h
      obtain ⟨conflicts, hrun, rfl⟩ := h
      exact .inr (.inl ⟨values, conflicts, hrun, rfl⟩)
  | transition exception values eventId =>
      simp only [Database.step, Service.transitionAnyException, bind_eq_ok, exists_unit] at h
      obtain ⟨-, h⟩ := h
      split at h <;> simp only [bind_eq_ok, pure_eq_ok] at h <;>
        obtain ⟨⟨event, after⟩, hrun, rfl⟩ := h
      · exact .inr (.inr ⟨exception, values, eventId, event, after, hrun, rfl⟩)
      · refine .inl ⟨.transitionException exception values eventId, after, ?_, rfl⟩
        simp only [Tenant.step, bind_eq_ok, pure_eq_ok]
        exact ⟨_, hrun, rfl⟩

theorem Database.Sound.step (hsound : db.Sound) {request : Context × ExceptionCall}
    (h : Database.step posixSpace request db = .ok db') : db'.Sound := by
  rcases Database.step_cases h with ⟨call, tenant, hrun, rfl⟩ | ⟨values, conflicts, hrun, rfl⟩ |
    ⟨exception, values, eventId, event, conflicts, hrun, rfl⟩
  · refine ⟨(step_on 0 hsound.integrity hrun).1, fun o ho => ?_, hsound.conflicts⟩
    exact (step_on o.receiptId hsound.integrity hrun).2.logged hsound.integrity
      (hsound.loggedOf o.receiptId) o (Tenant.mem_exceptionsOf.mpr ⟨ho, rfl⟩)
  · exact ⟨hsound.integrity, hsound.logged, hsound.conflicts.insert hrun⟩
  · obtain ⟨view, -, hinsert⟩ := transition_eq_ok hrun
    exact ⟨hsound.integrity, hsound.logged, hsound.conflicts.insertEvent hinsert⟩

theorem Database.Sound.run (hsound : db.Sound) (requests : List (Context × ExceptionCall)) :
    (Machine.run (Database.step posixSpace) requests db).Sound :=
  Machine.run_invariant (Database.step posixSpace) Database.Sound (fun _ => True)
    (fun _ _ _ _ hrun hsound => hsound.step hrun) requests db (fun _ _ => trivial) hsound

/-- No run changes an exception whose workflow has ended. -/
theorem Database.Sound.exception_kept (hsound : db.Sound) {o : ReceivingException}
    (ho : o ∈ db.tenant.exceptions) (hterminal : (db.tenant.statusOf o.id).terminal = true)
    (requests : List (Context × ExceptionCall)) :
    let later := (Machine.run (Database.step posixSpace) requests db).tenant
    later.eventsOf o.id = db.tenant.eventsOf o.id ∧
      later.workflow? o.id = db.tenant.workflow? o.id := by
  have hrun := Machine.run_invariant (Database.step posixSpace)
    (fun later => later.Sound ∧ o ∈ later.tenant.exceptions ∧
      later.tenant.eventsOf o.id = db.tenant.eventsOf o.id ∧
      later.tenant.workflow? o.id = db.tenant.workflow? o.id) (fun _ => True) ?_ requests db
    (fun _ _ => trivial) ⟨hsound, ho, rfl, rfl⟩
  · exact hrun.2.2
  rintro request before after - hstep ⟨hbefore, hmem, hevents, hworkflow⟩
  refine ⟨hbefore.step hstep, ?_⟩
  rcases Database.step_cases hstep with ⟨call, tenant, hcall, rfl⟩ | ⟨_, _, -, rfl⟩ |
    ⟨_, _, _, _, _, -, rfl⟩
  · have hended : (before.tenant.statusOf o.id).terminal = true := by
      rwa [Tenant.statusOf, hevents]
    obtain ⟨hkept, hsame, hrow⟩ := (step_on o.receiptId hbefore.integrity hcall).2.terminal_kept
      hbefore.integrity (hbefore.loggedOf o.receiptId) (Tenant.mem_exceptionsOf.mpr ⟨hmem, rfl⟩)
      hended
    exact ⟨(Tenant.mem_exceptionsOf.mp hkept).1, hsame.trans hevents, hrow.trans hworkflow⟩
  · exact ⟨hmem, hevents, hworkflow⟩
  · exact ⟨hmem, hevents, hworkflow⟩

/-- The status that a conflict's log leaves. -/
abbrev ConflictTables.statusOf (tables : ConflictTables) (conflict : Uuid) : ExceptionStatus :=
  EventLog.status eventReading .open (tables.eventsOf conflict)

/-- No run changes a conflict whose workflow has ended. -/
theorem Database.Sound.conflict_kept (hsound : db.Sound) {c : SyncConflict}
    (hc : c ∈ db.conflicts.conflicts) (hterminal : (db.conflicts.statusOf c.id).terminal = true)
    (requests : List (Context × ExceptionCall)) :
    (Machine.run (Database.step posixSpace) requests db).conflicts.eventsOf c.id =
      db.conflicts.eventsOf c.id := by
  have hrun := Machine.run_invariant (Database.step posixSpace)
    (fun later => later.Sound ∧ c ∈ later.conflicts.conflicts ∧
      later.conflicts.eventsOf c.id = db.conflicts.eventsOf c.id) (fun _ => True) ?_ requests db
    (fun _ _ => trivial) ⟨hsound, hc, rfl⟩
  · exact hrun.2.2
  rintro request before after - hstep ⟨hbefore, hmem, hevents⟩
  refine ⟨hbefore.step hstep, ?_⟩
  have hafter := hbefore.step hstep
  rcases Database.step_cases hstep with ⟨_, _, -, rfl⟩ | ⟨values, conflicts, hinsert, rfl⟩ |
    ⟨exception, values, eventId, event, conflicts, htransition, rfl⟩
  · exact ⟨hmem, hevents⟩
  · obtain ⟨row, -, rfl⟩ := insertSyncConflict_eq_ok hinsert
    exact ⟨List.mem_append_left _ hmem, hevents⟩
  · obtain ⟨view, -, hinsert⟩ := transition_eq_ok htransition
    obtain rfl := (insertSyncConflictEvent_eq_ok hinsert).after_eq
    refine ⟨hmem, ?_⟩
    have hlegal := hafter.conflicts.legal c hmem
    simp only [ConflictTables.eventsOf, List.filter_append] at hevents hlegal ⊢
    rw [hevents] at hlegal ⊢
    rw [EventLog.Legal.eq_nil_of_terminal hlegal (ExceptionStatus.not_admits hterminal),
      List.append_nil]

/-! ## Stale requests -/

/-- The status that a request on an exception is compared with. -/
def Database.status? (db : Database) (session : Session) (exception : Uuid) :
    Option ExceptionStatus :=
  if session.organization = some db.tenant.tables.orgId ∧
      (db.conflicts.conflict? exception).isSome then
    (Service.getConflict db.conflicts exception).toOption.map fun view => view.status
  else (db.tenant.workflow? exception).map ExceptionWorkflow.status

/-- A report's status is what the log leaves. -/
theorem Reports.status_eq {log : List ExceptionEvent} {view : WorkflowView} (h : Reports log view) :
    view.status = EventLog.status eventReading .open log := by
  rw [h.status]
  cases log using List.reverseRecOn <;> simp [eventReading]

/-- An accepted request expected the status that its exception has. -/
theorem Database.Sound.expected (hsound : db.Sound) {ctx : Context} {exception : Uuid}
    {values : Service.WorkflowValues} {eventId : Uuid}
    (h : Service.transitionAnyException ctx exception values eventId db = .ok db') :
    db.status? ctx.session exception = some values.expectedStatus := by
  simp only [Service.transitionAnyException, bind_eq_ok, exists_unit] at h
  obtain ⟨-, h⟩ := h
  by_cases hconflict : ctx.session.organization = some db.tenant.tables.orgId ∧
      (db.conflicts.conflict? exception).isSome
  · simp only [if_pos hconflict, bind_eq_ok] at h
    obtain ⟨⟨event, after⟩, hrun, -⟩ := h
    obtain ⟨view, hview, hinsert⟩ := transition_eq_ok hrun
    have happended := insertSyncConflictEvent_eq_ok hinsert
    obtain ⟨c, hc, rfl⟩ := happended.conflict
    have hstatus := happended.status
    obtain ⟨view', hview', -, -, hreports⟩ := hsound.conflicts.reports hc
    obtain rfl : view = view' := Except.ok.inj (hview.symm.trans hview')
    rw [hsound.conflicts.latestEvent hc, happended.fromStatus] at hstatus
    rw [Database.status?, if_pos hconflict, hview]
    exact congrArg some (hreports.status_eq.trans hstatus.symm)
  · simp only [if_neg hconflict, bind_eq_ok] at h
    obtain ⟨⟨event, after⟩, hrun, -⟩ := h
    simp only [Service.transitionException, Service.assetConstraints, bind_eq_ok,
      Service.translating_eq_ok, Service.execute_eq_ok, exists_unit] at hrun
    obtain ⟨-, hrun⟩ := hrun
    have hrecorded := transitionExceptionSql_eq_ok hrun
    have hstatus := hrecorded.status
    obtain ⟨o, ho, rfl⟩ := hrecorded.observed
    obtain ⟨w, hw, hreports⟩ := (hsound.logged o ho).reports
    rw [(hsound.logged o ho).latestEvent] at hstatus
    rw [Database.status?, if_neg hconflict, hw]
    exact congrArg some (hreports.status_eq.trans hstatus.symm)

/-! ## Verdicts -/

/-- A request on an exception, whichever kind it is of. -/
structure TransitionAttempt where
  ctx : Context
  values : Service.WorkflowValues
  eventId : Uuid

namespace TransitionAttempt

variable (a : TransitionAttempt)

/-- The database's `transition_exception`. -/
def onException (posixSpace : Char → Bool) (exception : Uuid) (t : Tenant) : Sql Tenant := do
  let (_, t) ← transitionExceptionSql { a.ctx with posixSpace }
    { exceptionId := exception, expectedStatus := a.values.expectedStatus
      toStatus := a.values.toStatus, note := a.values.note, occurredAt := a.values.occurredAt
      eventId := a.eventId, evaluationId := none } t
  pure t

/-- `conflicts.transition` with its trigger. -/
def onConflict (posixSpace : Char → Bool) (conflict : Uuid) (tables : ConflictTables) :
    Service ConflictTables := do
  let (_, tables) ← Service.transition { a.ctx with posixSpace } conflict a.values a.eventId tables
  pure tables

/-- What the attempt expects, and what it aims for. -/
def asks : ExceptionStatus × ExceptionStatus := (a.values.expectedStatus, a.values.toStatus)

/-- The other arguments are valid: an authenticated Actor of the tenant, an explanation where one is
needed, a time, and a key that is not taken. -/
structure Valid (posixSpace : Char → Bool) (org : Uuid) : Prop where
  organization : a.ctx.session.organization = some org
  actorHint : a.ctx.session.actorHint = none
  actor : ∃ actor ∈ a.ctx.refs.actors, a.ctx.session.credential = some ⟨org, some actor⟩
  note : eventNote posixSpace a.values.toStatus (a.values.note.map normalizeCorrectionReason) = true
  occurredAt : a.values.occurredAt.isFinite = true
  foreign : a.eventId ∉ a.ctx.foreignKeys .exceptionEvents ∧
    a.eventId ∉ a.ctx.foreignKeys .syncConflictEvents

/-- Attempts that follow one another are valid, with keys that no event has. -/
structure Ready (posixSpace : Char → Bool) (org : Uuid) (events : List ExceptionEvent)
    (attempts : List TransitionAttempt) : Prop where
  valid : ∀ a ∈ attempts, a.Valid posixSpace org
  fresh : ∀ a ∈ attempts, ∀ event ∈ events, event.id ≠ a.eventId
  distinct : (attempts.map TransitionAttempt.eventId).Nodup

variable {a}

theorem Ready.tail {org : Uuid} {events : List ExceptionEvent} {rest : List TransitionAttempt}
    (h : Ready posixSpace org events (a :: rest)) : Ready posixSpace org events rest :=
  ⟨fun b hb => h.valid b (.tail _ hb), fun b hb => h.fresh b (.tail _ hb),
    (List.nodup_cons.mp h.distinct).2⟩

/-- An attempt that was accepted has used its key. -/
theorem Ready.next {org : Uuid} {events : List ExceptionEvent} {rest : List TransitionAttempt}
    (h : Ready posixSpace org events (a :: rest)) {event : ExceptionEvent}
    (hid : event.id = a.eventId) : Ready posixSpace org (events ++ [event]) rest := by
  refine ⟨h.tail.valid, fun b hb other hother => ?_, h.tail.distinct⟩
  rcases List.mem_append.mp hother with hold | hnew
  · exact h.tail.fresh b hb other hold
  · rw [List.mem_singleton.mp hnew, hid]
    exact fun heq => (List.nodup_cons.mp h.distinct).1 (heq ▸ List.mem_map_of_mem hb)

/-- The next event's key and number are free. -/
theorem Ready.unique {org : Uuid} {events : List ExceptionEvent} {rest : List TransitionAttempt}
    (h : Ready posixSpace org events (a :: rest)) {exception : Uuid}
    (hlegal : LegalLog (events.filter (·.exceptionId = exception))) :
    events.all (fun other => decide (other.id ≠ a.eventId ∧ ¬(other.exceptionId = exception ∧
      other.eventSeq = (events.filter (·.exceptionId = exception)).length + 1))) = true := by
  refine List.all_eq_true.mpr fun other hother => decide_eq_true
    ⟨h.fresh a (.head _) other hother, fun ⟨hown, hseq⟩ => ?_⟩
  have hle : other.eventSeq ≤ _ :=
    (hlegal.number_le (List.mem_filter.mpr ⟨hother, decide_eq_true hown⟩)).2
  omega

theorem Valid.authenticated {org : Uuid} (h : a.Valid posixSpace org) :
    ∃ actor ∈ a.ctx.refs.actors, currentAuthenticatedActor a.ctx.session = .ok actor := by
  obtain ⟨actor, hactor, hcredential⟩ := h.actor
  refine ⟨actor, hactor, ?_⟩
  simp [currentAuthenticatedActor, h.organization, hcredential]

end TransitionAttempt

/-- The database accepts an attempt that expects the status and follows an edge. -/
theorem onException_of_edge {t : Tenant} {o : ReceivingException} (hkeys : t.Integrity)
    (ho : o ∈ t.exceptions) (hlogged : t.Logged o) {a : TransitionAttempt}
    {rest : List TransitionAttempt}
    (hready : TransitionAttempt.Ready posixSpace t.tables.orgId t.events (a :: rest))
    (hexpected : a.values.expectedStatus = t.statusOf o.id)
    (hedge : (t.statusOf o.id).admits a.values.toStatus = true) :
    ∃ event t', transitionExceptionSql { a.ctx with posixSpace }
        { exceptionId := o.id, expectedStatus := a.values.expectedStatus
          toStatus := a.values.toStatus, note := a.values.note, occurredAt := a.values.occurredAt
          eventId := a.eventId, evaluationId := none } t = .ok (event, t') := by
  have hvalid := hready.valid a (.head _)
  obtain ⟨actor, hknown, hactor⟩ := hvalid.authenticated
  have hunique := hready.unique hlogged.legal
  have hexists : t.exceptions.any (fun other => decide (other.id = o.id)) = true :=
    List.any_eq_true.mpr ⟨o, ho, decide_eq_true rfl⟩
  simp only [transitionExceptionSql, insertEvent, trustedOrganization, enforceAuthenticatedCreator,
    bind_eq_ok, require_eq_ok, demand_eq_ok, pure_eq_ok, exists_unit, Prod.mk.injEq,
    hlogged.status_latest, hlogged.seq_latest, hactor]
  exact ⟨_, _, _, hvalid.organization, hvalid.actorHint, actor, rfl, _,
    (if_pos rfl).trans hlogged.projection, hlogged.sound hkeys ho, hexpected, rfl, _,
    ⟨⟨Nat.succ_pos _, hedge, hvalid.note, hvalid.occurredAt⟩,
      ⟨by simpa using hvalid.foreign.1, hunique⟩, ⟨hexists, rfl, by simpa using hknown⟩,
      ⟨actor, rfl, rfl⟩, rfl⟩, rfl, rfl⟩

/-- A conflict accepts such an attempt too. -/
theorem onConflict_of_edge {tables : ConflictTables} {org : Uuid} {c : SyncConflict}
    (hsound : tables.Sound) (hc : c ∈ tables.conflicts) {a : TransitionAttempt}
    {rest : List TransitionAttempt}
    (hready : TransitionAttempt.Ready posixSpace org tables.events (a :: rest))
    (hexpected : a.values.expectedStatus = tables.statusOf c.id)
    (hedge : (tables.statusOf c.id).admits a.values.toStatus = true) :
    ∃ event tables', Service.transition { a.ctx with posixSpace } c.id a.values a.eventId tables =
      .ok (event, tables') := by
  have hvalid := hready.valid a (.head _)
  obtain ⟨actor, hknown, hactor⟩ := hvalid.authenticated
  obtain ⟨view, hview, -, -, hreports⟩ := hsound.reports hc
  have hfound : tables.conflict? c.id = some c := hsound.conflicts.find?_eq hc rfl
  have hlegal := hsound.legal c hc
  have hstatus : ((tables.latestEvent c.id).map ExceptionEvent.toStatus).getD .open =
      tables.statusOf c.id := by
    rw [hsound.latestEvent hc]
    rfl
  have hseq : ((tables.latestEvent c.id).map ExceptionEvent.eventSeq).getD 0 =
      (tables.eventsOf c.id).length := by
    rw [hsound.latestEvent hc]
    exact hlegal.number_latest
  have hunique := hready.unique hlegal
  simp only [Service.transition, Service.assetConstraints, insertSyncConflictEvent,
    guardSyncConflictEvent, bind_eq_ok, Service.translating_eq_ok, Service.execute_eq_ok,
    require_eq_ok, demand_eq_ok, pure_eq_ok, exists_unit, Prod.mk.injEq, hview, hfound, hactor]
  exact ⟨_, _, view, rfl, _, ⟨actor, rfl, c, rfl, ⟨hexpected.trans hstatus.symm,
      by rw [hreports.eventSeq, hseq]⟩, rfl⟩,
    ⟨Nat.succ_pos _, hexpected ▸ hedge, hvalid.note, hvalid.occurredAt⟩,
    ⟨by simpa using hvalid.foreign.2, by rw [hreports.eventSeq]; exact hunique⟩,
    by simpa using hknown, rfl, rfl⟩

/-- An event of a log is the status that it leaves. -/
theorem statusOf_concat {log : List ExceptionEvent} {event : ExceptionEvent} {exception : Uuid}
    (hown : event.exceptionId = exception) :
    EventLog.status eventReading .open ((log ++ [event]).filter (·.exceptionId = exception)) =
      event.toStatus := by
  rw [List.filter_append, List.filter_cons_of_pos (by simpa using hown), List.filter_nil,
    EventLog.status_concat]
  rfl

/-- On a receiving exception, the database gives the workflow's verdicts. -/
theorem onException_verdicts {t : Tenant} {o : ReceivingException} (hkeys : t.Integrity)
    (ho : o ∈ t.exceptions) (hlogged : ∀ other ∈ t.exceptionsOf o.receiptId, t.Logged other)
    {attempts : List TransitionAttempt}
    (hready : TransitionAttempt.Ready posixSpace t.tables.orgId t.events attempts) :
    Machine.outcomes (fun a : TransitionAttempt => a.onException posixSpace o.id) attempts t =
      EventLog.verdicts ExceptionStatus.admits (t.statusOf o.id)
        (attempts.map TransitionAttempt.asks) := by
  have howner : ∀ {s : Tenant}, o ∈ s.exceptions → o ∈ s.exceptionsOf o.receiptId :=
    fun h => Tenant.mem_exceptionsOf.mpr ⟨h, rfl⟩
  refine EventLog.outcomes_eq_verdicts TransitionAttempt.asks (fun s : Tenant => s.statusOf o.id)
    (fun rest s => s.Integrity ∧ o ∈ s.exceptions ∧
      (∀ other ∈ s.exceptionsOf o.receiptId, s.Logged other) ∧
      TransitionAttempt.Ready posixSpace s.tables.orgId s.events rest) ?_ ?_ attempts t
    ⟨hkeys, ho, hlogged, hready⟩
  · rintro a rest s ⟨hkeys, ho, hlogged, hready⟩ hexpected hedge
    obtain ⟨event, s', hrun⟩ :=
      onException_of_edge hkeys ho (hlogged o (howner ho)) hready hexpected hedge
    have hrecorded := transitionExceptionSql_eq_ok hrun
    have hwrote : Wrote o.receiptId s s' := hrecorded.wrote ho rfl
    have hevent := hrecorded.event_eq
    obtain rfl := hrecorded.after_eq
    have hown : event.exceptionId = o.id := by rw [hevent]
    have htarget : event.toStatus = a.values.toStatus := by rw [hevent]
    have hnext : ({ s with events := s.events ++ [event] }.advance event).statusOf o.id =
        a.values.toStatus := (statusOf_concat hown).trans htarget
    refine ⟨_, ?_, hnext, hwrote.integrity hkeys, ho, hwrote.logged hkeys hlogged,
      hready.next (by rw [hevent])⟩
    simp only [TransitionAttempt.onException, bind_eq_ok, pure_eq_ok]
    exact ⟨_, hrun, rfl⟩
  · rintro a rest s ⟨hkeys, ho, hlogged, hready⟩ hrefused
    refine ⟨?_, hkeys, ho, hlogged, hready.tail⟩
    cases hrun : a.onException posixSpace o.id s with
    | error reason => exact ⟨reason, rfl⟩
    | ok s' =>
        simp only [TransitionAttempt.onException, bind_eq_ok, pure_eq_ok] at hrun
        obtain ⟨⟨event, _⟩, hrun, -⟩ := hrun
        have hrecorded := transitionExceptionSql_eq_ok hrun
        have hexpected : a.values.expectedStatus = s.statusOf o.id :=
          hrecorded.status.trans (hlogged o (howner ho)).status_latest
        have hedge : (s.statusOf o.id).admits a.values.toStatus = true := by
          rw [← hexpected]
          exact hrecorded.admits
        exact absurd ⟨hexpected, hedge⟩ hrefused

/-- On a conflict, so do the service and its trigger. -/
theorem onConflict_verdicts {tables : ConflictTables} {org : Uuid} {c : SyncConflict}
    (hsound : tables.Sound) (hc : c ∈ tables.conflicts) {attempts : List TransitionAttempt}
    (hready : TransitionAttempt.Ready posixSpace org tables.events attempts) :
    Machine.outcomes (fun a : TransitionAttempt => a.onConflict posixSpace c.id) attempts tables =
      EventLog.verdicts ExceptionStatus.admits (tables.statusOf c.id)
        (attempts.map TransitionAttempt.asks) := by
  refine EventLog.outcomes_eq_verdicts TransitionAttempt.asks
    (fun s : ConflictTables => s.statusOf c.id)
    (fun rest s => s.Sound ∧ c ∈ s.conflicts ∧
      TransitionAttempt.Ready posixSpace org s.events rest) ?_ ?_ attempts tables
    ⟨hsound, hc, hready⟩
  · rintro a rest s ⟨hsound, hc, hready⟩ hexpected hedge
    obtain ⟨event, s', hrun⟩ := onConflict_of_edge hsound hc hready hexpected hedge
    obtain ⟨view, -, hinsert⟩ := transition_eq_ok hrun
    have hsound' := hsound.insertEvent hinsert
    have happended := insertSyncConflictEvent_eq_ok hinsert
    obtain rfl := happended.after_eq
    have hnext : ({ s with events := s.events ++ [event] } : ConflictTables).statusOf c.id =
        a.values.toStatus := (statusOf_concat happended.event_of).trans happended.toStatus
    refine ⟨_, ?_, hnext, hsound', hc, hready.next happended.id⟩
    simp only [TransitionAttempt.onConflict, bind_eq_ok, pure_eq_ok]
    exact ⟨_, hrun, rfl⟩
  · rintro a rest s ⟨hsound, hc, hready⟩ hrefused
    refine ⟨?_, hsound, hc, hready.tail⟩
    cases hrun : a.onConflict posixSpace c.id s with
    | error reason => exact ⟨reason, rfl⟩
    | ok s' =>
        simp only [TransitionAttempt.onConflict, bind_eq_ok, pure_eq_ok] at hrun
        obtain ⟨⟨event, _⟩, hrun, -⟩ := hrun
        obtain ⟨view, -, hinsert⟩ := transition_eq_ok hrun
        have happended := insertSyncConflictEvent_eq_ok hinsert
        have hfrom : event.fromStatus = a.values.expectedStatus := happended.fromStatus
        have hto : event.toStatus = a.values.toStatus := happended.toStatus
        have hexpected : a.values.expectedStatus = s.statusOf c.id := by
          have hstatus := happended.status
          rw [hfrom, hsound.latestEvent hc] at hstatus
          exact hstatus
        have hedge : (s.statusOf c.id).admits a.values.toStatus = true := by
          rw [← hexpected, ← hfrom, ← hto]
          exact happended.admits
        exact absurd ⟨hexpected, hedge⟩ hrefused

/-- The two kinds of exceptions are one workflow, in this state and in those that follow it. -/
structure OneWorkflow (posixSpace : Char → Bool) (db : Database) : Prop where
  exceptions : ∀ o ∈ db.tenant.exceptions, ∃ w, db.tenant.workflow? o.id = some w ∧
    Reports (db.tenant.eventsOf o.id) w.view
  conflicts : ∀ c ∈ db.conflicts.conflicts, ∃ view, Service.getConflict db.conflicts c.id = .ok view ∧
    view.row = c ∧ view.events = db.conflicts.eventsOf c.id ∧
    Reports (db.conflicts.eventsOf c.id) view.toWorkflowView
  /-- A terminal status is never left. -/
  exceptionKept : ∀ o ∈ db.tenant.exceptions, (db.tenant.statusOf o.id).terminal = true →
    ∀ requests, let later := (Machine.run (Database.step posixSpace) requests db).tenant
      later.eventsOf o.id = db.tenant.eventsOf o.id ∧
        later.workflow? o.id = db.tenant.workflow? o.id
  conflictKept : ∀ c ∈ db.conflicts.conflicts, (db.conflicts.statusOf c.id).terminal = true →
    ∀ requests, (Machine.run (Database.step posixSpace) requests db).conflicts.eventsOf c.id =
      db.conflicts.eventsOf c.id
  /-- A stale request is rejected and changes nothing. -/
  stale : ∀ (ctx : Context) exception values eventId,
    db.status? ctx.session exception ≠ some values.expectedStatus →
      let request := (ctx, ExceptionCall.transition exception values eventId)
      (∃ failure, Database.step posixSpace request db = .error failure) ∧
        Machine.run (Database.step posixSpace) [request] db = db
  /-- The two implementations accept the requests that the workflow accepts. -/
  exceptionVerdicts : ∀ o ∈ db.tenant.exceptions, ∀ attempts,
    TransitionAttempt.Ready posixSpace db.tenant.tables.orgId db.tenant.events attempts →
      Machine.outcomes (fun a : TransitionAttempt => a.onException posixSpace o.id) attempts
          db.tenant =
        EventLog.verdicts ExceptionStatus.admits (db.tenant.statusOf o.id)
          (attempts.map TransitionAttempt.asks)
  conflictVerdicts : ∀ c ∈ db.conflicts.conflicts, ∀ attempts,
    TransitionAttempt.Ready posixSpace db.tenant.tables.orgId db.conflicts.events attempts →
      Machine.outcomes (fun a : TransitionAttempt => a.onConflict posixSpace c.id) attempts
          db.conflicts =
        EventLog.verdicts ExceptionStatus.admits (db.conflicts.statusOf c.id)
          (attempts.map TransitionAttempt.asks)

/-- In every state that requests reach, receiving exceptions and conflicts are one workflow. -/
theorem exceptionWorkflows (posixSpace : Char → Bool) {start : Tenant} (hfresh : start.Fresh)
    (requests : List (Context × ExceptionCall)) :
    OneWorkflow posixSpace (Machine.run (Database.step posixSpace) requests ⟨start, {}⟩) := by
  have hstart : Database.Sound ⟨start, {}⟩ := by
    refine ⟨hfresh.integrity, fun o ho => ?_, .empty⟩
    have hnone : start.exceptions = [] := by rw [hfresh.records]
    exact absurd (hnone ▸ ho) List.not_mem_nil
  have hsound : Database.Sound (Machine.run (Database.step posixSpace) requests ⟨start, {}⟩) :=
    hstart.run requests
  refine ⟨fun o ho => (hsound.logged o ho).reports, fun c hc => hsound.conflicts.reports hc,
    fun o ho hended => hsound.exception_kept ho hended,
    fun c hc hended => hsound.conflict_kept hc hended, fun ctx exception values eventId hstale => ?_,
    fun o ho attempts hready => onException_verdicts hsound.integrity ho
      (hsound.loggedOf o.receiptId) hready,
    fun c hc attempts hready => onConflict_verdicts hsound.conflicts hc hready⟩
  generalize Machine.run (Database.step posixSpace) requests ⟨start, {}⟩ = db at hsound hstale
  cases hstep : Database.step posixSpace (ctx, .transition exception values eventId) db with
  | error failure => exact ⟨⟨failure, hstep⟩, Machine.attempt_of_error hstep⟩
  | ok db' => exact absurd (hsound.expected hstep) hstale

/-- The tenant that expects a delivery, with a radio in stock. -/
def stockedTenant : Tenant := { expectingTenant with tables := sampleTables }

theorem stockedTenant_fresh : stockedTenant.Fresh :=
  ⟨rfl, fun _ hrow => absurd hrow List.not_mem_nil, fun _ hrow => absurd hrow List.not_mem_nil⟩

/-- A delivery, of which one exception is waived; then the radio is moved, an operation that knew it
on the other shelf conflicts, and the conflict is seen and resolved. -/
def sampleWorkflow : List (Context × ExceptionCall) :=
  let change : ChangeArgs :=
    { assetId := 8, expectedVersion := some 1, reason := some "Shelved"
      occurredAt := some (.at 60), clientOpId := none, historyId := some 11 }
  let conflict : SyncConflictValues :=
    { id := 4000, operationId := 4100, assetId := 8, expectedVersion := 1, currentVersion := 2
      expectedFacts := .known 1 (some .received) (some 3) none (some 2) none
      currentFacts := .known 2 (some .received) (some 4) none (some 2) none
      occurredAt := .at 80 }
  sampleDeliveries.map (fun request => (request.1, .receive request.2)) ++
    [(sampleContext, .transition 2003
        { expectedStatus := .open, toStatus := .waived, note := some "Known damage"
          occurredAt := .at 90 } 5000),
      (sampleContext, .receive (.changeAsset (.moveAsset change (some 4)))),
      (sampleContext, .observeConflict conflict),
      (sampleContext, .transition 4000
        { expectedStatus := .open, toStatus := .acknowledged, note := none, occurredAt := .at 91 }
        5001),
      (sampleContext, .transition 4000
        { expectedStatus := .acknowledged, toStatus := .resolved, note := some "Moved twice"
          occurredAt := .at 92 } 5002)]

example :
    let db := Machine.run (Database.step sampleContext.posixSpace) sampleWorkflow ⟨stockedTenant, {}⟩
    db.tenant.events.map (fun event => (event.exceptionId, event.toStatus)) = [(2003, .waived)] ∧
      db.conflicts.events.map (fun event => (event.exceptionId, event.eventSeq, event.toStatus)) =
        [(4000, 1, .acknowledged), (4000, 2, .resolved)] := by decide +kernel

theorem exceptionWorkflows_sample : OneWorkflow sampleContext.posixSpace
    (Machine.run (Database.step sampleContext.posixSpace) sampleWorkflow ⟨stockedTenant, {}⟩) :=
  exceptionWorkflows sampleContext.posixSpace stockedTenant_fresh sampleWorkflow

end

end FleetOps
