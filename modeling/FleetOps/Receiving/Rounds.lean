import FleetOps.Receiving.Requests

/-!
# Rounds of correction

A correction of a receipt line writes one round: the pair, a comparator if it
selects a new one, the evaluation with the sources that it pins, its word on
every observation, and the observations that it opens.  `Round.after` is the
tenant with these rows, each as a function of what it is about;
`writeReceiptCorrection_eq_ok` says that the service writes nothing else.
-/

namespace FleetOps

open Relation Keys

/-- The tenant with events recorded, each projected on its workflow. -/
def Tenant.recorded (tenant : Tenant) (events : List ExceptionEvent) : Tenant :=
  events.foldl (fun t event => { t with events := t.events ++ [event] }.advance event) tenant

/-- One correction of a receipt line. -/
structure Round where
  ctx : Context
  keys : EvaluationKeys
  header : Receipt
  before : Tenant
  reversal : RecordCorrection LineFields
  corrected : RecordCorrection LineFields
  /-- The comparator that the correction introduces, if it does. -/
  introduced : List Comparator
  evaluation : Evaluation
  /-- The disagreements of the pinned sources. -/
  found : List ExceptionKey

namespace Round

variable (round : Round)

abbrev receipt : Uuid := round.header.id

/-- The corrections of receipt lines after the round. -/
def corrections : List (RecordCorrection LineFields) :=
  round.before.lineCorrections ++ [round.reversal, round.corrected]

/-- The comparators after the round. -/
def comparators : List Comparator := round.before.comparators ++ round.introduced

/-- A line's source in force. -/
def line (line : ReceiptLine) : EvaluationSource where
  id := round.keys.lineId line.id
  evaluationId := round.evaluation.id
  rootId := line.id
  sourceGeneration := Tenant.generation round.corrections line.id
  sourceId := (Tenant.latestCorrection round.corrections line.id).map RecordCorrection.id
  actorId := round.evaluation.actorId
  occurredAt := round.evaluation.occurredAt
  recordedAt := round.ctx.session.now

/-- A comparator's source. -/
def expectation (binding : Comparator) : EvaluationSource where
  id := round.keys.expectationId binding.poLineId
  evaluationId := round.evaluation.id
  rootId := binding.poLineId
  sourceGeneration := binding.sourceGeneration
  sourceId := binding.sourceId
  actorId := round.evaluation.actorId
  occurredAt := round.evaluation.occurredAt
  recordedAt := round.ctx.session.now

/-- The tenant once the evaluation has its own row. -/
def started : Tenant :=
  { round.before with
    lineCorrections := round.corrections
    comparators := round.comparators
    evaluations := round.before.evaluations ++ [round.evaluation] }

/-- The tenant once the evaluation has pinned its sources. -/
def pinned : Tenant :=
  { round.started with
    evaluationLines := round.before.evaluationLines ++
      (round.before.linesOf round.receipt).map round.line
    evaluationExpectations := round.before.evaluationExpectations ++
      (round.comparators.filter (·.receiptId = round.receipt)).map round.expectation }

/-- The observations that exist, in the order in which they are judged. -/
def observations : List ReceivingException :=
  (round.before.exceptionsOf round.receipt).mergeSort (·.id ≤ ·.id)

/-- The disagreements, each once. -/
def desired : List ExceptionKey := Dictionary.ofRows id round.found

/-- The evaluation supports an observation that no evaluation let go, if it is found again. -/
def supports (o : ReceivingException) : Bool :=
  decide (Service.priorSupport round.before o.id ≠ some false ∧ o.key ∈ round.desired)

/-- The workflow of an observation before the round. -/
def workflow (o : ReceivingException) : ExceptionWorkflow :=
  (round.before.workflow? o.id).getD o.opened

/-- The evaluation's word on an observation. -/
def link (o : ReceivingException) : EvaluationException where
  id := round.keys.linkId o.id
  evaluationId := round.evaluation.id
  exceptionId := o.id
  supported := round.supports o
  priorEventSeq := (round.workflow o).eventSeq
  actorId := round.evaluation.actorId
  occurredAt := round.evaluation.occurredAt
  recordedAt := round.ctx.session.now

/-- The event that resolves an observation which lost its support. -/
def resolution (o : ReceivingException) : Option ExceptionEvent :=
  if ¬round.supports o ∧ ¬(round.workflow o).status.terminal then
    some
      { id := round.keys.eventId o.id
        exceptionId := o.id
        eventSeq := ((round.before.latestEvent o.id).map ExceptionEvent.eventSeq).getD 0 + 1
        fromStatus := (round.workflow o).status
        toStatus := .resolved
        note := some (normalizeCorrectionReason (supersessionNote round.corrected.pairId))
        evaluationId := some round.evaluation.id
        actorId := round.evaluation.actorId
        occurredAt := round.evaluation.occurredAt
        recordedAt := round.ctx.session.now }
  else none

/-- The disagreements that no observation is supported for. -/
def unclaimed : List ExceptionKey :=
  round.desired.filter fun key => key ∉ (round.observations.filter round.supports).map (·.key)

/-- A disagreement, observed anew. -/
def opened (key : ExceptionKey) : ReceivingException where
  id := round.keys.exceptionId key
  receiptId := round.receipt
  key := key
  evaluationId := some round.evaluation.id
  actorId := round.evaluation.actorId
  occurredAt := round.evaluation.occurredAt
  recordedAt := round.ctx.session.now

/-- The evaluation's word on what it observes anew. -/
def openedLink (key : ExceptionKey) : EvaluationException where
  id := round.keys.openedLinkId key
  evaluationId := round.evaluation.id
  exceptionId := round.keys.exceptionId key
  supported := true
  priorEventSeq := 0
  actorId := round.evaluation.actorId
  occurredAt := round.evaluation.occurredAt
  recordedAt := round.ctx.session.now

/-- The tenant once the first observations have been judged. -/
def judged (done : List ReceivingException) : Tenant :=
  { round.pinned.recorded (done.filterMap round.resolution) with
    evaluationExceptions := round.before.evaluationExceptions ++ done.map round.link }

/-- The tenant once some of the disagreements have been observed anew. -/
def reopened (done : List ExceptionKey) : Tenant :=
  let judged := round.judged round.observations
  { judged with
    exceptions := judged.exceptions ++ done.map round.opened
    workflows := judged.workflows ++ done.map fun key => (round.opened key).opened
    evaluationExceptions := judged.evaluationExceptions ++ done.map round.openedLink }

/-- The tenant after the round. -/
def after : Tenant := round.reopened round.unclaimed

end Round

/-! ## Recorded events -/

namespace Tenant

variable {tenant : Tenant}

@[simp] theorem recorded_nil : tenant.recorded [] = tenant := rfl

theorem recorded_concat (events : List ExceptionEvent) (event : ExceptionEvent) :
    tenant.recorded (events ++ [event]) =
      { tenant.recorded events with
        events := (tenant.recorded events).events ++ [event] }.advance event := by
  simp [recorded]

/-- Recording writes events and workflows only. -/
theorem recorded_eq (events : List ExceptionEvent) : tenant.recorded events =
    { tenant with
      events := tenant.events ++ events
      workflows := (tenant.recorded events).workflows } := by
  induction events using List.reverseRecOn with
  | nil => simp
  | append_singleton events event ih =>
      rw [recorded_concat]
      conv_lhs => rw [ih]
      simp [advance]

@[simp] theorem recorded_events (events : List ExceptionEvent) :
    (tenant.recorded events).events = tenant.events ++ events := by rw [recorded_eq]

/-- The values of a line in force. -/
theorem effectiveReceiptLine_fields (line : ReceiptLine) :
    (tenant.effectiveReceiptLine line).fields =
      ((latestCorrection tenant.lineCorrections line.id).map RecordCorrection.fields).getD
        line.fields := by
  unfold effectiveReceiptLine
  cases latestCorrection tenant.lineCorrections line.id <;> rfl

end Tenant

/-! ## Judging the observations -/

section

variable {round : Round}

namespace Round

/-- What the service reads while it judges, once its first rows are written. -/
structure Opened (round : Round) : Prop where
  integrity : round.before.Integrity
  evaluations : Distinct Evaluation.id round.started.evaluations
  receipt : round.evaluation.receiptId = round.receipt
  actor : currentAuthenticatedActor round.ctx.session = .ok round.evaluation.actorId

theorem Opened.mem (_ : round.Opened) : round.evaluation ∈ round.started.evaluations := by
  simp [started]

theorem Opened.evaluation (hopened : round.Opened) :
    round.started.evaluations.find? (·.id = round.evaluation.id) = some round.evaluation :=
  hopened.evaluations.find?_eq hopened.mem rfl

theorem judged_eq (done : List ReceivingException) : round.judged done =
    { round.pinned with
      events := round.before.events ++ done.filterMap round.resolution
      workflows := (round.judged done).workflows
      evaluationExceptions := round.before.evaluationExceptions ++ done.map round.link } := by
  unfold judged
  rw [Tenant.recorded_eq]
  rfl

theorem resolution_exceptionId {o : ReceivingException} {event : ExceptionEvent}
    (h : round.resolution o = some event) : event.exceptionId = o.id := by
  unfold resolution at h
  split at h
  · obtain rfl := Option.some.inj h
    rfl
  · exact nomatch h

/-- Judging other observations does not change what is known of an observation. -/
theorem priorSupport_judged (hopened : round.Opened) {done : List ReceivingException} {o : Uuid}
    (hne : ∀ other ∈ done, other.id ≠ o) :
    Service.priorSupport (round.judged done) o = Service.priorSupport round.before o := by
  rw [judged_eq]
  simp only [Service.priorSupport]
  have hlinks : (round.before.evaluationExceptions ++ done.map round.link).filter
      (·.exceptionId = o) = round.before.evaluationExceptions.filter (·.exceptionId = o) :=
    filter_append_of_forall fun x hx => by
      obtain ⟨other, hother, rfl⟩ := List.mem_map.mp hx
      simp [link, hne other hother]
  rw [hlinks]
  congr 2
  refine List.filterMap_congr fun x hx => ?_
  obtain ⟨e, he, _, -, hid, -⟩ := hopened.integrity.links x (List.mem_filter.mp hx).1
  have hfound := hopened.integrity.evaluations.find?_eq he hid
  simp only [pinned, started, find?_append_of_some hfound, hfound]

theorem latestEvent_judged {done : List ReceivingException} {o : Uuid}
    (hne : ∀ other ∈ done, other.id ≠ o) :
    (round.judged done).latestEvent o = round.before.latestEvent o := by
  rw [judged_eq]
  simp only [Tenant.latestEvent, Tenant.eventsOf]
  rw [filter_append_of_forall]
  intro event hevent
  obtain ⟨other, hother, hresolution⟩ := List.mem_filterMap.mp hevent
  simpa [resolution_exceptionId hresolution] using hne other hother

/-- The keys that are claimed once the first observations have been judged. -/
def claimed (round : Round) (done : List ReceivingException) : List ExceptionKey :=
  ((done.filter round.supports).map (·.key)).reverse

/-- The workflows that the service reads before it judges. -/
def workflows (round : Round) : List ExceptionWorkflow :=
  round.pinned.workflows.filter fun w => round.observations.any (·.id = w.exceptionId)

theorem find?_workflows {o : ReceivingException} (ho : o ∈ round.observations) :
    round.workflows.find? (·.exceptionId = o.id) = round.before.workflow? o.id := by
  unfold workflows Tenant.workflow?
  rw [List.find?_filter]
  congr 1
  funext w
  by_cases hw : w.exceptionId = o.id
  · simpa [hw] using ⟨o, ho, rfl⟩
  · simp [hw]

theorem judged_concat_of_none {done : List ReceivingException} {o : ReceivingException}
    (h : round.resolution o = none) : round.judged (done ++ [o]) =
      { round.judged done with
        evaluationExceptions := (round.judged done).evaluationExceptions ++ [round.link o] } := by
  simp [judged, h]

theorem judged_concat_of_some {done : List ReceivingException} {o : ReceivingException}
    {event : ExceptionEvent} (h : round.resolution o = some event) :
    round.judged (done ++ [o]) =
      { round.judged done with
        evaluationExceptions := (round.judged done).evaluationExceptions ++ [round.link o]
        events := (round.judged done).events ++ [event] }.advance event := by
  have hevents : (done ++ [o]).filterMap round.resolution =
      done.filterMap round.resolution ++ [event] := by simp [h]
  unfold judged
  rw [hevents, Tenant.recorded_concat]
  simp [Tenant.advance]

theorem mem_observations {o : ReceivingException} :
    o ∈ round.observations ↔ o ∈ round.before.exceptions ∧ o.receiptId = round.receipt := by
  rw [observations, List.mem_mergeSort, Tenant.mem_exceptionsOf]

/-- The statement that one observation is judged with. -/
theorem observe_eq_ok (hopened : round.Opened) {done : List ReceivingException}
    {o : ReceivingException} (ho : o ∈ round.observations) (hne : ∀ other ∈ done, other.id ≠ o.id)
    {claimed : List ExceptionKey} {t' : Tenant}
    (h : Service.observe round.ctx round.corrected round.evaluation round.keys round.workflows
      round.desired (round.claimed done, round.judged done) o = .ok (claimed, t')) :
    t' = round.judged (done ++ [o]) ∧ claimed = round.claimed (done ++ [o]) ∧
      (round.supports o → o.key ∉ round.claimed done) ∧
      (∃ w, round.before.workflow? o.id = some w) ∧
      Writes round.receipt (round.judged done) t' := by
  have hsupports : decide (Service.priorSupport (round.judged done) o.id ≠ some false ∧
      o.key ∈ round.desired) = round.supports o := by
    rw [priorSupport_judged hopened hne, supports]
  simp only [Service.observe, bind_eq_ok, Service.fetch_eq_ok, Service.ensure_eq_ok,
    Service.execute_eq_ok, exists_unit, hsupports, find?_workflows ho] at h
  obtain ⟨w, hw, hfresh, linked, hlink, h⟩ := h
  obtain ⟨e, he, hexception, rfl⟩ := insertEvaluationException_eq_ok hlink
  have hevaluations : (round.judged done).evaluations = round.started.evaluations := by
    rw [judged_eq]
    rfl
  obtain rfl : round.evaluation = e := by
    rw [hevaluations] at he
    exact Option.some.inj (hopened.evaluation.symm.trans he)
  obtain rfl : round.workflow o = w := by rw [workflow, hw, Option.getD_some]
  obtain ⟨hmem, howner⟩ := mem_observations.mp ho
  have hexceptions : (round.judged done).exceptions = round.before.exceptions := by
    rw [judged_eq]
    rfl
  have hlinked : Wrote round.receipt (round.judged done)
      { round.judged done with
        evaluationExceptions := (round.judged done).evaluationExceptions ++ [round.link o] } :=
    .evaluationException
      ⟨round.evaluation, hevaluations ▸ hopened.mem, rfl,
        hopened.receipt⟩ ⟨o, hexceptions ▸ hmem, rfl, howner⟩
  have hclaimed : (if round.supports o = true then o.key :: round.claimed done
      else round.claimed done) = round.claimed (done ++ [o]) := by
    by_cases hsupported : round.supports o = true <;> simp [Round.claimed, hsupported]
  rw [hclaimed] at h
  by_cases hresolved : ¬round.supports o ∧ ¬(round.workflow o).status.terminal
  · rw [if_pos hresolved] at h
    simp only [bind_eq_ok, Service.execute_eq_ok, pure_eq_ok, Prod.mk.injEq] at h
    obtain ⟨⟨event, resolved⟩, htransition, rfl, rfl⟩ := h
    have hrecorded := transitionExceptionSql_eq_ok htransition
    have hactor : event.actorId = round.evaluation.actorId :=
      Except.ok.inj (hrecorded.actor.symm.trans hopened.actor)
    have hlatest : (round.judged done).latestEvent o.id = round.before.latestEvent o.id :=
      latestEvent_judged hne
    have hsome : round.resolution o = some event := by
      rw [resolution, if_pos hresolved, hrecorded.event_eq, hactor, ← hlatest]
      rfl
    have hwrote := hrecorded.wrote (hexceptions ▸ hmem) rfl
    obtain rfl := hrecorded.after_eq
    exact ⟨(judged_concat_of_some hsome).symm, rfl, hfresh, ⟨_, hw⟩,
      .tail (.single hlinked) (howner ▸ hwrote)⟩
  · rw [if_neg hresolved] at h
    obtain ⟨rfl, rfl⟩ := Prod.mk.inj (pure_eq_ok.mp h)
    have hnone : round.resolution o = none := by rw [resolution, if_neg hresolved]
    exact ⟨(judged_concat_of_none hnone).symm, rfl, hfresh, ⟨_, hw⟩, .single hlinked⟩

theorem judged_nil : round.judged [] = round.pinned := by simp [judged, pinned, started]

theorem distinct_observations (hkeys : round.before.Integrity) :
    Distinct ReceivingException.id round.observations := by
  have hrows := hkeys.exceptions.filter (·.receiptId = round.receipt)
  exact ((List.mergeSort_perm _ _).map ReceivingException.id).nodup_iff.mpr hrows

/-- The observations before one have other keys. -/
theorem ne_of_observations (hopened : round.Opened) {done rest : List ReceivingException}
    {o : ReceivingException} (hsplit : round.observations = done ++ o :: rest) :
    ∀ other ∈ done, other.id ≠ o.id := by
  intro other hother
  have hdistinct := distinct_observations hopened.integrity
  rw [hsplit, Distinct, List.map_append, List.nodup_append] at hdistinct
  exact hdistinct.2.2 _ (List.mem_map_of_mem hother) _ (by simp)

/-- What is known once the first observations have been judged. -/
structure Judged (round : Round) (done : List ReceivingException)
    (state : List ExceptionKey × Tenant) : Prop where
  state : state = (round.claimed done, round.judged done)
  supported : Distinct ReceivingException.key (done.filter round.supports)
  workflows : ∀ o ∈ done, ∃ w, round.before.workflow? o.id = some w
  writes : Writes round.receipt round.pinned (round.judged done)

theorem Judged.concat (hopened : round.Opened) {done rest : List ReceivingException}
    {o : ReceivingException} {state state' : List ExceptionKey × Tenant}
    (hsplit : round.observations = done ++ o :: rest) (hjudged : round.Judged done state)
    (h : Service.observe round.ctx round.corrected round.evaluation round.keys round.workflows
      round.desired state o = .ok state') : round.Judged (done ++ [o]) state' := by
  obtain ⟨rfl, hsupported, hworkflows, hwrites⟩ := hjudged
  obtain ⟨claimed, t'⟩ := state'
  obtain ⟨rfl, rfl, hfresh, hworkflow, hmore⟩ := observe_eq_ok hopened (by simp [hsplit])
    (ne_of_observations hopened hsplit) h
  refine ⟨rfl, ?_, forall_mem_concat hworkflows hworkflow, hwrites.trans hmore⟩
  by_cases hsupports : round.supports o = true
  · have hnew := hfresh hsupports
    simp only [Round.claimed, List.mem_reverse] at hnew
    rw [List.filter_append, List.filter_cons_of_pos hsupports, List.filter_nil]
    exact hsupported.concat fun other hother heq => hnew (heq ▸ List.mem_map_of_mem hother)
  · simpa [List.filter_append, hsupports] using hsupported

/-- All the observations are judged. -/
theorem judged_of_foldlM (hopened : round.Opened) {state : List ExceptionKey × Tenant}
    (h : round.observations.foldlM (Service.observe round.ctx round.corrected round.evaluation
      round.keys round.workflows round.desired) ([], round.pinned) = .ok state) :
    round.Judged round.observations state := by
  refine Fallible.foldlM_invariant round.Judged round.observations _ h ?_ ?_
  · exact ⟨by simp [claimed, judged_nil], distinct_nil, by simp, judged_nil ▸ .refl⟩
  · intro done o rest before after hsplit hjudged hrun
    exact hjudged.concat hopened hsplit hrun

/-! ## Observing anew -/

theorem reopened_concat (done : List ExceptionKey) (key : ExceptionKey) :
    round.reopened (done ++ [key]) =
      { round.reopened done with
        exceptions := (round.reopened done).exceptions ++ [round.opened key]
        workflows := (round.reopened done).workflows ++ [(round.opened key).opened]
        evaluationExceptions :=
          (round.reopened done).evaluationExceptions ++ [round.openedLink key] } := by
  simp [reopened]

theorem reopened_evaluations (done : List ExceptionKey) :
    (round.reopened done).evaluations = round.started.evaluations := by
  simp only [reopened]
  rw [judged_eq]
  rfl

/-- The two statements that a disagreement is observed anew with. -/
theorem openObservation_eq_ok (hopened : round.Opened) {done : List ExceptionKey}
    {key : ExceptionKey} {t' : Tenant}
    (h : Service.openObservation round.ctx round.header round.evaluation round.keys
      (round.reopened done) key = .ok t') :
    t' = round.reopened (done ++ [key]) ∧ Writes round.receipt (round.reopened done) t' := by
  simp only [Service.openObservation, bind_eq_ok, Service.execute_eq_ok] at h
  obtain ⟨observed, hexception, hlink⟩ := h
  have hwrote := wrote_of_insertException hexception
  obtain ⟨row, hinserted⟩ := insertException_eq_ok hexception
  obtain ⟨⟨_, rfl⟩, -, hcause⟩ := guardException_eq_ok hinserted.guarded
  obtain rfl := hinserted.after_eq
  obtain ⟨e, he, hid, -, rfl⟩ := hcause _ rfl
  obtain ⟨e', he', hlinked, rfl⟩ := insertEvaluationException_eq_ok hlink
  have hevaluations := round.reopened_evaluations done
  obtain rfl : round.evaluation = e :=
    hopened.evaluations.eq hopened.mem (hevaluations ▸ he) hid.symm
  obtain rfl : round.evaluation = e' := by
    simp only [hevaluations] at he'
    exact Option.some.inj (hopened.evaluation.symm.trans he')
  refine ⟨(reopened_concat done key).symm, .tail (.single hwrote) ?_⟩
  exact .evaluationException
      ⟨round.evaluation, hevaluations ▸ hopened.mem, rfl, hopened.receipt⟩
      ⟨_, List.mem_append_right _ (List.mem_singleton_self _), rfl, rfl⟩

theorem reopened_of_foldlM (hopened : round.Opened) {items : List ExceptionKey} {t' : Tenant}
    (h : items.foldlM
      (Service.openObservation round.ctx round.header round.evaluation round.keys)
      (round.judged round.observations) = .ok t') :
    t' = round.reopened items ∧ Writes round.receipt (round.judged round.observations) t' := by
  refine Fallible.foldlM_invariant (fun done state => state = round.reopened done ∧
    Writes round.receipt (round.judged round.observations) state) items _ h ?_ ?_
  · exact ⟨by simp [reopened], .refl⟩
  · rintro done key rest before after - ⟨rfl, hwrites⟩ hrun
    obtain ⟨rfl, hmore⟩ := openObservation_eq_ok hopened hrun
    exact ⟨rfl, hwrites.trans hmore⟩

/-! ## Pinning the sources -/

theorem pinLines_of_foldlM (hopened : round.Opened) {items : List ReceiptLine} {t' : Tenant}
    (h : items.foldlM (Service.pinLine round.ctx round.evaluation round.keys.lineId)
      round.started = .ok t') :
    t' = { round.started with
        evaluationLines := round.started.evaluationLines ++ items.map round.line } ∧
      (∀ line ∈ items, line.id ∉ round.started.receiptLineAnomalies round.ctx.posixSpace) ∧
      Writes round.receipt round.started t' := by
  refine Fallible.foldlM_invariant (fun done state => state = { round.started with
        evaluationLines := round.started.evaluationLines ++ done.map round.line } ∧
      (∀ line ∈ done, line.id ∉ round.started.receiptLineAnomalies round.ctx.posixSpace) ∧
      Writes round.receipt round.started state) items _ h ⟨by simp, by simp, .refl⟩ ?_
  rintro done line rest before after - ⟨rfl, hsound, hwrites⟩ hrun
  simp only [Service.pinLine, Service.head, bind_eq_ok, Service.ensure_eq_ok, pure_eq_ok,
    Service.execute_eq_ok, exists_unit] at hrun
  obtain ⟨_, ⟨hhead, rfl⟩, hinsert⟩ := hrun
  obtain ⟨e, he, rfl⟩ := insertEvaluationLine_eq_ok hinsert
  obtain rfl : round.evaluation = e := Option.some.inj (hopened.evaluation.symm.trans he)
  refine ⟨?_, forall_mem_concat hsound hhead, hwrites.tail ?_⟩
  · simp only [List.map_append, List.map_singleton, ← List.append_assoc]
    rfl
  · exact .evaluationLine ⟨round.evaluation, hopened.mem, rfl, hopened.receipt⟩

theorem pinExpectations_of_foldlM (hopened : round.Opened) {items : List Comparator}
    {t t' : Tenant} (hevaluations : t.evaluations = round.started.evaluations)
    (h : items.foldlM (Service.pinExpectation round.ctx round.evaluation
      round.keys.expectationId) t = .ok t') :
    t' = { t with
        evaluationExpectations := t.evaluationExpectations ++ items.map round.expectation } ∧
      Writes round.receipt t t' := by
  refine Fallible.foldlM_invariant (fun done state => state = { t with
        evaluationExpectations := t.evaluationExpectations ++ done.map round.expectation } ∧
      Writes round.receipt t state) items _ h ⟨by simp, .refl⟩ ?_
  rintro done binding rest before after - ⟨rfl, hwrites⟩ hrun
  simp only [Service.pinExpectation, Service.execute_eq_ok] at hrun
  obtain ⟨e, he, rfl⟩ := insertEvaluationExpectation_eq_ok hrun
  obtain rfl : round.evaluation = e := by
    rw [hevaluations] at he
    exact Option.some.inj (hopened.evaluation.symm.trans he)
  refine ⟨?_, hwrites.tail ?_⟩
  · simp only [List.map_append, List.map_singleton, ← List.append_assoc]
    rfl
  · exact .evaluationExpectation
      ⟨round.evaluation, hevaluations ▸ hopened.mem, rfl, hopened.receipt⟩

/-! ## The evaluation -/

theorem mem_claimed {key : ExceptionKey} : key ∈ round.claimed round.observations ↔
    key ∈ (round.observations.filter round.supports).map (·.key) := by
  rw [claimed, List.mem_reverse]

/-- What the writer has checked once its evaluation is complete. -/
structure Evaluated (round : Round) : Prop where
  sound : ∀ line ∈ round.before.linesOf round.receipt,
    line.id ∉ round.started.receiptLineAnomalies round.ctx.posixSpace
  found : Service.disagreements round.pinned round.evaluation.id = .ok round.found
  workflows : ∀ o ∈ round.observations, ∃ w, round.before.workflow? o.id = some w
  supported : Distinct ReceivingException.key (round.observations.filter round.supports)
  writes : Writes round.receipt round.started round.after

/-- The evaluation's row repeats its cause. -/
structure Caused (round : Round) : Prop where
  receipt : round.evaluation.receiptId = round.receipt
  line : round.evaluation.receiptLineId = round.corrected.rootId
  correction : round.evaluation.correctionId = round.corrected.id
  generation : round.evaluation.correctionGeneration = round.corrected.generation
  sequence : round.evaluation.evaluationSeq = round.before.lastSequence round.receipt + 1
  actor : round.evaluation.actorId = round.corrected.actorId
  occurredAt : round.evaluation.occurredAt = round.corrected.correctionOccurredAt
  transaction : round.evaluation.recordingTransactionId = round.corrected.recordingTransactionId

/-- The evaluation that a correction opens. -/
structure EvaluationOpened (ctx : Context) (header : Receipt)
    (corrected : RecordCorrection LineFields) (e : Evaluation) (t t' : Tenant) : Prop where
  after_eq : t' = { t with evaluations := t.evaluations ++ [e] }
  wrote : Wrote header.id t t'
  authentic : currentAuthenticatedActor ctx.session = .ok e.actorId
  receipt : e.receiptId = header.id
  line : e.receiptLineId = corrected.rootId
  correction : e.correctionId = corrected.id
  generation : e.correctionGeneration = corrected.generation
  sequence : e.evaluationSeq = t.lastSequence header.id + 1
  actor : e.actorId = corrected.actorId
  occurredAt : e.occurredAt = corrected.correctionOccurredAt
  transaction : e.recordingTransactionId = corrected.recordingTransactionId

theorem openEvaluation_eq_ok {id : Uuid} {t t' : Tenant} {e : Evaluation} {header : Receipt}
    {ctx : Context} {corrected : RecordCorrection LineFields}
    (h : Service.openEvaluation ctx header corrected id t = .ok (e, t'))
    (hkeys : t.Integrity) (hcorrected : corrected ∈ t.lineCorrections) :
    EvaluationOpened ctx header corrected e t t' := by
  simp only [Service.openEvaluation, bind_eq_ok, Service.execute_eq_ok] at h
  obtain ⟨sequence, -, actor, -, hinsert⟩ := h
  have hwrote := wrote_of_insertEvaluation hinsert
  have hinserted := insertEvaluation_eq_ok hinsert
  have hrow := hinserted.row_eq
  obtain ⟨cause, hcause⟩ := hinserted.cause
  obtain rfl : cause = corrected := hkeys.corrections.eq hcause.mem hcorrected hcause.id
  exact
    { after_eq := hinserted.after_eq, wrote := hwrote, authentic := hinserted.authentic
      receipt := hrow ▸ rfl, line := hrow ▸ rfl, correction := hrow ▸ rfl, generation := hrow ▸ rfl
      sequence := (congrArg Evaluation.evaluationSeq hrow).trans hinserted.sequence
      actor := hcause.actor.symm, occurredAt := hcause.occurredAt
      transaction :=
        (congrArg Evaluation.recordingTransactionId hrow).trans hcause.transaction.symm }

/-- What `_evaluate` was asked to evaluate, and the round that it wrote of it. -/
structure EvaluationWritten (round : Round) (ctx : Context) (header : Receipt)
    (reversal corrected : RecordCorrection LineFields) (introduced : List Comparator)
    (evaluation : Evaluation) (before t' : Tenant) : Prop where
  inputs : round.ctx = ctx ∧ round.header = header ∧ round.before = before
  rows : round.reversal = reversal ∧ round.corrected = corrected ∧ round.introduced = introduced ∧
    round.evaluation = evaluation
  caused : round.Caused
  evaluated : round.Evaluated
  writes : Writes header.id before t'
  after_eq : t' = round.after

/-- `_evaluate` writes the round's evaluation. -/
theorem evaluate_eq_ok {ctx : Context} {header : Receipt}
    {reversal corrected : RecordCorrection LineFields} {introduced : List Comparator}
    {keys : EvaluationKeys} {evaluation : Evaluation} {before t' : Tenant}
    (hkeys : before.Integrity)
    (hbase : Writes header.id before
      { before with
        lineCorrections := before.lineCorrections ++ [reversal, corrected]
        comparators := before.comparators ++ introduced })
    (h : Service.evaluate ctx header corrected keys
      { before with
        lineCorrections := before.lineCorrections ++ [reversal, corrected]
        comparators := before.comparators ++ introduced } = .ok (evaluation, t')) :
    ∃ round : Round,
      round.EvaluationWritten ctx header reversal corrected introduced evaluation before t' := by
  simp only [Service.evaluate, bind_eq_ok, pure_eq_ok] at h
  obtain ⟨⟨e, started⟩, hstart, lines, hlines, expectations, hexpectations, found, hfound,
    ⟨claimed, judged⟩, hjudge, final, hreopen, heq⟩ := h
  obtain ⟨rfl, rfl⟩ := Prod.mk.inj heq
  have hopen := openEvaluation_eq_ok hstart (Writes.integrity hbase hkeys) (by simp)
  obtain rfl := hopen.after_eq
  let round : Round := ⟨ctx, keys, header, before, reversal, corrected, introduced, e, found⟩
  have hstarted : Writes header.id before round.started := hbase.tail hopen.wrote
  have hopened : round.Opened :=
    ⟨hkeys, (Writes.integrity hstarted hkeys).evaluations, hopen.receipt, hopen.authentic⟩
  have hlines' : (before.linesOf header.id).foldlM (Service.pinLine round.ctx round.evaluation
      round.keys.lineId) round.started = .ok lines := hlines
  obtain ⟨rfl, hsound, hpinned⟩ := pinLines_of_foldlM hopened hlines'
  have hexpectations' : (round.comparators.filter (·.receiptId = header.id)).foldlM
      (Service.pinExpectation round.ctx round.evaluation round.keys.expectationId)
      { round.started with
        evaluationLines := round.started.evaluationLines ++
          (before.linesOf header.id).map round.line } = .ok expectations := hexpectations
  obtain ⟨rfl, hmore⟩ := pinExpectations_of_foldlM hopened (by rfl) hexpectations'
  have hjudge' : round.observations.foldlM (Service.observe round.ctx round.corrected
      round.evaluation round.keys round.workflows round.desired) ([], round.pinned) =
        .ok (claimed, judged) := hjudge
  obtain ⟨hstate, hsupported, hworkflows, hjudged⟩ := judged_of_foldlM hopened hjudge'
  obtain ⟨rfl, rfl⟩ := Prod.mk.inj hstate
  have hreopen' : round.unclaimed.foldlM (Service.openObservation round.ctx round.header
      round.evaluation round.keys) (round.judged round.observations) = .ok final := by
    rw [← hreopen, unclaimed]
    congr 1
    exact List.filter_congr fun key _ => by simp only [mem_claimed]
  obtain ⟨rfl, hreopened⟩ := reopened_of_foldlM hopened hreopen'
  have hwrites : Writes header.id round.started round.after :=
    ((hpinned.trans hmore).trans hjudged).trans hreopened
  have hcaused : round.Caused :=
    { receipt := hopen.receipt, line := hopen.line, correction := hopen.correction
      generation := hopen.generation, sequence := hopen.sequence, actor := hopen.actor
      occurredAt := hopen.occurredAt, transaction := hopen.transaction }
  exact ⟨round,
    { inputs := ⟨rfl, rfl, rfl⟩, rows := ⟨rfl, rfl, rfl, rfl⟩, caused := hcaused
      evaluated := ⟨hsound, hfound, hworkflows, hsupported, hwrites⟩
      writes := hstarted.trans hwrites, after_eq := rfl }⟩

/-! ## The correction -/

/-- The two rows that `_pair` writes of a receipt line. -/
structure Paired (ctx : Context) (t : Tenant) (original : ReceiptLine)
    (replacement : LineFields → LineFields) (reversal corrected : RecordCorrection LineFields) :
    Prop where
  role : corrected.role = .corrected
  root : corrected.rootId = original.id
  entity : corrected.entityId = original.receiptId
  next : corrected.generation = Tenant.generation t.lineCorrections original.id + 1
  fields : corrected.fields = replacement (t.effectiveReceiptLine original).fields
  transaction : corrected.recordingTransactionId = ctx.transactionId
  checks : correctionChecks ctx.posixSpace corrected
  /-- The reversal repeats what was in force, and the replacement's other columns. -/
  mirror : reversal = { corrected with
    id := reversal.id
    role := .reversal
    fields := (t.effectiveReceiptLine original).fields
    conflictingAssetId := reversal.conflictingAssetId }

/-- What the service has checked of a round that it wrote. -/
structure Valid (round : Round) : Prop extends Caused round, Evaluated round where
  sealed : round.before.reconciled round.receipt
  root : ∃ line ∈ round.before.lines, line.id = round.corrected.rootId ∧
    line.receiptId = round.receipt
  paired : ∃ original ∈ round.before.lines, ∃ replacement,
    Paired round.ctx round.before original replacement round.reversal round.corrected
  reversal : round.reversal.role = .reversal ∧ round.reversal.entityId = round.receipt ∧
    round.reversal.rootId = round.corrected.rootId ∧
    round.reversal.pairId = round.corrected.pairId
  corrected : round.corrected.role = .corrected ∧ round.corrected.entityId = round.receipt
  next : round.corrected.generation =
    Tenant.generation round.before.lineCorrections round.corrected.rootId + 1
  introduced : ∀ c ∈ round.introduced, c.receiptId = round.receipt ∧
    c.introducedByCorrectionId = some round.corrected.id
  selected : ∀ poLine ∈ round.corrected.fields.poLineId,
    ∃ c ∈ round.comparators, c.receiptId = round.receipt ∧ c.poLineId = poLine

/-- `_pair`, of a receipt line. -/
theorem pair_eq_ok {ctx : Context} {original : ReceiptLine} {values : CorrectionValues}
    {replacement : LineFields → LineFields} {keys : PairKeys} {t t' : Tenant}
    {corrected : RecordCorrection LineFields} (hkeys : t.Integrity) (hline : original ∈ t.lines)
    (h : Service.pair ctx (insertReceiptLineCorrection ctx) original.id original.receiptId
      original.fields original.occurredAt (Tenant.latestCorrection t.lineCorrections original.id)
      values replacement keys t = .ok (corrected, t')) :
    ∃ reversal : RecordCorrection LineFields, Paired ctx t original replacement reversal corrected ∧
      t' = { t with lineCorrections := t.lineCorrections ++ [reversal, corrected] } ∧
      Writes original.receiptId t t' := by
  simp only [Service.pair, Service.assetConstraints, bind_eq_ok, Service.ensure_eq_ok,
    Service.translating_eq_ok, Service.execute_eq_ok, exists_unit] at h
  obtain ⟨-, actor, -, ⟨reversal, middle⟩, hreversal, hcorrected⟩ := h
  have hexists : ∃ line ∈ t.lines, line.id = original.id ∧ line.receiptId = original.receiptId :=
    ⟨original, hline, rfl, rfl⟩
  have hwrote := wrote_of_insertReceiptLineCorrection hreversal hexists hkeys.lines
  obtain ⟨hadmitted, -, -, rfl⟩ := insertReceiptLineCorrection_eq_ok hreversal
  have hwrote' := wrote_of_insertReceiptLineCorrection hcorrected hexists
    (hwrote.integrity hkeys).lines
  obtain ⟨hadmitted', hchecks, -, rfl⟩ := insertReceiptLineCorrection_eq_ok hcorrected
  have hrow := hadmitted.row
  have hrow' := hadmitted'.row
  have hoccurred : reversal.occurredAt = corrected.occurredAt := by
    obtain ⟨line, hfirst⟩ := hadmitted.line
    obtain ⟨line', hsecond⟩ := hadmitted'.line
    rw [hfirst.occurredAt, hsecond.occurredAt,
      Option.some.inj (hfirst.found.symm.trans hsecond.found)]
  have hactor : reversal.actorId = corrected.actorId :=
    Except.ok.inj (hadmitted.actor.symm.trans hadmitted'.actor)
  have hid : reversal.id = keys.reversalId := by rw [hrow]
  refine ⟨reversal, ⟨?_, ?_, ?_, ?_, ?_, ?_, hchecks, ?_⟩, by simp, .tail (.single hwrote) hwrote'⟩
  · rw [hrow']
  · rw [hrow']
  · rw [hrow']
  · rw [hrow']
    exact hadmitted.generation
  · rw [hrow', Tenant.effectiveReceiptLine_fields]
  · rw [hrow']
  · rw [Tenant.effectiveReceiptLine_fields]
    conv_lhs => rw [hrow]
    conv_rhs => rw [hrow']
    simp only [hoccurred, hactor, hid]

/-- A newly selected comparator, if the replacement selects one. -/
theorem bindReplacement_eq_ok {ctx : Context} {header : Receipt}
    {corrected : RecordCorrection LineFields} {generation : ℕ} {id : Uuid} {t t' : Tenant}
    (h : (match corrected.fields.poLineId with
      | none => (pure t : Service Tenant)
      | some poLine => Service.bindComparator ctx header poLine generation (some corrected.id) id t) =
        .ok t') :
    ∃ introduced : List Comparator, t' = { t with comparators := t.comparators ++ introduced } ∧
      (∀ c ∈ introduced, c.receiptId = header.id ∧
        c.introducedByCorrectionId = some corrected.id) ∧
      (∀ poLine ∈ corrected.fields.poLineId,
        Service.bindComparator ctx header poLine generation (some corrected.id) id t = .ok t' ∧
        ∃ c ∈ t'.comparators, c.receiptId = header.id ∧ c.poLineId = poLine) ∧
      Writes header.id t t' := by
  cases hselected : corrected.fields.poLineId with
  | none =>
      simp only [hselected] at h
      obtain rfl := pure_eq_ok.mp h
      exact ⟨[], by simp, by simp, by simp, .refl⟩
  | some poLine =>
      simp only [hselected] at h
      rcases bindComparator_eq_ok h with
        ⟨rfl, hbound⟩ | ⟨row, hreceipt, hpo, hcause, -, rfl, hwrote⟩
      · exact ⟨[], by simp, by simp, by simpa [h] using hbound, .refl⟩
      · refine ⟨[row], rfl, by simp [hreceipt, hcause], fun other hother => ?_, .single hwrote⟩
        obtain rfl := Option.mem_some.mp hother
        exact ⟨h, row, by simp, hreceipt, hpo⟩

/-- What `correct_receipt_line` was asked to correct, and the round that it wrote of it. -/
structure CorrectionWritten (round : Round) (ctx : Context) (receipt root : Uuid)
    (values : ReceiptLineCorrection) (keys : ReceiptCorrectionKeys)
    (corrected : RecordCorrection LineFields) (evaluation : Evaluation) (t t' : Tenant) : Prop where
  inputs : round.ctx = ctx ∧ round.receipt = receipt ∧ round.before = t
  rows : round.corrected = corrected ∧ round.evaluation = evaluation
  valid : round.Valid
  writes : Writes receipt t t'
  original : ∃ original ∈ t.lines, original.id = root ∧ original.receiptId = receipt ∧
    Paired ctx t original values.replacement round.reversal corrected
  bound : ∀ poLine ∈ corrected.fields.poLineId, ∃ bound,
    Service.bindComparator ctx round.header poLine (values.expectedPoGeneration.getD 0)
      (some corrected.id) keys.comparatorId
      { t with lineCorrections := round.corrections } = .ok bound ∧
    bound.comparators = round.comparators
  after_eq : t' = round.after

/-- `correct_receipt_line` writes a round. -/
theorem writeReceiptCorrection_eq_ok {ctx : Context} {receipt root : Uuid}
    {values : ReceiptLineCorrection} {keys : ReceiptCorrectionKeys} {t t' : Tenant}
    {corrected : RecordCorrection LineFields} {evaluation : Evaluation} (hkeys : t.Integrity)
    (h : Service.writeReceiptCorrection ctx receipt root values keys t =
      .ok (corrected, evaluation, t')) :
    ∃ round : Round,
      round.CorrectionWritten ctx receipt root values keys corrected evaluation t t' := by
  simp only [Service.writeReceiptCorrection, Service.lock, Service.header, Service.head,
    bind_eq_ok, Service.ensure_eq_ok, Service.fetch_eq_ok, Service.execute_eq_ok, pure_eq_ok,
    exists_unit] at h
  obtain ⟨header, ⟨_, -, hlock⟩, hsealed, original, horiginal, _, ⟨-, rfl⟩, ⟨replaced, paired⟩,
    hpair, h⟩ := h
  obtain ⟨-, -, rfl⟩ := lockReceivingContext_eq_ok hlock
  have hmem := List.mem_of_find?_eq_some horiginal
  have hroot := List.find?_some horiginal
  simp only [decide_eq_true_eq] at hroot
  obtain ⟨rfl, howner⟩ := hroot
  obtain ⟨reversal, hpaired, rfl, hwrites⟩ := pair_eq_ok hkeys hmem hpair
  have hbind : ∃ bound, (match replaced.fields.poLineId with
      | none => (pure { t with lineCorrections := t.lineCorrections ++ [reversal, replaced] } :
          Service Tenant)
      | some poLine => Service.bindComparator ctx header poLine
          (values.expectedPoGeneration.getD 0) (some replaced.id) keys.comparatorId
          { t with lineCorrections := t.lineCorrections ++ [reversal, replaced] }) = .ok bound ∧
      Service.evaluate ctx header replaced keys.evaluation bound = .ok (evaluation, t') ∧
      replaced = corrected := by
    cases hpo : replaced.fields.poLineId with
    | none =>
        simp only [hpo, bind_eq_ok, pure_eq_ok] at h
        obtain ⟨bound, rfl, ⟨_, _⟩, hevaluate, heq⟩ := h
        simp only [Prod.mk.injEq] at heq
        obtain ⟨rfl, rfl, rfl⟩ := heq
        exact ⟨_, rfl, hevaluate, rfl⟩
    | some poLine =>
        simp only [hpo, bind_eq_ok, pure_eq_ok] at h
        obtain ⟨bound, hbind, ⟨_, _⟩, hevaluate, heq⟩ := h
        simp only [Prod.mk.injEq] at heq
        obtain ⟨rfl, rfl, rfl⟩ := heq
        exact ⟨_, hbind, hevaluate, rfl⟩
  obtain ⟨bound, hbind, hevaluate, rfl⟩ := hbind
  obtain ⟨introduced, rfl, hintroduced, hselected, hbound⟩ := bindReplacement_eq_ok hbind
  rw [howner] at hwrites
  obtain ⟨round, hwritten⟩ := evaluate_eq_ok hkeys (hwrites.trans hbound) hevaluate
  obtain ⟨rfl, rfl, rfl⟩ := hwritten.inputs
  obtain ⟨rfl, rfl, rfl, rfl⟩ := hwritten.rows
  have hvalid : round.Valid :=
    { hwritten.caused, hwritten.evaluated with
      sealed := hsealed
      root := ⟨original, hmem, hpaired.root.symm, howner⟩
      paired := ⟨original, hmem, _, hpaired⟩
      reversal := by
        rw [hpaired.mirror]
        exact ⟨rfl, hpaired.entity.trans howner, rfl, rfl⟩
      corrected := ⟨hpaired.role, hpaired.entity.trans howner⟩
      next := by
        rw [hpaired.root]
        exact hpaired.next
      introduced := hintroduced
      selected := fun poLine hpo => (hselected poLine hpo).2 }
  exact ⟨round,
    { inputs := ⟨rfl, rfl, rfl⟩, rows := ⟨rfl, rfl⟩, valid := hvalid, writes := hwritten.writes
      original := ⟨original, hmem, rfl, howner, hpaired⟩
      bound := fun poLine hpo => ⟨_, (hselected poLine hpo).1, rfl⟩
      after_eq := hwritten.after_eq }⟩

/-- The rows that a round leaves; workflows are those of its events and new observations. -/
theorem after_eq : round.after =
    { round.before with
      lineCorrections := round.corrections
      comparators := round.comparators
      evaluations := round.before.evaluations ++ [round.evaluation]
      evaluationLines := round.before.evaluationLines ++
        (round.before.linesOf round.receipt).map round.line
      evaluationExpectations := round.before.evaluationExpectations ++
        (round.comparators.filter (·.receiptId = round.receipt)).map round.expectation
      evaluationExceptions := round.before.evaluationExceptions ++
        round.observations.map round.link ++ round.unclaimed.map round.openedLink
      exceptions := round.before.exceptions ++ round.unclaimed.map round.opened
      events := round.before.events ++ round.observations.filterMap round.resolution
      workflows := round.after.workflows } := by
  unfold after reopened
  rw [judged_eq]
  rfl

end Round

end

end FleetOps
