import FleetOps.Foundations.EventLog
import FleetOps.Receiving.Runs

/-!
# The logs of receiving exceptions

The events of an exception form a legal log, and its workflow's row is the fold
of that log over the row that the observation opened (`Tenant.Logged`).  Every
statement keeps this, whether a client or a correction made the event, so the
anomaly view stays empty and `transition_exception` always compares a request
with the status that the log leaves.
-/

namespace FleetOps

open Relation Keys

/-- How an exception's events are read. -/
def eventReading : EventLog.Reading ExceptionEvent ExceptionStatus where
  number := ExceptionEvent.eventSeq
  source := ExceptionEvent.fromStatus
  target := ExceptionEvent.toStatus

/-- A legal log of an exception's events. -/
abbrev LegalLog (log : List ExceptionEvent) : Prop :=
  EventLog.Legal eventReading (fun source target => source.admits target) .open log

/-- A terminal status has no edges. -/
theorem ExceptionStatus.not_admits {s : ExceptionStatus} (h : s.terminal = true)
    (target : ExceptionStatus) : ¬s.admits target = true := by
  cases s <;> cases target <;> simp_all [terminal, admits]

/-- Only the newest event shows in a workflow's row. -/
theorem foldl_after (w : ExceptionWorkflow) (log : List ExceptionEvent) :
    log.foldl ExceptionWorkflow.after w = (log.getLast?.map w.after).getD w := by
  induction log using List.reverseRecOn with
  | nil => rfl
  | append_singleton log event ih =>
      rw [List.foldl_concat, ih, List.getLast?_concat]
      cases log.getLast? <;> rfl

/-- An exception's events are a legal log, which its workflow's row folds. -/
structure Tenant.Logged (t : Tenant) (o : ReceivingException) : Prop where
  legal : LegalLog (t.eventsOf o.id)
  projection : t.workflow? o.id = some ((t.eventsOf o.id).foldl ExceptionWorkflow.after o.opened)

section

variable {t t' : Tenant} {receipt : Uuid} {o : ReceivingException}

namespace Tenant.Logged

theorem latestEvent (h : t.Logged o) : t.latestEvent o.id = (t.eventsOf o.id).getLast? :=
  h.legal.latestBy

/-- The status that the newest event entered is the one that the log leaves. -/
theorem status_latest (h : t.Logged o) : ((t.latestEvent o.id).map ExceptionEvent.toStatus).getD
    .open = EventLog.status eventReading .open (t.eventsOf o.id) := by
  rw [h.latestEvent]
  rfl

theorem seq_latest (h : t.Logged o) : ((t.latestEvent o.id).map ExceptionEvent.eventSeq).getD 0 =
    (t.eventsOf o.id).length := by
  rw [h.latestEvent]
  exact h.legal.number_latest

/-- The row of a workflow that is logged agrees with its history. -/
theorem not_malformed (h : t.Logged o) : t.malformedWorkflow o = false := by
  have hseq := h.seq_latest
  rw [Tenant.malformedWorkflow, h.projection]
  simp only [foldl_after, h.latestEvent] at hseq ⊢
  cases hlast : (t.eventsOf o.id).getLast? with
  | none =>
      rw [List.getLast?_eq_none_iff] at hlast
      simp [ReceivingException.opened, hlast]
  | some event =>
      simp only [hlast, Option.map_some, Option.getD_some] at hseq
      simp [ReceivingException.opened, ExceptionWorkflow.after, hseq]

/-- Its events follow one another. -/
theorem event_not_malformed (h : t.Logged o) {event : ExceptionEvent}
    (hevent : event ∈ t.eventsOf o.id) : t.malformedEvent event = false := by
  have hid : event.exceptionId = o.id := by simpa [eventsOf] using (List.mem_filter.mp hevent).2
  obtain ⟨earlier, later, hsplit⟩ := List.append_of_mem hevent
  have hpredecessor := h.legal.predecessor hevent
  have hfind : (t.events.find? fun p => p.exceptionId = event.exceptionId ∧
      p.eventSeq + 1 = event.eventSeq) =
        (t.eventsOf o.id).find? fun p => eventReading.number p + 1 = eventReading.number event := by
    rw [eventsOf, List.find?_filter, hid]
    congr 1
    funext p
    rw [Bool.eq_iff_iff, decide_eq_true_iff, decide_eq_true_iff, decide_eq_true_iff,
      decide_eq_true_iff]
    rfl
  rw [malformedEvent, hfind]
  simp only [Bool.or_eq_false_iff, bne_eq_false_iff_eq, Bool.and_eq_false_iff,
    decide_eq_false_iff_not, Bool.not_eq_false']
  refine ⟨⟨hpredecessor.1.symm, ?_⟩, (h.legal.steps earlier event later hsplit).2⟩
  by_cases hlt : 1 < event.eventSeq
  · exact .inr (by simpa using hpredecessor.2 hlt)
  · exact .inl hlt

/-- The anomaly view does not name it. -/
theorem sound (h : t.Logged o) (hkeys : t.Integrity) (ho : o ∈ t.exceptions) :
    o.id ∉ t.exceptionWorkflowAnomalies := by
  intro hmem
  rcases List.mem_append.mp hmem with hworkflow | hevent
  · obtain ⟨other, hother, hid⟩ := List.mem_map.mp hworkflow
    obtain ⟨hexception, hmalformed⟩ := List.mem_filter.mp hother
    obtain rfl := hkeys.exceptions.eq hexception ho hid
    simp [h.not_malformed] at hmalformed
  · obtain ⟨event, hfound, hid⟩ := List.mem_map.mp hevent
    obtain ⟨hlogged, hmalformed⟩ := List.mem_filter.mp hfound
    have hown : event ∈ t.eventsOf o.id := List.mem_filter.mpr ⟨hlogged, decide_eq_true hid⟩
    simp [h.event_not_malformed hown] at hmalformed

/-- What is read of an exception decides whether it is logged. -/
theorem congr (h : t.Logged o) (hevents : t'.eventsOf o.id = t.eventsOf o.id)
    (hworkflow : t'.workflow? o.id = t.workflow? o.id) : t'.Logged o :=
  ⟨hevents ▸ h.legal, by rw [hworkflow, hevents]; exact h.projection⟩

end Tenant.Logged

/-- Every statement about a receipt keeps its exceptions logged. -/
theorem Wrote.logged (h : Wrote receipt t t') (hkeys : t.Integrity)
    (hlogged : ∀ o ∈ t.exceptionsOf receipt, t.Logged o) :
    ∀ o ∈ t'.exceptionsOf receipt, t'.Logged o := by
  cases h with
  | @exception row hreceipt hreceived hkey hworkflow hevaluation =>
      intro o ho
      obtain ⟨hmem, howner⟩ := Tenant.mem_exceptionsOf.mp ho
      rcases List.mem_append.mp hmem with hold | hnew
      · refine (hlogged o (Tenant.mem_exceptionsOf.mpr ⟨hold, howner⟩)).congr rfl ?_
        exact Keys.find?_append_of_forall fun w hw => by
          simpa [List.mem_singleton.mp hw, ReceivingException.opened] using (hkey o hold).symm
      · obtain rfl := List.mem_singleton.mp hnew
        have hevents : t.events.filter (·.exceptionId = o.id) = [] := by
          refine List.filter_eq_nil_iff.mpr fun event hevent heq => ?_
          obtain ⟨other, hother, hid⟩ := hkeys.eventException event hevent
          exact hkey other hother (hid.trans (of_decide_eq_true heq))
        have hnone : t.workflows.find? (·.exceptionId = o.id) = none :=
          List.find?_eq_none.mpr fun w hw => by simpa using hworkflow w hw
        refine ⟨?_, ?_⟩
        · rw [Tenant.eventsOf, hevents]
          exact .nil
        · rw [Tenant.eventsOf, hevents, Tenant.workflow?, List.find?_append, hnone]
          simp [ReceivingException.opened]
  | @event event hexception hevaluation hadmits hstatus hseq hsound =>
      intro o ho
      have hold := hlogged o ho
      by_cases hid : event.exceptionId = o.id
      · have hevents : ({ t with events := t.events ++ [event] }.advance event).eventsOf o.id =
            t.eventsOf o.id ++ [event] := by
          simp [Tenant.eventsOf, Tenant.advance, hid]
        refine ⟨?_, ?_⟩
        · rw [hid, hold.status_latest] at hstatus
          rw [hid, hold.seq_latest] at hseq
          rw [hevents]
          exact hold.legal.concat hseq hstatus hadmits
        · have hfound : ({ t with events := t.events ++ [event] } : Tenant).workflow? o.id =
              some ((t.eventsOf o.id).foldl ExceptionWorkflow.after o.opened) := hold.projection
          have hown := (key_of_find? hfound).2
          rw [Tenant.workflow?_advance, hfound, hevents, List.foldl_concat, Option.map_some,
            if_pos (hown.trans hid.symm)]
      · have hother : o.id ≠ event.exceptionId := Ne.symm hid
        refine hold.congr ?_ (Tenant.workflow?_advance_of_ne hother)
        exact filter_append_of_forall fun other hnew => by
          simpa [List.mem_singleton.mp hnew] using hid
  | _ => exact fun o ho => (hlogged o ho).congr rfl rfl

theorem Writes.logged (h : Writes receipt t t') (hkeys : t.Integrity)
    (hlogged : ∀ o ∈ t.exceptionsOf receipt, t.Logged o) :
    ∀ o ∈ t'.exceptionsOf receipt, t'.Logged o := by
  induction h with
  | refl => exact hlogged
  | tail hwrites hlast ih => exact hlast.logged (Writes.integrity hwrites hkeys) ih

/-- So does every request. -/
theorem StepOn.logged {posixSpace : Char → Bool} (h : StepOn posixSpace receipt t t')
    (hkeys : t.Integrity) (hlogged : ∀ o ∈ t.exceptionsOf receipt, t.Logged o) :
    ∀ o ∈ t'.exceptionsOf receipt, t'.Logged o := by
  cases h with
  | same hsame =>
      intro o ho
      rw [hsame.exceptions] at ho
      exact (hlogged o ho).congr (hsame.events o ho) (hsame.workflows o ho)
  | captured hcaptured => exact Writes.logged hcaptured.writes hkeys hlogged
  | corrected round hspace hreceipt hbefore hvalid hafter hwrites =>
      exact Writes.logged hwrites hkeys hlogged
  | transitioned event hmanual hafter hwrote => exact hwrote.logged hkeys hlogged

/-! ## Terminal statuses -/

/-- The status that an exception's log leaves. -/
abbrev Tenant.statusOf (t : Tenant) (exception : Uuid) : ExceptionStatus :=
  EventLog.status eventReading .open (t.eventsOf exception)

/-- No statement loses an exception or one of its events. -/
theorem Wrote.exception_kept (h : Wrote receipt t t') (ho : o ∈ t.exceptions) :
    o ∈ t'.exceptions ∧ ∃ more, t'.eventsOf o.id = t.eventsOf o.id ++ more := by
  cases h with
  | exception => exact ⟨List.mem_append_left _ ho, [], (List.append_nil _).symm⟩
  | event => exact ⟨ho, _, List.filter_append ..⟩
  | _ => exact ⟨ho, [], (List.append_nil _).symm⟩

theorem Writes.exception_kept (h : Writes receipt t t') (ho : o ∈ t.exceptions) :
    o ∈ t'.exceptions ∧ ∃ more, t'.eventsOf o.id = t.eventsOf o.id ++ more := by
  induction h with
  | refl => exact ⟨ho, [], (List.append_nil _).symm⟩
  | tail hwrites hlast ih =>
      obtain ⟨hmem, first, hfirst⟩ := ih
      obtain ⟨hkept, more, hmore⟩ := hlast.exception_kept hmem
      exact ⟨hkept, first ++ more, by rw [hmore, hfirst, List.append_assoc]⟩

/-- No request changes an exception whose workflow has ended. -/
theorem StepOn.terminal_kept {posixSpace : Char → Bool} (h : StepOn posixSpace receipt t t')
    (hkeys : t.Integrity) (hlogged : ∀ o ∈ t.exceptionsOf receipt, t.Logged o)
    (ho : o ∈ t.exceptionsOf receipt) (hterminal : (t.statusOf o.id).terminal = true) :
    o ∈ t'.exceptionsOf receipt ∧ t'.eventsOf o.id = t.eventsOf o.id ∧
      t'.workflow? o.id = t.workflow? o.id := by
  have hmem := Tenant.mem_exceptionsOf.mp ho
  have hwritten : Writes receipt t t' → o ∈ t'.exceptionsOf receipt ∧
      t'.eventsOf o.id = t.eventsOf o.id ∧ t'.workflow? o.id = t.workflow? o.id := by
    intro hwrites
    obtain ⟨hkept, more, hmore⟩ := Writes.exception_kept hwrites hmem.1
    have ho' := Tenant.mem_exceptionsOf.mpr ⟨hkept, hmem.2⟩
    have hafter := Writes.logged hwrites hkeys hlogged o ho'
    have hlegal := hafter.legal
    rw [hmore] at hlegal
    obtain rfl := hlegal.eq_nil_of_terminal (ExceptionStatus.not_admits hterminal)
    rw [List.append_nil] at hmore
    refine ⟨ho', hmore, ?_⟩
    rw [hafter.projection, (hlogged o ho).projection, hmore]
  cases h with
  | same hsame => exact ⟨hsame.exceptions ▸ ho, hsame.events o ho, hsame.workflows o ho⟩
  | captured hcaptured => exact hwritten hcaptured.writes
  | corrected round hspace hreceipt hbefore hvalid hafter hwrites => exact hwritten hwrites
  | transitioned event hmanual hafter hwrote => exact hwritten (.single hwrote)

end

end FleetOps
