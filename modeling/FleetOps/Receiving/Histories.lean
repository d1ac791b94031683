import FleetOps.Receiving.Supports

/-!
# Evaluations in their own time

An evaluation is judged by what existed when it was made: the corrections that
had been evaluated, the comparators and observations that there were, the events
up to the one that it names.  `Tenant.Consistent` says of an evaluation what the
database's view asks of it, in terms of its receipt's rows.  A round writes a
consistent evaluation (`Round.consistent`), and what comes later leaves it so
(`Tenant.Later.consistent`).
-/

namespace FleetOps

open Relation Keys

namespace Tenant

variable (tenant : Tenant) (e : Evaluation)

/-- A correction had been evaluated when the evaluation was made. -/
def EvaluatedBy (correction : Uuid) : Prop :=
  ∃ cause ∈ tenant.evaluationsOf e.receiptId,
    cause.correctionId = correction ∧ cause.evaluationSeq ≤ e.evaluationSeq

instance (correction : Uuid) : Decidable (tenant.EvaluatedBy e correction) :=
  inferInstanceAs (Decidable (∃ cause ∈ _, _))

/-- The generation that a line had then. -/
def generationBy (root : Uuid) : ℕ :=
  (((tenant.correctionsOf e.receiptId).filter fun c => c.rootId = root ∧
    tenant.EvaluatedBy e c.id).map RecordCorrection.generation).max?.getD 0

/-- A comparator had been bound then. -/
def BoundBy (b : Comparator) : Prop :=
  ∀ correction ∈ b.introducedByCorrectionId, tenant.EvaluatedBy e correction

/-- An observation had been made then, by the evaluation itself at the latest. -/
def ObservedBy (o : ReceivingException) : Prop :=
  ∀ evaluation ∈ o.evaluationId, ∃ origin ∈ tenant.evaluationsOf e.receiptId,
    origin.id = evaluation ∧ origin.evaluationSeq ≤ e.evaluationSeq

/-- No earlier evaluation had let the exception go. -/
def UpheldBefore (exception : Uuid) : Prop :=
  ∀ earlier ∈ tenant.evaluationsOf e.receiptId, earlier.evaluationSeq < e.evaluationSeq →
    ∀ y ∈ tenant.linksOf earlier.id, y.exceptionId = exception → y.supported = true

/-- The keys of the observations that the evaluation supports. -/
def supportedKeys : List ExceptionKey :=
  ((tenant.linksOf e.id).filter EvaluationException.supported).filterMap fun x =>
    ((tenant.exceptionsOf e.receiptId).find? (·.id = x.exceptionId)).map ReceivingException.key

/-- The status of an exception at the event that the evaluation names. -/
def statusBy (x : EvaluationException) : ExceptionStatus :=
  EventLog.status eventReading .open ((tenant.eventsOf x.exceptionId).take x.priorEventSeq)

/-- The events that the evaluation caused on an exception. -/
def causedEvents (x : EvaluationException) : List ExceptionEvent :=
  (tenant.eventsOf x.exceptionId).filter (·.evaluationId = some e.id)

/-- The workflow consequences of an evaluation's word on an exception: one event resolves what it
let go while it was worked on, and there is none otherwise. -/
structure Followed (pair : Uuid) (x : EvaluationException) : Prop where
  prior : x.priorEventSeq ≤ (tenant.eventsOf x.exceptionId).length
  resolved : x.supported = false → (tenant.statusBy x).terminal = false →
    ∃ event, tenant.causedEvents e x = [event] ∧ event.eventSeq = x.priorEventSeq + 1 ∧
      event.toStatus = .resolved ∧ event.actorId = e.actorId ∧ event.occurredAt = e.occurredAt ∧
      event.note = some (supersessionNote pair)
  untouched : x.supported = true ∨ (tenant.statusBy x).terminal = true →
    tenant.causedEvents e x = []

/-- What an evaluation says is so for its own time. -/
structure Consistent : Prop where
  caused : ∃ cause ∈ tenant.correctionsOf e.receiptId, cause.id = e.correctionId ∧
    cause.role = .corrected ∧ ∀ x ∈ tenant.linksOf e.id, tenant.Followed e cause.pairId x
  lines : ∀ line ∈ tenant.linesOf e.receiptId, ∃ s ∈ tenant.pinnedLines e.id, s.rootId = line.id
  pinned : ∀ s ∈ tenant.pinnedLines e.id, s.actorId = e.actorId ∧ s.occurredAt = e.occurredAt ∧
    (∃ line ∈ tenant.linesOf e.receiptId, line.id = s.rootId) ∧
    s.sourceGeneration = tenant.generationBy e s.rootId ∧
    ∀ source ∈ s.sourceId, ∃ c ∈ tenant.correctionsOf e.receiptId, c.id = source
  comparators : ∀ b ∈ tenant.comparatorsOf e.receiptId, tenant.BoundBy e b →
    ∃ s ∈ tenant.pinnedExpectations e.id, pins s b
  expectations : ∀ s ∈ tenant.pinnedExpectations e.id, s.actorId = e.actorId ∧
    s.occurredAt = e.occurredAt ∧
    ∃ b ∈ tenant.comparatorsOf e.receiptId, tenant.BoundBy e b ∧ pins s b
  observed : ∀ o ∈ tenant.exceptionsOf e.receiptId, tenant.ObservedBy e o →
    ∃ x ∈ tenant.linksOf e.id, x.exceptionId = o.id
  supports : ∀ x ∈ tenant.linksOf e.id, x.actorId = e.actorId ∧ x.occurredAt = e.occurredAt ∧
    ∃ o ∈ tenant.exceptionsOf e.receiptId, o.id = x.exceptionId ∧
      (x.supported = true ↔ (tenant.evaluated e.id).Disagrees o.key ∧ tenant.UpheldBefore e o.id)
  wellFormed : (tenant.evaluated e.id).WellFormed
  coverage : Snapshot.Represents (tenant.supportedKeys e) (tenant.evaluated e.id).Disagrees

end Tenant

/-! ## Later rows -/

/-- What a receipt's rows may become once an evaluation is made: nothing that was is changed, and
what is new is known to be later than every evaluation that there was. -/
structure Tenant.Later (receipt : Uuid) (t t' : Tenant) : Prop where
  lines : t'.linesOf receipt = t.linesOf receipt
  comparators : ∃ more, t'.comparatorsOf receipt = t.comparatorsOf receipt ++ more ∧
    ∀ b ∈ more, ∃ correction ∈ b.introducedByCorrectionId,
      ∀ e ∈ t.evaluationsOf receipt, e.correctionId ≠ correction
  exceptions : ∃ more, t'.exceptionsOf receipt = t.exceptionsOf receipt ++ more ∧
    ∀ o ∈ more, ∃ evaluation ∈ o.evaluationId, ∀ e ∈ t.evaluationsOf receipt, e.id ≠ evaluation
  corrections : ∃ more, t'.correctionsOf receipt = t.correctionsOf receipt ++ more ∧
    ∀ c ∈ more, ∀ e ∈ t.evaluationsOf receipt, e.correctionId ≠ c.id
  evaluations : ∃ more, t'.evaluationsOf receipt = t.evaluationsOf receipt ++ more ∧
    ∀ new ∈ more, ∀ e ∈ t.evaluationsOf receipt, e.evaluationSeq < new.evaluationSeq
  pinnedLines : ∀ e ∈ t.evaluationsOf receipt, t'.pinnedLines e.id = t.pinnedLines e.id
  pinnedExpectations : ∀ e ∈ t.evaluationsOf receipt,
    t'.pinnedExpectations e.id = t.pinnedExpectations e.id
  links : ∀ e ∈ t.evaluationsOf receipt, t'.linksOf e.id = t.linksOf e.id
  events : ∀ o ∈ t.exceptionsOf receipt, ∃ more, t'.eventsOf o.id = t.eventsOf o.id ++ more ∧
    ∀ event ∈ more, ∀ e ∈ t.evaluationsOf receipt, event.evaluationId ≠ some e.id

section

variable {t t' : Tenant} {receipt : Uuid} {e : Evaluation} {o : ReceivingException}

namespace Tenant.Later

/-- An evaluation with a number that was given then was there. -/
theorem mem_evaluationsOf (h : Later receipt t t') (he : e ∈ t.evaluationsOf receipt)
    {other : Evaluation} (hseq : other.evaluationSeq ≤ e.evaluationSeq) :
    other ∈ t'.evaluationsOf receipt ↔ other ∈ t.evaluationsOf receipt := by
  obtain ⟨more, hmore, hlater⟩ := h.evaluations
  rw [hmore, List.mem_append, or_iff_left]
  intro hnew
  exact absurd (hlater other hnew e he) (not_lt.mpr hseq)

theorem evaluatedBy (h : Later e.receiptId t t') (he : e ∈ t.evaluationsOf e.receiptId)
    (correction : Uuid) : t'.EvaluatedBy e correction ↔ t.EvaluatedBy e correction := by
  constructor
  · intro hevaluated
    obtain ⟨cause, hcause, hid, hseq⟩ := hevaluated
    exact ⟨cause, (h.mem_evaluationsOf he hseq).mp hcause, hid, hseq⟩
  · intro hevaluated
    obtain ⟨cause, hcause, hid, hseq⟩ := hevaluated
    exact ⟨cause, (h.mem_evaluationsOf he hseq).mpr hcause, hid, hseq⟩

theorem generationBy (h : Later e.receiptId t t') (he : e ∈ t.evaluationsOf e.receiptId)
    (root : Uuid) : t'.generationBy e root = t.generationBy e root := by
  obtain ⟨more, hmore, hlater⟩ := h.corrections
  unfold Tenant.generationBy
  simp only [h.evaluatedBy he, hmore]
  rw [filter_append_of_forall]
  intro c hc
  refine decide_eq_false fun hevaluated => ?_
  obtain ⟨cause, hcause, hid, -⟩ := hevaluated.2
  exact hlater c hc cause hcause hid

theorem boundBy (h : Later e.receiptId t t') (he : e ∈ t.evaluationsOf e.receiptId)
    (b : Comparator) : t'.BoundBy e b ↔ t.BoundBy e b := by
  simp only [Tenant.BoundBy, h.evaluatedBy he]

/-- A comparator that had been bound then was there. -/
theorem mem_comparatorsOf (h : Later e.receiptId t t') {b : Comparator} (hbound : t.BoundBy e b) :
    b ∈ t'.comparatorsOf e.receiptId ↔ b ∈ t.comparatorsOf e.receiptId := by
  obtain ⟨more, hmore, hlater⟩ := h.comparators
  rw [hmore, List.mem_append, or_iff_left]
  intro hnew
  obtain ⟨correction, hcorrection, hnone⟩ := hlater b hnew
  obtain ⟨cause, hcause, hid, -⟩ := hbound correction hcorrection
  exact hnone cause hcause hid

/-- So was an observation. -/
theorem mem_exceptionsOf (h : Later e.receiptId t t') (he : e ∈ t.evaluationsOf e.receiptId)
    (hobserved : t'.ObservedBy e o) :
    (o ∈ t'.exceptionsOf e.receiptId ↔ o ∈ t.exceptionsOf e.receiptId) ∧ t.ObservedBy e o := by
  have hobserved : t.ObservedBy e o := by
    intro evaluation hevaluation
    obtain ⟨origin, horigin, hid, hseq⟩ := hobserved evaluation hevaluation
    exact ⟨origin, (h.mem_evaluationsOf he hseq).mp horigin, hid, hseq⟩
  refine ⟨?_, hobserved⟩
  obtain ⟨more, hmore, hlater⟩ := h.exceptions
  rw [hmore, List.mem_append, or_iff_left]
  intro hnew
  obtain ⟨evaluation, hevaluation, hnone⟩ := hlater o hnew
  obtain ⟨origin, horigin, hid, -⟩ := hobserved evaluation hevaluation
  exact hnone origin horigin hid

theorem upheldBefore (h : Later e.receiptId t t') (he : e ∈ t.evaluationsOf e.receiptId)
    (exception : Uuid) : t'.UpheldBefore e exception ↔ t.UpheldBefore e exception := by
  constructor
  · intro hupheld earlier hearlier hseq y hy
    have hearlier' := (h.mem_evaluationsOf he hseq.le).mpr hearlier
    rw [← h.links earlier hearlier] at hy
    exact hupheld earlier hearlier' hseq y hy
  · intro hupheld earlier hearlier' hseq y hy
    have hearlier := (h.mem_evaluationsOf he hseq.le).mp hearlier'
    rw [h.links earlier hearlier] at hy
    exact hupheld earlier hearlier hseq y hy

theorem followed (h : Later e.receiptId t t') (he : e ∈ t.evaluationsOf e.receiptId) {pair : Uuid}
    {x : EvaluationException} (ho : o ∈ t.exceptionsOf e.receiptId) (hid : o.id = x.exceptionId)
    (hfollowed : t.Followed e pair x) : t'.Followed e pair x := by
  obtain ⟨more, hmore, hlater⟩ := h.events o ho
  rw [hid] at hmore
  have hstatus : t'.statusBy x = t.statusBy x := by
    rw [Tenant.statusBy, hmore, List.take_append_of_le_length hfollowed.prior]
    rfl
  have hcaused : t'.causedEvents e x = t.causedEvents e x := by
    unfold Tenant.causedEvents
    rw [hmore, filter_append_of_forall]
    exact fun event hevent => decide_eq_false (hlater event hevent e he)
  refine ⟨?_, ?_, ?_⟩
  · rw [hmore, List.length_append]
    exact Nat.le_add_right_of_le hfollowed.prior
  · rw [hstatus, hcaused]
    exact hfollowed.resolved
  · rw [hstatus, hcaused]
    exact hfollowed.untouched

/-- What comes later leaves an evaluation consistent. -/
theorem consistent (h : Later receipt t t') (he : e ∈ t.evaluationsOf receipt)
    (hevaluated : t'.evaluated e.id = t.evaluated e.id) (hconsistent : t.Consistent e) :
    t'.Consistent e := by
  obtain rfl := (Tenant.mem_evaluationsOf.mp he).2
  obtain ⟨exceptions, hexceptions, -⟩ := h.exceptions
  obtain ⟨corrections, hcorrections, -⟩ := h.corrections
  have hlinks := h.links e he
  constructor
  case caused =>
    obtain ⟨cause, hcause, hid, hrole, hfollowed⟩ := hconsistent.caused
    refine ⟨cause, by rw [hcorrections]; exact List.mem_append_left _ hcause, hid, hrole, ?_⟩
    intro x hx
    rw [hlinks] at hx
    obtain ⟨-, -, o, ho, hexception, -⟩ := hconsistent.supports x hx
    exact h.followed he ho hexception (hfollowed x hx)
  case lines =>
    rw [h.lines, h.pinnedLines e he]
    exact hconsistent.lines
  case pinned =>
    rw [h.lines, h.pinnedLines e he, hcorrections]
    intro s hs
    obtain ⟨hactor, hoccurred, hline, hgeneration, hsource⟩ := hconsistent.pinned s hs
    refine ⟨hactor, hoccurred, hline, hgeneration.trans (h.generationBy he s.rootId).symm, ?_⟩
    intro source hid
    obtain ⟨c, hc, hcid⟩ := hsource source hid
    exact ⟨c, List.mem_append_left _ hc, hcid⟩
  case comparators =>
    intro b hb hbound
    rw [h.boundBy he] at hbound
    rw [h.mem_comparatorsOf hbound] at hb
    rw [h.pinnedExpectations e he]
    exact hconsistent.comparators b hb hbound
  case expectations =>
    rw [h.pinnedExpectations e he]
    intro s hs
    obtain ⟨hactor, hoccurred, b, hb, hbound, hpins⟩ := hconsistent.expectations s hs
    exact ⟨hactor, hoccurred, b, (h.mem_comparatorsOf hbound).mpr hb, (h.boundBy he b).mpr hbound,
      hpins⟩
  case observed =>
    intro o ho hobserved
    obtain ⟨hmem, hobserved⟩ := h.mem_exceptionsOf he hobserved
    rw [hlinks]
    exact hconsistent.observed o (hmem.mp ho) hobserved
  case supports =>
    rw [hlinks, hevaluated]
    intro x hx
    obtain ⟨hactor, hoccurred, o, ho, hid, hiff⟩ := hconsistent.supports x hx
    rw [← h.upheldBefore he o.id] at hiff
    exact ⟨hactor, hoccurred, o, by rw [hexceptions]; exact List.mem_append_left _ ho, hid, hiff⟩
  case wellFormed => exact hevaluated ▸ hconsistent.wellFormed
  case coverage =>
    have hkeys : t'.supportedKeys e = t.supportedKeys e := by
      unfold Tenant.supportedKeys
      rw [hlinks]
      refine List.filterMap_congr fun x hx => ?_
      obtain ⟨-, -, o, ho, hid, -⟩ := hconsistent.supports x (List.mem_filter.mp hx).1
      have hsome : ((t.exceptionsOf e.receiptId).find? (·.id = x.exceptionId)).isSome :=
        List.find?_isSome.mpr ⟨o, ho, decide_eq_true hid⟩
      obtain ⟨found, hfound⟩ := Option.isSome_iff_exists.mp hsome
      rw [hexceptions, find?_append_of_some hfound, hfound]
    rw [hkeys, hevaluated]
    exact hconsistent.coverage

end Tenant.Later

end

end FleetOps
