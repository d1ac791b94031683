import FleetOps.Receiving.Reviews

/-!
# Corrections reconcile exceptions

In every reachable state the observations that stand of a closed receipt are the
disagreements of its facts in force, one to one.  So a correction never meets two
observations that it would support for one key, resolves by one event what it
lets go, and observes anew what nothing stands for.
-/

namespace FleetOps

open Relation Keys Fallible

/-! ## One correction -/

/-- What a committed correction, with its evaluation, does to the observations of its receipt. -/
structure Tenant.Reconciles (before after : Tenant) (receipt evaluation : Uuid) : Prop where
  /-- The evaluation is the newest one, and compares what is in force now. -/
  newest : ∃ e ∈ after.evaluationsOf receipt, e.id = evaluation ∧
    ∀ other ∈ after.evaluationsOf receipt, other.evaluationSeq ≤ e.evaluationSeq
  compared : after.evaluated evaluation = after.inForce receipt
  supported : ∀ o ∈ after.exceptionsOf receipt, ∃ x ∈ after.linksOf evaluation,
    x.exceptionId = o.id ∧ (x.supported = true ↔ o ∈ after.standing receipt)
  /-- What stood still stands if it is found again. -/
  kept : ∀ o ∈ before.exceptionsOf receipt,
    o ∈ after.standing receipt ↔ o ∈ before.standing receipt ∧ (after.inForce receipt).Disagrees o.key
  /-- What nothing stood for is observed anew, -/
  observed : ∀ key, (after.inForce receipt).Disagrees key →
    (∀ o ∈ before.standing receipt, o.key ≠ key) →
      ∃ o ∈ after.standing receipt, o.key = key ∧ o ∉ before.exceptions ∧
        after.eventsOf o.id = [] ∧ after.workflow? o.id = some o.opened
  /-- and nothing else. -/
  fresh : ∀ o ∈ after.exceptionsOf receipt, o ∉ before.exceptionsOf receipt →
    o ∈ after.standing receipt ∧ ∀ s ∈ before.standing receipt, s.key ≠ o.key
  unchanged : ∀ o ∈ before.exceptionsOf receipt,
    o ∈ after.standing receipt ∨ (before.statusOf o.id).terminal = true →
      after.eventsOf o.id = before.eventsOf o.id ∧ after.workflow? o.id = before.workflow? o.id
  resolved : ∀ o ∈ before.exceptionsOf receipt, o ∉ after.standing receipt →
    (before.statusOf o.id).terminal = false →
      ∃ event, after.eventsOf o.id = before.eventsOf o.id ++ [event] ∧
        event.fromStatus = before.statusOf o.id ∧ event.toStatus = .resolved ∧
        event.evaluationId = some evaluation ∧
        (after.workflow? o.id).map ExceptionWorkflow.status = some .resolved

section

variable {t t' : Tenant} {receipt : Uuid} {o : ReceivingException}

/-- The status column of a workflow is what its log leaves. -/
theorem Tenant.Logged.status (h : t.Logged o) :
    (t.workflow? o.id).map ExceptionWorkflow.status = some (t.statusOf o.id) := by
  rw [h.projection, foldl_after, Option.map_some, Tenant.statusOf, EventLog.status]
  cases (t.eventsOf o.id).getLast? <;> rfl

namespace Round

variable {round : Round}

theorem workflow_status (hlogged : round.before.Logged o) :
    (round.workflow o).status = round.before.statusOf o.id := by
  have hstatus := hlogged.status
  unfold workflow
  cases hfound : round.before.workflow? o.id with
  | none => simp [hfound] at hstatus
  | some w => simpa [hfound] using hstatus

/-- An observation that the round lets stand, or whose workflow has ended, is not resolved. -/
theorem resolution_eq_none (hlogged : round.before.Logged o)
    (h : round.supports o = true ∨ (round.before.statusOf o.id).terminal = true) :
    round.resolution o = none := by
  rw [resolution, if_neg]
  intro hresolved
  rw [workflow_status hlogged] at hresolved
  rcases h with hsupports | hterminal
  · exact hresolved.1 hsupports
  · exact hresolved.2 hterminal

theorem resolution_eq_some (hlogged : round.before.Logged o) (hunsupported : round.supports o = false)
    (hopen : (round.before.statusOf o.id).terminal = false) :
    ∃ event, round.resolution o = some event ∧ event.fromStatus = round.before.statusOf o.id ∧
      event.toStatus = .resolved ∧ event.evaluationId = some round.evaluation.id := by
  rw [resolution, if_pos]
  · exact ⟨_, rfl, workflow_status hlogged, rfl, rfl⟩
  · rw [workflow_status hlogged, hunsupported, hopen]
    exact ⟨by simp, by simp⟩

/-- The key of what is observed anew is a new one. -/
theorem ne_opened (hafter : round.after.Integrity) {key : ExceptionKey}
    (hkey : key ∈ round.unclaimed) (ho : o ∈ round.before.exceptions) :
    o.id ≠ (round.opened key).id := by
  have hdistinct := hafter.exceptions
  rw [after_eq, Distinct, List.map_append, List.nodup_append] at hdistinct
  exact hdistinct.2.2 _ (List.mem_map_of_mem ho) _
    (List.mem_map_of_mem (List.mem_map_of_mem hkey))

/-- It has no events. -/
theorem eventsOf_opened (hkeys : round.before.Integrity) (hafter : round.after.Integrity)
    {key : ExceptionKey} (hkey : key ∈ round.unclaimed) :
    round.after.eventsOf (round.opened key).id = [] := by
  refine List.filter_eq_nil_iff.mpr fun event hevent heq => ?_
  have hid : event.exceptionId = (round.opened key).id := of_decide_eq_true heq
  rw [after_eq] at hevent
  rcases List.mem_append.mp hevent with hold | hnew
  · obtain ⟨other, hother, hexception⟩ := hkeys.eventException event hold
    exact ne_opened hafter hkey hother (hexception.trans hid)
  · obtain ⟨other, hother, hresolution⟩ := List.mem_filterMap.mp hnew
    exact ne_opened hafter hkey (mem_observations.mp hother).1
      ((resolution_exceptionId hresolution).symm.trans hid)

/-- A round does to the observations of its receipt what a correction is to do. -/
theorem reconciles (hvalid : round.Valid) (h : round.before.Settled round.receipt)
    (h' : round.after.Settled round.receipt) :
    round.before.Reconciles round.after round.receipt round.evaluation.id := by
  have hkeys := h.integrity
  have hafter := h'.integrity
  have hlast : (round.after.evaluationsOf round.receipt).getLast? = some round.evaluation := by
    rw [evaluationsOf_after hvalid, List.getLast?_concat]
  have hdesired := desired_represents hvalid hkeys hafter h'.selectable
  have hstands : ∀ o ∈ round.before.exceptionsOf round.receipt,
      o ∈ round.after.standing round.receipt ↔ round.supports o = true := by
    intro o ho
    have ho' : o ∈ round.after.exceptionsOf round.receipt := by
      rw [exceptionsOf_after]
      exact List.mem_append_left _ ho
    rw [Tenant.mem_standing, priorSupport_observation hvalid hkeys hafter h.reviewed ho]
    simp [ho']
  have hopened : ∀ key ∈ round.unclaimed,
      round.opened key ∈ round.after.standing round.receipt := by
    intro key hkey
    rw [Tenant.mem_standing, exceptionsOf_after,
      priorSupport_opened hvalid hkeys hafter h.reviewed hkey]
    exact ⟨List.mem_append_right _ (List.mem_map_of_mem hkey), by simp⟩
  have hevents : ∀ o ∈ round.before.exceptionsOf round.receipt, round.after.eventsOf o.id =
      round.before.eventsOf o.id ++ (round.resolution o).toList := fun o ho =>
    eventsOf_observation hkeys (List.mem_mergeSort.mpr ho)
  refine ⟨⟨round.evaluation, List.mem_of_getLast? hlast, rfl, ?_⟩, evaluated_after hkeys hafter,
    ?_, ?_, ?_, ?_, ?_, ?_⟩
  · intro other hother
    rw [evaluationsOf_after hvalid] at hother
    rcases List.mem_append.mp hother with hold | hnew
    · exact (evaluationSeq_lt hvalid hold).le
    · rw [List.mem_singleton.mp hnew]
  · intro o ho
    obtain ⟨x, hx, hid⟩ := h'.reviewed.newest _ hlast o ho
    refine ⟨x, hx, hid, ?_⟩
    rw [Tenant.mem_standing, h'.reviewed.priorSupport hafter hlast ho hx hid]
    simp [ho]
  · intro o ho
    rw [hstands o ho, supports, decide_eq_true_eq, Tenant.mem_standing, ← hdesired.2 o.key]
    simp [ho]
  · intro key hkey hnone
    have hmissing : key ∈ round.unclaimed := by
      rw [unclaimed_eq]
      exact Standing.mem_missing.mpr ⟨(hdesired.2 key).mpr hkey, hnone⟩
    have hevents := eventsOf_opened hkeys hafter hmissing
    refine ⟨round.opened key, hopened key hmissing, rfl, fun hmem => ?_, hevents, ?_⟩
    · exact ne_opened hafter hmissing hmem rfl
    · have hlogged := h'.logged _ (Tenant.mem_standing.mp (hopened key hmissing)).1
      rw [hlogged.projection, hevents]
      rfl
  · intro o ho hnew
    rw [exceptionsOf_after] at ho
    rcases List.mem_append.mp ho with hold | hobserved
    · exact absurd hold hnew
    · obtain ⟨key, hkey, rfl⟩ := List.mem_map.mp hobserved
      refine ⟨hopened key hkey, ?_⟩
      rw [unclaimed_eq] at hkey
      exact (Standing.mem_missing.mp hkey).2
  · intro o ho hkept
    rw [hstands o ho] at hkept
    have hsame := hevents o ho
    rw [resolution_eq_none (h.logged o ho) hkept, Option.toList_none, List.append_nil] at hsame
    have ho' : o ∈ round.after.exceptionsOf round.receipt := by
      rw [exceptionsOf_after]
      exact List.mem_append_left _ ho
    refine ⟨hsame, ?_⟩
    rw [(h'.logged o ho').projection, (h.logged o ho).projection, hsame]
  · intro o ho hgone hopen
    rw [hstands o ho, Bool.not_eq_true] at hgone
    obtain ⟨event, hresolution, hfrom, hto, hevaluation⟩ :=
      resolution_eq_some (h.logged o ho) hgone hopen
    have hlog := hevents o ho
    rw [hresolution, Option.toList_some] at hlog
    have ho' : o ∈ round.after.exceptionsOf round.receipt := by
      rw [exceptionsOf_after]
      exact List.mem_append_left _ ho
    refine ⟨event, hlog, hfrom, hto, hevaluation, ?_⟩
    rw [(h'.logged o ho').status, Tenant.statusOf, hlog, EventLog.status_concat]
    exact congrArg _ hto

end Round

/-! ## The branch that is never taken -/

/-- The service's complaint that it would support a key twice. -/
def Duplicated (failure : Failure) : Prop :=
  failure.kind = .assetConflict ∧ failure.message = "Duplicate supported observation"

section

variable {α : Type} {kind : FailureKind} {message : String}

theorem unduplicated_ensure {condition : Prop} [Decidable condition]
    (h : ¬condition → message ≠ "Duplicate supported observation") :
    Avoids Duplicated (Service.ensure condition kind message) := by
  intro reason hrun hduplicated
  unfold Service.ensure at hrun
  split at hrun
  · exact nomatch hrun
  · obtain rfl := Except.error.inj hrun
    exact h ‹_› hduplicated.2

theorem unduplicated_fetch {value : Option α} (h : message ≠ "Duplicate supported observation") :
    Avoids Duplicated (Service.fetch value kind message) := by
  intro reason hrun hduplicated
  cases value with
  | some value => exact nomatch hrun
  | none =>
      obtain rfl := Except.error.inj hrun
      exact h hduplicated.2

/-- The database has no such complaint. -/
theorem unduplicated_execute {statement : Sql α} :
    Avoids Duplicated (Service.execute statement) := by
  intro reason hrun hduplicated
  cases statement with
  | ok value => exact nomatch hrun
  | error raised =>
      obtain rfl := Except.error.inj hrun
      exact nomatch hduplicated.1

theorem unduplicated_assetConstraints {body : Service α} (h : Avoids Duplicated body) :
    Avoids Duplicated (Service.assetConstraints body) := by
  intro reason hrun hduplicated
  unfold Service.assetConstraints Service.translating at hrun
  split at hrun
  · rename_i state text cause
    cases state <;>
    · obtain rfl := Except.error.inj hrun
      exact absurd hduplicated.2 (by simp)
  · exact h _ hrun hduplicated

end

section

variable {ctx : Context} {header : Receipt}

theorem unduplicated_bindComparator {poLine : Uuid} {generation : ℕ} {correction : Option Uuid}
    {id : Uuid} : Avoids Duplicated
      (Service.bindComparator ctx header poLine generation correction id t) := by
  unfold Service.bindComparator
  refine (unduplicated_ensure fun _ => by simp).bind fun _ _ => ?_
  split
  · exact .pure
  · refine (unduplicated_ensure fun _ => by simp).bind fun _ _ => ?_
    exact unduplicated_execute.bind fun _ _ => unduplicated_execute

/-- It binds what it introduces, if it introduces anything. -/
theorem introduced_of_bindComparator {poLine : Uuid} {generation : ℕ} {correction : Option Uuid}
    {id : Uuid}
    (h : Service.bindComparator ctx header poLine generation correction id t = .ok t') :
    ∃ introduced, t' = { t with comparators := t.comparators ++ introduced } ∧
      Writes header.id t t' := by
  rcases bindComparator_eq_ok h with ⟨rfl, -⟩ | ⟨row, -, -, -, -, rfl, hwrote⟩
  · exact ⟨[], by simp, .refl⟩
  · exact ⟨[row], rfl, .single hwrote⟩

theorem unduplicated_disagreements {evaluation : Uuid} :
    Avoids Duplicated (Service.disagreements t evaluation) := by
  refine (Avoids.mapM fun line _ => Avoids.bind ?_ fun _ _ => .pure).bind fun _ _ => .pure
  unfold Service.evaluatedKinds
  cases line.poLineId with
  | none => exact Avoids.pure.bind fun _ _ => .pure
  | some poLine =>
      exact (unduplicated_fetch (by simp)).bind fun _ _ => Avoids.pure.bind fun _ _ => .pure

namespace Round

variable {round : Round}

/-- Where what stands has different keys, no key is supported twice. -/
theorem unduplicated_observe (hopened : round.Opened)
    (hstanding : Distinct ReceivingException.key (round.before.standing round.receipt))
    {done rest : List ReceivingException} (hsplit : round.observations = done ++ o :: rest) :
    Avoids Duplicated (Service.observe round.ctx round.corrected round.evaluation round.keys
      round.workflows round.desired (round.claimed done, round.judged done) o) := by
  have hne := ne_of_observations hopened hsplit
  have hsupports : decide (Service.priorSupport (round.judged done) o.id ≠ some false ∧
      o.key ∈ round.desired) = round.supports o := by
    rw [priorSupport_judged hopened hne, supports]
  have hstands : ∀ other ∈ round.observations, round.supports other = true →
      other ∈ round.before.standing round.receipt := by
    intro other hother hsupported
    have hprior := (of_decide_eq_true hsupported).1
    exact Tenant.mem_standing.mpr ⟨List.mem_mergeSort.mp hother, hprior⟩
  have hfresh : round.supports o = true → o.key ∉ round.claimed done := by
    intro hsupported hclaimed
    rw [claimed, List.mem_reverse] at hclaimed
    obtain ⟨other, hother, hkey⟩ := List.mem_map.mp hclaimed
    obtain ⟨hdone, hother⟩ := List.mem_filter.mp hother
    have hsame := hstanding.eq (hstands other (by simp [hsplit, hdone]) hother)
      (hstands o (by simp [hsplit]) hsupported) hkey
    exact hne other hdone (congrArg _ hsame)
  simp only [Service.observe, hsupports]
  refine (unduplicated_fetch (by simp)).bind fun workflow _ => ?_
  refine (unduplicated_ensure fun hclaimed => absurd hfresh hclaimed).bind fun _ _ => ?_
  refine unduplicated_execute.bind fun linked _ => ?_
  split
  · exact unduplicated_execute.bind fun _ _ => .pure
  · exact .pure

/-- Hence no evaluation complains. -/
theorem unduplicated_evaluate (before : Tenant) {reversal corrected : RecordCorrection LineFields}
    (introduced : List Comparator) {keys : EvaluationKeys} (hkeys : before.Integrity)
    (hbase : Writes header.id before
      { before with
        lineCorrections := before.lineCorrections ++ [reversal, corrected]
        comparators := before.comparators ++ introduced })
    (hstanding : Distinct ReceivingException.key (before.standing header.id)) :
    Avoids Duplicated (Service.evaluate ctx header corrected keys
      { before with
        lineCorrections := before.lineCorrections ++ [reversal, corrected]
        comparators := before.comparators ++ introduced }) := by
  unfold Service.evaluate
  refine Avoids.bind ?_ fun opened hstart => ?_
  · refine unduplicated_execute.bind fun _ _ => ?_
    exact unduplicated_execute.bind fun _ _ => unduplicated_execute
  obtain ⟨e, started⟩ := opened
  refine Avoids.bind ?_ fun lines hlines => ?_
  · refine Avoids.foldlM (fun _ _ => True) trivial (fun _ _ _ _ _ _ _ _ => trivial)
      fun _ _ _ _ _ _ => ?_
    refine Avoids.bind ?_ fun _ _ => unduplicated_execute
    exact (unduplicated_ensure fun _ => by simp).bind fun _ _ => .pure
  refine Avoids.bind ?_ fun expectations hexpectations => ?_
  · exact Avoids.foldlM (fun _ _ => True) trivial (fun _ _ _ _ _ _ _ _ => trivial)
      fun _ _ _ _ _ _ => unduplicated_execute
  refine unduplicated_disagreements.bind fun found hfound => ?_
  refine Avoids.bind ?_ fun judged _ => ?_
  · -- The stages so far are those of a round, whose observations are judged next.
    have hopen := openEvaluation_eq_ok hstart (Writes.integrity hbase hkeys) (by simp)
    obtain rfl := hopen.after_eq
    let round : Round := ⟨ctx, keys, header, before, reversal, corrected, introduced, e, found⟩
    have hstarted : Writes header.id before round.started := hbase.tail hopen.wrote
    have hopened : round.Opened :=
      ⟨hkeys, (Writes.integrity hstarted hkeys).evaluations, hopen.receipt, hopen.authentic⟩
    have hlines' : (before.linesOf header.id).foldlM (Service.pinLine round.ctx round.evaluation
        round.keys.lineId) round.started = .ok lines := hlines
    obtain ⟨rfl, -, -⟩ := pinLines_of_foldlM hopened hlines'
    have hexpectations' : (round.comparators.filter (·.receiptId = header.id)).foldlM
        (Service.pinExpectation round.ctx round.evaluation round.keys.expectationId)
        { round.started with
          evaluationLines := round.started.evaluationLines ++
            (before.linesOf header.id).map round.line } = .ok expectations := hexpectations
    obtain ⟨rfl, -⟩ := pinExpectations_of_foldlM hopened (by rfl) hexpectations'
    change Avoids Duplicated (round.observations.foldlM _ _)
    refine Avoids.foldlM round.Judged ?_ ?_ ?_
    · exact ⟨by simp [claimed, judged_nil]; rfl, distinct_nil, by simp, judged_nil ▸ .refl⟩
    · intro done o rest before after hsplit hjudged hrun
      exact hjudged.concat hopened hsplit hrun
    · intro done o rest before hsplit hjudged
      obtain rfl := hjudged.state
      exact unduplicated_observe hopened hstanding hsplit
  · refine Avoids.bind ?_ fun _ _ => .pure
    refine Avoids.foldlM (fun _ _ => True) trivial (fun _ _ _ _ _ _ _ _ => trivial)
      fun _ _ _ _ _ _ => ?_
    exact unduplicated_execute.bind fun _ _ => unduplicated_execute

end Round

/-- No correction of a settled receipt complains. -/
theorem Tenant.Settled.unduplicated (h : t.Settled receipt) {root : Uuid}
    {values : ReceiptLineCorrection} {keys : ReceiptCorrectionKeys} :
    Avoids Duplicated (Service.correctReceiptLine ctx receipt root values keys t) := by
  unfold Service.correctReceiptLine
  refine (unduplicated_assetConstraints (Avoids.bind ?_ fun _ _ =>
    unduplicated_execute.bind fun _ _ => .pure)).bind fun _ _ =>
      unduplicated_execute.bind fun _ _ => .pure
  unfold Service.writeReceiptCorrection
  refine Avoids.bind ?_ fun header hlock => ?_
  · exact (unduplicated_fetch (by simp)).bind fun _ _ => unduplicated_execute
  obtain rfl := lock_eq_ok hlock
  refine (unduplicated_ensure fun _ => by simp).bind fun _ hsealed => ?_
  refine (unduplicated_fetch (by simp)).bind fun original horiginal => ?_
  refine Avoids.bind ?_ fun head hhead => ?_
  · exact (unduplicated_ensure fun _ => by simp).bind fun _ _ => .pure
  refine Avoids.bind ?_ fun paired hpair => ?_
  · refine (unduplicated_ensure fun _ => by simp).bind fun _ _ => unduplicated_assetConstraints ?_
    refine unduplicated_execute.bind fun _ _ => ?_
    exact unduplicated_execute.bind fun _ _ => unduplicated_execute
  have hsealed := Service.ensure_eq_ok.mp hsealed
  simp only [Service.fetch_eq_ok] at horiginal
  simp only [Service.head, bind_eq_ok, Service.ensure_eq_ok, pure_eq_ok, exists_unit] at hhead
  obtain ⟨-, rfl⟩ := hhead
  have hfound := List.find?_some horiginal
  simp only [decide_eq_true_eq] at hfound
  obtain ⟨rfl, howner⟩ := hfound
  obtain ⟨corrected, state⟩ := paired
  obtain ⟨reversal, -, rfl, hpaired⟩ :=
    Round.pair_eq_ok h.integrity (List.mem_of_find?_eq_some horiginal) hpair
  rw [howner] at hpaired
  have hstanding : Distinct ReceivingException.key (t.standing header.id) := (h.upheld hsealed).1
  have hunbound : Avoids Duplicated (Service.evaluate ctx header corrected keys.evaluation
      { t with lineCorrections := t.lineCorrections ++ [reversal, corrected] }) := by
    simpa using Round.unduplicated_evaluate t [] h.integrity (by simpa using hpaired) hstanding
  cases hpo : corrected.fields.poLineId with
  | none =>
      simp only [hpo]
      refine Avoids.pure.bind fun bound hbound => Avoids.bind ?_ fun _ _ => .pure
      obtain rfl := pure_eq_ok.mp hbound
      exact hunbound
  | some poLine =>
      simp only [hpo]
      refine unduplicated_bindComparator.bind fun bound hbound => Avoids.bind ?_ fun _ _ => .pure
      obtain ⟨introduced, rfl, hbinds⟩ := introduced_of_bindComparator hbound
      exact Round.unduplicated_evaluate t introduced h.integrity (hpaired.trans hbinds) hstanding

end

/-! ## Runs -/

/-- A correction that is committed reconciles the observations of a settled receipt. -/
theorem Tenant.Settled.reconciles (h : t.Settled receipt) {ctx : Context} {root : Uuid}
    {values : ReceiptLineCorrection} {keys : ReceiptCorrectionKeys}
    {result : RecordCorrection LineFields × Uuid}
    (hrun : Service.correctReceiptLine ctx receipt root values keys t = .ok (result, t')) :
    t.Reconciles t' receipt result.2 := by
  obtain ⟨corrected, evaluation, hwrite, -, rfl⟩ := correctReceiptLine_writes hrun
  obtain ⟨round, hwritten⟩ := Round.writeReceiptCorrection_eq_ok h.integrity hwrite
  obtain ⟨-, hreceipt, rfl⟩ := hwritten.inputs
  obtain ⟨-, rfl⟩ := hwritten.rows
  have hstep : Tenant.step ctx.posixSpace (ctx, .correctReceiptLine receipt root values keys)
      round.before = .ok t' := by
    change Service.correctReceiptLine ctx receipt root values keys round.before >>= _ = _
    rw [hrun]
    rfl
  have h' := h.step hstep
  subst hreceipt
  obtain rfl := hwritten.after_eq
  exact Round.reconciles hwritten.valid h h'

/-- In every state that a run of requests reaches, what stands of a closed receipt are the
disagreements of its facts in force, each once.  What does not stand never stands again.  A
correction that is committed next reconciles the observations with the facts that it leaves, and
none is refused because two observations of one key would be supported. -/
theorem correctionsReconcile (posixSpace : Char → Bool) {start : Tenant} (hfresh : start.Fresh)
    (requests : List (Context × ReceivingCall)) (receipt : Uuid) :
    let t := Machine.run (Tenant.step posixSpace) requests start
    t.Upheld receipt ∧
    (∀ later, ∀ o ∈ t.exceptionsOf receipt, o ∉ t.standing receipt →
      o ∈ (Machine.run (Tenant.step posixSpace) later t).exceptionsOf receipt ∧
        o ∉ (Machine.run (Tenant.step posixSpace) later t).standing receipt) ∧
    ∀ ctx root values keys,
      (∀ result t', Service.correctReceiptLine ctx receipt root values keys t = .ok (result, t') →
        t.Reconciles t' receipt result.2) ∧
      Avoids Duplicated (Service.correctReceiptLine ctx receipt root values keys t) := by
  intro t
  have hsettled : t.Settled receipt := (hfresh.settled receipt).run posixSpace requests
  refine ⟨hsettled.upheld, fun later o ho hgone => hsettled.retired posixSpace later ho hgone, ?_⟩
  intro ctx root values keys
  exact ⟨fun result t' hrun => hsettled.reconciles hrun, hsettled.unduplicated⟩

/-- The recount resolves the damage, and opens what the missing cable makes. -/
example :
    let t := Machine.run (Tenant.step sampleContext.posixSpace) (sampleArrival ++ sampleRecount)
      expectingTenant
    t.exceptions.map (fun o => (o.key.exceptionType, t.statusOf o.id, decide (o ∈ t.standing 6))) =
      [(.damaged, .resolved, false), (.quantityVariance, .open, true), (.short, .open, true)] := by
  decide +kernel

theorem correctionsReconcile_sample :
    let t := Machine.run (Tenant.step sampleContext.posixSpace) (sampleArrival ++ sampleRecount)
      expectingTenant
    t.Upheld 6 ∧
    (∀ later, ∀ o ∈ t.exceptionsOf 6, o ∉ t.standing 6 →
      o ∈ (Machine.run (Tenant.step sampleContext.posixSpace) later t).exceptionsOf 6 ∧
        o ∉ (Machine.run (Tenant.step sampleContext.posixSpace) later t).standing 6) ∧
    ∀ ctx root values keys,
      (∀ result t', Service.correctReceiptLine ctx 6 root values keys t = .ok (result, t') →
        t.Reconciles t' 6 result.2) ∧
      Avoids Duplicated (Service.correctReceiptLine ctx 6 root values keys t) :=
  correctionsReconcile sampleContext.posixSpace expectingTenant_fresh
    (sampleArrival ++ sampleRecount) 6

end

end FleetOps
