import FleetOps.Receiving.Histories

/-!
# The history of a receipt

Each request leaves the rows of a receipt alone, or adds later ones; a correction
adds one evaluation that is consistent when it is written.  So in every state
that a run reaches every correction has its evaluation, and every evaluation is
consistent in its own time (`Tenant.Chronicled`).
-/

namespace FleetOps

open Relation Keys

section

variable {t t' : Tenant} {receipt : Uuid} {e : Evaluation} {o : ReceivingException}

/-! ## Later rows -/

theorem SameReceipt.later (h : SameReceipt receipt t t') : Tenant.Later receipt t t' where
  lines := h.lines
  comparators := ⟨[], by simp [h.comparators], by simp⟩
  exceptions := ⟨[], by simp [h.exceptions], by simp⟩
  corrections := ⟨[], by simp [h.corrections], by simp⟩
  evaluations := ⟨[], by simp [h.evaluations], by simp⟩
  pinnedLines := h.pinnedLines
  pinnedExpectations := h.pinnedExpectations
  links := h.links
  events o ho := ⟨[], by simp [h.events o ho], by simp⟩

/-- A transition that a client asks for is of nobody's evaluation. -/
theorem Tenant.later_advance {event : ExceptionEvent} (hmanual : event.evaluationId = none) :
    Tenant.Later receipt t ({ t with events := t.events ++ [event] }.advance event) where
  lines := rfl
  comparators := ⟨[], by simp [Tenant.advance, Tenant.comparatorsOf], by simp⟩
  exceptions := ⟨[], by simp [Tenant.advance, Tenant.exceptionsOf], by simp⟩
  corrections := ⟨[], by simp [Tenant.advance, Tenant.correctionsOf], by simp⟩
  evaluations := ⟨[], by simp [Tenant.advance, Tenant.evaluationsOf], by simp⟩
  pinnedLines _ _ := rfl
  pinnedExpectations _ _ := rfl
  links _ _ := rfl
  events o _ := by
    refine ⟨[event].filter (·.exceptionId = o.id), List.filter_append .., ?_⟩
    intro other hother e _
    rw [List.mem_singleton.mp (List.mem_filter.mp hother).1, hmanual]
    simp

/-- Nothing is trimmed of the note of an automatic resolution. -/
theorem normalize_supersessionNote (pair : Uuid) :
    normalizeCorrectionReason (supersessionNote pair) = supersessionNote pair := by
  have hopening : "Corrected receipt reality superseded this observation's assertion. ".toList =
      'C' :: "orrected receipt reality superseded this observation's assertion. ".toList := rfl
  have hassoc : ∀ first second third : String, first ++ second ++ third =
      first ++ (second ++ third) :=
    fun _ _ _ => String.append_assoc
  unfold supersessionNote
  rw [hassoc _ _ (uuidText pair)]
  exact trimWhere_append hopening (by decide) rfl (by decide)

/-- What an evaluation reads through its pinned sources is its receipt's. -/
theorem SameReceipt.evaluated (h : SameReceipt receipt t t') (hkeys : t.Integrity)
    (hkeys' : t'.Integrity) (he : e ∈ t.evaluationsOf receipt) (hconsistent : t.Consistent e) :
    t'.evaluated e.id = t.evaluated e.id := by
  obtain rfl := (Tenant.mem_evaluationsOf.mp he).2
  have hlines := h.pinnedLines e he
  have hexpectations := h.pinnedExpectations e he
  unfold Tenant.pinnedLines at hlines
  unfold Tenant.pinnedExpectations at hexpectations
  unfold Tenant.evaluated Tenant.evaluatedReceiptLines Tenant.evaluatedReceiptExpectations
  rw [hlines, hexpectations]
  congr 1
  · refine List.filterMap_congr fun s hs => ?_
    obtain ⟨-, -, ⟨line, hline, hid⟩, -, hsource⟩ := hconsistent.pinned s hs
    have hline' : line ∈ t'.linesOf e.receiptId := h.lines.symm ▸ hline
    have hpinned : pinnedSource t'.lineCorrections s.sourceId =
        pinnedSource t.lineCorrections s.sourceId := by
      cases hsid : s.sourceId with
      | none => rfl
      | some source =>
          obtain ⟨c, hc, rfl⟩ := hsource source hsid
          have hc' : c ∈ t'.correctionsOf e.receiptId := h.corrections.symm ▸ hc
          exact (hkeys'.corrections.find?_eq (Tenant.mem_correctionsOf.mp hc').1 rfl).trans
            (hkeys.corrections.find?_eq (Tenant.mem_correctionsOf.mp hc).1 rfl).symm
    rw [← hid, hkeys.lines.find?_eq (Tenant.mem_linesOf.mp hline).1 rfl,
      hkeys'.lines.find?_eq (Tenant.mem_linesOf.mp hline').1 rfl, hpinned]
    simp only [Option.map_some, Tenant.lineAt, h.conflict line hline, h.unreadable line hline]
  · refine List.filterMap_congr fun s hs => ?_
    obtain ⟨-, -, b, hb, -, hpins⟩ := hconsistent.expectations s hs
    simp only [Tenant.pins, Bool.and_eq_true, beq_iff_eq] at hpins
    obtain ⟨hline, -, hsource⟩ := h.expected b hb
    rw [hpins.1.1, hpins.2, hline, hsource]

/-! ## Chronicles -/

/-- An evaluation repeats the correction that caused it. -/
structure Evaluation.Answers (e : Evaluation) (c : RecordCorrection LineFields) : Prop where
  correction : e.correctionId = c.id
  receipt : e.receiptId = c.entityId
  line : e.receiptLineId = c.rootId
  generation : e.correctionGeneration = c.generation
  actor : e.actorId = c.actorId
  occurredAt : e.occurredAt = c.correctionOccurredAt
  transaction : e.recordingTransactionId = c.recordingTransactionId

/-- What is known of a receipt's evaluations. -/
structure Tenant.Chronicled (t : Tenant) (receipt : Uuid) : Prop where
  settled : t.Settled receipt
  answered : ∀ c ∈ t.correctionsOf receipt, c.role = .corrected →
    ∃ e ∈ t.evaluationsOf receipt, e.Answers c
  bound : ∀ b ∈ t.comparatorsOf receipt, ∀ correction ∈ b.introducedByCorrectionId,
    ∃ e ∈ t.evaluationsOf receipt, e.correctionId = correction
  consistent : ∀ e ∈ t.evaluationsOf receipt, t.Consistent e

/-- The newest evaluation lets an observation stand where every one did. -/
theorem Tenant.Chronicled.priorSupport_iff (h : t.Chronicled receipt)
    (ho : o ∈ t.exceptionsOf receipt) : Service.priorSupport t o.id ≠ some false ↔
      ∀ e ∈ t.evaluationsOf receipt, ∀ y ∈ t.linksOf e.id, y.exceptionId = o.id →
        y.supported = true := by
  have hkeys := h.settled.integrity
  have hreviewed := h.settled.reviewed
  cases hlast : (t.evaluationsOf receipt).getLast? with
  | none =>
      have hnone := List.getLast?_eq_none_iff.mp hlast
      rw [hkeys.priorSupport_eq_none hnone ho, hnone]
      simp
  | some newest =>
      have hnewest := List.mem_of_getLast? hlast
      obtain ⟨x, hx, hxid⟩ := hreviewed.newest newest hlast o ho
      rw [hreviewed.priorSupport hkeys hlast ho hx hxid]
      constructor
      · intro hne e he y hy hyid
        have hsupported : x.supported = true := by simpa using hne
        obtain ⟨-, -, other, hother, hid, hiff⟩ := (h.consistent newest hnewest).supports x hx
        have hupheld := (hiff.mp hsupported).2
        have hreceipt := (Tenant.mem_evaluationsOf.mp hnewest).2
        unfold Tenant.UpheldBefore at hupheld
        rw [hreceipt] at hupheld
        obtain ⟨front, hsplit⟩ := List.getLast?_eq_some_iff.mp hlast
        have hascending := hreviewed.ascending
        rw [hsplit] at he hascending
        rcases List.mem_append.mp he with hearlier | heq
        · have hlt := (List.pairwise_append.mp hascending).2.2 e hearlier newest (by simp)
          refine hupheld e ?_ hlt y hy (hyid.trans (hxid.symm.trans hid.symm))
          rw [hsplit]
          exact he
        · obtain rfl := List.mem_singleton.mp heq
          rw [(hreviewed.distinct e hnewest).eq hy hx (hyid.trans hxid.symm)]
          exact hsupported
      · intro hall
        rw [hall newest hnewest x hx hxid]
        simp

namespace Round

variable {round : Round}

theorem resolution_evaluationId {event : ExceptionEvent} (h : round.resolution o = some event) :
    event.evaluationId = some round.evaluation.id := by
  unfold resolution at h
  split at h
  · obtain rfl := Option.some.inj h
    rfl
  · exact nomatch h

/-- No evaluation so far is of one of the round's corrections. -/
theorem correctionId_ne (hkeys : round.before.Integrity) (hafter : round.after.Integrity)
    (he : e ∈ round.before.evaluations) {c : RecordCorrection LineFields}
    (hc : c ∈ [round.reversal, round.corrected]) : e.correctionId ≠ c.id := by
  obtain ⟨cause, hcause, hid, -⟩ := hkeys.evaluationCause e he
  have hrows : round.after.lineCorrections =
      round.before.lineCorrections ++ [round.reversal, round.corrected] := by
    rw [after_eq]
    rfl
  have hdistinct := hafter.corrections
  rw [hrows, Distinct, List.map_append, List.nodup_append] at hdistinct
  rw [← hid]
  exact hdistinct.2.2 _ (List.mem_map_of_mem hcause) _ (List.mem_map_of_mem hc)

/-- The round's rows are later than the evaluations before it. -/
theorem later (hvalid : round.Valid) (hkeys : round.before.Integrity)
    (hafter : round.after.Integrity) : Tenant.Later round.receipt round.before round.after where
  lines := linesOf_after _
  comparators := by
    refine ⟨round.introduced, comparatorsOf_after hvalid, fun b hb => ?_⟩
    refine ⟨round.corrected.id, (hvalid.introduced b hb).2, fun e he => ?_⟩
    exact correctionId_ne hkeys hafter (Tenant.mem_evaluationsOf.mp he).1 (by simp)
  exceptions := by
    refine ⟨_, exceptionsOf_after, fun o ho => ?_⟩
    obtain ⟨key, -, rfl⟩ := List.mem_map.mp ho
    exact ⟨round.evaluation.id, rfl, fun e he =>
      ne_evaluation hafter (Tenant.mem_evaluationsOf.mp he).1⟩
  corrections := ⟨_, correctionsOf_after hvalid, fun c hc e he =>
    correctionId_ne hkeys hafter (Tenant.mem_evaluationsOf.mp he).1 hc⟩
  evaluations := by
    refine ⟨_, evaluationsOf_after hvalid, fun new hnew e he => ?_⟩
    rw [List.mem_singleton.mp hnew]
    exact evaluationSeq_lt hvalid he
  pinnedLines e he := pinnedLines_of_mem hafter (Tenant.mem_evaluationsOf.mp he).1
  pinnedExpectations e he := pinnedExpectations_of_mem hafter (Tenant.mem_evaluationsOf.mp he).1
  links e he := linksOf_of_mem hafter (Tenant.mem_evaluationsOf.mp he).1
  events o ho := by
    refine ⟨_, eventsOf_observation hkeys (List.mem_mergeSort.mpr ho), fun event hevent e he => ?_⟩
    have hcaused := resolution_evaluationId (Option.mem_toList.mp hevent)
    rw [hcaused, Ne, Option.some.injEq]
    exact (ne_evaluation hafter (Tenant.mem_evaluationsOf.mp he).1).symm

/-- An earlier evaluation reads what it read. -/
theorem evaluated_of_mem (hafter : round.after.Integrity)
    (he : e ∈ round.before.evaluationsOf round.receipt) (hconsistent : round.before.Consistent e) :
    round.after.evaluated e.id = round.before.evaluated e.id := by
  have hlines := pinnedLines_of_mem hafter (Tenant.mem_evaluationsOf.mp he).1
  have hexpectations := pinnedExpectations_of_mem hafter (Tenant.mem_evaluationsOf.mp he).1
  unfold Tenant.pinnedLines at hlines
  unfold Tenant.pinnedExpectations at hexpectations
  unfold Tenant.evaluated Tenant.evaluatedReceiptLines Tenant.evaluatedReceiptExpectations
  rw [hlines, hexpectations, after_eq]
  congr 1
  refine List.filterMap_congr fun s hs => ?_
  obtain ⟨-, -, -, -, hsource⟩ := hconsistent.pinned s hs
  have hpinned : pinnedSource round.corrections s.sourceId =
      pinnedSource round.before.lineCorrections s.sourceId := by
    cases hsid : s.sourceId with
    | none => rfl
    | some source =>
        obtain ⟨c, hc, hcid⟩ := hsource source hsid
        have hsome : (round.before.lineCorrections.find? (·.id = source)).isSome :=
          List.find?_isSome.mpr ⟨c, (Tenant.mem_correctionsOf.mp hc).1, decide_eq_true hcid⟩
        obtain ⟨found, hfound⟩ := Option.isSome_iff_exists.mp hsome
        exact (find?_append_of_some hfound).trans hfound.symm
  rw [hpinned]
  rfl

/-! ## Consequences -/

/-- The workflow of an observation counts its events. -/
theorem workflow_eventSeq (hlogged : round.before.Logged o) :
    (round.workflow o).eventSeq = (round.before.eventsOf o.id).length := by
  have hlength := hlogged.legal.number_latest
  rw [workflow, hlogged.projection, Option.getD_some, foldl_after, ← hlength]
  cases (round.before.eventsOf o.id).getLast? <;> rfl

/-- What the event says that resolves an observation. -/
theorem resolution_fields (hlogged : round.before.Logged o) {event : ExceptionEvent}
    (h : round.resolution o = some event) :
    event.eventSeq = (round.before.eventsOf o.id).length + 1 ∧ event.toStatus = .resolved ∧
      event.actorId = round.evaluation.actorId ∧ event.occurredAt = round.evaluation.occurredAt ∧
      event.note = some (supersessionNote round.corrected.pairId) := by
  unfold resolution at h
  split at h
  · obtain rfl := Option.some.inj h
    refine ⟨?_, rfl, rfl, rfl, ?_⟩
    · exact congrArg (· + 1) hlogged.seq_latest
    · exact congrArg some (normalize_supersessionNote _)
  · exact nomatch h

/-- The events of the round's evaluation are those that resolve. -/
theorem filter_eventsOf (hkeys : round.before.Integrity) (hafter : round.after.Integrity)
    (ho : o ∈ round.before.exceptionsOf round.receipt) :
    (round.after.eventsOf o.id).filter (·.evaluationId = some round.evaluation.id) =
      (round.resolution o).toList := by
  rw [eventsOf_observation hkeys (List.mem_mergeSort.mpr ho), List.filter_append,
    List.filter_eq_nil_iff.mpr, List.nil_append]
  · refine List.filter_eq_self.mpr fun event hevent => decide_eq_true ?_
    exact resolution_evaluationId (Option.mem_toList.mp hevent)
  · intro event hevent hcaused
    obtain ⟨e, he, hid⟩ := hkeys.eventEvaluation event (List.mem_filter.mp hevent).1
      round.evaluation.id (of_decide_eq_true hcaused)
    exact ne_evaluation hafter he hid

/-- What the round says of an observation that existed has its consequence. -/
theorem followed_link (h : round.before.Settled round.receipt) (hafter : round.after.Integrity)
    (ho : o ∈ round.before.exceptionsOf round.receipt) :
    round.after.Followed round.evaluation round.corrected.pairId (round.link o) := by
  have hlogged := h.logged o ho
  have hevents := eventsOf_observation h.integrity (List.mem_mergeSort.mpr ho)
  have hprior : (round.link o).priorEventSeq = (round.before.eventsOf o.id).length :=
    workflow_eventSeq hlogged
  have hcaused : round.after.causedEvents round.evaluation (round.link o) =
      (round.resolution o).toList := filter_eventsOf h.integrity hafter ho
  have hstatus : round.after.statusBy (round.link o) = round.before.statusOf o.id := by
    rw [Tenant.statusBy, hprior]
    change EventLog.status _ _ ((round.after.eventsOf o.id).take _) = _
    rw [hevents, List.take_left]
  refine ⟨?_, fun hunsupported hopen => ?_, fun hkept => ?_⟩
  · rw [hprior]
    change _ ≤ (round.after.eventsOf o.id).length
    rw [hevents, List.length_append]
    exact Nat.le_add_right _ _
  · rw [hstatus] at hopen
    obtain ⟨event, hresolution, -⟩ := resolution_eq_some hlogged hunsupported hopen
    obtain ⟨hseq, hto, hactor, hoccurred, hnote⟩ := resolution_fields hlogged hresolution
    refine ⟨event, ?_, ?_, hto, hactor, hoccurred, hnote⟩
    · rw [hcaused, hresolution]
      rfl
    · rw [hseq, hprior]
  · rw [hstatus] at hkept
    rw [hcaused, resolution_eq_none hlogged hkept]
    rfl

/-- So has what it says of what it observes anew. -/
theorem followed_opened (hkeys : round.before.Integrity) (hafter : round.after.Integrity)
    {key : ExceptionKey} (hkey : key ∈ round.unclaimed) :
    round.after.Followed round.evaluation round.corrected.pairId (round.openedLink key) := by
  have hevents : round.after.eventsOf (round.openedLink key).exceptionId = [] :=
    eventsOf_opened hkeys hafter hkey
  refine ⟨Nat.zero_le _, nofun, fun _ => ?_⟩
  rw [Tenant.causedEvents, hevents]
  rfl

/-! ## The round's evaluation -/

theorem upheldBefore_evaluation (hvalid : round.Valid) (hafter : round.after.Integrity)
    {exception : Uuid} : round.after.UpheldBefore round.evaluation exception ↔
      ∀ e ∈ round.before.evaluationsOf round.receipt, ∀ y ∈ round.before.linksOf e.id,
        y.exceptionId = exception → y.supported = true := by
  unfold Tenant.UpheldBefore
  rw [hvalid.receipt, evaluationsOf_after hvalid]
  constructor
  · intro hupheld e he y hy
    rw [← linksOf_of_mem hafter (Tenant.mem_evaluationsOf.mp he).1] at hy
    exact hupheld e (List.mem_append_left _ he) (evaluationSeq_lt hvalid he) y hy
  · intro hall e he hlt y hy
    rcases List.mem_append.mp he with hold | hnew
    · rw [linksOf_of_mem hafter (Tenant.mem_evaluationsOf.mp hold).1] at hy
      exact hall e hold y hy
    · rw [List.mem_singleton.mp hnew] at hlt
      exact absurd hlt (lt_irrefl _)

/-- Every correction of the receipt has been evaluated then, and nothing else. -/
theorem evaluatedBy_evaluation (hvalid : round.Valid)
    (h : round.before.Chronicled round.receipt) (hafter : round.after.Integrity)
    {c : RecordCorrection LineFields} (hc : c ∈ round.after.correctionsOf round.receipt) :
    round.after.EvaluatedBy round.evaluation c.id ↔ c.role = .corrected := by
  have hevaluation := mem_evaluationsOf_after hvalid
  have hmem := (Tenant.mem_correctionsOf.mp hc).1
  have hcorrected : round.corrected ∈ round.after.lineCorrections := by
    rw [after_eq]
    simp [corrections]
  unfold Tenant.EvaluatedBy
  rw [hvalid.receipt]
  constructor
  · intro hevaluated
    obtain ⟨cause, hcause, hid, -⟩ := hevaluated
    rw [evaluationsOf_after hvalid] at hcause
    rcases List.mem_append.mp hcause with hold | hnew
    · obtain ⟨row, hrow, hrowId, hrole, -⟩ := (h.consistent cause hold).caused
      have hrow' : row ∈ round.after.lineCorrections := by
        rw [after_eq]
        exact List.mem_append_left _ (Tenant.mem_correctionsOf.mp hrow).1
      rw [← hafter.corrections.eq hrow' hmem (hrowId.trans hid)]
      exact hrole
    · rw [List.mem_singleton.mp hnew, hvalid.correction] at hid
      rw [← hafter.corrections.eq hcorrected hmem hid]
      exact hvalid.corrected.1
  · intro hrole
    rw [correctionsOf_after hvalid] at hc
    rcases List.mem_append.mp hc with hold | hnew
    · obtain ⟨e, he, hanswers⟩ := h.answered c hold hrole
      refine ⟨e, ?_, hanswers.correction, (evaluationSeq_lt hvalid he).le⟩
      rw [evaluationsOf_after hvalid]
      exact List.mem_append_left _ he
    · rcases List.mem_pair.mp hnew with rfl | rfl
      · exact absurd (hvalid.reversal.1.symm.trans hrole) (by decide)
      · exact ⟨round.evaluation, hevaluation, hvalid.correction, le_rfl⟩

/-- So a line is pinned at the generation that it had then. -/
theorem generationBy_evaluation (hvalid : round.Valid)
    (h : round.before.Chronicled round.receipt) (hafter : round.after.Integrity)
    {line : ReceiptLine} (hline : line ∈ round.before.linesOf round.receipt) :
    round.after.generationBy round.evaluation line.id =
      Tenant.generation round.corrections line.id := by
  have hline' : line ∈ round.after.linesOf round.receipt := by rwa [linesOf_after]
  have hlatest := hafter.latestCorrection_correctionsOf hline'
  have hcorrections : round.after.lineCorrections = round.corrections := by rw [after_eq]
  rw [hcorrections] at hlatest
  rw [Tenant.generation, hlatest, Tenant.latestCorrection, ← Query.max?_map, Tenant.generationBy,
    hvalid.receipt]
  congr 3
  refine List.filter_congr fun c hc => ?_
  simp only [evaluatedBy_evaluation hvalid h hafter hc]

/-- What the round supports is what disagrees and was never let go. -/
theorem supports_iff (hvalid : round.Valid) (h : round.before.Chronicled round.receipt)
    (h' : round.after.Settled round.receipt) (ho : o ∈ round.before.exceptionsOf round.receipt) :
    round.supports o = true ↔ (round.after.evaluated round.evaluation.id).Disagrees o.key ∧
      round.after.UpheldBefore round.evaluation o.id := by
  have hafter := h'.integrity
  have hdesired := desired_represents hvalid h.settled.integrity hafter h'.selectable
  rw [evaluated_after h.settled.integrity hafter, upheldBefore_evaluation hvalid hafter,
    ← h.priorSupport_iff ho, ← hdesired.2 o.key, supports, decide_eq_true_eq, and_comm]

/-- What it observes anew disagrees, and nobody spoke of it before. -/
theorem supports_opened (hvalid : round.Valid) (h : round.before.Chronicled round.receipt)
    (h' : round.after.Settled round.receipt) {key : ExceptionKey} (hkey : key ∈ round.unclaimed) :
    (round.after.evaluated round.evaluation.id).Disagrees key ∧
      round.after.UpheldBefore round.evaluation (round.opened key).id := by
  have hkeys := h.settled.integrity
  have hafter := h'.integrity
  have hdesired := desired_represents hvalid hkeys hafter h'.selectable
  rw [evaluated_after hkeys hafter, upheldBefore_evaluation hvalid hafter]
  refine ⟨(hdesired.2 key).mp (List.mem_filter.mp hkey).1, fun e _ y hy hid => ?_⟩
  obtain ⟨_, -, other, hother, -, hexception, -⟩ := hkeys.links y (List.mem_filter.mp hy).1
  exact absurd (hexception.trans hid) (ne_opened hafter hkey hother)

/-- The keys that the round supports are those that stand after it. -/
theorem supportedKeys_evaluation (hvalid : round.Valid)
    (h : round.before.Settled round.receipt) (hafter : round.after.Integrity) :
    (round.after.supportedKeys round.evaluation).Perm
      ((round.after.standing round.receipt).map ReceivingException.key) := by
  have hkeys := h.integrity
  have hfound : ∀ o ∈ round.after.exceptionsOf round.receipt,
      (round.after.exceptionsOf round.receipt).find? (·.id = o.id) = some o := fun o ho =>
    (hafter.exceptions.filter _).find?_eq ho rfl
  have hkept : ((round.observations.filter round.supports).map round.link).filterMap (fun x =>
      ((round.after.exceptionsOf round.receipt).find? (·.id = x.exceptionId)).map
        ReceivingException.key) =
      (round.observations.filter round.supports).map ReceivingException.key := by
    rw [List.filterMap_map, ← List.filterMap_eq_map]
    refine List.filterMap_congr fun o ho => ?_
    have hmem : o ∈ round.after.exceptionsOf round.receipt := by
      rw [exceptionsOf_after]
      exact List.mem_append_left _ (List.mem_mergeSort.mp (List.mem_filter.mp ho).1)
    exact congrArg _ (hfound o hmem)
  have hopened : (round.unclaimed.map round.openedLink).filterMap (fun x =>
      ((round.after.exceptionsOf round.receipt).find? (·.id = x.exceptionId)).map
        ReceivingException.key) = round.unclaimed := by
    rw [List.filterMap_map]
    refine (List.filterMap_congr fun key hkey => ?_).trans List.filterMap_some
    have hmem : round.opened key ∈ round.after.exceptionsOf round.receipt := by
      rw [exceptionsOf_after]
      exact List.mem_append_right _ (List.mem_map_of_mem hkey)
    exact congrArg (Option.map ReceivingException.key) (hfound _ hmem)
  have hsupported : (round.after.linksOf round.evaluation.id).filter EvaluationException.supported =
      (round.observations.filter round.supports).map round.link ++
        round.unclaimed.map round.openedLink := by
    rw [linksOf_evaluation hkeys hafter, List.filter_append, List.filter_map]
    exact congrArg _ (List.filter_eq_self.mpr fun x hx => by
      obtain ⟨key, -, rfl⟩ := List.mem_map.mp hx
      rfl)
  have hobserved : (round.observations.filter round.supports).Perm
      ((round.before.exceptionsOf round.receipt).filter round.supports) :=
    (List.mergeSort_perm _ _).filter _
  rw [Tenant.supportedKeys, hvalid.receipt, hsupported, List.filterMap_append, hkept, hopened,
    standing_after hvalid hkeys hafter h.reviewed, Standing.review, List.map_append, List.map_map,
    ← filter_supports, ← unclaimed_eq]
  refine (hobserved.map _).append (List.Perm.of_eq ?_)
  exact (List.map_id _).symm

/-- A round writes a consistent evaluation. -/
theorem consistent (hvalid : round.Valid) (h : round.before.Chronicled round.receipt)
    (h' : round.after.Settled round.receipt) : round.after.Consistent round.evaluation := by
  have hkeys := h.settled.integrity
  have hafter := h'.integrity
  have hlinks := linksOf_evaluation hkeys hafter
  have hexpectations := pinnedExpectations_evaluation hkeys hafter
  have hcomparators : round.after.comparators = round.comparators := by rw [after_eq]
  have hevaluation := mem_evaluationsOf_after hvalid
  have hold : ∀ e ∈ round.before.evaluationsOf round.receipt,
      e ∈ round.after.evaluationsOf round.receipt := by
    intro e he
    rw [evaluationsOf_after hvalid]
    exact List.mem_append_left _ he
  constructor
  case caused =>
    rw [hvalid.receipt, correctionsOf_after hvalid]
    refine ⟨round.corrected, by simp, hvalid.correction.symm, hvalid.corrected.1, fun x hx => ?_⟩
    rw [hlinks] at hx
    rcases List.mem_append.mp hx with hmem | hmem
    · obtain ⟨o, ho, rfl⟩ := List.mem_map.mp hmem
      exact followed_link h.settled hafter (List.mem_mergeSort.mp ho)
    · obtain ⟨key, hkey, rfl⟩ := List.mem_map.mp hmem
      exact followed_opened hkeys hafter hkey
  case lines =>
    rw [hvalid.receipt, linesOf_after, pinnedLines_evaluation hkeys hafter]
    exact fun line hline => ⟨round.line line, List.mem_map_of_mem hline, rfl⟩
  case pinned =>
    rw [hvalid.receipt, linesOf_after, pinnedLines_evaluation hkeys hafter]
    intro s hs
    obtain ⟨line, hline, rfl⟩ := List.mem_map.mp hs
    refine ⟨rfl, rfl, ⟨line, hline, rfl⟩, ?_, fun source hsource => ?_⟩
    · exact (generationBy_evaluation hvalid h hafter hline).symm
    · have hline' : line ∈ round.after.linesOf round.receipt := by rwa [linesOf_after]
      have hlatest := hafter.latestCorrection_correctionsOf hline'
      have hcorrections : round.after.lineCorrections = round.corrections := by rw [after_eq]
      rw [hcorrections] at hlatest
      obtain ⟨c, hc, rfl⟩ := Option.map_eq_some_iff.mp hsource
      rw [hlatest] at hc
      exact ⟨c, (List.mem_filter.mp (Query.mem_of_latestBy hc)).1, rfl⟩
  case comparators =>
    rw [hvalid.receipt, hexpectations, Tenant.comparatorsOf, hcomparators]
    intro b hb _
    exact ⟨round.expectation b, List.mem_map_of_mem hb, by simp [Tenant.pins, expectation]⟩
  case expectations =>
    rw [hvalid.receipt, hexpectations, Tenant.comparatorsOf, hcomparators]
    intro s hs
    obtain ⟨b, hb, rfl⟩ := List.mem_map.mp hs
    refine ⟨rfl, rfl, b, hb, ?_, by simp [Tenant.pins, expectation]⟩
    intro correction hcorrection
    unfold Tenant.EvaluatedBy
    rw [hvalid.receipt]
    obtain ⟨hmem, howner⟩ := List.mem_filter.mp hb
    rcases List.mem_append.mp hmem with hearlier | hnew
    · obtain ⟨e, he, hid⟩ := h.bound b (List.mem_filter.mpr ⟨hearlier, howner⟩) _ hcorrection
      exact ⟨e, hold e he, hid, (evaluationSeq_lt hvalid he).le⟩
    · have hcaused := (hvalid.introduced b hnew).2
      rw [hcaused, Option.mem_some] at hcorrection
      exact ⟨round.evaluation, hevaluation, hvalid.correction.trans hcorrection, le_rfl⟩
  case observed =>
    rw [hvalid.receipt]
    intro o ho _
    refine h'.reviewed.newest round.evaluation ?_ o ho
    rw [evaluationsOf_after hvalid, List.getLast?_concat]
    rfl
  case supports =>
    rw [hvalid.receipt, hlinks, exceptionsOf_after]
    intro x hx
    rcases List.mem_append.mp hx with hmem | hmem
    · obtain ⟨o, ho, rfl⟩ := List.mem_map.mp hmem
      have ho := List.mem_mergeSort.mp ho
      exact ⟨rfl, rfl, o, List.mem_append_left _ ho, rfl, supports_iff hvalid h h' ho⟩
    · obtain ⟨key, hkey, rfl⟩ := List.mem_map.mp hmem
      refine ⟨rfl, rfl, round.opened key, List.mem_append_right _ (List.mem_map_of_mem hkey), rfl, ?_⟩
      exact iff_of_true rfl (supports_opened hvalid h h' hkey)
  case wellFormed =>
    rw [evaluated_after hkeys hafter]
    exact hafter.inForce_wellFormed h'.selectable
  case coverage =>
    have hclosed : round.after.reconciled round.receipt := by
      rw [after_eq]
      exact hvalid.sealed
    rw [evaluated_after hkeys hafter]
    exact (h'.upheld hclosed).of_perm (supportedKeys_evaluation hvalid h.settled hafter).symm

end Round

/-! ## Runs -/

section

variable {posixSpace : Char → Bool}

theorem StepOn.chronicled (h : StepOn posixSpace receipt t t') (hbefore : t.Chronicled receipt)
    (hafter : t'.Settled receipt) : t'.Chronicled receipt := by
  have hkeys := hbefore.settled.integrity
  cases h with
  | same hsame =>
      refine ⟨hafter, ?_, ?_, ?_⟩
      · rw [hsame.corrections, hsame.evaluations]
        exact hbefore.answered
      · rw [hsame.comparators, hsame.evaluations]
        exact hbefore.bound
      · rw [hsame.evaluations]
        intro e he
        have hconsistent := hbefore.consistent e he
        exact hsame.later.consistent he (hsame.evaluated hkeys hafter.integrity he hconsistent)
          hconsistent
  | captured hcaptured =>
      have hnone := hcaptured.evaluationsOf hkeys
      have huncorrected := hcaptured.correctionsOf hkeys
      refine ⟨hafter, ?_, ?_, ?_⟩
      · rw [huncorrected]
        exact fun c hc => absurd hc List.not_mem_nil
      · intro b hb correction hcorrection
        obtain ⟨hmem, hreceipt⟩ := Tenant.mem_comparatorsOf.mp hb
        obtain ⟨c, hc, -, hentity⟩ := hafter.integrity.introduced b hmem correction hcorrection
        have hcorrected : c ∈ t'.correctionsOf receipt :=
          Tenant.mem_correctionsOf.mpr ⟨hc, hentity.trans hreceipt⟩
        rw [huncorrected] at hcorrected
        exact absurd hcorrected List.not_mem_nil
      · rw [hnone]
        exact fun e he => absurd he List.not_mem_nil
  | corrected round hspace hreceipt hround hvalid hwritten hwrites =>
      subst hreceipt hround hwritten
      refine ⟨hafter, ?_, ?_, ?_⟩
      · intro c hc hrole
        rw [Round.correctionsOf_after hvalid] at hc
        rw [Round.evaluationsOf_after hvalid]
        rcases List.mem_append.mp hc with hold | hnew
        · obtain ⟨e, he, hanswers⟩ := hbefore.answered c hold hrole
          exact ⟨e, List.mem_append_left _ he, hanswers⟩
        · rcases List.mem_pair.mp hnew with rfl | rfl
          · exact absurd (hvalid.reversal.1.symm.trans hrole) (by decide)
          · exact ⟨round.evaluation, List.mem_append_right _ (List.mem_singleton_self _),
              hvalid.correction, hvalid.receipt.trans hvalid.corrected.2.symm, hvalid.line,
              hvalid.generation, hvalid.actor, hvalid.occurredAt, hvalid.transaction⟩
      · intro b hb correction hcorrection
        rw [Round.comparatorsOf_after hvalid] at hb
        rw [Round.evaluationsOf_after hvalid]
        rcases List.mem_append.mp hb with hold | hnew
        · obtain ⟨e, he, hid⟩ := hbefore.bound b hold correction hcorrection
          exact ⟨e, List.mem_append_left _ he, hid⟩
        · rw [(hvalid.introduced b hnew).2, Option.mem_some] at hcorrection
          exact ⟨round.evaluation, List.mem_append_right _ (List.mem_singleton_self _),
            hvalid.correction.trans hcorrection⟩
      · intro e he
        rw [Round.evaluationsOf_after hvalid] at he
        rcases List.mem_append.mp he with hold | hnew
        · have hconsistent := hbefore.consistent e hold
          exact (Round.later hvalid hkeys hafter.integrity).consistent hold
            (Round.evaluated_of_mem hafter.integrity hold hconsistent) hconsistent
        · rw [List.mem_singleton.mp hnew]
          exact Round.consistent hvalid hbefore hafter
  | transitioned event hmanual hwritten hwrote =>
      subst hwritten
      refine ⟨hafter, hbefore.answered, hbefore.bound, fun e he => ?_⟩
      exact (Tenant.later_advance hmanual).consistent he rfl (hbefore.consistent e he)

end

theorem Tenant.Fresh.chronicled {start : Tenant} (hfresh : start.Fresh) (receipt : Uuid) :
    start.Chronicled receipt := by
  have hnothing : start.correctionsOf receipt = [] ∧ start.evaluationsOf receipt = [] ∧
      start.comparatorsOf receipt = [] := by
    rw [hfresh.records]
    exact ⟨rfl, rfl, rfl⟩
  obtain ⟨hcorrections, hevaluations, hcomparators⟩ := hnothing
  refine ⟨hfresh.settled receipt, ?_, ?_, ?_⟩
  · simp [hcorrections]
  · simp [hcomparators]
  · simp [hevaluations]

/-- Every request keeps it. -/
theorem Tenant.Chronicled.step {posixSpace : Char → Bool} {request : Context × ReceivingCall}
    (h : t.Chronicled receipt) (hrun : Tenant.step posixSpace request t = .ok t') :
    t'.Chronicled receipt :=
  (step_on receipt h.settled.integrity hrun).2.chronicled h (h.settled.step hrun)

theorem Tenant.Chronicled.run (posixSpace : Char → Bool) (h : t.Chronicled receipt)
    (requests : List (Context × ReceivingCall)) :
    (Machine.run (Tenant.step posixSpace) requests t).Chronicled receipt :=
  Machine.run_invariant (Tenant.step posixSpace) (fun t => t.Chronicled receipt) (fun _ => True)
    (fun _ _ _ _ hrun hbefore => hbefore.step hrun) requests t (fun _ _ => trivial) h

end

end FleetOps
