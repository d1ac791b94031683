import FleetOps.Receiving.Chronicle

/-!
# The checks of evaluations

The database's view asks six things of every evaluation, however many
corrections followed it, and `assert_receipt_correction_complete` asks the like
of the newest one.  Where the evaluations are consistent in their own time no
check finds anything: the view is empty in every reachable state, and what
`correct_receipt_line` writes is never refused by the checks that follow it.
-/

namespace FleetOps

open Relation Keys

section

variable {t t' : Tenant} {receipt : Uuid} {e : Evaluation} {o : ReceivingException}

namespace Tenant

/-! ## What the view reads -/

/-- The generation that the view computes is the one that the line had. -/
theorem Integrity.generationAt_eq (hkeys : t.Integrity) (root : Uuid) :
    t.generationAt e root = t.generationBy e root := by
  unfold generationAt generationBy correctionsOf
  rw [List.filter_filter]
  congr 3
  refine List.filter_congr fun c hc => ?_
  rw [Bool.eq_iff_iff, Bool.and_eq_true, decide_eq_true_eq, decide_eq_true_eq, decide_eq_true_eq,
    List.any_eq_true]
  constructor
  · intro hrow
    obtain ⟨hroot, cause, hcause, hmatch⟩ := hrow
    rw [decide_eq_true_eq] at hmatch
    obtain ⟨hid, hreceipt, hseq⟩ := hmatch
    obtain ⟨row, hrow, hrowId, hentity⟩ := hkeys.evaluationCause cause hcause
    obtain rfl := hkeys.corrections.eq hrow hc (hrowId.trans hid)
    exact ⟨⟨hroot, cause, mem_evaluationsOf.mpr ⟨hcause, hreceipt⟩, hid, hseq⟩,
      hentity.trans hreceipt⟩
  · intro hrow
    obtain ⟨⟨hroot, cause, hcause, hid, hseq⟩, -⟩ := hrow
    obtain ⟨hmem, hreceipt⟩ := mem_evaluationsOf.mp hcause
    exact ⟨hroot, cause, hmem, decide_eq_true ⟨hid, hreceipt, hseq⟩⟩

/-- The comparators that the view compares with are those that had been bound. -/
theorem Integrity.boundAt_iff (hkeys : t.Integrity) {b : Comparator} (hb : b ∈ t.comparators) :
    t.boundAt e b = true ↔ b ∈ t.comparatorsOf e.receiptId ∧ t.BoundBy e b := by
  unfold boundAt BoundBy
  rw [mem_comparatorsOf, Bool.and_eq_true, beq_iff_eq, and_iff_right hb]
  refine and_congr_right fun hreceipt => ?_
  cases hintroduced : b.introducedByCorrectionId with
  | none => simp
  | some correction =>
      simp only [Option.isNone_some, Bool.false_or, List.any_eq_true, Bool.and_eq_true, beq_iff_eq,
        Option.some.injEq, decide_eq_true_eq, Option.mem_some, forall_eq']
      constructor
      · intro hbound
        obtain ⟨cause, hcause, hid, hseq⟩ := hbound
        obtain ⟨row, hrow, hrowId, hentity⟩ := hkeys.evaluationCause cause hcause
        obtain ⟨other, hother, hotherId, howner⟩ := hkeys.introduced b hb correction hintroduced
        obtain rfl := hkeys.corrections.eq hrow hother (hrowId.trans (hid.trans hotherId.symm))
        exact ⟨cause, mem_evaluationsOf.mpr ⟨hcause, hentity.symm.trans (howner.trans hreceipt)⟩,
          hid, hseq⟩
      · intro hbound
        obtain ⟨cause, hcause, hid, hseq⟩ := hbound
        exact ⟨cause, (mem_evaluationsOf.mp hcause).1, hid, hseq⟩

/-- The exceptions that it expects links of are those that had been observed. -/
theorem Integrity.observedAt_iff (hkeys : t.Integrity) (ho : o ∈ t.exceptions) :
    t.observedAt e o = true ↔ o ∈ t.exceptionsOf e.receiptId ∧ t.ObservedBy e o := by
  unfold observedAt ObservedBy
  rw [mem_exceptionsOf, Bool.and_eq_true, beq_iff_eq, and_iff_right ho]
  refine and_congr_right fun hreceipt => ?_
  cases hevaluation : o.evaluationId with
  | none => simp
  | some evaluation =>
      simp only [Option.isNone_some, Bool.false_or, List.any_eq_true, Bool.and_eq_true, beq_iff_eq,
        Option.some.injEq, decide_eq_true_eq, Option.mem_some, forall_eq']
      constructor
      · intro hobserved
        obtain ⟨origin, horigin, hid, hseq⟩ := hobserved
        obtain ⟨other, hother, hotherId, howner⟩ :=
          hkeys.exceptionEvaluation o ho evaluation hevaluation
        obtain rfl := hkeys.evaluations.eq horigin hother (hid.trans hotherId.symm)
        exact ⟨origin, mem_evaluationsOf.mpr ⟨horigin, howner.trans hreceipt⟩, hid, hseq⟩
      · intro hobserved
        obtain ⟨origin, horigin, hid, hseq⟩ := hobserved
        exact ⟨origin, (mem_evaluationsOf.mp horigin).1, hid, hseq⟩

/-- An earlier evaluation that the view asks about let the exception go. -/
theorem unsupportedBefore_iff {exception : Uuid} :
    t.unsupportedBefore (·.receiptId == e.receiptId) e exception = true ↔
      ¬t.UpheldBefore e exception := by
  unfold unsupportedBefore UpheldBefore linksOf
  rw [List.any_eq_true]
  push Not
  constructor
  · intro hgone
    obtain ⟨y, hy, hmatch⟩ := hgone
    rw [Bool.and_eq_true, Bool.and_eq_true, beq_iff_eq, Bool.not_eq_true', List.any_eq_true] at hmatch
    obtain ⟨⟨hid, hunsupported⟩, earlier, hearlier, hfields⟩ := hmatch
    rw [Bool.and_eq_true, Bool.and_eq_true, beq_iff_eq, beq_iff_eq, decide_eq_true_eq] at hfields
    obtain ⟨⟨hevaluation, hreceipt⟩, hlt⟩ := hfields
    exact ⟨earlier, mem_evaluationsOf.mpr ⟨hearlier, hreceipt⟩, hlt, y,
      List.mem_filter.mpr ⟨hy, decide_eq_true hevaluation.symm⟩, hid, by simp [hunsupported]⟩
  · intro hgone
    obtain ⟨earlier, hearlier, hlt, y, hy, hid, hunsupported⟩ := hgone
    obtain ⟨hmem, hreceipt⟩ := mem_evaluationsOf.mp hearlier
    obtain ⟨hy, hevaluation⟩ := List.mem_filter.mp hy
    have hevaluation : y.evaluationId = earlier.id := of_decide_eq_true hevaluation
    have hunsupported : y.supported = false := by simpa using hunsupported
    refine ⟨y, hy, ?_⟩
    rw [Bool.and_eq_true, Bool.and_eq_true, beq_iff_eq, Bool.not_eq_true', List.any_eq_true]
    refine ⟨⟨hid, hunsupported⟩, earlier, hmem, ?_⟩
    rw [Bool.and_eq_true, Bool.and_eq_true, beq_iff_eq, beq_iff_eq, decide_eq_true_eq]
    exact ⟨⟨hevaluation.symm, hreceipt⟩, hlt⟩

/-- The event that the view looks up by its number is the newest at the time. -/
theorem Logged.event? (h : t.Logged o) {n : ℕ} (hn : n ≤ (t.eventsOf o.id).length) :
    ((t.event? o.id n).map ExceptionEvent.toStatus).getD .open =
        EventLog.status eventReading .open ((t.eventsOf o.id).take n) ∧
      (0 < n → (t.event? o.id n).isSome) := by
  have hfind : t.event? o.id n =
      (t.eventsOf o.id).find? fun event => decide (eventReading.number event = n) := by
    rw [Tenant.event?, eventsOf, List.find?_filter]
    congr 1
    funext event
    rw [Bool.eq_iff_iff, decide_eq_true_eq, decide_eq_true_eq, decide_eq_true_eq,
      decide_eq_true_eq]
    rfl
  rw [hfind]
  exact h.legal.status_take hn

/-! ## Consistent evaluations -/

namespace Consistent

variable {x : EvaluationException}

/-- What the view compares are the disagreements of the pinned facts, each once. -/
theorem represents (h : t.Consistent e) (hkeys : t.Integrity) (he : e ∈ t.evaluations) :
    ∃ keys, t.receiptEvaluationDisagreements e.id = keys.map (e.receiptId, ·) ∧
      Snapshot.Represents keys (t.evaluated e.id).Disagrees := by
  refine view_represents h.wellFormed ?_ fun line hline => ?_
  · have hfound := hkeys.evaluations.find?_eq he rfl
    have hdistinct : Distinct Evaluation.id (t.evaluations.filter (·.id = e.id)) :=
      hkeys.evaluations.filter _
    have hall : ∀ other ∈ t.evaluations.filter (·.id = e.id), other = e := fun other hother =>
      hkeys.evaluations.eq (List.mem_filter.mp hother).1 he
        (of_decide_eq_true (List.mem_filter.mp hother).2)
    have hmem : e ∈ t.evaluations.filter (·.id = e.id) :=
      List.mem_filter.mpr ⟨he, decide_eq_true rfl⟩
    cases hrows : t.evaluations.filter (·.id = e.id) with
    | nil => rw [hrows] at hmem; exact absurd hmem List.not_mem_nil
    | cons first rest =>
        rw [hrows] at hall hdistinct
        obtain rfl := hall first (List.mem_cons_self ..)
        cases rest with
        | nil => rfl
        | cons second rest =>
            rw [hall second (by simp)] at hdistinct
            simp [Distinct] at hdistinct
  · obtain ⟨s, hs, hread⟩ := List.mem_filterMap.mp hline
    obtain ⟨-, -, ⟨own, hown, hid⟩, -⟩ := h.pinned s hs
    obtain ⟨hmem, hreceipt⟩ := mem_linesOf.mp hown
    rw [hkeys.lines.find?_eq hmem hid, Option.map_some, Option.some.injEq] at hread
    rw [← hread]
    exact hreceipt

theorem disagreesAt_iff (h : t.Consistent e) (hkeys : t.Integrity) (he : e ∈ t.evaluations)
    (key : ExceptionKey) : t.disagreesAt e key = true ↔ (t.evaluated e.id).Disagrees key := by
  obtain ⟨keys, hview, hkeyed⟩ := h.represents hkeys he
  rw [← hkeyed.2 key, disagreesAt, hview, List.any_map, List.any_eq_true]
  constructor
  · intro hfound
    obtain ⟨other, hother, heq⟩ := hfound
    exact (beq_iff_eq.mp heq) ▸ hother
  · intro hmem
    exact ⟨key, hmem, beq_self_eq_true key⟩

/-- The exception that a link is about. -/
theorem exception? (h : t.Consistent e) (hkeys : t.Integrity) (hx : x ∈ t.linksOf e.id) :
    ∃ o ∈ t.exceptionsOf e.receiptId, t.exceptions.find? (·.id = x.exceptionId) = some o ∧
      (t.exceptionsOf e.receiptId).find? (·.id = x.exceptionId) = some o ∧
      x.actorId = e.actorId ∧ x.occurredAt = e.occurredAt ∧
      (x.supported = true ↔ (t.evaluated e.id).Disagrees o.key ∧ t.UpheldBefore e o.id) := by
  obtain ⟨hactor, hoccurred, o, ho, hid, hiff⟩ := h.supports x hx
  exact ⟨o, ho, hkeys.exceptions.find?_eq (mem_exceptionsOf.mp ho).1 hid,
    (hkeys.exceptions.filter _).find?_eq ho hid, hactor, hoccurred, hiff⟩

theorem linePopulation (h : t.Consistent e) (hkeys : t.Integrity) :
    t.malformedLinePopulation e = false := by
  rw [malformedLinePopulation, Bool.or_eq_false_iff, List.any_eq_false, List.any_eq_false]
  refine ⟨fun line hline hmissing => ?_, fun s hs hwrong => ?_⟩
  · rw [Bool.and_eq_true, beq_iff_eq, Bool.not_eq_true'] at hmissing
    obtain ⟨s, hs, hid⟩ := h.lines line (mem_linesOf.mpr ⟨hline, hmissing.1⟩)
    have hunpinned := List.any_eq_false.mp hmissing.2 s hs
    simp [hid] at hunpinned
  · obtain ⟨hactor, hoccurred, ⟨line, hline, hid⟩, hgeneration, -⟩ := h.pinned s hs
    obtain ⟨hmem, hreceipt⟩ := mem_linesOf.mp hline
    rw [hkeys.lines.find?_eq hmem hid] at hwrong
    simp [hreceipt, hactor, hoccurred, hkeys.generationAt_eq, hgeneration] at hwrong

theorem expectationPopulation (h : t.Consistent e) (hkeys : t.Integrity) :
    t.malformedExpectationPopulation e = false := by
  rw [malformedExpectationPopulation, Bool.or_eq_false_iff, List.any_eq_false, List.any_eq_false]
  refine ⟨fun b hb hmissing => ?_, fun s hs hwrong => ?_⟩
  · rw [Bool.and_eq_true, hkeys.boundAt_iff hb, Bool.not_eq_true'] at hmissing
    obtain ⟨s, hs, hpins⟩ := h.comparators b hmissing.1.1 hmissing.1.2
    exact List.any_eq_false.mp hmissing.2 s hs hpins
  · obtain ⟨hactor, hoccurred, b, hb, hbound, hpins⟩ := h.expectations s hs
    have hmem := (mem_comparatorsOf.mp hb).1
    have hexists : (t.comparators.any fun b => t.boundAt e b && pins s b) = true := by
      refine List.any_eq_true.mpr ⟨b, hmem, ?_⟩
      rw [Bool.and_eq_true, hkeys.boundAt_iff hmem]
      exact ⟨⟨hb, hbound⟩, hpins⟩
    simp [hactor, hoccurred, hexists] at hwrong

theorem link (h : t.Consistent e) (hkeys : t.Integrity) : t.missingLink e = false := by
  refine List.any_eq_false.mpr fun o ho hmissing => ?_
  rw [Bool.and_eq_true, hkeys.observedAt_iff ho, Bool.not_eq_true'] at hmissing
  obtain ⟨x, hx, hid⟩ := h.observed o hmissing.1.1 hmissing.1.2
  have hunlinked := List.any_eq_false.mp hmissing.2 x hx
  simp [hid] at hunlinked

theorem support (h : t.Consistent e) (hkeys : t.Integrity) (he : e ∈ t.evaluations)
    (hx : x ∈ t.linksOf e.id) : t.malformedSupport e x = false := by
  obtain ⟨o, ho, hfound, -, hactor, hoccurred, hiff⟩ := h.exception? hkeys hx
  have hsupported : x.supported = (t.disagreesAt e o.key &&
      !t.unsupportedBefore (·.receiptId == e.receiptId) e o.id) := by
    rw [Bool.eq_iff_iff, hiff, Bool.and_eq_true, h.disagreesAt_iff hkeys he, Bool.not_eq_true',
      ← Bool.not_eq_true, unsupportedBefore_iff, not_not]
  rw [malformedSupport, hfound, Option.any_some, ← hsupported]
  simp [(mem_exceptionsOf.mp ho).2, hactor, hoccurred]

/-- How often the view finds a key supported. -/
theorem supportCount_eq (h : t.Consistent e) (hkeys : t.Integrity) (key : ExceptionKey) :
    t.supportCount e key = (t.supportedKeys e).count key := by
  rw [supportedKeys, List.count, List.countP_filterMap, List.countP_filter, supportCount]
  refine List.countP_congr fun x hx => ?_
  obtain ⟨o, -, hfound, hown, -⟩ := h.exception? hkeys hx
  rw [hfound, hown, Bool.and_comm]
  rfl

theorem supported_once (h : t.Consistent e) (hkeys : t.Integrity) (he : e ∈ t.evaluations) :
    t.malformedCoverage e = false := by
  obtain ⟨keys, hview, hkeyed⟩ := h.represents hkeys he
  refine List.any_eq_false.mpr fun row hrow hwrong => ?_
  rw [hview] at hrow
  obtain ⟨key, hkey, rfl⟩ := List.mem_map.mp hrow
  have hmem := (h.coverage.2 key).mpr ((hkeyed.2 key).mp hkey)
  rw [h.supportCount_eq hkeys, List.count_eq_one_of_mem h.coverage.1 hmem] at hwrong
  simp at hwrong

end Consistent

/-- What the view joins to a link are the events that its evaluation caused. -/
theorem resolutionsOf_eq {x : EvaluationException} (hx : x ∈ t.linksOf e.id) :
    t.resolutionsOf x = t.causedEvents e x := by
  have hevaluation : x.evaluationId = e.id := of_decide_eq_true (List.mem_filter.mp hx).2
  rw [resolutionsOf, causedEvents, eventsOf, List.filter_filter, hevaluation]
  refine List.filter_congr fun event _ => ?_
  rw [Bool.decide_and, Bool.and_comm]

/-- What an evaluation's word was followed by is what the view asks for. -/
theorem Followed.consequence {x : EvaluationException} {pair : Uuid} (h : t.Followed e pair x)
    (hlogged : t.Logged o) (hid : o.id = x.exceptionId) (hx : x ∈ t.linksOf e.id)
    {noted : ExceptionEvent → Bool}
    (hnoted : ∀ r : ExceptionEvent, r.note = some (supersessionNote pair) → noted r = true) :
    (leftJoin (t.resolutionsOf x)).any (t.malformedConsequence noted e x) = false := by
  have hprior := hid ▸ h.prior
  obtain ⟨hstatus, hsome⟩ := hlogged.event? hprior
  rw [hid] at hstatus hsome
  change _ = t.statusBy x at hstatus
  have hexists : (decide (0 < x.priorEventSeq) &&
      (t.event? x.exceptionId x.priorEventSeq).isNone) = false := by
    rw [Bool.and_eq_false_iff, decide_eq_false_iff_not, Option.isNone_eq_false_iff]
    exact Decidable.not_or_of_imp hsome
  have hterminal : (t.event? x.exceptionId x.priorEventSeq).any (·.toStatus.terminal) = true →
      (t.statusBy x).terminal = true := by
    rw [← hstatus]
    cases t.event? x.exceptionId x.priorEventSeq with
    | none => exact fun hnone => nomatch hnone
    | some p => exact id
  rw [resolutionsOf_eq hx]
  by_cases hkept : x.supported = true ∨ (t.statusBy x).terminal = true
  · rw [h.untouched hkept]
    change (malformedConsequence t noted e x none || false) = false
    rw [Bool.or_false, malformedConsequence, hstatus, hexists]
    rcases hkept with hsupported | hended
    · simp [hsupported]
    · simp [hended]
  · rw [not_or, Bool.not_eq_true, Bool.not_eq_true] at hkept
    obtain ⟨hunsupported, hopen⟩ := hkept
    obtain ⟨event, hcaused, hseq, hto, hactor, hoccurred, hnote⟩ := h.resolved hunsupported hopen
    have hlive : (t.event? x.exceptionId x.priorEventSeq).any (·.toStatus.terminal) = false := by
      rw [← Bool.not_eq_true]
      intro hended
      rw [hterminal hended] at hopen
      exact nomatch hopen
    rw [hcaused]
    change (malformedConsequence t noted e x (some event) || false) = false
    rw [Bool.or_false, malformedConsequence, hstatus, hexists, hlive]
    simp [hunsupported, hopen, hto, hseq, hactor, hoccurred, hnoted event hnote]

theorem Consistent.consequences (h : t.Consistent e) (hkeys : t.Integrity)
    (hlogged : ∀ o ∈ t.exceptionsOf e.receiptId, t.Logged o) :
    t.malformedConsequences e = false := by
  obtain ⟨cause, hcause, hid, -, hfollowed⟩ := h.caused
  have hfound := hkeys.corrections.find?_eq (mem_correctionsOf.mp hcause).1 hid
  rw [malformedConsequences, hfound, Option.any_some]
  refine List.any_eq_false.mpr fun x hx => ?_
  obtain ⟨-, -, o, ho, hexception, -⟩ := h.supports x hx
  rw [(hfollowed x hx).consequence (hlogged o ho) hexception hx fun r hnote => by simp [hnote]]
  exact Bool.false_ne_true

/-! ## The view -/

/-- A correction that was evaluated is not missing its evaluation. -/
theorem Chronicled.evaluation (h : t.Chronicled receipt) {c : RecordCorrection LineFields}
    (hc : c ∈ t.correctionsOf receipt) : t.missingEvaluation c = false := by
  by_cases hrole : c.role = .corrected
  · obtain ⟨e, he, hanswers⟩ := h.answered c hc hrole
    have hfound := h.settled.integrity.causes.find?_eq (mem_evaluationsOf.mp he).1
      hanswers.correction
    rw [missingEvaluation, hfound]
    simp [hanswers.receipt, hanswers.line, hanswers.generation, hanswers.actor,
      hanswers.occurredAt, hanswers.transaction]
  · simp [missingEvaluation, hrole]

/-- Where every receipt is chronicled, the view is empty. -/
theorem receiptEvaluationAnomalies_eq_nil (h : ∀ receipt, t.Chronicled receipt) :
    t.receiptEvaluationAnomalies = [] := by
  have hkeys := (h 0).settled.integrity
  have hconsistent : ∀ e ∈ t.evaluations, t.Consistent e := fun e he =>
    (h e.receiptId).consistent e (mem_evaluationsOf.mpr ⟨he, rfl⟩)
  have hnone : ∀ {ρ : Type} {rows : List ρ} {bad : ρ → Bool} {row : ρ → Uuid × String},
      (∀ r ∈ rows, bad r = false) → (rows.filter bad).map row = [] := by
    intro ρ rows bad row hall
    rw [List.map_eq_nil_iff, List.filter_eq_nil_iff]
    intro r hr
    rw [hall r hr]
    exact Bool.false_ne_true
  unfold receiptEvaluationAnomalies
  rw [hnone fun c hc => (h c.entityId).evaluation (mem_correctionsOf.mpr ⟨hc, rfl⟩),
    hnone fun e he => (hconsistent e he).linePopulation hkeys,
    hnone fun e he => (hconsistent e he).expectationPopulation hkeys,
    hnone fun e he => (hconsistent e he).link hkeys,
    hnone fun e he => List.any_eq_false.mpr fun x hx =>
      Bool.eq_false_iff.mp ((hconsistent e he).support hkeys he hx),
    hnone fun e he => (hconsistent e he).supported_once hkeys he,
    hnone fun e he => (hconsistent e he).consequences hkeys (h e.receiptId).settled.logged]
  rfl

/-- So is the view of workflows. -/
theorem exceptionWorkflowAnomalies_eq_nil (hkeys : t.Integrity)
    (h : ∀ o ∈ t.exceptions, t.Logged o) : t.exceptionWorkflowAnomalies = [] := by
  refine List.eq_nil_iff_forall_not_mem.mpr fun exception hmem => ?_
  have hexists : ∃ o ∈ t.exceptions, o.id = exception := by
    rcases List.mem_append.mp hmem with hworkflow | hevent
    · obtain ⟨o, ho, hid⟩ := List.mem_map.mp hworkflow
      exact ⟨o, (List.mem_filter.mp ho).1, hid⟩
    · obtain ⟨event, hmalformed, rfl⟩ := List.mem_map.mp hevent
      exact hkeys.eventException event (List.mem_filter.mp hmalformed).1
  obtain ⟨o, ho, rfl⟩ := hexists
  exact (h o ho).sound hkeys ho hmem

/-! ## The assertion -/

/-- The newest evaluation has pinned what is in force now. -/
theorem Consistent.sources (h : t.Consistent e) (hkeys : t.Integrity)
    (hbound : ∀ b ∈ t.comparatorsOf e.receiptId, t.BoundBy e b)
    (hgeneration : ∀ line ∈ t.linesOf e.receiptId,
      t.generationBy e line.id = generation t.lineCorrections line.id) :
    t.sourcesIncomplete e.receiptId e = false := by
  simp only [sourcesIncomplete, Bool.or_eq_false_iff, List.any_eq_false]
  refine ⟨⟨⟨⟨⟨fun line hline hmissing => ?_, fun s hs hforeign => ?_⟩, fun b hb hmissing => ?_⟩,
    fun s hs hunbound => ?_⟩, fun s hs hstale => ?_⟩, fun line hline hmissing => ?_⟩
  · rw [Bool.and_eq_true, beq_iff_eq, Bool.not_eq_true'] at hmissing
    obtain ⟨s, hs, hid⟩ := h.lines line (mem_linesOf.mpr ⟨hline, hmissing.1⟩)
    have hunpinned := List.any_eq_false.mp hmissing.2 s hs
    simp [hid] at hunpinned
  · obtain ⟨-, -, ⟨line, hline, hid⟩, -⟩ := h.pinned s hs
    obtain ⟨hmem, hreceipt⟩ := mem_linesOf.mp hline
    rw [hkeys.lines.find?_eq hmem hid] at hforeign
    simp [hreceipt] at hforeign
  · rw [Bool.and_eq_true, beq_iff_eq, Bool.not_eq_true'] at hmissing
    have hb' := mem_comparatorsOf.mpr ⟨hb, hmissing.1⟩
    obtain ⟨s, hs, hpins⟩ := h.comparators b hb' (hbound b hb')
    exact List.any_eq_false.mp hmissing.2 s hs hpins
  · obtain ⟨-, -, b, hb, -, hpins⟩ := h.expectations s hs
    obtain ⟨hmem, hreceipt⟩ := mem_comparatorsOf.mp hb
    rw [Bool.not_eq_true'] at hunbound
    have hnone := List.any_eq_false.mp hunbound b hmem
    simp [hreceipt, hpins] at hnone
  · obtain ⟨-, -, ⟨line, hline, hid⟩, hpinned, -⟩ := h.pinned s hs
    rw [bne_iff_ne] at hstale
    exact hstale (hpinned.trans (hid ▸ hgeneration line hline))
  · rw [Bool.and_eq_true, Bool.not_eq_true'] at hmissing
    obtain ⟨poLine, hpo⟩ := Option.isSome_iff_exists.mp hmissing.1
    obtain ⟨expected, hexpected, hid⟩ := h.wellFormed.selected line hline poLine hpo
    obtain ⟨s, hs, hread⟩ := List.mem_filterMap.mp hexpected
    obtain ⟨original, hfound, rfl⟩ := Option.map_eq_some_iff.mp hread
    have hroot : s.rootId = poLine := (key_of_find? hfound).2.symm.trans hid
    have hunselected := List.any_eq_false.mp hmissing.2 s hs
    simp [hroot, hpo] at hunselected

/-- Its support is the one that the assertion computes. -/
theorem Consistent.supportAgrees (h : t.Consistent e) (hkeys : t.Integrity)
    (he : e ∈ t.evaluations) : t.supportDisagrees e.receiptId e = false := by
  refine List.any_eq_false.mpr fun x hx hwrong => ?_
  obtain ⟨o, ho, hfound, -, -, -, hiff⟩ := h.exception? hkeys hx
  obtain ⟨hmem, hreceipt⟩ := mem_exceptionsOf.mp ho
  have hid := (key_of_find? hfound).2
  rw [hfound, Option.any_some, hreceipt, bne_self_eq_false, Bool.false_or, Bool.and_eq_true,
    bne_iff_ne, Bool.not_eq_true', Bool.and_eq_false_iff] at hwrong
  obtain ⟨hdiffers, hgone⟩ := hwrong
  by_cases hsupported : x.supported = true
  · rw [hsupported, (h.disagreesAt_iff hkeys he o.key).mpr (hiff.mp hsupported).1] at hdiffers
    exact hdiffers rfl
  · rw [Bool.not_eq_true] at hsupported
    rw [hsupported, ne_eq, eq_comm, Bool.not_eq_false, h.disagreesAt_iff hkeys he] at hdiffers
    -- What disagrees and is not supported was let go by an earlier evaluation of the receipt.
    have hlet : ¬t.UpheldBefore e x.exceptionId := fun hupheld => by
      rw [← hid] at hupheld
      rw [hiff.mpr ⟨hdiffers, hupheld⟩] at hsupported
      exact nomatch hsupported
    have hbefore := unsupportedBefore_iff.mpr hlet
    rcases hgone with hkept | hnever
    · simp [hsupported] at hkept
    · obtain ⟨y, hy, hmatch⟩ := List.any_eq_true.mp hbefore
      have hnone := List.any_eq_false.mp hnever y hy
      simp only [Bool.and_eq_true, List.any_eq_true] at hmatch hnone
      obtain ⟨hfields, earlier, hearlier, ⟨hevaluation, -⟩, hlt⟩ := hmatch
      exact hnone ⟨hfields, earlier, hearlier, ⟨hevaluation, trivial⟩, hlt⟩

theorem Consistent.consequencesComplete (h : t.Consistent e)
    (hlogged : ∀ o ∈ t.exceptionsOf e.receiptId, t.Logged o) :
    t.consequencesIncomplete e = false := by
  obtain ⟨cause, -, -, -, hfollowed⟩ := h.caused
  refine List.any_eq_false.mpr fun x hx => ?_
  obtain ⟨-, -, o, ho, hexception, -⟩ := h.supports x hx
  rw [(hfollowed x hx).consequence (hlogged o ho) hexception hx fun _ _ => rfl]
  exact Bool.false_ne_true

end Tenant

namespace Round

variable {round : Round}

/-- Every evaluation of the receipt had been made when the round's was. -/
theorem evaluationSeq_le (hvalid : round.Valid) {e : Evaluation}
    (he : e ∈ round.after.evaluationsOf round.receipt) :
    e.evaluationSeq ≤ round.evaluation.evaluationSeq := by
  rw [evaluationsOf_after hvalid] at he
  rcases List.mem_append.mp he with hold | hnew
  · exact (evaluationSeq_lt hvalid hold).le
  · rw [List.mem_singleton.mp hnew]

/-- The pair's evaluation is the round's. -/
theorem evaluationOf?_after (hvalid : round.Valid) (hafter : round.after.Integrity) :
    round.after.evaluationOf? round.receipt round.corrected.pairId = some round.evaluation := by
  have hcorrected : round.corrected ∈ round.after.lineCorrections := by
    rw [after_eq]
    simp [corrections]
  refine hafter.causes.find?_of_imp (Tenant.mem_evaluationsOf.mp (mem_evaluationsOf_after hvalid)).1
    ?_ fun e _ hmatch => ?_
  · refine List.any_eq_true.mpr ⟨round.corrected, hcorrected, decide_eq_true ?_⟩
    exact ⟨hvalid.correction.symm, hvalid.corrected.2, rfl, hvalid.corrected.1⟩
  · obtain ⟨c, hc, hfields⟩ := List.any_eq_true.mp hmatch
    obtain ⟨hid, -, hpair, hrole⟩ := of_decide_eq_true hfields
    have hsame : (c.pairId, c.role) = (round.corrected.pairId, round.corrected.role) := by
      rw [hpair, hrole, hvalid.corrected.1]
    rw [← hid, hafter.pairs.eq hc hcorrected hsame, hvalid.correction]

/-- The assertion accepts what a round wrote. -/
theorem assertComplete (hvalid : round.Valid) (h : round.before.Chronicled round.receipt)
    (h' : ∀ receipt, round.after.Chronicled receipt) :
    assertReceiptCorrectionComplete round.receipt round.corrected.pairId round.after = .ok () := by
  have hchronicled := h' round.receipt
  have hafter := hchronicled.settled.integrity
  have hmem := mem_evaluationsOf_after hvalid
  have he := (Tenant.mem_evaluationsOf.mp hmem).1
  have hconsistent := hchronicled.consistent _ hmem
  have hlogged : ∀ o ∈ round.after.exceptions, round.after.Logged o := fun o ho =>
    (h' o.receiptId).settled.logged o (Tenant.mem_exceptionsOf.mpr ⟨ho, rfl⟩)
  simp only [assertReceiptCorrectionComplete, bind_eq_ok, demand_eq_ok, require_eq_ok, exists_unit]
  refine ⟨round.evaluation, evaluationOf?_after hvalid hafter, ⟨?_, ?_⟩, ?_, ?_, ?_, ?_, ?_⟩
  · rw [Tenant.hasEvaluationAnomaly, Tenant.receiptEvaluationAnomalies_eq_nil h']
    rfl
  · rw [Tenant.exceptionWorkflowAnomalies_eq_nil hafter hlogged]
    simp
  · have hsources := hconsistent.sources hafter ?_ ?_
    · rw [hvalid.receipt] at hsources
      rw [hsources]
      rfl
    · rw [hvalid.receipt]
      intro b hb correction hcorrection
      obtain ⟨e, he, hid⟩ := hchronicled.bound b hb correction hcorrection
      unfold Tenant.EvaluatedBy
      rw [hvalid.receipt]
      exact ⟨e, he, hid, evaluationSeq_le hvalid he⟩
    · rw [hvalid.receipt, linesOf_after]
      intro line hline
      have hcorrections : round.after.lineCorrections = round.corrections := by rw [after_eq]
      rw [hcorrections]
      exact generationBy_evaluation hvalid h hafter hline
  · rw [Bool.not_eq_true']
    refine List.any_eq_false.mpr fun o ho hmissing => ?_
    rw [Bool.and_eq_true, beq_iff_eq, Bool.not_eq_true'] at hmissing
    obtain ⟨x, hx, hid⟩ := hchronicled.settled.reviewed.newest round.evaluation
      (by rw [evaluationsOf_after hvalid, List.getLast?_concat]; rfl) o
      (Tenant.mem_exceptionsOf.mpr ⟨ho, hmissing.1⟩)
    have hunlinked := List.any_eq_false.mp hmissing.2 x hx
    simp [hid] at hunlinked
  · have hsupport := hconsistent.supportAgrees hafter he
    rw [hvalid.receipt] at hsupport
    rw [hsupport]
    rfl
  · rw [hconsistent.supported_once hafter he]
    rfl
  · rw [hconsistent.consequencesComplete fun o ho => hlogged o (Tenant.mem_exceptionsOf.mp ho).1]
    rfl

/-- The rows of a pair are its reversal and its replacement. -/
theorem eq_of_pairId (hvalid : round.Valid) (hafter : round.after.Integrity)
    {c : RecordCorrection LineFields} (hc : c ∈ round.after.lineCorrections)
    (hpair : c.pairId = round.corrected.pairId) : c = round.reversal ∨ c = round.corrected := by
  have hrows : round.after.lineCorrections =
      round.before.lineCorrections ++ [round.reversal, round.corrected] := by
    rw [after_eq]
    rfl
  cases hrole : c.role with
  | none => exact absurd hrole (hafter.roles c hc)
  | reversal =>
      refine .inl (hafter.pairs.eq hc (by simp [hrows]) ?_)
      rw [hpair, hrole, hvalid.reversal.1, hvalid.reversal.2.2.2]
  | corrected =>
      refine .inr (hafter.pairs.eq hc (by simp [hrows]) ?_)
      rw [hpair, hrole, hvalid.corrected.1]

/-- So do the checks that are deferred to the commit. -/
theorem commit_ok (hvalid : round.Valid) (h : round.before.Chronicled round.receipt)
    (h' : ∀ receipt, round.after.Chronicled receipt) :
    Service.commitReceiptCorrection round.ctx round.corrected round.after = .ok () := by
  have hafter := (h' round.receipt).settled.integrity
  have hauthority : round.after.receiptLineAnomalies round.ctx.posixSpace =
      round.started.receiptLineAnomalies round.ctx.posixSpace := by
    rw [after_eq]
    rfl
  obtain ⟨line, hline, hroot, howner⟩ := hvalid.root
  have hsound := hvalid.sound line (Tenant.mem_linesOf.mpr ⟨hline, howner⟩)
  refine forM_eq_ok fun row hrow => ?_
  obtain ⟨hmem, hpair⟩ := List.mem_filter.mp hrow
  have hpair : row.pairId = round.corrected.pairId := of_decide_eq_true hpair
  have hrow : row.rootId = round.corrected.rootId ∧ row.entityId = round.receipt := by
    rcases eq_of_pairId hvalid hafter hmem hpair with rfl | rfl
    · exact ⟨hvalid.reversal.2.2.1, hvalid.reversal.2.1⟩
    · exact ⟨rfl, hvalid.corrected.2⟩
  simp only [completeReceiptLineCorrections, bind_eq_ok, require_eq_ok, exists_unit]
  rw [hrow.1, hrow.2, hpair, hauthority, ← hroot]
  exact ⟨hsound, assertComplete hvalid h h'⟩

end Round

/-! ## Runs -/

/-- What a correction writes is accepted. -/
theorem Tenant.correctReceiptLine_of_write (h : ∀ receipt, t.Chronicled receipt) {ctx : Context}
    {root : Uuid} {values : ReceiptLineCorrection} {keys : ReceiptCorrectionKeys}
    {corrected : RecordCorrection LineFields}
    (hwrite : Service.writeReceiptCorrection ctx receipt root values keys t =
      .ok (corrected, e, t')) :
    Service.correctReceiptLine ctx receipt root values keys t = .ok ((corrected, e.id), t') := by
  have hkeys := (h receipt).settled.integrity
  obtain ⟨round, hwritten⟩ := Round.writeReceiptCorrection_eq_ok hkeys hwrite
  obtain ⟨rfl, rfl, rfl⟩ := hwritten.inputs
  obtain ⟨rfl, rfl⟩ := hwritten.rows
  obtain rfl := hwritten.after_eq
  have hvalid := hwritten.valid
  have hwrites := hwritten.writes
  have hafter := Writes.integrity hwrites hkeys
  have hon : ∀ receipt, StepOn round.ctx.posixSpace receipt round.before round.after := by
    intro receipt
    by_cases hreceipt : receipt = round.receipt
    · subst hreceipt
      exact .corrected round rfl rfl rfl hvalid rfl hwrites
    · exact .same (Writes.sameReceipt hwrites hkeys hreceipt)
  have h' : ∀ receipt, round.after.Chronicled receipt := fun receipt =>
    (hon receipt).chronicled (h receipt) ((hon receipt).settled (h receipt).settled hafter)
  simp only [Service.correctReceiptLine, Service.assetConstraints, bind_eq_ok,
    Service.translating_eq_ok, Service.execute_eq_ok, pure_eq_ok, exists_unit]
  refine ⟨(round.corrected, round.evaluation, round.after), ⟨_, hwrite, ?_, rfl⟩, ?_, rfl⟩
  · exact Round.assertComplete hvalid (h round.receipt) h'
  · exact Round.commit_ok hvalid (h round.receipt) h'

/-- In every state that a run of requests reaches no view of anomalies names an evaluation or a
workflow: each evaluation is as it was to be when it was made, however many corrections followed.
What `correct_receipt_line` writes next is accepted by the assertion and by the checks that are
deferred to the commit, so no correction is refused for its consequences. -/
theorem evaluationsConsistent (posixSpace : Char → Bool) {start : Tenant} (hfresh : start.Fresh)
    (requests : List (Context × ReceivingCall)) :
    let t := Machine.run (Tenant.step posixSpace) requests start
    t.receiptEvaluationAnomalies = [] ∧ t.exceptionWorkflowAnomalies = [] ∧
    ∀ ctx receipt root values keys corrected evaluation t',
      Service.writeReceiptCorrection ctx receipt root values keys t =
          .ok (corrected, evaluation, t') →
        Service.correctReceiptLine ctx receipt root values keys t =
          .ok ((corrected, evaluation.id), t') := by
  intro t
  have hchronicled : ∀ receipt, t.Chronicled receipt := fun receipt =>
    (hfresh.chronicled receipt).run posixSpace requests
  refine ⟨Tenant.receiptEvaluationAnomalies_eq_nil hchronicled,
    Tenant.exceptionWorkflowAnomalies_eq_nil (hchronicled 0).settled.integrity fun o ho => ?_, ?_⟩
  · exact (hchronicled o.receiptId).settled.logged o (Tenant.mem_exceptionsOf.mpr ⟨ho, rfl⟩)
  · intro ctx receipt root values keys corrected evaluation t' hwrite
    exact Tenant.correctReceiptLine_of_write hchronicled hwrite

theorem evaluationsConsistent_sample :
    let t := Machine.run (Tenant.step sampleContext.posixSpace) (sampleArrival ++ sampleRecount)
      expectingTenant
    t.receiptEvaluationAnomalies = [] ∧ t.exceptionWorkflowAnomalies = [] ∧
    ∀ ctx receipt root values keys corrected evaluation t',
      Service.writeReceiptCorrection ctx receipt root values keys t =
          .ok (corrected, evaluation, t') →
        Service.correctReceiptLine ctx receipt root values keys t =
          .ok ((corrected, evaluation.id), t') :=
  evaluationsConsistent sampleContext.posixSpace expectingTenant_fresh
    (sampleArrival ++ sampleRecount)

end

end FleetOps
