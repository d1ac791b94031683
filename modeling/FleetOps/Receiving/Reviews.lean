import FleetOps.Foundations.Standing
import FleetOps.Receiving.Freezing
import FleetOps.Receiving.Logs

/-!
# What stands of a receipt

The newest evaluation says of every observation of its receipt whether it still
supports it.  A round of correction is a review (`Round.standing_after`): what
stands afterwards are the disagreements of the facts in force.  Captures,
transitions and other receipts leave this as it is, so that it is known of every
receipt whose population is closed (`Tenant.Upheld`).
-/

namespace FleetOps

open Relation Keys

namespace Tenant

variable (tenant : Tenant) (receipt : Uuid)

/-- The observations of a receipt that no evaluation has let go. -/
def standing : List ReceivingException :=
  (tenant.exceptionsOf receipt).filter fun o => Service.priorSupport tenant o.id ≠ some false

/-- The lines of a receipt in force, and its comparators as they are pinned. -/
def inForce : Snapshot where
  lines := (tenant.linesOf receipt).map fun line =>
    tenant.lineAt line (latestCorrection tenant.lineCorrections line.id)
  expectations := (tenant.comparatorsOf receipt).filterMap fun c =>
    (tenant.purchaseOrderLines.find? (·.id = c.poLineId)).map fun line =>
      expectationAt line (pinnedSource tenant.purchaseOrderLineCorrections c.sourceId)

/-- Each evaluation of a receipt speaks of an observation once at most, and the newest, which comes
last, speaks of every one. -/
structure Reviewed : Prop where
  ascending : (tenant.evaluationsOf receipt).Pairwise fun a b => a.evaluationSeq < b.evaluationSeq
  distinct : ∀ e ∈ tenant.evaluationsOf receipt,
    Distinct EvaluationException.exceptionId (tenant.linksOf e.id)
  newest : ∀ e ∈ (tenant.evaluationsOf receipt).getLast?, ∀ o ∈ tenant.exceptionsOf receipt,
    ∃ x ∈ tenant.linksOf e.id, x.exceptionId = o.id

/-- Once the population is closed, what stands are the disagreements of the facts in force. -/
def Upheld : Prop :=
  tenant.reconciled receipt →
    Snapshot.Represents ((tenant.standing receipt).map ReceivingException.key)
      (tenant.inForce receipt).Disagrees

end Tenant

section

variable {t t' : Tenant} {receipt : Uuid} {o : ReceivingException}

/-! ## The newest word -/

theorem Tenant.mem_standing : o ∈ t.standing receipt ↔
    o ∈ t.exceptionsOf receipt ∧ Service.priorSupport t o.id ≠ some false := by
  simp [Tenant.standing]

/-- The evaluation that a link belongs to is one of the exception's receipt. -/
theorem Tenant.Integrity.evaluation_of_link (hkeys : t.Integrity)
    (ho : o ∈ t.exceptionsOf receipt) {x : EvaluationException} (hx : x ∈ t.evaluationExceptions)
    (hid : x.exceptionId = o.id) :
    ∃ e ∈ t.evaluationsOf receipt, e.id = x.evaluationId := by
  obtain ⟨hmem, hreceipt⟩ := Tenant.mem_exceptionsOf.mp ho
  obtain ⟨e, he, other, hother, hevaluation, hexception, howner⟩ := hkeys.links x hx
  have hsame := hkeys.exceptions.eq hother hmem (hexception.trans hid)
  refine ⟨e, Tenant.mem_evaluationsOf.mpr ⟨he, ?_⟩, hevaluation⟩
  rw [← howner, hsame, hreceipt]

/-- Nothing is said of the observations of a receipt that was not evaluated. -/
theorem Tenant.Integrity.priorSupport_eq_none (hkeys : t.Integrity)
    (hnone : t.evaluationsOf receipt = []) (ho : o ∈ t.exceptionsOf receipt) :
    Service.priorSupport t o.id = none := by
  have hlinks : t.evaluationExceptions.filter (·.exceptionId = o.id) = [] := by
    refine List.filter_eq_nil_iff.mpr fun x hx hid => ?_
    obtain ⟨e, he, -⟩ := hkeys.evaluation_of_link ho hx (of_decide_eq_true hid)
    rw [hnone] at he
    exact absurd he List.not_mem_nil
  simp [Service.priorSupport, hlinks]

/-- The newest evaluation's word is the one that the service reads. -/
theorem Tenant.Reviewed.priorSupport (h : t.Reviewed receipt) (hkeys : t.Integrity)
    {e : Evaluation} (he : (t.evaluationsOf receipt).getLast? = some e)
    (ho : o ∈ t.exceptionsOf receipt) {x : EvaluationException} (hx : x ∈ t.linksOf e.id)
    (hid : x.exceptionId = o.id) : Service.priorSupport t o.id = some x.supported := by
  obtain ⟨front, hsplit⟩ := List.getLast?_eq_some_iff.mp he
  have hmem : e ∈ t.evaluationsOf receipt := by simp [hsplit]
  obtain ⟨hx', hevaluation⟩ := List.mem_filter.mp hx
  have hevaluation : x.evaluationId = e.id := by simpa using hevaluation
  have hfound := hkeys.evaluations.find?_eq (Tenant.mem_evaluationsOf.mp hmem).1 rfl
  have hlatest : Query.latestBy Prod.fst
      ((t.evaluationExceptions.filter (·.exceptionId = o.id)).filterMap fun x =>
        (t.evaluations.find? (·.id = x.evaluationId)).map fun e => (e.evaluationSeq, x.supported)) =
      some (e.evaluationSeq, x.supported) := by
    refine Query.latestBy_eq_of_forall_lt ?_ fun other hother hne => ?_
    · refine List.mem_filterMap.mpr ⟨x, List.mem_filter.mpr ⟨hx', by simpa using hid⟩, ?_⟩
      rw [hevaluation, hfound, Option.map_some]
    · obtain ⟨y, hy, hread⟩ := List.mem_filterMap.mp hother
      obtain ⟨hy, hyid⟩ := List.mem_filter.mp hy
      have hyid : y.exceptionId = o.id := by simpa using hyid
      obtain ⟨e', he', heid⟩ := hkeys.evaluation_of_link ho hy hyid
      rw [hkeys.evaluations.find?_eq (Tenant.mem_evaluationsOf.mp he').1 heid, Option.map_some,
        Option.some.injEq] at hread
      subst hread
      have hfront : e' ∈ front ∨ e' = e := by simpa [hsplit] using he'
      rcases hfront with hearlier | rfl
      · have hascending := h.ascending
        rw [hsplit] at hascending
        exact (List.pairwise_append.mp hascending).2.2 e' hearlier e (by simp)
      · have hlinked : y ∈ t.linksOf e'.id :=
          List.mem_filter.mpr ⟨hy, by simpa using heid.symm⟩
        obtain rfl := (h.distinct e' hmem).eq hlinked hx (hyid.trans hid.symm)
        exact absurd rfl hne
  rw [Service.priorSupport, hlatest, Option.map_some]

/-- What the service reads of an observation is decided by the newest evaluation. -/
theorem Tenant.Reviewed.priorSupport_congr (h : t.Reviewed receipt) (h' : t'.Reviewed receipt)
    (hkeys : t.Integrity) (hkeys' : t'.Integrity) (hsame : SameReceipt receipt t t')
    (ho : o ∈ t.exceptionsOf receipt) :
    Service.priorSupport t' o.id = Service.priorSupport t o.id := by
  have ho' : o ∈ t'.exceptionsOf receipt := hsame.exceptions ▸ ho
  cases hlast : (t.evaluationsOf receipt).getLast? with
  | none =>
      have hnone := List.getLast?_eq_none_iff.mp hlast
      rw [hkeys.priorSupport_eq_none hnone ho,
        hkeys'.priorSupport_eq_none (hsame.evaluations.trans hnone) ho']
  | some e =>
      have hmem := List.mem_of_getLast? hlast
      obtain ⟨x, hx, hid⟩ := h.newest e hlast o ho
      have hx' : x ∈ t'.linksOf e.id := (hsame.links e hmem).symm ▸ hx
      rw [h.priorSupport hkeys hlast ho hx hid,
        h'.priorSupport hkeys' ((congrArg _ hsame.evaluations).trans hlast) ho' hx' hid]

/-! ## The facts in force -/

/-- The newest replacement is the one with the line's generation. -/
theorem Tenant.Integrity.replacementAt_generation (hkeys : t.Integrity) (root : Uuid) :
    t.replacementAt root (Tenant.generation t.lineCorrections root) =
      Tenant.latestCorrection t.lineCorrections root := by
  unfold Tenant.generation
  cases hlatest : Tenant.latestCorrection t.lineCorrections root with
  | none =>
      refine List.find?_eq_none.mpr fun c hc => ?_
      simpa using fun _ hzero => absurd hzero (hkeys.positive c hc).ne'
  | some newest =>
      obtain ⟨hmem, hfields⟩ := List.mem_filter.mp (Query.mem_of_latestBy hlatest)
      have hfields : newest.rootId = root ∧ newest.role = .corrected := by simpa using hfields
      refine hkeys.generations.find?_of_imp hmem (by simp [hfields]) fun c hc hp => ?_
      have hp : c.rootId = root ∧ c.generation = newest.generation ∧ c.role = .corrected := by
        simpa using hp
      rw [hp.1, hp.2.1, hp.2.2, hfields.1, hfields.2]

/-- A new evaluation would compare the facts in force. -/
theorem Tenant.Integrity.evaluated_inForce (hkeys : t.Integrity) {e : Evaluation}
    (hnew : ∀ other ∈ t.evaluations, other.id ≠ e.id) :
    (t.evaluating e (Tenant.generation t.lineCorrections) (t.comparatorsOf e.receiptId)).evaluated
      e.id = t.inForce e.receiptId := by
  rw [evaluated_evaluating hkeys hnew, Tenant.inForce]
  simp only [hkeys.replacementAt_generation]

/-- The lines and comparators of a receipt in force have their keys. -/
theorem Tenant.Integrity.inForce_wellFormed (hkeys : t.Integrity)
    (hselectable : t.Selectable receipt) : (t.inForce receipt).WellFormed := by
  let e : Evaluation :=
    { id := (t.evaluations.map Evaluation.id).max?.getD 0 + 1, receiptId := receipt
      receiptLineId := 0, correctionId := 0, correctionGeneration := 0, evaluationSeq := 0
      recordingTransactionId := 0, actorId := 0, occurredAt := .at 0, recordedAt := .at 0 }
  have hnew : ∀ other ∈ t.evaluations, other.id ≠ e.id := by
    intro other hother
    have hle : other.id ≤ (t.evaluations.map Evaluation.id).max?.getD 0 :=
      List.le_max?_getD_of_mem (List.mem_map_of_mem hother)
    exact (Nat.lt_succ_of_le hle).ne
  have hselects : t.Selects receipt (Tenant.generation t.lineCorrections)
      (t.comparatorsOf receipt) := hselectable.selects hkeys
  have hwell := evaluating_wellFormed hkeys hnew (List.Sublist.refl _) hselects
  rw [hkeys.evaluated_inForce hnew] at hwell
  exact hwell

/-- A line's replacements are among the corrections of its receipt. -/
theorem Tenant.Integrity.latestCorrection_correctionsOf (hkeys : t.Integrity) {line : ReceiptLine}
    (hline : line ∈ t.linesOf receipt) : Tenant.latestCorrection t.lineCorrections line.id =
      Tenant.latestCorrection (t.correctionsOf receipt) line.id := by
  obtain ⟨hmem, hreceipt⟩ := Tenant.mem_linesOf.mp hline
  unfold Tenant.latestCorrection Tenant.correctionsOf
  rw [List.filter_filter]
  congr 1
  refine List.filter_congr fun c hc => ?_
  obtain ⟨root, hroot, hid, howner⟩ := hkeys.correctionLine c hc
  by_cases hrootId : c.rootId = line.id
  · obtain rfl := hkeys.lines.eq hroot hmem (hid.trans hrootId)
    simp [hrootId, ← howner, hreceipt]
  · simp [hrootId]

/-- Until a receipt is corrected, the facts in force are those of its capture. -/
theorem Tenant.Integrity.inForce_capture (hkeys : t.Integrity)
    (huncorrected : t.correctionsOf receipt = []) : t.inForce receipt = t.capture receipt := by
  have hbound : t.captureComparators receipt = t.comparatorsOf receipt := by
    refine List.filter_eq_self.mpr fun c hc => decide_eq_true ?_
    obtain ⟨hmem, hreceipt⟩ := Tenant.mem_comparatorsOf.mp hc
    by_contra hne
    obtain ⟨correction, hcorrection⟩ := Option.ne_none_iff_exists'.mp hne
    obtain ⟨row, hrow, -, hentity⟩ := hkeys.introduced c hmem correction hcorrection
    have hcorrected : row ∈ t.correctionsOf receipt :=
      Tenant.mem_correctionsOf.mpr ⟨hrow, hentity.trans hreceipt⟩
    rw [huncorrected] at hcorrected
    exact absurd hcorrected List.not_mem_nil
  rw [Tenant.inForce, Tenant.capture, hbound]
  congr 1
  refine List.map_congr_left fun line hline => ?_
  rw [hkeys.latestCorrection_correctionsOf hline, huncorrected]
  rfl

/-- What a receipt does not see does not change the facts in force. -/
theorem SameReceipt.inForce (h : SameReceipt receipt t t') (hkeys : t.Integrity)
    (hkeys' : t'.Integrity) : t'.inForce receipt = t.inForce receipt := by
  unfold Tenant.inForce
  rw [h.lines, h.comparators]
  congr 1
  · refine List.map_congr_left fun line hline => ?_
    have hlatest : Tenant.latestCorrection t'.lineCorrections line.id =
        Tenant.latestCorrection t.lineCorrections line.id := by
      rw [hkeys'.latestCorrection_correctionsOf (h.lines.symm ▸ hline), h.corrections,
        hkeys.latestCorrection_correctionsOf hline]
    simp only [hlatest, Tenant.lineAt, h.conflict line hline, h.unreadable line hline]
  · refine List.filterMap_congr fun c hc => ?_
    obtain ⟨hline, -, hsource⟩ := h.expected c hc
    rw [hline, hsource]

/-! ## A round is a review -/

namespace Round

variable {round : Round}

theorem links_distinct (hkeys : round.before.Integrity) (hafter : round.after.Integrity) :
    Distinct EvaluationException.exceptionId (round.after.linksOf round.evaluation.id) := by
  have hids : ((round.after.linksOf round.evaluation.id).map EvaluationException.exceptionId).Perm
      ((round.after.exceptionsOf round.receipt).map ReceivingException.id) := by
    rw [linksOf_evaluation hkeys hafter, exceptionsOf_after, List.map_append, List.map_append,
      List.map_map, List.map_map, List.map_map]
    exact ((List.mergeSort_perm _ _).map ReceivingException.id).append_right _
  exact hids.nodup_iff.mpr (hafter.exceptions.filter _)

/-- The round's evaluation is numbered above those before it. -/
theorem evaluationSeq_lt (hvalid : round.Valid) {e : Evaluation}
    (he : e ∈ round.before.evaluationsOf round.receipt) :
    e.evaluationSeq < round.evaluation.evaluationSeq := by
  have hle : e.evaluationSeq ≤ round.before.lastSequence round.receipt :=
    List.le_max?_getD_of_mem (List.mem_map_of_mem he)
  rw [hvalid.sequence]
  exact Nat.lt_succ_of_le hle

theorem reviewed_after (hvalid : round.Valid) (hkeys : round.before.Integrity)
    (hafter : round.after.Integrity) (h : round.before.Reviewed round.receipt) :
    round.after.Reviewed round.receipt where
  ascending := by
    rw [evaluationsOf_after hvalid]
    refine List.pairwise_append.mpr ⟨h.ascending, List.pairwise_singleton .., fun a ha b hb => ?_⟩
    rw [List.mem_singleton.mp hb]
    exact evaluationSeq_lt hvalid ha
  distinct e he := by
    rw [evaluationsOf_after hvalid] at he
    rcases List.mem_append.mp he with hold | hnew
    · rw [linksOf_of_mem hafter (Tenant.mem_evaluationsOf.mp hold).1]
      exact h.distinct e hold
    · rw [List.mem_singleton.mp hnew]
      exact links_distinct hkeys hafter
  newest e he o ho := by
    rw [evaluationsOf_after hvalid, List.getLast?_concat] at he
    obtain rfl := Option.some.inj he
    rw [linksOf_evaluation hkeys hafter]
    rw [exceptionsOf_after] at ho
    rcases List.mem_append.mp ho with hold | hnew
    · exact ⟨round.link o, List.mem_append_left _
        (List.mem_map_of_mem (List.mem_mergeSort.mpr hold)), rfl⟩
    · obtain ⟨key, hkey, rfl⟩ := List.mem_map.mp hnew
      exact ⟨round.openedLink key, List.mem_append_right _ (List.mem_map_of_mem hkey), rfl⟩

/-- What the round says of an observation is what the next one reads. -/
theorem priorSupport_observation (hvalid : round.Valid) (hkeys : round.before.Integrity)
    (hafter : round.after.Integrity) (h : round.before.Reviewed round.receipt)
    (ho : o ∈ round.before.exceptionsOf round.receipt) :
    Service.priorSupport round.after o.id = some (round.supports o) := by
  refine (reviewed_after hvalid hkeys hafter h).priorSupport hafter (e := round.evaluation)
    (x := round.link o) ?_ ?_ ?_ rfl
  · rw [evaluationsOf_after hvalid, List.getLast?_concat]
  · rw [exceptionsOf_after]
    exact List.mem_append_left _ ho
  · rw [linksOf_evaluation hkeys hafter]
    exact List.mem_append_left _ (List.mem_map_of_mem (List.mem_mergeSort.mpr ho))

theorem priorSupport_opened (hvalid : round.Valid) (hkeys : round.before.Integrity)
    (hafter : round.after.Integrity) (h : round.before.Reviewed round.receipt) {key : ExceptionKey}
    (hkey : key ∈ round.unclaimed) :
    Service.priorSupport round.after (round.opened key).id = some true := by
  refine (reviewed_after hvalid hkeys hafter h).priorSupport hafter (e := round.evaluation)
    (x := round.openedLink key) ?_ ?_ ?_ rfl
  · rw [evaluationsOf_after hvalid, List.getLast?_concat]
  · rw [exceptionsOf_after]
    exact List.mem_append_right _ (List.mem_map_of_mem hkey)
  · rw [linksOf_evaluation hkeys hafter]
    exact List.mem_append_right _ (List.mem_map_of_mem hkey)

/-- The observations that the round supports are those that it lets stand. -/
theorem filter_supports : (round.before.exceptionsOf round.receipt).filter round.supports =
    Standing.kept ReceivingException.key round.desired (round.before.standing round.receipt) := by
  unfold Standing.kept Tenant.standing
  rw [List.filter_filter]
  refine List.filter_congr fun o _ => ?_
  rw [supports, Bool.decide_and, Bool.and_comm]

theorem unclaimed_eq : round.unclaimed =
    Standing.missing ReceivingException.key round.desired (round.before.standing round.receipt) := by
  have hperm : (round.observations.filter round.supports).Perm
      ((round.before.exceptionsOf round.receipt).filter round.supports) :=
    (List.mergeSort_perm _ _).filter _
  refine List.filter_congr fun key _ => ?_
  rw [← filter_supports, decide_eq_decide, (hperm.map _).mem_iff]

/-- A round reviews what stands by the disagreements that it finds. -/
theorem standing_after (hvalid : round.Valid) (hkeys : round.before.Integrity)
    (hafter : round.after.Integrity) (h : round.before.Reviewed round.receipt) :
    round.after.standing round.receipt =
      Standing.review ReceivingException.key round.desired (round.before.standing round.receipt)
        round.opened := by
  rw [Tenant.standing, exceptionsOf_after, List.filter_append, Standing.review, ← filter_supports,
    ← unclaimed_eq]
  congr 1
  · refine List.filter_congr fun o ho => ?_
    rw [priorSupport_observation hvalid hkeys hafter h ho]
    cases round.supports o <;> rfl
  · refine List.filter_eq_self.mpr fun o ho => ?_
    obtain ⟨key, hkey, rfl⟩ := List.mem_map.mp ho
    simp [priorSupport_opened hvalid hkeys hafter h hkey]

/-- The round's evaluation compares the facts that are in force after it. -/
theorem evaluated_after (hkeys : round.before.Integrity) (hafter : round.after.Integrity) :
    round.after.evaluated round.evaluation.id = round.after.inForce round.receipt := by
  have hcomparators : round.after.comparators = round.comparators := by rw [after_eq]
  have hcorrections : round.after.lineCorrections = round.corrections := by rw [after_eq]
  have hexpectations := pinnedExpectations_evaluation hkeys hafter
  have hlines := pinnedLines_evaluation hkeys hafter
  unfold Tenant.pinnedExpectations at hexpectations
  unfold Tenant.pinnedLines at hlines
  unfold Tenant.evaluated Tenant.inForce Tenant.evaluatedReceiptLines
    Tenant.evaluatedReceiptExpectations
  rw [hlines, hexpectations, List.filterMap_map, List.filterMap_map, linesOf_after,
    Tenant.comparatorsOf, hcomparators, hcorrections]
  congr 1
  refine (List.filterMap_congr fun line hline => ?_).trans (congrFun List.filterMap_eq_map _)
  have hmem : line ∈ round.after.linesOf round.receipt := by rwa [linesOf_after]
  have hfound := hafter.lines.find?_eq (Tenant.mem_linesOf.mp hmem).1 rfl
  have hsource : pinnedSource round.corrections
      ((Tenant.latestCorrection round.corrections line.id).map RecordCorrection.id) =
        Tenant.latestCorrection round.corrections line.id := by
    cases hlatest : Tenant.latestCorrection round.corrections line.id with
    | none => rfl
    | some c =>
        have hc := (List.mem_filter.mp (Query.mem_of_latestBy hlatest)).1
        exact (hcorrections ▸ hafter.corrections).find?_eq hc rfl
  simp only [Function.comp_apply, Round.line, hsource]
  exact congrArg _ hfound

/-- What the round finds are the disagreements of the facts in force after it. -/
theorem desired_represents (hvalid : round.Valid) (hkeys : round.before.Integrity)
    (hafter : round.after.Integrity) (hselectable : round.after.Selectable round.receipt) :
    Snapshot.Represents round.desired (round.after.inForce round.receipt).Disagrees := by
  have hsame : round.pinned.evaluated round.evaluation.id =
      round.after.evaluated round.evaluation.id := by
    rw [after_eq]
    rfl
  rw [evaluated_after hkeys hafter] at hsame
  obtain ⟨found, hrun, hfound⟩ := disagreements_represents
    (t := round.pinned) (hsame ▸ hafter.inForce_wellFormed hselectable)
  obtain rfl : round.found = found := Except.ok.inj (hvalid.found.symm.trans hrun)
  have hdesired : round.desired = round.found :=
    Dictionary.ofRows_of_nodup (by rw [List.map_id]; exact hfound.1)
  rw [hdesired, ← hsame]
  exact hfound

/-- Hence exactly these stand. -/
theorem upheld_after (hvalid : round.Valid) (hkeys : round.before.Integrity)
    (hafter : round.after.Integrity) (h : round.before.Reviewed round.receipt)
    (hselectable : round.after.Selectable round.receipt)
    (hupheld : round.before.Upheld round.receipt) : round.after.Upheld round.receipt := by
  intro _
  have hdesired := desired_represents hvalid hkeys hafter hselectable
  rw [standing_after hvalid hkeys hafter h]
  exact hdesired.of_perm
    (Standing.keys_review hdesired.1 (hupheld hvalid.sealed).1 fun _ => rfl).symm

end Round

/-! ## Steps -/

/-- A receipt whose capture is not complete has not been corrected. -/
theorem Captured.correctionsOf (h : Captured receipt t t') (hkeys : t.Integrity) :
    t'.correctionsOf receipt = [] := by
  refine List.filter_eq_nil_iff.mpr fun c hc heq => h.opened ?_
  rw [h.uncorrected] at hc
  exact of_decide_eq_true heq ▸ hkeys.sealed c hc

/-- A capture leaves what it stored standing. -/
theorem Captured.upheld (h : Captured receipt t t') (hkeys : t.Integrity)
    (hexact : t.Exact receipt) : t'.Upheld receipt := by
  intro hclosed
  have hkeys' := Writes.integrity h.writes hkeys
  have huncorrected := h.correctionsOf hkeys
  have hstanding : t'.standing receipt =
      (t'.exceptionsOf receipt).filter (·.evaluationId = none) := by
    refine List.filter_congr fun o ho => ?_
    rw [hkeys'.priorSupport_eq_none (h.evaluationsOf hkeys) ho,
      hkeys'.evaluationId_eq_none huncorrected ho]
    rfl
  have hstored := hkeys'.derivedKeys_represents receipt
  rw [← h.exact hexact, Tenant.storedKeys, ← hstanding,
    ← hkeys'.inForce_capture huncorrected] at hstored
  exact hstored.congr fun key => or_congr_right (and_iff_right hclosed)

section

variable {posixSpace : Char → Bool}

theorem StepOn.reviewed (h : StepOn posixSpace receipt t t') (hkeys : t.Integrity)
    (hkeys' : t'.Integrity) (hreviewed : t.Reviewed receipt) : t'.Reviewed receipt := by
  cases h with
  | same hsame =>
      refine ⟨?_, fun e he => ?_, fun e he o ho => ?_⟩
      · rw [hsame.evaluations]
        exact hreviewed.ascending
      · rw [hsame.evaluations] at he
        rw [hsame.links e he]
        exact hreviewed.distinct e he
      · rw [hsame.evaluations] at he
        rw [hsame.exceptions] at ho
        rw [hsame.links e (List.mem_of_getLast? he)]
        exact hreviewed.newest e he o ho
  | captured hcaptured =>
      have hnone := hcaptured.evaluationsOf hkeys
      constructor <;> simp [hnone]
  | corrected round hspace hreceipt hbefore hvalid hafter hwrites =>
      subst hreceipt hbefore hafter
      exact Round.reviewed_after hvalid hkeys hkeys' hreviewed
  | transitioned event hmanual hafter hwrote =>
      subst hafter
      exact ⟨hreviewed.ascending, hreviewed.distinct, hreviewed.newest⟩

theorem StepOn.upheld (h : StepOn posixSpace receipt t t') (hkeys : t.Integrity)
    (hkeys' : t'.Integrity) (hexact : t.Exact receipt) (hselectable : t.Selectable receipt)
    (hreviewed : t.Reviewed receipt) (hupheld : t.Upheld receipt) : t'.Upheld receipt := by
  have hreviewed' := h.reviewed hkeys hkeys' hreviewed
  have hselectable' := h.selectable hselectable
  cases h with
  | same hsame =>
      intro hclosed
      have hstanding : t'.standing receipt = t.standing receipt := by
        unfold Tenant.standing
        rw [hsame.exceptions]
        refine List.filter_congr fun o ho => ?_
        rw [hreviewed.priorSupport_congr hreviewed' hkeys hkeys' hsame ho]
      rw [hstanding, hsame.inForce hkeys hkeys']
      exact hupheld (hsame.reconciled ▸ hclosed)
  | captured hcaptured => exact hcaptured.upheld hkeys hexact
  | corrected round hspace hreceipt hbefore hvalid hafter hwrites =>
      subst hreceipt hbefore hafter
      exact Round.upheld_after hvalid hkeys hkeys' hreviewed hselectable' hupheld
  | transitioned event hmanual hafter hwrote =>
      subst hafter
      exact hupheld

/-- What was let go never stands again. -/
theorem StepOn.retired (h : StepOn posixSpace receipt t t') (hkeys : t.Integrity)
    (hkeys' : t'.Integrity) (hreviewed : t.Reviewed receipt) (ho : o ∈ t.exceptionsOf receipt)
    (hgone : o ∉ t.standing receipt) :
    o ∈ t'.exceptionsOf receipt ∧ o ∉ t'.standing receipt := by
  have hprior : Service.priorSupport t o.id = some false := by
    by_contra hstands
    exact hgone (Tenant.mem_standing.mpr ⟨ho, hstands⟩)
  suffices hkept : o ∈ t'.exceptionsOf receipt ∧ Service.priorSupport t' o.id = some false from
    ⟨hkept.1, fun hstands => (Tenant.mem_standing.mp hstands).2 hkept.2⟩
  have hreviewed' := h.reviewed hkeys hkeys' hreviewed
  cases h with
  | same hsame =>
      refine ⟨hsame.exceptions ▸ ho, ?_⟩
      rw [hreviewed.priorSupport_congr hreviewed' hkeys hkeys' hsame ho, hprior]
  | captured hcaptured =>
      have hnone := (Captured.refl hcaptured.opened).evaluationsOf hkeys
      rw [hkeys.priorSupport_eq_none hnone ho] at hprior
      exact absurd hprior (by simp)
  | corrected round hspace hreceipt hbefore hvalid hafter hwrites =>
      subst hreceipt hbefore hafter
      refine ⟨?_, ?_⟩
      · rw [Round.exceptionsOf_after]
        exact List.mem_append_left _ ho
      · rw [Round.priorSupport_observation hvalid hkeys hkeys' hreviewed ho, Round.supports, hprior]
        simp
  | transitioned event hmanual hafter hwrote =>
      subst hafter
      exact ⟨ho, hprior⟩

end

/-! ## Runs -/

/-- What is known of a receipt's observations. -/
structure Tenant.Settled (t : Tenant) (receipt : Uuid) : Prop where
  integrity : t.Integrity
  exact : t.Exact receipt
  selectable : t.Selectable receipt
  reviewed : t.Reviewed receipt
  upheld : t.Upheld receipt
  logged : ∀ o ∈ t.exceptionsOf receipt, t.Logged o

theorem Tenant.Fresh.settled {start : Tenant} (hfresh : start.Fresh) (receipt : Uuid) :
    start.Settled receipt := by
  have hkeys := hfresh.integrity
  have hempty : ¬start.Received receipt := by
    rintro ⟨row, hrow, -⟩
    rw [hfresh.records] at hrow
    exact absurd hrow List.not_mem_nil
  have hnothing : start.correctionsOf receipt = [] ∧ start.evaluationsOf receipt = [] ∧
      start.exceptionsOf receipt = [] := by
    rw [hfresh.records]
    exact ⟨rfl, rfl, rfl⟩
  obtain ⟨hcorrections, hevaluations, hexceptions⟩ := hnothing
  obtain ⟨hopen, hexact⟩ := hkeys.exact_of_not_received hempty
  refine ⟨hkeys, hexact, ?_, ?_, fun hclosed => absurd hclosed hopen, ?_⟩
  · intro c hc
    rw [hcorrections] at hc
    exact absurd hc List.not_mem_nil
  · constructor <;> simp [hevaluations]
  · intro o ho
    rw [hexceptions] at ho
    exact absurd ho List.not_mem_nil

theorem StepOn.settled {posixSpace : Char → Bool} (hon : StepOn posixSpace receipt t t')
    (h : t.Settled receipt) (hkeys : t'.Integrity) : t'.Settled receipt :=
  ⟨hkeys, hon.exact h.integrity h.exact, hon.selectable h.selectable,
    hon.reviewed h.integrity hkeys h.reviewed,
    hon.upheld h.integrity hkeys h.exact h.selectable h.reviewed h.upheld,
    hon.logged h.integrity h.logged⟩

/-- Every request keeps it. -/
theorem Tenant.Settled.step {posixSpace : Char → Bool} {request : Context × ReceivingCall}
    (h : t.Settled receipt) (hrun : Tenant.step posixSpace request t = .ok t') :
    t'.Settled receipt := by
  obtain ⟨hkeys, hon⟩ := step_on receipt h.integrity hrun
  exact hon.settled h hkeys

theorem Tenant.Settled.run (posixSpace : Char → Bool) (h : t.Settled receipt)
    (requests : List (Context × ReceivingCall)) :
    (Machine.run (Tenant.step posixSpace) requests t).Settled receipt :=
  Machine.run_invariant (Tenant.step posixSpace) (fun t => t.Settled receipt) (fun _ => True)
    (fun _ _ _ _ hrun hbefore => hbefore.step hrun) requests t (fun _ _ => trivial) h

/-- What was let go never stands again, whatever is requested. -/
theorem Tenant.Settled.retired (posixSpace : Char → Bool) (h : t.Settled receipt)
    (requests : List (Context × ReceivingCall)) (ho : o ∈ t.exceptionsOf receipt)
    (hgone : o ∉ t.standing receipt) :
    o ∈ (Machine.run (Tenant.step posixSpace) requests t).exceptionsOf receipt ∧
      o ∉ (Machine.run (Tenant.step posixSpace) requests t).standing receipt := by
  refine (Machine.run_invariant (Tenant.step posixSpace)
    (fun t => t.Settled receipt ∧ o ∈ t.exceptionsOf receipt ∧ o ∉ t.standing receipt)
    (fun _ => True) ?_ requests t (fun _ _ => trivial) ⟨h, ho, hgone⟩).2
  intro request before after _ hrun hbefore
  obtain ⟨hsettled, hmem, hout⟩ := hbefore
  obtain ⟨hkeys, hon⟩ := step_on receipt hsettled.integrity hrun
  exact ⟨hsettled.step hrun, hon.retired hsettled.integrity hkeys hsettled.reviewed hmem hout⟩

end

end FleetOps
