import FleetOps.Receiving.Exactness

/-!
# The classifiers agree

Over any sources that an evaluation could pin, the service and the database find
the same disagreements (`disagreements_represents`, `view_represents`).  With
every line as it was captured these are what capture stored.
-/

namespace FleetOps

open Relation Keys

/-! ## One evaluation -/

section

variable {t : Tenant} {evaluation receipt : Uuid}

/-- The kinds that the service finds for an evaluated line. -/
def foundKinds (expectations : List EvaluatedExpectation) (line : EvaluatedLine) :
    List ExceptionType :=
  (Service.evaluatedKinds expectations line).toOption.getD []

/-- Where every selection is expected, the service classifies every line. -/
theorem evaluatedLines_eq_ok {expectations : List EvaluatedExpectation}
    {lines : List EvaluatedLine} (hselected : ∀ line ∈ lines, ∀ poLine ∈ line.poLineId,
      ∃ p ∈ expectations, p.poLineId = poLine) :
    lines.mapM (Service.evaluatedLine expectations) =
      .ok (lines.map fun line => (foundKinds expectations line).map (lineKey line)) := by
  induction lines with
  | nil => rfl
  | cons line rest ih =>
      obtain ⟨kinds, hkinds⟩ := evaluatedKinds_ok expectations line
        fun poLine hpo => by
          obtain ⟨p, hp, hid⟩ := hselected line (List.mem_cons_self ..) poLine hpo
          exact List.find?_isSome.mpr ⟨p, hp, by simp [hid]⟩
      have hline : Service.evaluatedLine expectations line =
          .ok ((foundKinds expectations line).map (lineKey line)) := by
        simp only [Service.evaluatedLine, foundKinds, hkinds]
        rfl
      rw [List.mapM_cons, hline, ih fun other hother =>
        hselected other (List.mem_cons_of_mem _ hother)]
      rfl

/-- `_disagreements` finds the disagreements of what an evaluation compares. -/
theorem disagreements_represents (hwell : (t.evaluated evaluation).WellFormed) :
    ∃ keys, Service.disagreements t evaluation = .ok keys ∧
      Snapshot.Represents keys (t.evaluated evaluation).Disagrees := by
  have hdictionary : Dictionary.ofRows EvaluatedExpectation.poLineId
      (t.evaluatedReceiptExpectations evaluation) = t.evaluatedReceiptExpectations evaluation :=
    Dictionary.ofRows_of_nodup hwell.expectations
  have hlines := evaluatedLines_eq_ok hwell.selected
  have hkinds : ∀ line ∈ (t.evaluated evaluation).lines,
      (foundKinds (t.evaluated evaluation).expectations line).Nodup ∧
        ∀ kind, kind ∈ foundKinds (t.evaluated evaluation).expectations line ↔
          (t.evaluated evaluation).LineDisagrees line kind := by
    intro line hline
    obtain ⟨kinds, hrun⟩ := evaluatedKinds_ok (t.evaluated evaluation).expectations
      line fun poLine hpo => by
        obtain ⟨p, hp, hid⟩ := hwell.selected line hline poLine hpo
        exact List.find?_isSome.mpr ⟨p, hp, by simp [hid]⟩
    obtain ⟨hnodup, hiff⟩ := evaluatedKinds_eq_ok hrun
    have hfound : foundKinds (t.evaluated evaluation).expectations line = kinds := by
      rw [foundKinds, hrun]
      rfl
    rw [hfound]
    exact ⟨hnodup, fun kind => (hiff kind).trans (Snapshot.kinds_iff hwell line kind)⟩
  refine ⟨_, ?_, Snapshot.represents_of_kinds hwell (fun line hline => (hkinds line hline).1)
    (fun line hline => (hkinds line hline).2)
    fun expected _ kind => quantityKind_iff (t.evaluated evaluation) expected kind⟩
  simp only [Service.disagreements, hdictionary]
  have hrun : (t.evaluatedReceiptLines evaluation).mapM
      (Service.evaluatedLine (t.evaluatedReceiptExpectations evaluation)) = _ := hlines
  rw [hrun]
  refine congrArg Except.ok (congrArg₂ (· ++ ·) (List.flatMap_def ..).symm ?_)
  refine List.flatMap_congr fun expected _ => ?_
  exact congrArg _ (congrArg _ (evaluatedQuantity_eq (t.evaluated evaluation) expected))

/-- So does `receipt_evaluation_disagreements`. -/
theorem view_represents (hwell : (t.evaluated evaluation).WellFormed) {e : Evaluation}
    (hevaluation : t.evaluations.filter (·.id = evaluation) = [e])
    (hlines : ∀ line ∈ (t.evaluated evaluation).lines, line.receiptId = e.receiptId) :
    ∃ keys, t.receiptEvaluationDisagreements evaluation = keys.map (e.receiptId, ·) ∧
      Snapshot.Represents keys (t.evaluated evaluation).Disagrees := by
  refine ⟨_, ?_, Snapshot.represents_of_kinds hwell
    (fun line _ => nodup_disagreementKinds line ((t.evaluated evaluation).expectedFor line))
    (fun line _ kind => (mem_disagreementKinds ..).trans (Snapshot.kinds_iff hwell ..))
    fun expected _ kind => quantityKind_iff (t.evaluated evaluation) expected kind⟩
  simp only [Tenant.receiptEvaluationDisagreements, hevaluation, List.flatMap_singleton,
    List.map_append, List.map_flatMap, List.map_map]
  refine congrArg₂ (· ++ ·) (List.flatMap_congr fun line hline => ?_) rfl
  rw [hlines line hline]
  rfl

end

/-! ## Every snapshot of a receipt -/

/-- The replacement of a line with a generation; there is none for generation 0. -/
def Tenant.replacementAt (tenant : Tenant) (root : Uuid) (generation : ℕ) :
    Option (RecordCorrection LineFields) :=
  tenant.lineCorrections.find? fun c =>
    c.rootId = root ∧ c.generation = generation ∧ c.role = .corrected

/-- The tenant with one more evaluation, which pins each line at some generation, and some of the
comparators at their own sources. -/
def Tenant.evaluating (tenant : Tenant) (e : Evaluation) (generation : Uuid → ℕ)
    (bound : List Comparator) : Tenant :=
  { tenant with
    evaluations := tenant.evaluations ++ [e]
    evaluationLines := tenant.evaluationLines ++ (tenant.linesOf e.receiptId).map fun line =>
      { id := line.id, evaluationId := e.id, rootId := line.id
        sourceGeneration := generation line.id
        sourceId := (tenant.replacementAt line.id (generation line.id)).map RecordCorrection.id
        actorId := e.actorId, occurredAt := e.occurredAt, recordedAt := e.recordedAt }
    evaluationExpectations := tenant.evaluationExpectations ++ bound.map fun b =>
      { id := b.id, evaluationId := e.id, rootId := b.poLineId
        sourceGeneration := b.sourceGeneration, sourceId := b.sourceId
        actorId := e.actorId, occurredAt := e.occurredAt, recordedAt := e.recordedAt } }

/-- What the lines select at these generations is bound. -/
def Tenant.Selects (tenant : Tenant) (receipt : Uuid) (generation : Uuid → ℕ)
    (bound : List Comparator) : Prop :=
  ∀ line ∈ tenant.linesOf receipt,
    ∀ poLine ∈ (tenant.lineAt line (tenant.replacementAt line.id (generation line.id))).poLineId,
      ∃ b ∈ bound, b.poLineId = poLine

section

variable {t t' : Tenant} {e : Evaluation} {generation : Uuid → ℕ} {bound : List Comparator}
  {receipt : Uuid}

theorem replacementAt_mem {root : Uuid} {n : ℕ} {c : RecordCorrection LineFields}
    (h : t.replacementAt root n = some c) :
    c ∈ t.lineCorrections ∧ c.rootId = root ∧ c.generation = n ∧ c.role = .corrected := by
  have hfields := List.find?_some h
  simp only [decide_eq_true_eq] at hfields
  exact ⟨List.mem_of_find?_eq_some h, hfields⟩

/-- The snapshot that a new evaluation compares. -/
theorem evaluated_evaluating (hkeys : t.Integrity) (hnew : ∀ other ∈ t.evaluations, other.id ≠ e.id) :
    (t.evaluating e generation bound).evaluated e.id =
      { lines := (t.linesOf e.receiptId).map fun line =>
          t.lineAt line (t.replacementAt line.id (generation line.id))
        expectations := bound.filterMap fun b =>
          (t.purchaseOrderLines.find? (·.id = b.poLineId)).map fun line =>
            Tenant.expectationAt line (pinnedSource t.purchaseOrderLineCorrections b.sourceId) } := by
  have hlines : t.evaluationLines.filter (·.evaluationId = e.id) = [] :=
    List.filter_eq_nil_iff.mpr fun s hs => by
      obtain ⟨other, hother, hid⟩ := hkeys.pinnedLine s hs
      simpa [← hid] using hnew other hother
  have hexpectations : t.evaluationExpectations.filter (·.evaluationId = e.id) = [] :=
    List.filter_eq_nil_iff.mpr fun s hs => by
      obtain ⟨other, hother, hid⟩ := hkeys.pinnedExpectation s hs
      simpa [← hid] using hnew other hother
  simp only [Tenant.evaluated, Tenant.evaluatedReceiptLines, Tenant.evaluatedReceiptExpectations,
    Tenant.evaluating, List.filter_append, hlines, hexpectations, List.nil_append,
    List.filter_map, Function.comp_def, decide_true, List.filter_true, List.filterMap_map]
  congr 1
  refine (List.filterMap_congr fun line hline => ?_).trans (congrFun List.filterMap_eq_map _)
  have hfound := hkeys.lines.find?_eq (Tenant.mem_linesOf.mp hline).1 rfl
  have hsource : pinnedSource t.lineCorrections
      ((t.replacementAt line.id (generation line.id)).map RecordCorrection.id) =
        t.replacementAt line.id (generation line.id) := by
    cases hreplacement : t.replacementAt line.id (generation line.id) with
    | none => rfl
    | some c => exact hkeys.corrections.find?_eq (replacementAt_mem hreplacement).1 rfl
  simp only [hfound, Option.map_some, hsource]
  rfl

/-- Its lines and expectations have their keys. -/
theorem evaluating_wellFormed (hkeys : t.Integrity)
    (hnew : ∀ other ∈ t.evaluations, other.id ≠ e.id)
    (hbound : bound.Sublist (t.comparatorsOf e.receiptId))
    (hselects : t.Selects e.receiptId generation bound) :
    ((t.evaluating e generation bound).evaluated e.id).WellFormed := by
  rw [evaluated_evaluating hkeys hnew]
  have hexists : ∀ b ∈ bound, ∃ line, t.purchaseOrderLines.find? (·.id = b.poLineId) = some line ∧
      line.id = b.poLineId := fun b hb => by
    obtain ⟨line, hfound, -⟩ := hkeys.bound b (Tenant.mem_comparatorsOf.mp (hbound.subset hb)).1
    exact ⟨line, hfound, (key_of_find? hfound).2⟩
  constructor
  · simp only [List.map_map]
    exact hkeys.lines.filter (·.receiptId = e.receiptId)
  · have hroots : (bound.filterMap fun b => (t.purchaseOrderLines.find? (·.id = b.poLineId)).map
        fun line => Tenant.expectationAt line
          (pinnedSource t.purchaseOrderLineCorrections b.sourceId)).map
            EvaluatedExpectation.poLineId = bound.map Comparator.poLineId := by
      rw [List.map_filterMap, ← List.filterMap_eq_map]
      refine List.filterMap_congr fun b hb => ?_
      obtain ⟨line, hfound, hid⟩ := hexists b hb
      simp [hfound, Tenant.expectationAt, hid]
    have hall := hkeys.distinct_poLine e.receiptId fun _ => true
    rw [List.filter_true] at hall
    rw [hroots]
    exact hall.sublist (hbound.map _)
  · simp only [List.mem_map]
    rintro _ ⟨line, hline, rfl⟩ poLine hpo
    obtain ⟨b, hb, rfl⟩ := hselects line hline poLine hpo
    obtain ⟨original, hfound, hid⟩ := hexists b hb
    exact ⟨_, List.mem_filterMap.mpr ⟨b, hb, by rw [hfound]; rfl⟩, hid⟩

/-- The capture is the snapshot with every line at generation 0. -/
theorem evaluated_capture (hkeys : t.Integrity)
    (hnew : ∀ other ∈ t.evaluations, other.id ≠ e.id) :
    (t.evaluating e (fun _ => 0) (t.captureComparators e.receiptId)).evaluated e.id =
      t.capture e.receiptId := by
  rw [evaluated_evaluating hkeys hnew, Tenant.capture]
  congr 1
  refine List.map_congr_left fun line _ => ?_
  have hnone : t.replacementAt line.id 0 = none := by
    refine List.find?_eq_none.mpr fun c hc => ?_
    simpa using fun _ hzero => absurd hzero (hkeys.positive c hc).ne'
  rw [hnone]

/-! ## Runs -/

/-- What a replacement selects is bound to the receipt. -/
def Tenant.Selectable (tenant : Tenant) (receipt : Uuid) : Prop :=
  ∀ c ∈ tenant.correctionsOf receipt, c.role = .corrected →
    ∀ poLine ∈ c.fields.poLineId, ∃ b ∈ tenant.comparatorsOf receipt, b.poLineId = poLine

theorem StepOn.selectable {posixSpace : Char → Bool} (h : StepOn posixSpace receipt t t')
    (hbound : t.Selectable receipt) : t'.Selectable receipt := by
  intro c hc hrole poLine hpo
  cases h with
  | same hsame =>
      rw [hsame.corrections] at hc
      rw [hsame.comparators]
      exact hbound c hc hrole poLine hpo
  | captured hcaptured =>
      simp only [Tenant.correctionsOf, hcaptured.uncorrected] at hc
      obtain ⟨b, hb, hid⟩ := hbound c hc hrole poLine hpo
      obtain ⟨hmem, howner⟩ := Tenant.mem_comparatorsOf.mp hb
      exact ⟨b, Tenant.mem_comparatorsOf.mpr
        ⟨Writes.mem_comparators hcaptured.writes hmem, howner⟩, hid⟩
  | corrected round hspace hreceipt hbefore hvalid hafter hwrites =>
      subst hreceipt hbefore hafter
      rw [Round.after_eq] at hc ⊢
      obtain ⟨hmem, hentity⟩ := Tenant.mem_correctionsOf.mp hc
      rcases List.mem_append.mp hmem with hold | hnew
      · obtain ⟨b, hb, hid⟩ := hbound c (Tenant.mem_correctionsOf.mpr ⟨hold, hentity⟩) hrole poLine
          hpo
        obtain ⟨hmem, howner⟩ := Tenant.mem_comparatorsOf.mp hb
        exact ⟨b, Tenant.mem_comparatorsOf.mpr ⟨List.mem_append_left _ hmem, howner⟩, hid⟩
      · rcases List.mem_pair.mp hnew with rfl | rfl
        · exact absurd (hvalid.reversal.1.symm.trans hrole) (by decide)
        · obtain ⟨b, hb, howner, hid⟩ := hvalid.selected poLine hpo
          exact ⟨b, Tenant.mem_comparatorsOf.mpr ⟨hb, howner⟩, hid⟩
  | transitioned event hmanual hafter hwrote =>
      subst hafter
      exact hbound c hc hrole poLine hpo

/-- Whatever the generations, what the lines select is bound. -/
theorem Tenant.Selectable.selects (hbound : t.Selectable receipt) (hkeys : t.Integrity) :
    t.Selects receipt generation (t.comparatorsOf receipt) := by
  intro line hline poLine hpo
  obtain ⟨hmem, hreceipt⟩ := Tenant.mem_linesOf.mp hline
  cases hreplacement : t.replacementAt line.id (generation line.id) with
  | none =>
      rw [hreplacement] at hpo
      obtain ⟨b, hb, howner, hid, -⟩ := hkeys.selected line hmem poLine hpo
      exact ⟨b, Tenant.mem_comparatorsOf.mpr ⟨hb, howner.trans hreceipt⟩, hid⟩
  | some c =>
      rw [hreplacement] at hpo
      obtain ⟨hc, hroot, -, hrole⟩ := replacementAt_mem hreplacement
      obtain ⟨root, hrootMem, hid, howner⟩ := hkeys.correctionLine c hc
      obtain rfl := hkeys.lines.eq hrootMem hmem (hid.trans hroot)
      exact hbound c (Tenant.mem_correctionsOf.mpr ⟨hc, howner.symm.trans hreceipt⟩) hrole poLine hpo

/-- At generation 0 what the lines select was bound by the capture. -/
theorem Tenant.Integrity.selects_capture (hkeys : t.Integrity) :
    t.Selects receipt (fun _ => 0) (t.captureComparators receipt) := by
  intro line hline poLine hpo
  obtain ⟨hmem, hreceipt⟩ := Tenant.mem_linesOf.mp hline
  have hnone : t.replacementAt line.id 0 = none := by
    refine List.find?_eq_none.mpr fun c hc => ?_
    simpa using fun _ hzero => absurd hzero (hkeys.positive c hc).ne'
  rw [hnone] at hpo
  obtain ⟨b, hb, howner, hid, hintroduced⟩ := hkeys.selected line hmem poLine hpo
  exact ⟨b, List.mem_filter.mpr ⟨Tenant.mem_comparatorsOf.mpr ⟨hb, howner.trans hreceipt⟩,
    decide_eq_true hintroduced⟩, hid⟩

/-- The service and the database find the same keys for an evaluation, each once. -/
def Tenant.Agrees (tenant : Tenant) (evaluation receipt : Uuid) (keys : List ExceptionKey) : Prop :=
  Service.disagreements tenant evaluation = .ok keys ∧ keys.Nodup ∧
    (tenant.receiptEvaluationDisagreements evaluation).Perm (keys.map (receipt, ·))

/-- Over any sources of a receipt's lines and comparators the two agree. -/
theorem evaluating_agrees (hkeys : t.Integrity) (hnew : ∀ other ∈ t.evaluations, other.id ≠ e.id)
    (hbound : bound.Sublist (t.comparatorsOf e.receiptId))
    (hselects : t.Selects e.receiptId generation bound) :
    ∃ keys, (t.evaluating e generation bound).Agrees e.id e.receiptId keys ∧
      Snapshot.Represents keys ((t.evaluating e generation bound).evaluated e.id).Disagrees := by
  have hwell := evaluating_wellFormed hkeys hnew hbound hselects
  obtain ⟨keys, hrun, hkeyed⟩ := disagreements_represents hwell
  have hevaluation : (t.evaluating e generation bound).evaluations.filter (·.id = e.id) = [e] := by
    have hnone : t.evaluations.filter (·.id = e.id) = [] :=
      List.filter_eq_nil_iff.mpr fun other hother => by simpa using hnew other hother
    simp [Tenant.evaluating, List.filter_append, hnone]
  have hlines : ∀ line ∈ ((t.evaluating e generation bound).evaluated e.id).lines,
      line.receiptId = e.receiptId := by
    rw [evaluated_evaluating hkeys hnew]
    simp only [List.mem_map]
    rintro _ ⟨line, hline, rfl⟩
    exact (Tenant.mem_linesOf.mp hline).2
  obtain ⟨viewed, hview, hviewed⟩ := view_represents hwell hevaluation hlines
  refine ⟨keys, ⟨hrun, hkeyed.1, ?_⟩, hkeyed⟩
  rw [hview]
  exact (hviewed.perm hkeyed).map _

/-- In every state that a run of requests reaches, the two classifiers of an evaluation agree on
every snapshot of a receipt, with every line at any generation and any of the receipt's comparators
among which the lines select; all its comparators are such.  On the lines as they were captured,
with the comparators that capture bound, they find what capture stored. -/
theorem classifiersAgree (posixSpace : Char → Bool) {start : Tenant} (hfresh : start.Fresh)
    (requests : List (Context × ReceivingCall)) :
    let t := Machine.run (Tenant.step posixSpace) requests start
    ∀ e : Evaluation, (∀ other ∈ t.evaluations, other.id ≠ e.id) →
      (∀ generation bound, bound.Sublist (t.comparatorsOf e.receiptId) →
        t.Selects e.receiptId generation bound →
          ∃ keys, (t.evaluating e generation bound).Agrees e.id e.receiptId keys) ∧
      (∀ generation, t.Selects e.receiptId generation (t.comparatorsOf e.receiptId)) ∧
      (t.reconciled e.receiptId →
        ∃ keys, (t.evaluating e (fun _ => 0) (t.captureComparators e.receiptId)).Agrees
          e.id e.receiptId keys ∧ keys.Perm (t.storedKeys e.receiptId)) := by
  intro t e hnew
  have hstart := hfresh.integrity
  have hempty : ¬start.Received e.receiptId := by
    rintro ⟨row, hrow, -⟩
    rw [hfresh.records] at hrow
    exact absurd hrow List.not_mem_nil
  have huncorrected : start.Selectable e.receiptId := by
    intro c hc
    rw [hfresh.records] at hc
    exact absurd (List.mem_filter.mp hc).1 List.not_mem_nil
  obtain ⟨hkeys, hexact, hbound⟩ := run_receipt posixSpace
    (fun s => s.Exact e.receiptId ∧ s.Selectable e.receiptId)
    (fun _ _ hbefore hon hinv => ⟨hon.exact hbefore hinv.1, hon.selectable hinv.2⟩) hstart
    ⟨(hstart.exact_of_not_received hempty).2, huncorrected⟩ requests
  refine ⟨fun generation bound hsublist hselects => ?_, fun generation => hbound.selects hkeys,
    fun hclosed => ?_⟩
  · obtain ⟨keys, hagrees, -⟩ := evaluating_agrees hkeys hnew hsublist hselects
    exact ⟨keys, hagrees⟩
  · have hcapture : (t.captureComparators e.receiptId).Sublist (t.comparatorsOf e.receiptId) :=
      List.filter_sublist
    obtain ⟨keys, hagrees, hkeyed⟩ :=
      evaluating_agrees hkeys hnew hcapture hkeys.selects_capture
    refine ⟨keys, hagrees, hkeyed.perm ?_⟩
    rw [evaluated_capture hkeys hnew]
    have hstored := hkeys.derivedKeys_represents e.receiptId
    rw [← hexact] at hstored
    exact hstored.congr fun key => or_congr_right (and_iff_right hclosed)

theorem classifiersAgree_sample :
    let t := Machine.run (Tenant.step sampleContext.posixSpace) sampleDeliveries expectingTenant
    ∀ e : Evaluation, (∀ other ∈ t.evaluations, other.id ≠ e.id) →
      (∀ generation bound, bound.Sublist (t.comparatorsOf e.receiptId) →
        t.Selects e.receiptId generation bound →
          ∃ keys, (t.evaluating e generation bound).Agrees e.id e.receiptId keys) ∧
      (∀ generation, t.Selects e.receiptId generation (t.comparatorsOf e.receiptId)) ∧
      (t.reconciled e.receiptId →
        ∃ keys, (t.evaluating e (fun _ => 0) (t.captureComparators e.receiptId)).Agrees
          e.id e.receiptId keys ∧ keys.Perm (t.storedKeys e.receiptId)) :=
  classifiersAgree sampleContext.posixSpace expectingTenant_fresh sampleDeliveries

end

end FleetOps
