import FleetOps.Foundations.Patches
import FleetOps.Receiving.NewUnits

/-!
# Records as corrections leave them

A correction states a few fields of a purchase order line or a receipt line and
stores a whole pair: the reversal repeats what was in force, the replacement is
that with the stated fields over it.  So a record's rows are the generations of
the patches that were accepted of it (`Tracks`), and what is in force of it has,
field by field, the last value that was stated.

`Amends` says what a request does to a table of corrections, `Tracked` what runs
keep of it; `recordCorrections` puts both tables together.
-/

namespace FleetOps

open Keys Machine

/-! ## Generations of one record -/

section

variable {φ β : Type} {patch : β → φ → φ} {root : Uuid} {original : φ}
  {corrections before after : List (RecordCorrection φ)} {accepted : List β}

/-- What a correction row says: its role, its generation and its fields. -/
def RecordCorrection.facts (row : RecordCorrection φ) : CorrectionRole × ℕ × φ :=
  (row.role, row.generation, row.fields)

/-- The two rows of a generation. -/
def pairOf (generation : ℕ × φ × φ) : List (CorrectionRole × ℕ × φ) :=
  [(.reversal, generation.1, generation.2.1), (.corrected, generation.1, generation.2.2)]

/-- The record's rows are the generations of what was accepted. -/
def Tracks (patch : β → φ → φ) (root : Uuid) (original : φ)
    (corrections : List (RecordCorrection φ)) (accepted : List β) : Prop :=
  (corrections.filter (·.rootId = root)).map RecordCorrection.facts =
    (Patches.generations patch 0 original accepted).flatMap pairOf

/-- What is in force of a record. -/
def inForce (corrections : List (RecordCorrection φ)) (root : Uuid) (original : φ) : φ :=
  ((Tenant.latestCorrection corrections root).map RecordCorrection.fields).getD original

/-- A pair of the next generation was appended. -/
def PairAppended (patch : β → φ → φ) (root : Uuid) (original : φ) (values : β)
    (before after : List (RecordCorrection φ)) : Prop :=
  ∃ reversal corrected : RecordCorrection φ, after = before ++ [reversal, corrected] ∧
    reversal.rootId = root ∧ corrected.rootId = root ∧
    reversal.facts = (.reversal, Tenant.generation before root + 1, inForce before root original) ∧
    corrected.facts = (.corrected, Tenant.generation before root + 1,
      patch values (inForce before root original))

/-- The newest replacement of a record with these rows. -/
theorem Tracks.latest (h : Tracks patch root original corrections accepted) :
    Tenant.generation corrections root = accepted.length ∧
      inForce corrections root original = Patches.apply patch original accepted := by
  have hfilter : corrections.filter (fun c => c.rootId = root ∧ c.role = .corrected) =
      (corrections.filter (·.rootId = root)).filter (·.role = .corrected) := by
    rw [List.filter_filter]
    refine List.filter_congr fun c _ => ?_
    rw [Bool.decide_and, Bool.and_comm]
  unfold Tracks at h
  unfold inForce Tenant.generation Tenant.latestCorrection
  rw [hfilter]
  cases accepted using List.reverseRecOn with
  | nil =>
      rw [Patches.generations_nil, List.flatMap_nil, List.map_eq_nil_iff] at h
      rw [h]
      exact ⟨rfl, rfl⟩
  | append_singleton accepted values =>
      rw [Patches.generations_concat, List.flatMap_append] at h
      obtain ⟨older, newest, hsplit, holder, hnewest⟩ := List.map_eq_append_iff.mp h
      rw [List.flatMap_singleton, pairOf] at hnewest
      obtain ⟨reversal, last, rfl, hreversal, hlast⟩ := List.map_eq_cons_iff.mp hnewest
      obtain ⟨corrected, rest, rfl, hcorrected, hrest⟩ := List.map_eq_cons_iff.mp hlast
      obtain rfl := List.map_eq_nil_iff.mp hrest
      simp only [RecordCorrection.facts, Prod.mk.injEq] at hreversal hcorrected
      obtain ⟨hrole, hgeneration, hfields⟩ := hcorrected
      have hlatest : Query.latestBy RecordCorrection.generation
          ((corrections.filter (·.rootId = root)).filter (·.role = .corrected)) =
            some corrected := by
        rw [hsplit]
        refine Query.latestBy_eq_of_forall_lt (by simp [hrole]) fun other hother hne => ?_
        obtain ⟨hmem, -⟩ := List.mem_filter.mp hother
        rcases List.mem_append.mp hmem with hold | hnew
        · -- An older row is of an older generation.
          have hfacts := List.mem_map_of_mem (f := RecordCorrection.facts) hold
          rw [holder, List.mem_flatMap] at hfacts
          obtain ⟨generation, hmember, hpair⟩ := hfacts
          have hle := Patches.number_le_of_mem hmember
          have hsame : other.generation = generation.1 := by
            simp only [pairOf, RecordCorrection.facts, List.mem_cons, List.not_mem_nil, or_false,
              Prod.mk.injEq] at hpair
            rcases hpair with ⟨-, hsame, -⟩ | ⟨-, hsame, -⟩ <;> exact hsame
          rw [hgeneration]
          omega
        · simp only [List.mem_cons, List.not_mem_nil, or_false] at hnew
          rcases hnew with rfl | rfl
          · simp [hreversal.1] at hother
          · exact absurd rfl hne
      rw [hlatest]
      simp only [Option.map_some, Option.getD_some, hgeneration, hfields, Patches.apply_concat,
        List.length_append, List.length_singleton, Nat.zero_add, and_self]

/-- The next pair of the record. -/
theorem Tracks.append {values : β} (h : Tracks patch root original before accepted)
    (hpair : PairAppended patch root original values before after) :
    Tracks patch root original after (accepted ++ [values]) := by
  obtain ⟨hgeneration, hforce⟩ := h.latest
  obtain ⟨reversal, corrected, rfl, hroot, hroot', hreversal, hcorrected⟩ := hpair
  unfold Tracks at h ⊢
  rw [List.filter_append, List.map_append, h, Patches.generations_concat, List.flatMap_append,
    List.flatMap_singleton, pairOf, List.filter_eq_self.mpr (by simp [hroot, hroot'])]
  rw [List.map_cons, List.map_cons, List.map_nil, hreversal, hcorrected, hgeneration, hforce,
    Nat.zero_add]

/-- A pair of another record. -/
theorem PairAppended.filter_other {values : β} {other : Uuid}
    (h : PairAppended patch root original values before after) (hne : other ≠ root) :
    after.filter (·.rootId = other) = before.filter (·.rootId = other) := by
  obtain ⟨reversal, corrected, rfl, hroot, hroot', -, -⟩ := h
  refine filter_append_of_forall fun c hc => ?_
  simp only [List.mem_cons, List.not_mem_nil, or_false] at hc
  rcases hc with rfl | rfl
  · exact decide_eq_false fun heq => hne (heq ▸ hroot)
  · exact decide_eq_false fun heq => hne (heq ▸ hroot')

end

/-! ## A table of corrections -/

section

variable {φ β : Type} {patch : β → φ → φ} {find find' : Uuid → Option φ}
  {before after : List (RecordCorrection φ)} {done : Uuid → List β} {next : Uuid → Option β}

/-- What a request does to a table of corrections, of which it states `next`. -/
inductive Amends (patch : β → φ → φ) (find : Uuid → Option φ) (next : Uuid → Option β)
    (before after : List (RecordCorrection φ)) : Prop
  | same (hnext : ∀ root, next root = none) (hafter : after = before)
  | pair (root : Uuid) (original : φ) (values : β) (hfind : find root = some original)
      (hnext : ∀ other, next other = if other = root then some values else none)
      (hpair : PairAppended patch root original values before after)

/-- Every record with corrections is there, and they are those that were accepted of it. -/
def Tracked (patch : β → φ → φ) (find : Uuid → Option φ) (corrections : List (RecordCorrection φ))
    (done : Uuid → List β) : Prop :=
  ∀ root, ∃ original, Tracks patch root original corrections (done root) ∧
    (done root ≠ [] → find root = some original)

/-- A record that is there has the corrections that were accepted of it. -/
theorem Tracked.tracks {corrections : List (RecordCorrection φ)} {root : Uuid} {original : φ}
    (h : Tracked patch find corrections done) (hfind : find root = some original) :
    Tracks patch root original corrections (done root) := by
  obtain ⟨record, htracks, hfound⟩ := h root
  by_cases hempty : done root = []
  · rw [hempty] at htracks ⊢
    exact htracks
  · obtain rfl := Option.some.inj ((hfound hempty).symm.trans hfind)
    exact htracks

/-- A request keeps a table whose corrected records it leaves as they are. -/
theorem Tracked.amend (h : Tracked patch find before done)
    (hkept : ∀ root original, find root = some original → done root ≠ [] ∨ next root ≠ none →
      find' root = some original)
    (hamends : Amends patch find next before after) :
    Tracked patch find' after fun root => done root ++ (next root).toList := by
  intro root
  change ∃ original, Tracks patch root original after (done root ++ (next root).toList) ∧
    (done root ++ (next root).toList ≠ [] → find' root = some original)
  cases hamends with
  | same hnext hafter =>
      subst hafter
      obtain ⟨original, htracks, hfound⟩ := h root
      refine ⟨original, ?_, fun hne => ?_⟩
      · rw [hnext, Option.toList_none, List.append_nil]
        exact htracks
      · rw [hnext, Option.toList_none, List.append_nil] at hne
        exact hkept root original (hfound hne) (.inl hne)
  | pair corrected original values hfind hnext hpair =>
      by_cases hroot : root = corrected
      · subst hroot
        have hvalues : next root = some values := by rw [hnext, if_pos rfl]
        refine ⟨original, ?_, fun _ => hkept root original hfind (.inr (by simp [hvalues]))⟩
        rw [hvalues, Option.toList_some]
        exact (h.tracks hfind).append hpair
      · obtain ⟨record, htracks, hfound⟩ := h root
        have hother : next root = none := by rw [hnext, if_neg hroot]
        refine ⟨record, ?_, fun hne => ?_⟩
        · rw [hother, Option.toList_none, List.append_nil]
          unfold Tracks
          rw [hpair.filter_other hroot]
          exact htracks
        · rw [hother, Option.toList_none, List.append_nil] at hne
          exact hkept root record (hfound hne) (.inl hne)

end

/-! ## Requests -/

/-- The correction of a receipt line that a request asks for. -/
def ReceivingCall.lineCorrection? (root : Uuid) : ReceivingCall → Option ReceiptLineCorrection
  | .correctReceiptLine _ rootId values _ => if root = rootId then some values else none
  | _ => none

/-- The correction of a purchase order line that a request asks for. -/
def ReceivingCall.orderCorrection? (root : Uuid) : ReceivingCall → Option ProcurementCorrection
  | .correctProcurement _ rootId values _ => if root = rootId then some values else none
  | _ => none

/-- The corrections of a receipt line among committed requests. -/
def acceptedLineCorrections (commits : List (Commit (Context × ReceivingCall) Tenant))
    (root : Uuid) : List ReceiptLineCorrection :=
  commits.filterMap fun commit => commit.action.2.lineCorrection? root

/-- The corrections of a purchase order line among committed requests. -/
def acceptedOrderCorrections (commits : List (Commit (Context × ReceivingCall) Tenant))
    (root : Uuid) : List ProcurementCorrection :=
  commits.filterMap fun commit => commit.action.2.orderCorrection? root

/-- A receipt line as it was captured. -/
def Tenant.capturedFields (t : Tenant) (root : Uuid) : Option LineFields :=
  (t.lines.find? (·.id = root)).map ReceiptLine.fields

/-- A purchase order line as it was issued. -/
def Tenant.issuedFields (t : Tenant) (root : Uuid) : Option PurchaseOrderFields :=
  ((t.purchaseOrderLines.find? (·.id = root)).filter fun line => t.issued line.poId).map
    PurchaseOrderLine.fields

section

variable {ctx : Context} {t t' : Tenant} {receipt : Uuid}

/-- What a request does to the records that corrections are about. -/
structure StepRecords (call : ReceivingCall) (t t' : Tenant) : Prop where
  lines : ∃ more, t'.lines = t.lines ++ more
  issued : ∀ root line, t.purchaseOrderLines.find? (·.id = root) = some line →
    t.issued line.poId →
      t'.purchaseOrderLines.find? (·.id = root) = some line ∧ t'.issued line.poId
  lineCorrections : Amends ReceiptLineCorrection.replacement t.capturedFields
    (fun root => call.lineCorrection? root) t.lineCorrections t'.lineCorrections
  orderCorrections : Amends ProcurementCorrection.replacement t.issuedFields
    (fun root => call.orderCorrection? root) t.purchaseOrderLineCorrections
    t'.purchaseOrderLineCorrections

/-- Receiving only adds lines, and leaves procurement alone. -/
theorem Wrote.records (h : Wrote receipt t t') : (∃ more, t'.lines = t.lines ++ more) ∧
    t'.purchaseOrders = t.purchaseOrders ∧ t'.purchaseOrderLines = t.purchaseOrderLines := by
  cases h with
  | @line row => exact ⟨⟨[row], rfl⟩, rfl, rfl⟩
  | _ => exact ⟨⟨[], (List.append_nil _).symm⟩, rfl, rfl⟩

theorem Writes.records (h : Writes receipt t t') : (∃ more, t'.lines = t.lines ++ more) ∧
    t'.purchaseOrders = t.purchaseOrders ∧ t'.purchaseOrderLines = t.purchaseOrderLines := by
  induction h with
  | refl => exact ⟨⟨[], (List.append_nil _).symm⟩, rfl, rfl⟩
  | tail _ hstep ih =>
      obtain ⟨⟨more, hlines⟩, horders, hrows⟩ := ih
      obtain ⟨⟨last, hlines'⟩, horders', hrows'⟩ := hstep.records
      exact ⟨⟨more ++ last, by rw [hlines', hlines, List.append_assoc]⟩, horders'.trans horders,
        hrows'.trans hrows⟩

theorem Tenant.issuedKept (horders : t'.purchaseOrders = t.purchaseOrders)
    (hrows : t'.purchaseOrderLines = t.purchaseOrderLines) : ∀ root line,
    t.purchaseOrderLines.find? (·.id = root) = some line → t.issued line.poId →
      t'.purchaseOrderLines.find? (·.id = root) = some line ∧ t'.issued line.poId := by
  intro root line hfind hissued
  unfold Tenant.issued at hissued ⊢
  rw [hrows, horders]
  exact ⟨hfind, hissued⟩

/-- A request that captures. -/
theorem Writes.stepRecords {inv : AssetTables → Prop} {call : ReceivingCall}
    (h : Writes receipt t t') (hkept : Kept inv t t')
    (hline : ∀ root, call.lineCorrection? root = none)
    (horder : ∀ root, call.orderCorrection? root = none) : StepRecords call t t' where
  lines := h.records.1
  issued := Tenant.issuedKept h.records.2.1 h.records.2.2
  lineCorrections := .same hline hkept.lineCorrections
  orderCorrections := .same horder hkept.orderCorrections

/-- The pair of `correct_receipt_line`. -/
theorem correctReceiptLine_pairAppended {root : Uuid} {values : ReceiptLineCorrection}
    {keys : ReceiptCorrectionKeys} {result : RecordCorrection LineFields × Uuid}
    (hkeys : t.Integrity)
    (h : Service.correctReceiptLine ctx receipt root values keys t = .ok (result, t')) :
    Writes receipt t t' ∧
      t'.purchaseOrderLineCorrections = t.purchaseOrderLineCorrections ∧
      ∃ original, t.capturedFields root = some original ∧
        PairAppended ReceiptLineCorrection.replacement root original values t.lineCorrections
          t'.lineCorrections := by
  obtain ⟨_, _, hwrite, -⟩ := correctReceiptLine_writes h
  obtain ⟨round, hwritten⟩ := Round.writeReceiptCorrection_eq_ok hkeys hwrite
  obtain ⟨-, -, hbefore⟩ := hwritten.inputs
  obtain ⟨hcorrected, -⟩ := hwritten.rows
  obtain ⟨original, hmem, rfl, -, hpaired⟩ := hwritten.original
  have hafter := hwritten.after_eq
  have hfields : (t.effectiveReceiptLine original).fields =
      inForce t.lineCorrections original.id original.fields :=
    Tenant.effectiveReceiptLine_fields original
  have hfound : t.capturedFields original.id = some original.fields := by
    rw [Tenant.capturedFields, hkeys.lines.find?_eq hmem rfl, Option.map_some]
  rw [round.after_eq, hbefore] at hafter
  subst hafter
  refine ⟨hwritten.writes, rfl, original.fields, hfound, round.reversal, round.corrected, ?_, ?_, ?_,
    ?_, ?_⟩
  · change round.corrections = _
    rw [← hbefore]
    rfl
  · rw [hpaired.mirror]
    exact hpaired.root
  · rw [hcorrected]
    exact hpaired.root
  · rw [hpaired.mirror, ← hfields, ← hpaired.next]
    rfl
  · rw [hcorrected, ← hfields, RecordCorrection.facts, hpaired.role, hpaired.next, hpaired.fields]

/-- The first row of a kind is the first of any narrower kind that it is of. -/
theorem find?_of_find? {ρ : Type} {p q : ρ → Bool} {rows : List ρ} {row : ρ}
    (h : rows.find? p = some row) (hq : q row = true)
    (himp : ∀ other, q other = true → p other = true) : rows.find? q = some row := by
  rw [List.find?_eq_some_iff_append] at h ⊢
  obtain ⟨-, front, back, hrows, hfront⟩ := h
  refine ⟨hq, front, back, hrows, fun other hother => ?_⟩
  have hnot := hfront other hother
  by_contra hyes
  simp only [Bool.not_eq_true, Bool.not_eq_false'] at hyes
  simp [himp other hyes] at hnot

/-- What an accepted correction of a purchase order line says, and of which line. -/
theorem insertPurchaseOrderLineCorrection_facts {row row' : RecordCorrection PurchaseOrderFields}
    (h : insertPurchaseOrderLineCorrection ctx row t = .ok (row', t')) :
    row'.facts = row.facts ∧
      row.generation = Tenant.generation t.purchaseOrderLineCorrections row.rootId + 1 ∧
      ∃ line, t.purchaseOrderLines.find? (·.id = row.rootId) = some line ∧ t.issued line.poId ∧
        line.poId = row.entityId := by
  simp only [insertPurchaseOrderLineCorrection, guardPurchaseOrderLineCorrection, bind_eq_ok,
    require_eq_ok, demand_eq_ok, pure_eq_ok, exists_unit, Prod.mk.injEq] at h
  obtain ⟨_, ⟨actor, -, line, hline, hissued, -, howner, hguard⟩, -, -, -, -, rfl, -⟩ := h
  obtain ⟨hgeneration, -, rfl⟩ := guardGeneration_eq_ok hguard
  exact ⟨rfl, hgeneration, line, hline, hissued, howner.symm⟩

/-- The pair of `correct_procurement`. -/
theorem correctProcurement_pairAppended {po root : Uuid} {values : ProcurementCorrection}
    {keys : PairKeys} {result : RecordCorrection PurchaseOrderFields}
    (h : Service.correctProcurement ctx po root values keys t = .ok (result, t')) :
    t'.lines = t.lines ∧ t'.lineCorrections = t.lineCorrections ∧
      t'.purchaseOrders = t.purchaseOrders ∧ t'.purchaseOrderLines = t.purchaseOrderLines ∧
      ∃ original, t.issuedFields root = some original ∧
        PairAppended ProcurementCorrection.replacement root original values
          t.purchaseOrderLineCorrections t'.purchaseOrderLineCorrections := by
  simp only [Service.correctProcurement, Service.pair, Service.head, Service.assetConstraints,
    bind_eq_ok, Service.translating_eq_ok, Service.execute_eq_ok, Service.fetch_eq_ok,
    Service.ensure_eq_ok, pure_eq_ok, exists_unit] at h
  obtain ⟨order, -, -, original, horiginal, -, _, ⟨-, rfl⟩, ⟨_, paired⟩,
    ⟨-, actor, -, ⟨reversal, _⟩, hreversal, hcorrected⟩, -, heq⟩ := h
  obtain ⟨rfl, rfl⟩ := Prod.mk.inj heq
  obtain ⟨hfacts, hgeneration, line, hline, hissued, howner⟩ :=
    insertPurchaseOrderLineCorrection_facts hreversal
  obtain ⟨hfacts', -⟩ := insertPurchaseOrderLineCorrection_facts hcorrected
  obtain ⟨hroot, -, -, rfl⟩ := insertPurchaseOrderLineCorrection_eq_ok hreversal
  obtain ⟨hroot', -, -, rfl⟩ := insertPurchaseOrderLineCorrection_eq_ok hcorrected
  -- The guard finds the line that the service has found.
  have hsame : line = original := by
    have hid := (key_of_find? hline).2
    have hpo := List.find?_some horiginal
    simp only [decide_eq_true_eq] at hpo howner
    have hboth : t.purchaseOrderLines.find? (fun l => l.id = root ∧ l.poId = po) = some line := by
      refine find?_of_find? hline ?_ fun other hother => ?_
      · exact decide_eq_true ⟨hid, howner.trans hpo.2⟩
      · exact decide_eq_true (of_decide_eq_true hother).1
    exact Option.some.inj (hboth.symm.trans horiginal)
  subst hsame
  refine ⟨rfl, rfl, rfl, rfl, line.fields, ?_, reversal, _, ?_, hroot, hroot', ?_, ?_⟩
  · rw [Tenant.issuedFields, hline, Option.filter_some, if_pos hissued, Option.map_some]
  · simp
  · rw [hfacts, RecordCorrection.facts]
    simp only at hgeneration ⊢
    rw [hgeneration]
    rfl
  · rw [hfacts', RecordCorrection.facts]
    simp only at hgeneration ⊢
    rw [hgeneration]
    rfl

/-- What a request does to records and their corrections. -/
theorem step_records {posixSpace : Char → Bool} {request : Context × ReceivingCall}
    (hkeys : t.Integrity) (hrun : Tenant.step posixSpace request t = .ok t') :
    StepRecords request.2 t t' := by
  have hunits : KeptByUnits fun _ => True := fun _ _ _ _ _ _ _ _ _ _ => trivial
  obtain ⟨ctx, call⟩ := request
  cases call with
  | createReceipt values keys =>
      simp only [Tenant.step, bind_eq_ok, pure_eq_ok] at hrun
      obtain ⟨⟨_, _⟩, hrun, rfl⟩ := hrun
      exact (createReceipt_eq_ok hkeys hrun).writes.stepRecords
        (createReceipt_kept hunits hkeys hrun) (fun _ => rfl) fun _ => rfl
  | addLine receiptId values keys =>
      simp only [Tenant.step, bind_eq_ok, pure_eq_ok] at hrun
      obtain ⟨⟨_, _⟩, hrun, rfl⟩ := hrun
      exact (addLine_eq_ok hkeys hrun).writes.stepRecords (addLine_kept hunits hkeys hrun)
        (fun _ => rfl) fun _ => rfl
  | receiveScan receiptId values reconcile keys =>
      simp only [Tenant.step, bind_eq_ok, pure_eq_ok] at hrun
      obtain ⟨⟨_, _⟩, hrun, rfl⟩ := hrun
      exact (receiveScan_captured hkeys hrun).writes.stepRecords
        (receiveScan_kept hunits hkeys hrun) (fun _ => rfl) fun _ => rfl
  | reconcileReceipt receiptId keys =>
      simp only [Tenant.step, bind_eq_ok, pure_eq_ok] at hrun
      obtain ⟨⟨_, _⟩, hrun, rfl⟩ := hrun
      have hkept : Kept (fun _ => True) t _ := reconcileReceipt_kept hrun
      exact (reconcileReceipt_eq_ok hkeys hrun).writes.stepRecords hkept (fun _ => rfl) fun _ => rfl
  | correctProcurement poId rootId values keys =>
      simp only [Tenant.step, bind_eq_ok, pure_eq_ok] at hrun
      obtain ⟨⟨_, _⟩, hrun, rfl⟩ := hrun
      obtain ⟨hlines, hcorrections, horders, hrows, original, hfound, hpair⟩ :=
        correctProcurement_pairAppended hrun
      exact
        { lines := ⟨[], by rw [hlines, List.append_nil]⟩
          issued := Tenant.issuedKept horders hrows
          lineCorrections := .same (fun _ => rfl) hcorrections
          orderCorrections := .pair rootId original values hfound (fun _ => rfl) hpair }
  | correctReceiptLine receiptId rootId values keys =>
      simp only [Tenant.step, bind_eq_ok, pure_eq_ok] at hrun
      obtain ⟨⟨_, _⟩, hrun, rfl⟩ := hrun
      obtain ⟨hwrites, hcorrections, original, hfound, hpair⟩ :=
        correctReceiptLine_pairAppended hkeys hrun
      obtain ⟨hlines, horders, hrows⟩ := hwrites.records
      exact
        { lines := hlines
          issued := Tenant.issuedKept horders hrows
          lineCorrections := .pair rootId original values hfound (fun _ => rfl) hpair
          orderCorrections := .same (fun _ => rfl) hcorrections }
  | transitionException exceptionId values eventId =>
      simp only [Tenant.step, bind_eq_ok, pure_eq_ok] at hrun
      obtain ⟨⟨event, _⟩, hrun, rfl⟩ := hrun
      obtain ⟨_, htransition⟩ := transitionException_eq_ok hrun
      obtain rfl := htransition.after_eq
      exact ⟨⟨[], (List.append_nil _).symm⟩, Tenant.issuedKept rfl rfl, .same (fun _ => rfl) rfl,
        .same (fun _ => rfl) rfl⟩
  | changeAsset call =>
      simp only [Tenant.step, Service.assetConstraints, bind_eq_ok, Service.translating_eq_ok,
        Service.execute_eq_ok, pure_eq_ok] at hrun
      obtain ⟨tables, -, rfl⟩ := hrun
      exact ⟨⟨[], (List.append_nil _).symm⟩, Tenant.issuedKept rfl rfl, .same (fun _ => rfl) rfl,
        .same (fun _ => rfl) rfl⟩
  | procure catalog =>
      simp only [Tenant.step, bind_eq_ok, Service.ensure_eq_ok, pure_eq_ok, exists_unit] at hrun
      obtain ⟨hadmits, rfl⟩ := hrun
      refine ⟨⟨[], (List.append_nil _).symm⟩, fun root line hfind hissued => ?_,
        .same (fun _ => rfl) rfl, .same (fun _ => rfl) rfl⟩
      obtain ⟨hmem, rfl⟩ := key_of_find? hfind
      refine ⟨hadmits.2 line hmem hissued, ?_⟩
      simp only [Tenant.issued, List.any_eq_true, Bool.and_eq_true, beq_iff_eq] at hissued
      obtain ⟨order, horder, hid, hstatus⟩ := hissued
      have hkept := hadmits.1 order horder hstatus
      simp only [List.any_eq_true, decide_eq_true_eq] at hkept
      obtain ⟨other, hother, hsame, hissued⟩ := hkept
      simp only [Tenant.issued, Tenant.withCatalog, List.any_eq_true, Bool.and_eq_true, beq_iff_eq]
      exact ⟨other, hother, hsame.trans hid, hissued⟩

/-! ## Runs -/

theorem StepRecords.captured {call : ReceivingCall} (h : StepRecords call t t') {root : Uuid}
    {original : LineFields} (hfound : t.capturedFields root = some original) :
    t'.capturedFields root = some original := by
  obtain ⟨more, hlines⟩ := h.lines
  obtain ⟨line, hline, rfl⟩ := Option.map_eq_some_iff.mp hfound
  rw [Tenant.capturedFields, hlines, find?_append_of_some hline, Option.map_some]

theorem StepRecords.issuedFields {call : ReceivingCall} (h : StepRecords call t t') {root : Uuid}
    {original : PurchaseOrderFields} (hfound : t.issuedFields root = some original) :
    t'.issuedFields root = some original := by
  obtain ⟨line, hline, rfl⟩ := Option.map_eq_some_iff.mp hfound
  obtain ⟨hline, hissued⟩ := Option.filter_eq_some_iff.mp hline
  obtain ⟨hline', hissued'⟩ := h.issued root line hline hissued
  rw [Tenant.issuedFields, hline', Option.filter_some, if_pos hissued', Option.map_some]

/-- The corrections of a state are those that were accepted on the way to it. -/
structure Tenant.Ledgered (commits : List (Commit (Context × ReceivingCall) Tenant)) (t : Tenant) :
    Prop where
  integrity : t.Integrity
  lines : Tracked ReceiptLineCorrection.replacement t.capturedFields t.lineCorrections
    (acceptedLineCorrections commits)
  orders : Tracked ProcurementCorrection.replacement t.issuedFields t.purchaseOrderLineCorrections
    (acceptedOrderCorrections commits)

theorem Tenant.Ledgered.step {posixSpace : Char → Bool}
    {commits : List (Commit (Context × ReceivingCall) Tenant)} {request : Context × ReceivingCall}
    (h : t.Ledgered commits) (hrun : Tenant.step posixSpace request t = .ok t') :
    t'.Ledgered (commits ++ [⟨t, request, t'⟩]) := by
  have hstep := step_records h.integrity hrun
  have hlines : acceptedLineCorrections (commits ++ [⟨t, request, t'⟩]) = fun root =>
      acceptedLineCorrections commits root ++ (request.2.lineCorrection? root).toList := by
    funext root
    unfold acceptedLineCorrections
    rw [List.filterMap_append]
    cases hnext : request.2.lineCorrection? root <;> simp [hnext]
  have horders : acceptedOrderCorrections (commits ++ [⟨t, request, t'⟩]) = fun root =>
      acceptedOrderCorrections commits root ++ (request.2.orderCorrection? root).toList := by
    funext root
    unfold acceptedOrderCorrections
    rw [List.filterMap_append]
    cases hnext : request.2.orderCorrection? root <;> simp [hnext]
  refine ⟨(step_on 0 h.integrity hrun).1, ?_, ?_⟩
  · rw [hlines]
    exact h.lines.amend (fun _ _ hfound _ => hstep.captured hfound) hstep.lineCorrections
  · rw [horders]
    exact h.orders.amend (fun _ _ hfound _ => hstep.issuedFields hfound) hstep.orderCorrections

theorem Tenant.Fresh.ledgered (hfresh : t.Fresh) : t.Ledgered [] := by
  refine ⟨hfresh.integrity, fun root => ?_, fun root => ?_⟩
  · refine ⟨⟨none, 0, 0, .ea, .good, none, none, false, none, none, none, none, none⟩, ?_,
      fun hne => absurd rfl hne⟩
    rw [hfresh.records]
    rfl
  · refine ⟨⟨0, 0, .ea, 0, none⟩, ?_, fun hne => absurd rfl hne⟩
    rw [hfresh.records]
    rfl

/-! ## Fields -/

/-- A receipt line has, in each correctable field, what was stated for it last, and is otherwise as
it was captured. -/
structure LineFields.LastStated (accepted : List ReceiptLineCorrection)
    (original fields : LineFields) : Prop where
  poLineId : fields.poLineId = ((accepted.filterMap (·.poLineId)).getLast?).getD original.poLineId
  itemId : fields.itemId = ((accepted.filterMap (·.itemId)).getLast?).getD original.itemId
  quantity : fields.quantity = ((accepted.filterMap (·.quantity)).getLast?).getD original.quantity
  uom : fields.uom = ((accepted.filterMap (·.uom)).getLast?).getD original.uom
  condition : fields.condition =
    ((accepted.filterMap (·.condition)).getLast?).getD original.condition
  packingQuantity : fields.packingQuantity =
    ((accepted.filterMap (·.packingQuantity)).getLast?).getD original.packingQuantity
  notes : fields.notes = ((accepted.filterMap (·.notes)).getLast?).getD original.notes
  observedIdentifierType : fields.observedIdentifierType =
    ((accepted.filterMap (·.observedIdentifierType)).getLast?).getD original.observedIdentifierType
  observedIdentifierValue : fields.observedIdentifierValue =
    ((accepted.filterMap (·.observedIdentifierValue)).getLast?).getD
      original.observedIdentifierValue
  serialized : fields.serialized = original.serialized
  ownerPartyId : fields.ownerPartyId = original.ownerPartyId
  custodianPartyId : fields.custodianPartyId = original.custodianPartyId
  assetId : fields.assetId = original.assetId

/-- A purchase order line has, in each field, what was stated for it last. -/
structure PurchaseOrderFields.LastStated (accepted : List ProcurementCorrection)
    (original fields : PurchaseOrderFields) : Prop where
  itemId : fields.itemId = ((accepted.filterMap (·.itemId)).getLast?).getD original.itemId
  quantity : fields.quantity = ((accepted.filterMap (·.quantity)).getLast?).getD original.quantity
  uom : fields.uom = ((accepted.filterMap (·.uom)).getLast?).getD original.uom
  unitPrice : fields.unitPrice =
    ((accepted.filterMap (·.unitPrice)).getLast?).getD original.unitPrice
  expectedDate : fields.expectedDate =
    ((accepted.filterMap (·.expectedDate)).getLast?).getD original.expectedDate

theorem lineFields_lastStated (accepted : List ReceiptLineCorrection) (original : LineFields) :
    LineFields.LastStated accepted original
      (Patches.apply ReceiptLineCorrection.replacement original accepted) where
  poLineId := Patches.get_apply LineFields.poLineId (·.poLineId) (fun _ _ => rfl) original accepted
  itemId := Patches.get_apply LineFields.itemId (·.itemId) (fun _ _ => rfl) original accepted
  quantity := Patches.get_apply LineFields.quantity (·.quantity) (fun _ _ => rfl) original accepted
  uom := Patches.get_apply LineFields.uom (·.uom) (fun _ _ => rfl) original accepted
  condition :=
    Patches.get_apply LineFields.condition (·.condition) (fun _ _ => rfl) original
      accepted
  packingQuantity :=
    Patches.get_apply LineFields.packingQuantity (·.packingQuantity) (fun _ _ => rfl) original
      accepted
  notes := Patches.get_apply LineFields.notes (·.notes) (fun _ _ => rfl) original accepted
  observedIdentifierType :=
    Patches.get_apply LineFields.observedIdentifierType (·.observedIdentifierType)
      (fun _ _ => rfl) original accepted
  observedIdentifierValue :=
    Patches.get_apply LineFields.observedIdentifierValue (·.observedIdentifierValue)
      (fun _ _ => rfl) original accepted
  serialized := Patches.get_apply_of_fixed ReceiptLineCorrection.replacement LineFields.serialized
    (fun _ _ => rfl) original accepted
  ownerPartyId := Patches.get_apply_of_fixed ReceiptLineCorrection.replacement
    LineFields.ownerPartyId (fun _ _ => rfl) original accepted
  custodianPartyId := Patches.get_apply_of_fixed ReceiptLineCorrection.replacement
    LineFields.custodianPartyId (fun _ _ => rfl) original accepted
  assetId := Patches.get_apply_of_fixed ReceiptLineCorrection.replacement LineFields.assetId
    (fun _ _ => rfl) original accepted

theorem purchaseOrderFields_lastStated (accepted : List ProcurementCorrection)
    (original : PurchaseOrderFields) : PurchaseOrderFields.LastStated accepted original
      (Patches.apply ProcurementCorrection.replacement original accepted) where
  itemId :=
    Patches.get_apply PurchaseOrderFields.itemId (·.itemId) (fun _ _ => rfl) original accepted
  quantity :=
    Patches.get_apply PurchaseOrderFields.quantity (·.quantity) (fun _ _ => rfl) original accepted
  uom := Patches.get_apply PurchaseOrderFields.uom (·.uom) (fun _ _ => rfl) original accepted
  unitPrice :=
    Patches.get_apply PurchaseOrderFields.unitPrice (·.unitPrice) (fun _ _ => rfl) original accepted
  expectedDate :=
    Patches.get_apply PurchaseOrderFields.expectedDate (·.expectedDate) (fun _ _ => rfl) original
      accepted

/-! ## Stale generations -/

/-- `correct_receipt_line` accepts the next generation only. -/
theorem correctReceiptLine_expected {root : Uuid} {values : ReceiptLineCorrection}
    {keys : ReceiptCorrectionKeys} {result : (RecordCorrection LineFields × Uuid) × Tenant}
    (h : Service.correctReceiptLine ctx receipt root values keys t = .ok result) :
    values.expectedGeneration = Tenant.generation t.lineCorrections root := by
  obtain ⟨result, after⟩ := result
  obtain ⟨_, _, hwrite, -⟩ := correctReceiptLine_writes h
  simp only [Service.writeReceiptCorrection, Service.head, Service.pair, bind_eq_ok,
    Service.ensure_eq_ok, pure_eq_ok, exists_unit] at hwrite
  obtain ⟨_, -, -, _, -, _, ⟨-, rfl⟩, _, ⟨hexpected, -⟩, -⟩ := hwrite
  exact hexpected

/-- So does `correct_procurement`. -/
theorem correctProcurement_expected {po root : Uuid} {values : ProcurementCorrection}
    {keys : PairKeys} {result : RecordCorrection PurchaseOrderFields × Tenant}
    (h : Service.correctProcurement ctx po root values keys t = .ok result) :
    values.expectedGeneration = Tenant.generation t.purchaseOrderLineCorrections root := by
  obtain ⟨result, after⟩ := result
  obtain ⟨_, _, _, _, hpair⟩ := correctProcurement_stages h
  obtain ⟨-, hgeneration, -⟩ := insertPurchaseOrderLineCorrection_facts hpair.reversal
  rw [hpair.generations.1, hpair.roots.1] at hgeneration
  exact Nat.succ.inj hgeneration

end

/-! ## Records as corrections leave them -/

/-- A receipt line and what was accepted of it. -/
structure LineMaterialised (t : Tenant) (line : ReceiptLine)
    (accepted : List ReceiptLineCorrection) : Prop where
  rows : Tracks ReceiptLineCorrection.replacement line.id line.fields t.lineCorrections accepted
  fields : LineFields.LastStated accepted line.fields (t.effectiveReceiptLine line).fields
  next : ∀ ctx receipt values keys result,
    Service.correctReceiptLine ctx receipt line.id values keys t = .ok result →
      values.expectedGeneration = accepted.length

/-- A purchase order line and what was accepted of it. -/
structure OrderLineMaterialised (t : Tenant) (line : PurchaseOrderLine)
    (accepted : List ProcurementCorrection) : Prop where
  rows : Tracks ProcurementCorrection.replacement line.id line.fields
    t.purchaseOrderLineCorrections accepted
  fields : PurchaseOrderFields.LastStated accepted line.fields
    (t.effectivePurchaseOrderLine line).fields
  next : ∀ ctx po values keys result,
    Service.correctProcurement ctx po line.id values keys t = .ok result →
      values.expectedGeneration = accepted.length

section

variable {t : Tenant} {commits : List (Commit (Context × ReceivingCall) Tenant)}

theorem Tenant.Ledgered.lineMaterialised (h : t.Ledgered commits) {line : ReceiptLine}
    (hline : line ∈ t.lines) :
    LineMaterialised t line (acceptedLineCorrections commits line.id) := by
  have hfound : t.capturedFields line.id = some line.fields := by
    rw [Tenant.capturedFields, h.integrity.lines.find?_eq hline rfl, Option.map_some]
  have htracks := h.lines.tracks hfound
  obtain ⟨hgeneration, hforce⟩ := htracks.latest
  refine ⟨htracks, ?_, fun ctx receipt values keys result hrun => ?_⟩
  · rw [Tenant.effectiveReceiptLine_fields]
    change LineFields.LastStated _ _ (inForce t.lineCorrections line.id line.fields)
    rw [hforce]
    exact lineFields_lastStated _ _
  · rw [correctReceiptLine_expected hrun, hgeneration]

theorem Tenant.Ledgered.orderLineMaterialised (h : t.Ledgered commits) {line : PurchaseOrderLine}
    (hfind : t.purchaseOrderLines.find? (·.id = line.id) = some line) :
    OrderLineMaterialised t line (acceptedOrderCorrections commits line.id) := by
  have htracks : Tracks ProcurementCorrection.replacement line.id line.fields
      t.purchaseOrderLineCorrections (acceptedOrderCorrections commits line.id) := by
    obtain ⟨original, htracks, hfound⟩ := h.orders line.id
    by_cases hempty : acceptedOrderCorrections commits line.id = []
    · rw [hempty] at htracks ⊢
      exact htracks
    · -- A line that was corrected has been issued, with the fields that it still has.
      obtain ⟨issued, hissued, rfl⟩ := Option.map_eq_some_iff.mp (hfound hempty)
      obtain ⟨hissued, -⟩ := Option.filter_eq_some_iff.mp hissued
      obtain rfl := Option.some.inj (hissued.symm.trans hfind)
      exact htracks
  obtain ⟨hgeneration, hforce⟩ := htracks.latest
  have hfields : (t.effectivePurchaseOrderLine line).fields =
      inForce t.purchaseOrderLineCorrections line.id line.fields := by
    unfold Tenant.effectivePurchaseOrderLine inForce
    cases Tenant.latestCorrection t.purchaseOrderLineCorrections line.id <;> rfl
  refine ⟨htracks, ?_, fun ctx po values keys result hrun => ?_⟩
  · rw [hfields, hforce]
    exact purchaseOrderFields_lastStated _ _
  · rw [correctProcurement_expected hrun, hgeneration]

end

/-- Wherever a run leads, the corrections of every receipt line and of every purchase order line are
the generations of those that were accepted of it, each with a reversal of what was in force and a
replacement; what is in force has in each field what was stated last; and a correction of any other
generation than the next is refused. -/
theorem recordCorrections (posixSpace : Char → Bool) {start : Tenant} (hfresh : start.Fresh)
    (requests : List (Context × ReceivingCall)) :
    let t := Machine.run (Tenant.step posixSpace) requests start
    let commits := Machine.commits (Tenant.step posixSpace) requests start
    (∀ line ∈ t.lines, LineMaterialised t line (acceptedLineCorrections commits line.id)) ∧
    ∀ line, t.purchaseOrderLines.find? (·.id = line.id) = some line →
      OrderLineMaterialised t line (acceptedOrderCorrections commits line.id) := by
  intro t commits
  have hledger : t.Ledgered commits := Machine.run_traced (Tenant.step posixSpace)
    (fun commits t => t.Ledgered commits) (fun _ _ _ _ hrun hbefore => hbefore.step hrun) requests
    [] start hfresh.ledgered
  exact ⟨fun line hline => hledger.lineMaterialised hline,
    fun line hline => hledger.orderLineMaterialised hline⟩

/-! ## A line that is corrected twice -/

/-- Five cables arrive; then a miscount is put right, and a note made. -/
def sampleAmendments : List (Context × ReceivingCall) :=
  let cables : LineValues :=
    { poLineId := some 21, itemId := 50, quantity := 5, uom := .ea, condition := .good
      packingQuantity := none, notes := none, unit := none }
  let delivery : ReceiptValues :=
    { vendorPartyId := 2, poId := some 20, dockLocationId := some 3, packingReference := some "P-1"
      receivedAt := .at 40, comparatorIds := [], comparatorBindings := [], lines := [cables]
      reconcile := true }
  [(sampleContext, .createReceipt delivery
      ⟨6, fun poLine => 1000 + poLine, sampleLineKeys, ⟨1600, fun poLine => 3000 + poLine⟩⟩),
    (sampleContext, .correctReceiptLine 6 1200
      { expectedGeneration := 0, reason := "Miscount", correctionOccurredAt := .at 45
        quantity := some 4 } (sampleAmendmentKeys 0)),
    (sampleContext, .correctReceiptLine 6 1200
      { expectedGeneration := 1, reason := "Noted", correctionOccurredAt := .at 46
        notes := some (some "dented") } (sampleAmendmentKeys 1))]

example : (Machine.run (Tenant.step sampleContext.posixSpace) sampleAmendments
    expectingTenant).lineCorrections.map (fun c =>
      (c.role, c.generation, c.fields.quantity, c.fields.notes)) =
      [(.reversal, 1, 5, none), (.corrected, 1, 4, none), (.reversal, 2, 4, none),
        (.corrected, 2, 4, some "dented")] := by decide +kernel

theorem recordCorrections_sample :
    let t := Machine.run (Tenant.step sampleContext.posixSpace) sampleAmendments expectingTenant
    let commits := Machine.commits (Tenant.step sampleContext.posixSpace) sampleAmendments
      expectingTenant
    (∀ line ∈ t.lines, LineMaterialised t line (acceptedLineCorrections commits line.id)) ∧
    ∀ line, t.purchaseOrderLines.find? (·.id = line.id) = some line →
      OrderLineMaterialised t line (acceptedOrderCorrections commits line.id) :=
  recordCorrections sampleContext.posixSpace expectingTenant_fresh sampleAmendments

end FleetOps
