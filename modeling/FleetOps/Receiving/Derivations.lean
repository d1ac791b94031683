import FleetOps.Receiving.Classifiers

/-!
# The database's own derivations

The database derives a receipt's exceptions again: when they are inserted
(`enforce_receiving_exception`), and when the transaction commits
(`enforce_receiving_completeness`).  `Blamed` is a request's failure because of
either; what the service derives at capture is never blamed.
-/

namespace FleetOps

open Relation Keys Fallible

/-! ## The derivations of the database -/

/-- The messages of `enforce_receiving_exception` and `enforce_receiving_completeness`. -/
def derivationMessages : List String :=
  ["Correction observation unsupported", "Quantity requires completed capture",
    "Invalid aggregate comparator", "Exception relationships disagree",
    "Exception is not supported by receipt facts", "Required line Exception missing",
    "Required quantity Exception missing"]

/-- The error is one of theirs. -/
def Blames (error : SqlError) : Prop := error.message ∈ derivationMessages

/-- A request failed because of them. -/
def Blamed (failure : Failure) : Prop := ∃ error, failure.cause = some error ∧ Blames error

section

variable {α : Type} {bad : SqlError → Prop} {state : SqlState} {message : String}

@[simp] theorem avoids_require {condition : Prop} [Decidable condition] :
    Avoids bad (require condition state message) ↔ (¬condition → ¬bad ⟨state, message⟩) := by
  by_cases h : condition <;> simp [require, raise, Avoids, h]

@[simp] theorem avoids_demand {value : Option α} :
    Avoids bad (demand value state message) ↔ (value = none → ¬bad ⟨state, message⟩) := by
  cases value <;> simp [demand, raise, Avoids]

@[simp] theorem avoids_ok {value : α} : Avoids bad (.ok value : Sql α) := Avoids.ok

@[simp] theorem avoids_pure {value : α} : Avoids bad (pure value : Sql α) := Avoids.pure

theorem avoids_execute {statement : Sql α} (h : Avoids Blames statement) :
    Avoids Blamed (Service.execute statement) := by
  rintro reason hrun ⟨error, hcause, hblames⟩
  cases statement with
  | ok value => exact nomatch hrun
  | error raised =>
      obtain rfl := Except.error.inj hrun
      exact h raised rfl (Option.some.inj hcause ▸ hblames)

@[simp] theorem avoids_ensure {condition : Prop} [Decidable condition] {kind : FailureKind} :
    Avoids Blamed (Service.ensure condition kind message) := by
  rintro reason hrun ⟨error, hcause, -⟩
  unfold Service.ensure at hrun
  split at hrun
  · exact nomatch hrun
  · obtain rfl := Except.error.inj hrun
    exact nomatch hcause

@[simp] theorem avoids_fetch {value : Option α} {kind : FailureKind} :
    Avoids Blamed (Service.fetch value kind message) := by
  rintro reason hrun ⟨error, hcause, -⟩
  cases value with
  | some value => exact nomatch hrun
  | none =>
      obtain rfl := Except.error.inj hrun
      exact nomatch hcause

/-- A translated error keeps its cause. -/
theorem avoids_translating {translate : SqlState → Option (FailureKind × String)}
    {body : Service α} (h : Avoids Blamed body) :
    Avoids Blamed (Service.translating translate body) := by
  rintro reason hrun ⟨error, hcause, hblames⟩
  unfold Service.translating at hrun
  split at hrun
  · split at hrun <;>
    · obtain rfl := Except.error.inj hrun
      exact h _ rfl ⟨error, hcause, hblames⟩
  · exact h _ hrun ⟨error, hcause, hblames⟩

end

/-! ## Statements with messages of their own -/

section

variable {ctx : Context} {t : Tenant}

theorem avoids_actor : Avoids Blames (currentAuthenticatedActor ctx.session) := by
  simp [currentAuthenticatedActor, Avoids.bind_iff, Blames, derivationMessages]

theorem avoids_creator {performer : Uuid} :
    Avoids Blames (enforceAuthenticatedCreator ctx.session performer) := by
  simp [enforceAuthenticatedCreator, Avoids.bind_iff, avoids_actor, Blames, derivationMessages]

theorem avoids_lock {org receipt : Uuid} :
    Avoids Blames (lockReceivingContext ctx t org receipt) := by
  simp [lockReceivingContext, receivingGate, Avoids.bind_iff, Blames, derivationMessages]

theorem avoids_admitComparator {receipt : Receipt} {poLine : Uuid} :
    Avoids Blames (admitComparator t receipt poLine) := by
  simp [admitComparator, Avoids.bind_iff, Blames, derivationMessages]

theorem avoids_insertReceipt {row : Receipt} : Avoids Blames (insertReceipt ctx row t) := by
  cases hpo : row.poId <;>
    simp [insertReceipt, guardReceipt, receivingGate, hpo, Avoids.bind_iff, Avoids.map_iff,
      avoids_creator, Blames, derivationMessages]

theorem avoids_insertComparator {row : Comparator} : Avoids Blames (insertComparator ctx row t) := by
  simp [insertComparator, guardComparator, receivingGate, Avoids.bind_iff, Avoids.map_iff,
    avoids_lock, avoids_admitComparator, avoids_creator, Blames, derivationMessages]

theorem avoids_insertReconciliation {row : Reconciliation} :
    Avoids Blames (insertReconciliation ctx row t) := by
  simp [insertReconciliation, guardReconciliation, receivingGate, Avoids.bind_iff, Avoids.map_iff,
    avoids_lock, avoids_creator, Blames, derivationMessages]

theorem avoids_insertLine {row : ReceiptLine} : Avoids Blames (insertLine ctx row t) := by
  cases hpo : row.fields.poLineId <;>
    simp [insertLine, guardLine, receivingGate, hpo, Avoids.bind_iff, Avoids.map_iff, avoids_lock,
      avoids_admitComparator, avoids_creator, Blames, derivationMessages]

theorem avoids_insertHistory {row : HistoryRow (Fact .transition)} {tables : AssetTables} :
    Avoids Blames (insertHistory ctx .transition row tables) := by
  simp [insertHistory, guardAssetEvidence, Avoids.bind_iff, Avoids.map_iff, avoids_creator, Blames,
    derivationMessages]

theorem avoids_createReceivedUnit {args : UnitArgs} :
    Avoids Blames (createReceivedUnit ctx args t) := by
  simp [createReceivedUnit, insertReceivedAsset, insertAsset, insertInitialFacts,
    insertInitialAssignment, insertIdentifier, trustedOrganization, Avoids.bind_iff,
    avoids_actor, avoids_lock, avoids_creator, avoids_insertHistory,
    avoids_insertLine, Blames, derivationMessages]

theorem avoids_guardException {row : ReceivingException} :
    Avoids Blames (guardException ctx t row) := by
  cases hevaluation : row.evaluationId <;>
    simp [guardException, receivingGate, hevaluation, Avoids.bind_iff, Avoids.map_iff, avoids_lock,
      avoids_actor, Blames, derivationMessages]

/-- Only its derivation blames an exception's insert. -/
theorem avoids_insertException {row : ReceivingException}
    (h : ∀ row', guardException ctx t row = .ok row' → enforceReceivingException t row' = .ok ()) :
    Avoids Blames (insertException ctx row t) := by
  rw [insertException, Avoids.bind_iff]
  refine ⟨avoids_guardException, fun row' hguard => ?_⟩
  rw [h row' hguard]
  simp [Avoids.bind_iff, Avoids.map_iff, avoids_creator, Blames, derivationMessages]

/-! ## The derivation of a line's exception -/

/-- A stored line selects nothing, or a line that exists. -/
theorem Tenant.Integrity.selection_eq_none (hkeys : t.Integrity) {line : ReceiptLine}
    (hline : line ∈ t.lines) :
    t.selection line.fields.poLineId = none ↔ (t.lineAt line none).poLineId = none := by
  cases hpo : line.fields.poLineId with
  | none => simp [Tenant.selection, Tenant.lineAt, hpo]
  | some poLine =>
      obtain ⟨c, hc, -, rfl, -⟩ := hkeys.selected line hline poLine hpo
      obtain ⟨effective, heffective, -⟩ := hkeys.expectationAt_eq hc
      simp [Tenant.selection, Tenant.lineAt, hpo, heffective]

theorem Tenant.Integrity.mem_capturedKinds (hkeys : t.Integrity) {line : ReceiptLine}
    (hline : line ∈ t.lines) {kind : ExceptionType} :
    kind ∈ t.capturedKinds line ↔ Snapshot.Kinds (t.lineAt line none)
      ((t.selection line.fields.poLineId).map (expectationOf 0)) kind :=
  mem_lineKinds (hkeys.selection_eq_none hline) rfl rfl rfl rfl rfl rfl rfl kind

/-- A line that conflicts with an Asset is a serialized one that created none. -/
theorem conflict_of_checks {line : ReceiptLine} (hchecks : lineChecks line.fields)
    {asset : Uuid} (hconflict : t.conflictOf line.fields = some asset) :
    line.fields.serialized = true ∧ line.fields.assetId = none ∧
      ∃ type value, line.fields.observedIdentifierType = some type ∧
        line.fields.observedIdentifierValue = some value ∧
        t.identifierOwner type value = some asset := by
  unfold Tenant.conflictOf at hconflict
  split at hconflict
  · rename_i type value htype hvalue
    refine ⟨?_, ?_, type, value, htype, hvalue, hconflict⟩
    all_goals
      simp only [lineChecks, hvalue, Bool.and_eq_true, Bool.or_eq_true] at hchecks
      simp_all
  · exact nomatch hconflict

/-- A kind that is found for a line is a predicate of the trigger. -/
theorem lineSupports_of_mem (hkeys : t.Integrity) {line : ReceiptLine} (hline : line ∈ t.lines)
    (hchecks : lineChecks line.fields) {kind : ExceptionType}
    (hkind : kind ∈ t.capturedKinds line) {row : ReceivingException}
    (hkey : row.key = Service.lineKey line (t.conflictOf line.fields) kind) :
    lineSupports t line row = true := by
  have hfact := (hkeys.mem_capturedKinds hline).mp hkind
  have htype : row.key.exceptionType = kind := hkey ▸ rfl
  unfold lineSupports
  rw [htype]
  cases kind with
  | substitution | uomMismatch =>
      obtain ⟨p, hp, hne⟩ := hfact
      obtain ⟨fields, hfields, rfl⟩ := Option.map_eq_some_iff.mp (Option.mem_def.mp hp)
      obtain ⟨effective, heffective, rfl⟩ := Option.map_eq_some_iff.mp hfields
      simp only [heffective, Option.any_some, bne_iff_ne]
      exact hne
  | unexpectedItem => exact Option.isNone_iff_eq_none.mpr hfact
  | damaged | opened => exact beq_iff_eq.mpr hfact
  | quantityVariance =>
      obtain ⟨counted, hcounted, hne⟩ := hfact
      have hpacking : line.fields.packingQuantity = some counted := hcounted
      simp only [hpacking, Option.any_some, bne_iff_ne]
      exact hne
  | serialUnreadable =>
      have hunreadable : t.unreadable line.fields.assetId = true := hfact
      simp only [Bool.and_eq_true, hunreadable, and_true]
      simp only [Tenant.unreadable, List.any_eq_true, Bool.and_eq_true, beq_iff_eq] at hunreadable
      obtain ⟨i, -, ⟨hasset, -⟩, -⟩ := hunreadable
      rw [← hasset]
      rfl
  | serialMismatch =>
      obtain ⟨asset, hasset⟩ := Option.ne_none_iff_exists'.mp hfact
      obtain ⟨hserialized, hnone, type, value, htype, hvalue, howner⟩ :=
        conflict_of_checks hchecks hasset
      obtain ⟨i, hi, rfl⟩ := Option.map_eq_some_iff.mp howner
      have hmem := List.mem_of_find?_eq_some hi
      have hfound := List.find?_some hi
      simp only [decide_eq_true_eq] at hfound
      have hconflicting : row.key.conflictingAssetId = some i.assetId := by
        rw [hkey]
        exact hasset
      simp only [hserialized, hnone, hconflicting, htype, hvalue, Option.isNone_none, Bool.true_and]
      refine List.any_eq_true.mpr ⟨i, hmem, ?_⟩
      simp [hfound.1, hfound.2]
  | short => exact hfact.elim
  | _ => exact hfact.elim

/-- The trigger on exceptions admits what capture finds for a line. -/
theorem enforce_of_captured (hkeys : t.Integrity) {line : ReceiptLine} (hline : line ∈ t.lines)
    (hchecks : lineChecks line.fields) {kind : ExceptionType} (hkind : kind ∈ t.capturedKinds line)
    {row : ReceivingException} (hreceipt : row.receiptId = line.receiptId)
    (hevaluation : row.evaluationId = none)
    (hkey : row.key = Service.lineKey line (t.conflictOf line.fields) kind) :
    enforceReceivingException t row = .ok () := by
  have hfound : t.lines.find? (fun l => l.id = line.id ∧ l.receiptId = row.receiptId) =
      some line :=
    hkeys.lines.find?_of_imp hline (by simp [hreceipt]) (by simp +contextual)
  have hasset : (Service.lineKey line (t.conflictOf line.fields) kind).assetId.isSome →
      (Service.lineKey line (t.conflictOf line.fields) kind).assetId = line.fields.assetId := by
    simp only [Service.lineKey]
    split <;> simp
  have hlineId : row.key.receiptLineId = some line.id := hkey ▸ rfl
  have hpo : line.fields.poLineId = row.key.poLineId := hkey ▸ rfl
  simp only [enforceReceivingException, hevaluation, hlineId, lineSupported, hfound, bind_eq_ok,
    demand_eq_ok, require_eq_ok, pure_eq_ok]
  exact ⟨_, ⟨line, rfl, (), ⟨hpo, hkey ▸ hasset⟩, rfl⟩,
    lineSupports_of_mem hkeys hline hchecks hkind hkey⟩

/-! ## The service's calls -/

variable {header : Receipt}

theorem avoids_header {receipt : Uuid} : Avoids Blamed (Service.header ctx t receipt) := by
  simp [Service.header]

theorem avoids_getReceipt {receipt : Uuid} : Avoids Blamed (Service.getReceipt ctx t receipt) := by
  rw [Service.getReceipt, Avoids.bind_iff]
  exact ⟨avoids_header, fun _ _ => Avoids.pure⟩

theorem avoids_lockService {receipt : Uuid} : Avoids Blamed (Service.lock ctx t receipt) := by
  rw [Service.lock, Avoids.bind_iff]
  exact ⟨avoids_header, fun _ _ => avoids_execute avoids_lock⟩

theorem avoids_bindComparator {poLine : Uuid} {generation : ℕ} {correction : Option Uuid}
    {id : Uuid} :
    Avoids Blamed (Service.bindComparator ctx header poLine generation correction id t) := by
  rw [Service.bindComparator, Avoids.bind_iff]
  refine ⟨avoids_ensure, fun _ _ => ?_⟩
  split
  · exact Avoids.pure
  · rw [Avoids.bind_iff]
    refine ⟨avoids_ensure, fun _ _ => ?_⟩
    rw [Avoids.bind_iff]
    exact ⟨avoids_execute avoids_actor, fun _ _ => avoids_execute avoids_insertComparator⟩

theorem avoids_insertPlainLine {values : LineValues} {conflict : Option Uuid} {keys : LineKeys} :
    Avoids Blamed (Service.insertPlainLine ctx header values conflict keys t) := by
  rw [Service.insertPlainLine, Avoids.bind_iff]
  exact ⟨avoids_execute avoids_actor, fun _ _ => avoids_execute avoids_insertLine⟩

theorem avoids_insertObservation {values : LineValues} {keys : LineKeys} :
    Avoids Blamed (Service.insertObservation ctx header values keys t) := by
  unfold Service.insertObservation
  split
  · rw [Avoids.bind_iff]
    exact ⟨avoids_insertPlainLine, fun _ _ => Avoids.pure⟩
  · rw [Avoids.bind_iff]
    refine ⟨avoids_ensure, fun _ _ => ?_⟩
    split
    · rw [Avoids.bind_iff]
      exact ⟨avoids_insertPlainLine, fun _ _ => Avoids.pure⟩
    · rw [Avoids.bind_iff]
      exact ⟨avoids_execute avoids_createReceivedUnit, fun _ _ => Avoids.pure⟩

/-- An exception whose derivation is admitted. -/
theorem avoids_exception {id : Uuid} {key : ExceptionKey}
    (h : ∀ row : ReceivingException, row.receiptId = header.id → row.evaluationId = none →
      row.key = key → enforceReceivingException t row = .ok ()) :
    Avoids Blamed (Service.exception ctx header id key t) := by
  rw [Service.exception, Avoids.bind_iff]
  refine ⟨avoids_execute avoids_actor, fun actor _ => avoids_execute (avoids_insertException ?_)⟩
  intro row' hguard
  obtain ⟨⟨_, rfl⟩, -⟩ := guardException_eq_ok hguard
  exact h _ rfl rfl rfl

/-- The exceptions of a line that is stored. -/
theorem avoids_lineExceptions (hkeys : t.Integrity) {line : ReceiptLine} (hline : line ∈ t.lines)
    (howner : line.receiptId = header.id) (hchecks : lineChecks line.fields) {unreadable : Bool}
    {conflict : Option Uuid} {ids : ExceptionType → Uuid}
    (hunreadable : t.unreadable line.fields.assetId = unreadable)
    (hconflict : t.conflictOf line.fields = conflict) :
    Avoids Blamed (Service.lineExceptions ctx header line unreadable conflict ids t) := by
  rw [Service.lineExceptions, Avoids.bind_iff]
  refine ⟨?_, fun comparator hcomparator => ?_⟩
  · unfold Service.comparator
    split
    · exact Avoids.pure
    · rw [Avoids.bind_iff]
      exact ⟨avoids_fetch, fun _ _ => Avoids.pure⟩
  · obtain ⟨rfl, -⟩ := comparator_eq_ok hcomparator
    subst hunreadable hconflict
    refine Avoids.foldlM (fun done state => Observed header.id
      (done.map (Service.lineKey line (t.conflictOf line.fields))) t state ∧
        Writes header.id t state) ⟨.refl header.id t, .refl⟩ ?_ ?_
    · rintro done kind rest before after - ⟨hobserved, hwrites⟩ hrun
      obtain ⟨hround, hwrote⟩ := exception_eq_ok hrun
      refine ⟨?_, hwrites.tail hwrote⟩
      simpa using hobserved.trans hround
    · rintro done kind rest before hkinds ⟨hobserved, hwrites⟩
      have hbefore := Writes.integrity hwrites hkeys
      obtain ⟨rows, -, -, rfl⟩ := hobserved
      refine avoids_exception fun row hreceipt hevaluation hkey => ?_
      have hmem : kind ∈ t.capturedKinds line := by
        unfold Tenant.capturedKinds
        rw [hkinds]
        simp
      exact enforce_of_captured hbefore hline hchecks hmem (hreceipt.trans howner.symm) hevaluation
        hkey

/-- `_record_line` is never blamed. -/
theorem avoids_recordLine (hkeys : t.Integrity) {values : LineValues} {keys : LineKeys} :
    Avoids Blamed (Service.recordLine ctx header values keys t) := by
  rw [Service.recordLine, Avoids.bind_iff]
  refine ⟨?_, fun bound hbind => ?_⟩
  · unfold Service.bindSelected
    split
    · exact Avoids.pure
    · exact avoids_bindComparator
  have hwrites : Writes header.id t bound := by
    unfold Service.bindSelected at hbind
    split at hbind
    · obtain rfl := pure_eq_ok.mp hbind
      exact .refl
    · exact writes_of_bindComparator hbind
  have hbound := Writes.integrity hwrites hkeys
  rw [Avoids.bind_iff]
  refine ⟨avoids_fetch, fun item _ => ?_⟩
  rw [Avoids.bind_iff]
  refine ⟨avoids_ensure, fun _ _ => ?_⟩
  rw [Avoids.bind_iff]
  refine ⟨avoids_ensure, fun _ _ => ?_⟩
  rw [Avoids.bind_iff]
  refine ⟨avoids_insertObservation, ?_⟩
  rintro ⟨⟨line, inserted⟩, unreadable, conflict⟩ hinsert
  obtain ⟨hinserted, -, hunreadable, hconflict⟩ :=
    insertObservation_eq_ok hbound.identifierAsset hinsert
  have hmem : line ∈ inserted.lines := by
    rw [hinserted.tenant]
    simp
  rw [Avoids.bind_iff]
  exact ⟨avoids_lineExceptions (Writes.integrity hinserted.writes hbound) hmem hinserted.owner
    hinserted.checks hunreadable hconflict, fun _ _ => Avoids.pure⟩

/-! ## Reconciliation -/

theorem purchaseOrderLine?_id {id : Uuid} {line : PurchaseOrderLine}
    (h : t.purchaseOrderLine? id = some line) : line.id = id := by
  obtain ⟨original, hfound, rfl⟩ := Option.map_eq_some_iff.mp h
  have hid := (key_of_find? hfound).2
  unfold Tenant.effectivePurchaseOrderLine
  split <;> exact hid

/-- A bound line is the effective line of a comparator. -/
theorem mem_boundLines {receipt : Uuid} {line : PurchaseOrderLine}
    (h : line ∈ t.boundLines receipt) : t.purchaseOrderLine? line.id = some line ∧
      ∃ c ∈ t.comparators, c.receiptId = receipt ∧ c.poLineId = line.id := by
  obtain ⟨c, hc, hline⟩ := List.mem_filterMap.mp h
  obtain ⟨hmem, hreceipt⟩ := Tenant.mem_comparatorsOf.mp hc
  have hid := purchaseOrderLine?_id hline
  exact ⟨hid ▸ hline, c, hmem, hreceipt, hid.symm⟩

/-- The trigger on exceptions admits the conclusion on a comparator. -/
theorem enforce_of_quantity {receipt : Uuid} (hclosed : t.reconciled receipt)
    {comparator : PurchaseOrderLine} (hbound : comparator ∈ t.boundLines receipt)
    {kind : ExceptionType}
    (hkind : quantityType comparator (t.arrivals receipt comparator.id) = some kind)
    {row : ReceivingException} (hreceipt : row.receiptId = receipt)
    (hevaluation : row.evaluationId = none)
    (hkey : row.key = Service.quantityKey comparator.id kind) :
    enforceReceivingException t row = .ok () := by
  obtain ⟨hline, c, hc, howner, hpo⟩ := mem_boundLines hbound
  have hany : (t.comparators.any fun c => decide (c.receiptId = row.receiptId ∧
      c.poLineId = comparator.id)) = true :=
    List.any_eq_true.mpr ⟨c, hc, by simp [howner, hpo, hreceipt]⟩
  have hfilter : row.key.poLineId.filter (fun poLine => t.comparators.any fun c =>
      decide (c.receiptId = row.receiptId ∧ c.poLineId = poLine)) = some comparator.id := by
    rw [hkey]
    simp only [Service.quantityKey, Option.filter_some, hany, if_true]
  have htype : row.key.exceptionType = kind := hkey ▸ rfl
  have hnone : row.key.receiptLineId = none := hkey ▸ rfl
  simp only [quantityType] at hkind
  split_ifs at hkind with hquiet hless
  all_goals
    obtain rfl := Option.some.inj hkind
    rw [not_or] at hquiet
    simp only [enforceReceivingException, hevaluation, hnone, htype]
  · simp only [true_or, if_true, bind_eq_ok, require_eq_ok, quantitySupported, hfilter,
      demand_eq_ok, pure_eq_ok, htype]
    refine ⟨_, ⟨(), hreceipt ▸ hclosed, _, rfl, _, hline, rfl⟩, ?_⟩
    simp [hreceipt, hquiet.1, hless]
  · simp only [or_true, if_true, bind_eq_ok, require_eq_ok, quantitySupported, hfilter,
      demand_eq_ok, pure_eq_ok, htype]
    refine ⟨_, ⟨(), hreceipt ▸ hclosed, _, rfl, _, hline, rfl⟩, ?_⟩
    have hmore := lt_of_le_of_ne (not_lt.mp hless) (Ne.symm hquiet.2)
    simp [hreceipt, hquiet.1, hmore]

/-- The conclusion on one comparator is not blamed. -/
theorem avoids_concludeQuantity (hclosed : t.reconciled header.id)
    {comparator : PurchaseOrderLine} (hbound : comparator ∈ t.boundLines header.id)
    {ids : Uuid → Uuid} : Avoids Blamed (Service.concludeQuantity ctx header ids t comparator) := by
  unfold Service.concludeQuantity
  simp only
  split_ifs with hmixed hdiffers
  · exact Avoids.pure
  all_goals first
    | exact Avoids.pure
    | refine avoids_exception fun row hreceipt hevaluation hkey => ?_
      refine enforce_of_quantity hclosed hbound ?_ hreceipt hevaluation hkey
      simp only [quantityType]
      simp_all

/-- `_reconcile` is never blamed. -/
theorem avoids_reconcile {keys : ReconcileKeys} :
    Avoids Blamed (Service.reconcile ctx header keys t) := by
  rw [Service.reconcile, Avoids.bind_iff]
  refine ⟨avoids_ensure, fun _ _ => ?_⟩
  rw [Avoids.bind_iff]
  refine ⟨avoids_execute avoids_actor, fun actor _ => ?_⟩
  rw [Avoids.bind_iff]
  refine ⟨avoids_execute avoids_insertReconciliation, fun closed hinsert => ?_⟩
  obtain ⟨row, hreceipt, -, -, rfl⟩ :=
    insertReconciliation_eq_ok (Service.execute_eq_ok.mp hinsert)
  refine Avoids.foldlM (fun done state => ∃ keys, Observed header.id keys
    { t with reconciliations := t.reconciliations ++ [row] } state) ⟨[], .refl ..⟩ ?_ ?_
  · rintro done comparator rest before after - ⟨_, hobserved⟩ hrun
    exact ⟨_, hobserved.trans (concludeQuantity_eq_ok hrun).1⟩
  · rintro done comparator rest before hbound ⟨_, hobserved⟩
    obtain ⟨rows, -, -, rfl⟩ := hobserved
    refine avoids_concludeQuantity ?_ ?_
    · simp [Tenant.reconciled, hreceipt]
    · have hmem : comparator ∈ ({ t with reconciliations := t.reconciliations ++ [row] } :
          Tenant).boundLines header.id := by
        rw [hbound]
        simp
      exact hmem

/-! ## Completeness -/

/-- What the deferred trigger requires of a line is what capture finds. -/
theorem requiredTypes_subset (hkeys : t.Integrity) {line : ReceiptLine} (hline : line ∈ t.lines)
    {kind : ExceptionType} (hkind : kind ∈ requiredTypes t line) : kind ∈ t.capturedKinds line := by
  rw [hkeys.mem_capturedKinds hline]
  cases kind with
  | serialMismatch =>
      have hobserved : line.fields.observedIdentifierValue.isSome := by
        cases hc : line.fields.condition <;> cases hpo : line.fields.poLineId <;>
          simpa [requiredTypes, hc, hpo, Option.any_eq_true] using hkind
      exact Option.isSome_iff_ne_none.mp (hkeys.observed line hline hobserved)
  | serialUnreadable =>
      have hidentifier : ∃ i ∈ t.tables.identifiers, some i.assetId = line.fields.assetId ∧
          i.value = none := by
        have hboth : line.fields.assetId.isSome = true ∧ ∃ i ∈ t.tables.identifiers,
            some i.assetId = line.fields.assetId ∧ i.value = none := by
          cases hc : line.fields.condition <;> cases hpo : line.fields.poLineId <;>
            simpa [requiredTypes, hc, hpo, Option.any_eq_true] using hkind
        exact hboth.2
      obtain ⟨i, hi, hasset, hvalue⟩ := hidentifier
      have hreason := hkeys.readability i hi hvalue
      exact List.any_eq_true.mpr ⟨i, hi, by simp [hasset, hvalue, hreason]⟩
  | _ =>
      cases hc : line.fields.condition <;> cases hpo : line.fields.poLineId <;>
        simp_all [requiredTypes, Snapshot.Kinds, Tenant.lineAt, Tenant.selection, expectationOf,
          Option.any_eq_true]

/-- A line whose exceptions are stored is complete. -/
theorem completeLine_of_stored (hkeys : t.Integrity) {line : ReceiptLine} (hline : line ∈ t.lines)
    (hstored : ∀ key ∈ t.capturedKeys line, ∃ e ∈ t.exceptions, e.key = key) :
    completeLine t line = .ok () := by
  rw [completeLine, hkeys.lines.find?_eq hline rfl]
  simp only [require_eq_ok]
  intro kind hkind
  have hcaptured := requiredTypes_subset hkeys hline hkind
  obtain ⟨e, he, hkey⟩ := hstored _ (List.mem_map_of_mem hcaptured)
  exact List.any_eq_true.mpr ⟨e, he, by simp [hkey, Service.lineKey]⟩

/-- A receipt whose conclusions are stored is complete. -/
theorem completeReconciliation_of_stored {receipt : Uuid}
    (hstored : ∀ line ∈ t.boundLines receipt, ∀ key ∈ t.quantityKeys receipt line,
      ∃ e ∈ t.exceptions, e.receiptId = receipt ∧ e.key = key) :
    completeReconciliation t receipt = .ok () := by
  rw [completeReconciliation, require_eq_ok]
  intro line hline kind hkind
  obtain ⟨e, he, hreceipt, hkey⟩ := hstored line hline (Service.quantityKey line.id kind)
    (List.mem_map_of_mem (Option.mem_toList.mpr hkind))
  exact List.any_eq_true.mpr ⟨e, he, by simp [hkey, hreceipt, Service.quantityKey]⟩

end

end FleetOps
