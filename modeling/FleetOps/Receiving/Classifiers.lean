import FleetOps.Receiving.Runs
import Mathlib.Data.List.Perm.Basic

/-!
# Three classifiers of one specification

The kinds of a line and the conclusion on an expectation are computed three
times: at capture by the service, for an evaluation by the service, and by the
database's view.  Each is compared here with `Snapshot.LineDisagrees` and
`Snapshot.QuantityDisagrees`, and the keys that each gives are those of
`Snapshot.Disagrees`.
-/

namespace FleetOps

open Keys

/-! ## What a line is compared with -/

namespace Snapshot

variable {snapshot : Snapshot}

/-- The expectation that a line selects. -/
def expectedFor (snapshot : Snapshot) (line : EvaluatedLine) : Option EvaluatedExpectation :=
  line.poLineId.bind fun poLine => snapshot.expectations.find? (·.poLineId = poLine)

/-- A line disagrees with this expectation, or shows a fact of its own. -/
def Kinds (line : EvaluatedLine) (expected : Option EvaluatedExpectation) : ExceptionType → Prop
  | .unexpectedItem => line.poLineId = none
  | .substitution => ∃ p ∈ expected, line.itemId ≠ p.itemId
  | .uomMismatch => ∃ p ∈ expected, line.uom ≠ p.uom
  | .damaged => line.condition = .damaged
  | .opened => line.condition = .opened
  | .quantityVariance => ∃ counted, line.packingQuantity = some counted ∧ line.quantity ≠ counted
  | .serialUnreadable => line.unreadable = true
  | .serialMismatch => line.conflictingAssetId ≠ none
  | .short | .over => False

/-- The selected expectation is the one with the selected key. -/
theorem mem_expectedFor (hwell : snapshot.WellFormed) {line : EvaluatedLine}
    {p : EvaluatedExpectation} : p ∈ snapshot.expectedFor line ↔
      p ∈ snapshot.expectations ∧ line.poLineId = some p.poLineId := by
  constructor
  · intro h
    obtain ⟨poLine, hpo, hfound⟩ := Option.bind_eq_some_iff.mp h
    obtain ⟨hmem, hid⟩ := key_of_find? hfound
    exact ⟨hmem, hid ▸ hpo⟩
  · rintro ⟨hmem, hpo⟩
    exact Option.bind_eq_some_iff.mpr ⟨_, hpo, Distinct.find?_eq hwell.expectations hmem rfl⟩

theorem kinds_iff (hwell : snapshot.WellFormed) (line : EvaluatedLine) (kind : ExceptionType) :
    Kinds line (snapshot.expectedFor line) kind ↔ snapshot.LineDisagrees line kind := by
  cases kind with
  | substitution | uomMismatch =>
      simp only [Kinds, LineDisagrees, mem_expectedFor hwell]
      constructor
      · rintro ⟨p, ⟨hmem, hpo⟩, hne⟩
        exact ⟨p, hmem, hpo, hne⟩
      · rintro ⟨p, hmem, hpo, hne⟩
        exact ⟨p, ⟨hmem, hpo⟩, hne⟩
  | _ => rfl

/-- A line of a well-formed snapshot that selects something is expected. -/
theorem expectedFor_eq_none (hwell : snapshot.WellFormed) {line : EvaluatedLine}
    (hline : line ∈ snapshot.lines) :
    snapshot.expectedFor line = none ↔ line.poLineId = none := by
  constructor
  · intro hnone
    by_contra hne
    obtain ⟨poLine, hpo⟩ := Option.ne_none_iff_exists'.mp hne
    obtain ⟨p, hp, rfl⟩ := hwell.selected line hline poLine hpo
    have hsome := (mem_expectedFor hwell).mpr ⟨hp, hpo⟩
    exact absurd (hnone.symm.trans hsome) nofun
  · intro hnone
    rw [expectedFor, hnone, Option.bind_none]

end Snapshot

/-! ## The kinds of a line -/

/-- The view's classifier of lines. -/
theorem mem_disagreementKinds (line : EvaluatedLine) (expected : Option EvaluatedExpectation)
    (kind : ExceptionType) :
    kind ∈ disagreementKinds line expected ↔ Snapshot.Kinds line expected kind := by
  cases kind <;> cases hcondition : line.condition <;> cases expected <;>
    simp [disagreementKinds, Snapshot.Kinds, hcondition, Option.isSome_iff_ne_none,
      Option.any_eq_true, and_comm]

theorem nodup_disagreementKinds (line : EvaluatedLine) (expected : Option EvaluatedExpectation) :
    (disagreementKinds line expected).Nodup := by
  unfold disagreementKinds
  cases line.condition <;> split_ifs <;> decide

/-- The service's classifier of evaluated lines finds the same, where the comparator exists. -/
theorem evaluatedKinds_eq_ok {comparators : List EvaluatedExpectation} {line : EvaluatedLine}
    {kinds : List ExceptionType} (h : Service.evaluatedKinds comparators line = .ok kinds) :
    kinds.Nodup ∧ ∀ kind, kind ∈ kinds ↔ Snapshot.Kinds line
      (line.poLineId.bind fun poLine => comparators.find? (·.poLineId = poLine)) kind := by
  cases hpo : line.poLineId with
  | none =>
      simp only [Service.evaluatedKinds, hpo, bind_eq_ok, pure_eq_ok] at h
      obtain ⟨_, rfl, rfl⟩ := h
      refine ⟨?_, fun kind => ?_⟩
      · cases line.condition <;> split_ifs <;> decide
      · cases kind <;> cases hcondition : line.condition <;>
          simp [Snapshot.Kinds, hpo, hcondition, Option.isSome_iff_ne_none, Option.any_eq_true,
            and_comm, @eq_comm ℚ]
  | some poLine =>
      simp only [Service.evaluatedKinds, hpo, bind_eq_ok, pure_eq_ok, Service.fetch_eq_ok] at h
      obtain ⟨comparator, hfound, _, rfl, rfl⟩ := h
      refine ⟨?_, fun kind => ?_⟩
      · cases line.condition <;> split_ifs <;> decide
      · cases kind <;> cases hcondition : line.condition <;>
          simp [Snapshot.Kinds, hpo, hfound, hcondition, Option.isSome_iff_ne_none,
            Option.any_eq_true, and_comm, @eq_comm ℚ]

theorem evaluatedKinds_ok (comparators : List EvaluatedExpectation) (line : EvaluatedLine)
    (h : ∀ poLine ∈ line.poLineId, (comparators.find? (·.poLineId = poLine)).isSome) :
    ∃ kinds, Service.evaluatedKinds comparators line = .ok kinds := by
  cases hpo : line.poLineId with
  | none => exact ⟨_, by simp only [Service.evaluatedKinds, hpo]; rfl⟩
  | some poLine =>
      obtain ⟨comparator, hfound⟩ := Option.isSome_iff_exists.mp (h poLine hpo)
      exact ⟨_, by simp only [Service.evaluatedKinds, hpo, hfound, Service.fetch]; rfl⟩

/-- An expectation with these fields. -/
def expectationOf (id : Uuid) (fields : PurchaseOrderFields) : EvaluatedExpectation where
  poLineId := id
  itemId := fields.itemId
  quantity := fields.quantity
  uom := fields.uom

/-- The service's classifier of lines at capture. -/
theorem mem_lineKinds {line : EvaluatedLine} {fields : LineFields} {id : Uuid}
    {comparator : Option PurchaseOrderFields} {unreadable : Bool} {conflict : Option Uuid}
    (hselected : comparator = none ↔ line.poLineId = none) (hitem : line.itemId = fields.itemId)
    (huom : line.uom = fields.uom) (hcondition : line.condition = fields.condition)
    (hpacking : line.packingQuantity = fields.packingQuantity)
    (hquantity : line.quantity = fields.quantity) (hunreadable : line.unreadable = unreadable)
    (hconflict : line.conflictingAssetId = conflict) (kind : ExceptionType) :
    kind ∈ Service.lineKinds comparator fields unreadable conflict ↔
      Snapshot.Kinds line (comparator.map (expectationOf id)) kind := by
  subst hunreadable hconflict
  cases kind <;> cases hc : fields.condition <;> cases comparator <;>
    simp_all [Service.lineKinds, Snapshot.Kinds, Option.isSome_iff_ne_none, Option.any_eq_true,
      expectationOf, and_comm]

theorem nodup_lineKinds (comparator : Option PurchaseOrderFields) (fields : LineFields)
    (unreadable : Bool) (conflict : Option Uuid) :
    (Service.lineKinds comparator fields unreadable conflict).Nodup := by
  unfold Service.lineKinds
  cases comparator <;> cases fields.condition <;> simp only <;> split_ifs <;> decide

/-! ## Quantities -/

/-- The view's conclusion on an expectation. -/
theorem quantityKind_iff (snapshot : Snapshot) (expected : EvaluatedExpectation)
    (kind : ExceptionType) :
    quantityKind expected (snapshot.arrivals expected.poLineId) = some kind ↔
      snapshot.QuantityDisagrees expected kind := by
  have hunits : (∀ line ∈ snapshot.arrivals expected.poLineId, line.uom = expected.uom) ↔
      evaluatedMismatch expected.uom (snapshot.arrivals expected.poLineId) = false := by
    simp [evaluatedMismatch, List.any_eq_false]
  have htotal : ((snapshot.arrivals expected.poLineId).map EvaluatedLine.quantity).sum =
      evaluatedTotal (snapshot.arrivals expected.poLineId) := rfl
  cases hmixed : evaluatedMismatch expected.uom (snapshot.arrivals expected.poLineId) with
  | true =>
      cases kind <;> simp [quantityKind, Snapshot.QuantityDisagrees, hunits, hmixed]
  | false =>
      rcases lt_trichotomy (evaluatedTotal (snapshot.arrivals expected.poLineId))
        expected.quantity with hlt | heq | hgt
      · cases kind <;> simp [quantityKind, Snapshot.QuantityDisagrees, hunits, hmixed, htotal, hlt,
          hlt.ne, hlt.le]
      · cases kind <;> simp [quantityKind, Snapshot.QuantityDisagrees, hunits, hmixed, htotal, heq]
      · cases kind <;> simp [quantityKind, Snapshot.QuantityDisagrees, hunits, hmixed, htotal, hgt,
          hgt.ne', hgt.not_gt]

/-- The service concludes what the view concludes. -/
theorem evaluatedQuantity_eq (snapshot : Snapshot) (expected : EvaluatedExpectation) :
    Service.evaluatedQuantity snapshot.lines expected =
      quantityKind expected (snapshot.arrivals expected.poLineId) := by
  simp only [Service.evaluatedQuantity, quantityKind, Snapshot.arrivals, Bool.and_eq_true,
    bne_iff_ne]
  split_ifs <;> simp_all [-not_lt]

/-- Capture concludes what the view concludes on the captured lines. -/
theorem quantityType_eq (tenant : Tenant) (comparator : PurchaseOrderLine)
    (arrivals : List ReceiptLine) :
    quantityType comparator arrivals = quantityKind (expectationOf comparator.id comparator.fields)
      (arrivals.map fun line => tenant.lineAt line none) := by
  have hmixed : evaluatedMismatch comparator.fields.uom
      (arrivals.map fun line => tenant.lineAt line none) =
        mixedUnits comparator.fields.uom arrivals := by
    rw [evaluatedMismatch, List.any_map]
    rfl
  simp only [quantityType, quantityKind, expectationOf, hmixed]
  cases hunits : mixedUnits comparator.fields.uom arrivals with
  | true => simp
  | false =>
      have htotal : totalIn comparator.fields.uom arrivals =
          evaluatedTotal (arrivals.map fun line => tenant.lineAt line none) := by
        simp only [mixedUnits, List.any_eq_false, bne_iff_ne, not_not] at hunits
        rw [totalIn, List.filter_eq_self.mpr fun line hline => decide_eq_true (hunits line hline),
          evaluatedTotal, List.map_map]
        rfl
      simp only [htotal]
      split_ifs <;> simp_all [-not_lt]

/-! ## The capture of a receipt -/

namespace Tenant

variable {t : Tenant} {receipt : Uuid}

/-- What capture compares: the lines as they were captured, and the expectations that it bound. -/
def capture (tenant : Tenant) (receipt : Uuid) : Snapshot where
  lines := (tenant.linesOf receipt).map fun line => tenant.lineAt line none
  expectations := (tenant.captureComparators receipt).filterMap fun c =>
    (tenant.purchaseOrderLines.find? (·.id = c.poLineId)).map fun line =>
      expectationAt line (pinnedSource tenant.purchaseOrderLineCorrections c.sourceId)

/-- A comparator's pinned source is the one in force. -/
theorem Integrity.pinnedSource_eq (hkeys : t.Integrity) {c : Comparator} (hc : c ∈ t.comparators) :
    pinnedSource t.purchaseOrderLineCorrections c.sourceId =
      latestCorrection t.purchaseOrderLineCorrections c.poLineId := by
  rw [(hkeys.pinned c hc).1]
  cases hlatest : latestCorrection t.purchaseOrderLineCorrections c.poLineId with
  | none => rfl
  | some row =>
      have hmem := (List.mem_filter.mp (Query.mem_of_latestBy hlatest)).1
      exact hkeys.procurement.find?_eq hmem rfl

/-- The expectation at a comparator's pinned source is that of the line in force. -/
theorem Integrity.expectationAt_eq (hkeys : t.Integrity) {c : Comparator}
    (hc : c ∈ t.comparators) :
    ∃ line, t.purchaseOrderLine? c.poLineId = some line ∧ line.id = c.poLineId ∧
      (t.purchaseOrderLines.find? (·.id = c.poLineId)).map (fun original =>
        expectationAt original (pinnedSource t.purchaseOrderLineCorrections c.sourceId)) =
          some (expectationOf line.id line.fields) := by
  obtain ⟨original, hfound, -⟩ := hkeys.bound c hc
  have hid := (key_of_find? hfound).2
  rw [hkeys.pinnedSource_eq hc, purchaseOrderLine?, hfound]
  refine ⟨t.effectivePurchaseOrderLine original, rfl, ?_, ?_⟩
  · unfold effectivePurchaseOrderLine
    split <;> exact hid
  · unfold effectivePurchaseOrderLine
    rw [hid]
    cases latestCorrection t.purchaseOrderLineCorrections c.poLineId <;>
      simp [expectationAt, expectationOf, hid]

theorem Integrity.capture_expectations (hkeys : t.Integrity) :
    (t.capture receipt).expectations = (t.captureLines receipt).map fun line =>
      expectationOf line.id line.fields := by
  simp only [capture, captureLines, List.map_filterMap]
  refine List.filterMap_congr fun c hc => ?_
  obtain ⟨hmem, -⟩ := mem_comparatorsOf.mp (List.mem_filter.mp hc).1
  obtain ⟨line, hline, -, heq⟩ := hkeys.expectationAt_eq hmem
  rw [heq, hline, Option.map_some]

/-- A receipt binds a purchase order line once. -/
theorem Integrity.distinct_poLine (hkeys : t.Integrity) (receipt : Uuid) (p : Comparator → Bool) :
    (((t.comparatorsOf receipt).filter p).map Comparator.poLineId).Nodup := by
  have hpairs : (((t.comparatorsOf receipt).filter p).map
      fun c => (c.receiptId, c.poLineId)).Nodup :=
    (hkeys.comparators.filter (·.receiptId = receipt)).filter p
  have hmap : ((t.comparatorsOf receipt).filter p).map (fun c => (c.receiptId, c.poLineId)) =
      (((t.comparatorsOf receipt).filter p).map Comparator.poLineId).map (Prod.mk receipt) := by
    rw [List.map_map]
    refine List.map_congr_left fun c hc => ?_
    obtain ⟨-, hreceipt⟩ := mem_comparatorsOf.mp (List.mem_filter.mp hc).1
    simp [hreceipt]
  rw [hmap] at hpairs
  exact hpairs.of_map _

/-- Lines and comparators have their keys, and what a captured line selects capture bound. -/
theorem Integrity.capture_wellFormed (hkeys : t.Integrity) (receipt : Uuid) :
    (t.capture receipt).WellFormed where
  lines := by
    simp only [capture, List.map_map]
    exact hkeys.lines.filter (·.receiptId = receipt)
  expectations := by
    have hbound : (t.capture receipt).expectations.map EvaluatedExpectation.poLineId =
        (t.captureComparators receipt).map Comparator.poLineId := by
      simp only [capture, List.map_filterMap, Option.map_map]
      rw [← List.filterMap_eq_map]
      refine List.filterMap_congr fun c hc => ?_
      obtain ⟨hmem, -⟩ := mem_comparatorsOf.mp (List.mem_filter.mp hc).1
      obtain ⟨original, hfound, -⟩ := hkeys.bound c hmem
      simp [hfound, expectationAt, (key_of_find? hfound).2]
    rw [hbound]
    exact hkeys.distinct_poLine receipt _
  selected := by
    simp only [capture, List.mem_map]
    rintro _ ⟨line, hline, rfl⟩ poLine hpo
    obtain ⟨hmem, hreceipt⟩ := mem_linesOf.mp hline
    obtain ⟨c, hc, howner, rfl, hnone⟩ := hkeys.selected line hmem poLine hpo
    obtain ⟨original, hfound, -⟩ := hkeys.bound c hc
    refine ⟨_, List.mem_filterMap.mpr ⟨c, ?_, by rw [hfound]; rfl⟩, (key_of_find? hfound).2⟩
    exact List.mem_filter.mpr
      ⟨mem_comparatorsOf.mpr ⟨hc, howner.trans hreceipt⟩, decide_eq_true hnone⟩

/-- What a captured line selects, as an expectation. -/
theorem Integrity.expectedFor_capture (hkeys : t.Integrity) {line : ReceiptLine}
    (hline : line ∈ t.linesOf receipt) :
    ∃ id, (t.capture receipt).expectedFor (t.lineAt line none) =
      (t.selection line.fields.poLineId).map (expectationOf id) := by
  cases hpo : line.fields.poLineId with
  | none => exact ⟨0, by simp [Snapshot.expectedFor, lineAt, hpo, selection]⟩
  | some poLine =>
      obtain ⟨hmem, hreceipt⟩ := mem_linesOf.mp hline
      obtain ⟨c, hc, howner, rfl, hnone⟩ := hkeys.selected line hmem poLine hpo
      obtain ⟨effective, heffective, hid, -⟩ := hkeys.expectationAt_eq hc
      have hexpected : expectationOf effective.id effective.fields ∈
          (t.capture receipt).expectations := by
        rw [hkeys.capture_expectations]
        refine List.mem_map_of_mem (List.mem_filterMap.mpr ⟨c, ?_, heffective⟩)
        exact List.mem_filter.mpr
          ⟨mem_comparatorsOf.mpr ⟨hc, howner.trans hreceipt⟩, decide_eq_true hnone⟩
      refine ⟨effective.id, ?_⟩
      have hfound : expectationOf effective.id effective.fields ∈
          (t.capture receipt).expectedFor (t.lineAt line none) :=
        (Snapshot.mem_expectedFor (hkeys.capture_wellFormed receipt)).mpr
          ⟨hexpected, by simp [lineAt, hpo, expectationOf, hid]⟩
      rw [Option.mem_def.mp hfound, selection, Option.bind_some, heffective]
      rfl

/-- Capture's classifier of lines is the view's, on the captured lines. -/
theorem Integrity.capturedKinds_perm (hkeys : t.Integrity) {line : ReceiptLine}
    (hline : line ∈ t.linesOf receipt) :
    (t.capturedKinds line).Perm (disagreementKinds (t.lineAt line none)
      ((t.capture receipt).expectedFor (t.lineAt line none))) := by
  obtain ⟨id, hexpected⟩ := hkeys.expectedFor_capture hline
  have hselected : t.selection line.fields.poLineId = none ↔
      (t.lineAt line none).poLineId = none := by
    have hiff := Snapshot.expectedFor_eq_none (hkeys.capture_wellFormed receipt)
      (List.mem_map_of_mem hline : t.lineAt line none ∈ (t.capture receipt).lines)
    rwa [hexpected, Option.map_eq_none_iff] at hiff
  refine (List.perm_ext_iff_of_nodup (nodup_lineKinds ..) (nodup_disagreementKinds ..)).mpr
    fun kind => ?_
  rw [mem_disagreementKinds, hexpected]
  exact mem_lineKinds hselected rfl rfl rfl rfl rfl rfl rfl kind

/-- What capture derives is what its snapshot disagrees in, quantities once it is closed. -/
theorem Integrity.derivedKeys_represents (hkeys : t.Integrity) (receipt : Uuid) :
    Snapshot.Represents (t.derivedKeys receipt) fun key =>
      (t.capture receipt).LineKeyed key ∨
        t.reconciled receipt ∧ (t.capture receipt).QuantityKeyed key := by
  have hwell := hkeys.capture_wellFormed receipt
  have hlines : Snapshot.Represents ((t.linesOf receipt).flatMap t.capturedKeys)
      (t.capture receipt).LineKeyed := by
    refine (Snapshot.represents_lines hwell
      (fun line _ => nodup_disagreementKinds line ((t.capture receipt).expectedFor line))
      fun line _ kind => (mem_disagreementKinds ..).trans (Snapshot.kinds_iff hwell ..)).of_perm ?_
    simp only [capture, List.flatMap_map]
    exact (List.Perm.flatMap_left _ fun line hline =>
      (hkeys.capturedKinds_perm hline).map _).symm
  have hquantities : Snapshot.Represents ((t.captureLines receipt).flatMap (t.quantityKeys receipt))
      (t.capture receipt).QuantityKeyed := by
    have hkeyed := Snapshot.represents_quantities hwell
      (fun expected _ kind => quantityKind_iff (t.capture receipt) expected kind)
    rw [hkeys.capture_expectations, List.flatMap_map] at hkeyed
    refine hkeyed.of_perm (List.Perm.of_eq (List.flatMap_congr fun line _ => ?_))
    rw [quantityKeys, arrivals_eq, quantityType_eq t]
    simp only [Snapshot.arrivals, capture, List.filter_map]
    rfl
  by_cases hclosed : t.reconciled receipt = true
  · rw [derivedKeys_of_closed hclosed]
    refine (hlines.append hquantities).congr fun key => ?_
    simp [hclosed, Snapshot.Disagrees]
  · rw [derivedKeys_of_open hclosed]
    exact hlines.congr fun key => by simp [hclosed]

end Tenant

end FleetOps
