import FleetOps.Evidence.Tables
import FleetOps.Receiving.Exactness

/-!
# Received scans

The photos that are queued behind a scan are linked to the line that the scan's
stored result names.  That line is read off the receipt's listing, which is
ordered by key: it is the line that the scan appended exactly if no line of the
receipt has a later key.
-/

namespace FleetOps

open Keys

/-! ## Photos -/

/-- The link that the client asks for once it has uploaded a photo, `evidenceOperation`. -/
structure PhotoClaim where
  entityType : EvidenceEntity
  entityId : Uuid
  attachmentId : Uuid
  linkRole : EvidenceRole
  deriving DecidableEq, Repr

/-- The claim that `synchronize` makes for a photo of an applied scan. -/
def ScanResult.photoClaim (result : ScanResult) (attachment : Uuid) : Option PhotoClaim :=
  result.lineId.map fun line => ⟨.receiptLine, line, attachment, .receivingEvidence⟩

/-- A stored result names a line, and so does every claim for a photo. -/
structure ScanResult.Names (result : ScanResult) (line : ReceiptLine) : Prop where
  own : result.lineId = some line.id
  photos : ∀ attachment, ∃ claim, result.photoClaim attachment = some claim ∧
    claim.entityType = .receiptLine ∧ claim.entityId = line.id ∧ claim.attachmentId = attachment

theorem ScanResult.names_iff {result : ScanResult} {line : ReceiptLine} :
    result.Names line ↔ result.lineId = some line.id := by
  refine ⟨fun h => h.own, fun h => ⟨h, fun attachment => ?_⟩⟩
  simp [ScanResult.photoClaim, h]

/-! ## The appended line -/

section

variable {ctx : Context} {t t' : Tenant} {receipt : Uuid} {values : LineValues}

/-- `_record_line` appends its line to the receipt. -/
theorem linesOf_of_recordLine {header : Receipt} {keys : LineKeys} {line : ReceiptLine}
    (hkeys : t.Integrity) (h : Service.recordLine ctx header values keys t = .ok (line, t')) :
    t'.linesOf header.id = t.linesOf header.id ++ [line] ∧ line.Stores values keys := by
  obtain ⟨bound, inserted, hrecorded⟩ := recordLine_eq_ok hkeys h
  obtain ⟨_, -, rfl⟩ := hrecorded.binding
  obtain ⟨_, -, -, rfl⟩ := hrecorded.observed
  refine ⟨?_, hrecorded.stores⟩
  rw [Tenant.linesOf, hrecorded.insertion.tenant]
  simp [Tenant.linesOf, hrecorded.insertion.owner]

/-- Reconciling leaves the lines as they are. -/
theorem linesOf_of_reconcileReceipt {keys : ReconcileKeys} {view : ReceiptView}
    (h : Service.reconcileReceipt ctx receipt keys t = .ok (view, t')) :
    t'.linesOf receipt = t.linesOf receipt := by
  obtain ⟨header, rfl, hrun⟩ := reconcileReceipt_stages h
  obtain ⟨_, -, -, ⟨_, -, -, rfl⟩, -⟩ := reconcile_eq_ok hrun
  rfl

/-- `add_line` appends one line, and lists it among the others by key. -/
theorem lines_of_addLine {keys : LineKeys} {view : ReceiptView} (hkeys : t.Integrity)
    (h : Service.addLine ctx receipt values keys t = .ok (view, t')) :
    ∃ line, t'.linesOf receipt = t.linesOf receipt ++ [line] ∧ line.Stores values keys ∧
      view.lines = (t'.linesOf receipt).mergeSort (·.id ≤ ·.id) := by
  obtain ⟨_, line, hadded⟩ := addLine_stages h
  obtain rfl := hadded.header_id
  have hview := hadded.listing
  simp only [Service.getReceipt, bind_eq_ok, pure_eq_ok] at hview
  obtain ⟨_, -, rfl⟩ := hview
  obtain ⟨hlines, hstores⟩ := linesOf_of_recordLine hkeys hadded.recorded
  exact ⟨line, hlines, hstores, rfl⟩

/-- A scan's result names the line that it appended exactly if that line's key is the latest. -/
theorem names_of_receiveScan {reconcile : Bool} {keys : ScanKeys} {result : ScanResult}
    (hkeys : t.Integrity)
    (h : Service.receiveScan ctx receipt values reconcile keys t = .ok (result, t')) :
    ∃ line, t'.linesOf receipt = t.linesOf receipt ++ [line] ∧ line.id = keys.line.lineId ∧
      (result.Names line ↔ ∀ other ∈ t.linesOf receipt, other.id < line.id) := by
  have hkeys' := Writes.integrity (receiveScan_captured hkeys h).writes hkeys
  obtain ⟨view, added, hadd, rfl, hclosed⟩ := receiveScan_eq_ok h
  obtain ⟨line, hlines, ⟨hid, -⟩, hlisted⟩ := lines_of_addLine hkeys hadd
  have hkept : t'.linesOf receipt = added.linesOf receipt := by
    rcases hclosed with rfl | ⟨_, hclose⟩
    · rfl
    · exact linesOf_of_reconcileReceipt hclose
  have hdistinct : Distinct ReceiptLine.id (added.linesOf receipt) :=
    hkept ▸ hkeys'.lines.filter _
  have hmem : line ∈ added.linesOf receipt := by simp [hlines]
  refine ⟨line, hkept.trans hlines, hid, ?_⟩
  have hlast : view.lines.getLast?.map ReceiptLine.id = some line.id ↔
      view.lines.getLast? = some line := by
    rw [Option.map_eq_some_iff]
    constructor
    · rintro ⟨last, hfound, heq⟩
      have hlastMem : last ∈ added.linesOf receipt := by
        rw [hlisted] at hfound
        exact List.mem_mergeSort.mp (List.mem_of_getLast? hfound)
      rw [hfound, hdistinct.eq hlastMem hmem heq]
    · exact fun hfound => ⟨line, hfound, rfl⟩
  rw [ScanResult.names_iff, hlast, hlisted, hdistinct.getLast?_mergeSort hmem, hlines]
  constructor
  · intro hmax other hother
    have hle := hmax other (List.mem_append_left _ hother)
    rw [hlines, Distinct, List.map_append, List.nodup_append] at hdistinct
    exact lt_of_le_of_ne hle (hdistinct.2.2 _ (List.mem_map_of_mem hother) _ (by simp))
  · intro hless other hother
    rcases List.mem_append.mp hother with hold | hnew
    · exact (hless other hold).le
    · exact (List.mem_singleton.mp hnew) ▸ le_refl _

end

/-! ## Scans of several processes -/

/-- In every state that a run of requests reaches, an applied scan appends one line, and its result
and the claims for its photos name this line if and only if every line that the receipt held before
has an earlier key. -/
theorem scanNamesItsLine (posixSpace : Char → Bool) {start : Tenant} (hfresh : start.Fresh)
    (requests : List (Context × ReceivingCall)) {ctx : Context} {receipt : Uuid}
    {values : LineValues} {reconcile : Bool} {keys : ScanKeys} {result : ScanResult} {t' : Tenant}
    (hscan : Service.receiveScan ctx receipt values reconcile keys
      (Machine.run (Tenant.step posixSpace) requests start) = .ok (result, t')) :
    let t := Machine.run (Tenant.step posixSpace) requests start
    ∃ line, t'.linesOf receipt = t.linesOf receipt ++ [line] ∧ line.id = keys.line.lineId ∧
      (result.Names line ↔ ∀ other ∈ t.linesOf receipt, other.id < line.id) := by
  have hkeys := run_integrity posixSpace hfresh.integrity requests
  exact names_of_receiveScan hkeys hscan

/-- One cable, scanned. -/
def sampleScanValues : LineValues :=
  { poLineId := none, itemId := 50, quantity := 1, uom := .ea, condition := .good
    packingQuantity := none, notes := none, unit := none }

/-- The keys of a scan that a process draws. -/
def sampleScanKeys (n : ℕ) : ScanKeys := ⟨sampleLineKeys n, ⟨1900 + n, fun line => 3000 + line⟩⟩

/-- A delivery, and a first scan by a process whose clock is ahead. -/
def sampleScans : List (Context × ReceivingCall) :=
  let delivery : ReceiptValues :=
    { vendorPartyId := 2, poId := none, dockLocationId := some 3, packingReference := none
      receivedAt := .at 40, comparatorIds := [], comparatorBindings := [], lines := []
      reconcile := false }
  [(sampleContext, .createReceipt delivery
      { receiptId := 6, comparatorId := id, line := sampleLineKeys, reconcile := ⟨7, id⟩ }),
    (sampleContext, .receiveScan 6 sampleScanValues false (sampleScanKeys 9))]

theorem scanNamesItsLine_sample :
    let t := Machine.run (Tenant.step sampleContext.posixSpace) sampleScans expectingTenant
    ∃ result t', Service.receiveScan sampleContext 6 sampleScanValues true (sampleScanKeys 10) t =
        .ok (result, t') ∧
      ∃ line, t'.linesOf 6 = t.linesOf 6 ++ [line] ∧ line.id = 1210 ∧
        (result.Names line ↔ ∀ other ∈ t.linesOf 6, other.id < line.id) := by
  intro t
  have hrun : (Service.receiveScan sampleContext 6 sampleScanValues true (sampleScanKeys 10)
      t).isOk = true := by decide +kernel
  cases hscan : Service.receiveScan sampleContext 6 sampleScanValues true (sampleScanKeys 10) t with
  | error failure => simp [hscan, Except.isOk, Except.toBool] at hrun
  | ok applied =>
      exact ⟨applied.1, applied.2, rfl,
        scanNamesItsLine sampleContext.posixSpace expectingTenant_fresh sampleScans hscan⟩

/-- A second scan by a process whose clock is behind names the first scan's line. -/
theorem scanNamesItsLine_fails :
    ¬∀ (requests : List (Context × ReceivingCall)) (ctx : Context) (receipt : Uuid)
      (values : LineValues) (reconcile : Bool) (keys : ScanKeys) (result : ScanResult) (t' : Tenant),
      let t := Machine.run (Tenant.step sampleContext.posixSpace) requests expectingTenant
      Service.receiveScan ctx receipt values reconcile keys t = .ok (result, t') →
      ∃ line, t'.linesOf receipt = t.linesOf receipt ++ [line] ∧ result.Names line := by
  intro hclaim
  have hrun : (Service.receiveScan sampleContext 6 sampleScanValues false (sampleScanKeys 8)
      (Machine.run (Tenant.step sampleContext.posixSpace) sampleScans expectingTenant)).isOk =
        true := by decide +kernel
  cases hscan : Service.receiveScan sampleContext 6 sampleScanValues false (sampleScanKeys 8)
      (Machine.run (Tenant.step sampleContext.posixSpace) sampleScans expectingTenant) with
  | error failure => simp [hscan, Except.isOk, Except.toBool] at hrun
  | ok applied =>
      have hkeys := run_integrity sampleContext.posixSpace expectingTenant_fresh.integrity
        sampleScans
      obtain ⟨line, hlines, hnames⟩ := hclaim sampleScans _ _ _ _ _ _ _ hscan
      obtain ⟨line', hlines', hid, hiff⟩ := names_of_receiveScan hkeys hscan
      obtain rfl : line' = line := by simpa [hlines'] using hlines
      have hearlier : (Machine.run (Tenant.step sampleContext.posixSpace) sampleScans
          expectingTenant).linesOf 6 |>.any (fun other => decide (other.id = 1209)) := by
        decide +kernel
      obtain ⟨other, hother, heq⟩ := List.any_eq_true.mp hearlier
      have hlt := hiff.mp hnames other hother
      rw [hid, of_decide_eq_true heq] at hlt
      exact absurd hlt (by decide)

end FleetOps
