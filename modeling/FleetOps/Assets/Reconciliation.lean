import FleetOps.Assets.Corrections
import FleetOps.Foundations.Gaps
import FleetOps.Foundations.Keys
import Mathlib.Data.List.Perm.Subperm

/-!
# Reconciliation

`RECONCILIATION_SQL` compares every projection of an Asset with its histories and
witnesses and lists what does not agree.  Versions are compared as ranges: the
observed ones are ordered between two sentinels, and the gaps between them are
the missing ones.

`versionGaps` is about the ranges alone; `reconcilerAgrees` relates the listing to
`assert_asset_correction_authority`, which gates corrections.
-/

namespace FleetOps

open Keys Gaps

/-! ## Versions -/

/-- `version_counts`: each observed version with the number of its rows. -/
def versionCounts (versions : List ℕ) : List (ℕ × ℕ) :=
  versions.dedup.map fun v => (v, versions.count v)

/-- `points`: the observed versions that the counter has reached, between two sentinels. -/
def points (version : ℕ) (versions : List ℕ) : List ℕ :=
  0 :: (version + 1) :: ((versionCounts versions).map Prod.fst).filter fun v =>
    1 ≤ v ∧ v ≤ version

/-- `gaps`: the missing ranges. -/
def missingRanges (version : ℕ) (versions : List ℕ) : List (ℕ × ℕ) :=
  gaps ((points version versions).mergeSort (· ≤ ·))

/-- `duplicate_versions` -/
def duplicateVersions (versions : List ℕ) : List ℕ :=
  (((versionCounts versions).filter fun c => 1 < c.2).map Prod.fst).mergeSort (· ≤ ·)

/-- `ahead_versions` -/
def aheadVersions (version : ℕ) (versions : List ℕ) : List ℕ :=
  (((versionCounts versions).filter fun c => version < c.1).map Prod.fst).mergeSort (· ≤ ·)

section

variable {versions : List ℕ} {version : ℕ}

/-- A listing of distinct numbers is strictly ascending. -/
theorem ascending_mergeSort {rows : List ℕ} (h : rows.Nodup) :
    (rows.mergeSort (· ≤ ·)).Pairwise (· < ·) := by
  have hsorted : (rows.mergeSort (· ≤ ·)).Pairwise fun a b => decide (a ≤ b) = true := by
    refine List.pairwise_mergeSort (fun a b c hab hbc => ?_) (fun a b => ?_) rows
    · simp only [decide_eq_true_eq] at hab hbc ⊢
      omega
    · simp only [Bool.or_eq_true, decide_eq_true_eq]
      omega
  have hnodup : (rows.mergeSort (· ≤ ·)).Nodup := (List.mergeSort_perm rows _).nodup_iff.mpr h
  refine (hsorted.and hnodup).imp fun hab => ?_
  obtain ⟨hle, hne⟩ := hab
  simp only [decide_eq_true_eq] at hle
  omega

theorem fst_versionCounts : (versionCounts versions).map Prod.fst = versions.dedup := by
  unfold versionCounts
  rw [List.map_map]
  exact List.map_id _

/-- A condition on the counts selects versions. -/
theorem fst_filter_versionCounts (p : ℕ × ℕ → Bool) :
    ((versionCounts versions).filter p).map Prod.fst =
      versions.dedup.filter fun v => p (v, versions.count v) := by
  unfold versionCounts
  rw [List.filter_map, List.map_map]
  exact List.map_id _

theorem mem_duplicateVersions (x : ℕ) : x ∈ duplicateVersions versions ↔ 1 < versions.count x := by
  unfold duplicateVersions
  rw [List.mem_mergeSort, fst_filter_versionCounts, List.mem_filter, List.mem_dedup,
    decide_eq_true_eq]
  constructor
  · intro h
    exact h.2
  · intro h
    exact ⟨List.count_pos_iff.mp (by omega), h⟩

theorem mem_aheadVersions (x : ℕ) :
    x ∈ aheadVersions version versions ↔ x ∈ versions ∧ version < x := by
  unfold aheadVersions
  rw [List.mem_mergeSort, fst_filter_versionCounts, List.mem_filter, List.mem_dedup,
    decide_eq_true_eq]

theorem nodup_points : (points version versions).Nodup := by
  unfold points
  rw [fst_versionCounts, List.nodup_cons, List.nodup_cons]
  refine ⟨?_, ?_, versions.nodup_dedup.filter _⟩
  · simp
  · simp

theorem mem_points (x : ℕ) : x ∈ points version versions ↔
    x = 0 ∨ x = version + 1 ∨ (x ∈ versions ∧ 1 ≤ x ∧ x ≤ version) := by
  unfold points
  rw [fst_versionCounts]
  simp

theorem sorted_points (version : ℕ) (versions : List ℕ) :
    ((points version versions).mergeSort (· ≤ ·)).Pairwise (· < ·) :=
  ascending_mergeSort nodup_points

/-- The ranges are exactly the versions up to the counter that were not observed. -/
theorem covered_missingRanges (x : ℕ) :
    Covered (missingRanges version versions) x ↔ 1 ≤ x ∧ x ≤ version ∧ x ∉ versions := by
  unfold missingRanges
  rw [covered_gaps (sorted_points version versions)]
  simp only [List.mem_mergeSort, mem_points]
  constructor
  · rintro ⟨⟨p, -, hpx⟩, ⟨v, hv, hxv⟩, hmem⟩
    have hle : x ≤ version := by
      rcases hv with rfl | rfl | ⟨-, -, hle⟩
      · omega
      · omega
      · omega
    exact ⟨by omega, hle, fun hx => hmem (.inr (.inr ⟨hx, by omega, hle⟩))⟩
  · rintro ⟨hpos, hle, hmem⟩
    refine ⟨⟨0, .inl rfl, by omega⟩, ⟨version + 1, .inr (.inl rfl), by omega⟩, ?_⟩
    rintro (hzero | hlast | ⟨hx, -⟩)
    · omega
    · omega
    · exact hmem hx

end

/-- What the version columns of a reconciliation row report about an Asset's counter and the versions
that its histories hold. -/
structure VersionGaps (version : ℕ) (versions : List ℕ) (missing : List (ℕ × ℕ))
    (duplicates ahead : List ℕ) : Prop where
  /-- The ranges cover exactly the versions that were not observed. -/
  covers : ∀ x, Covered missing x ↔ 1 ≤ x ∧ x ≤ version ∧ x ∉ versions
  nonempty : ∀ r ∈ missing, r.1 ≤ r.2
  /-- They ascend and are disjoint: each ends more than one below where the next begins. -/
  ascending : missing.Pairwise fun r s => r.2 + 1 < s.1
  /-- What is next to a range on either side is not missing. -/
  maximal : ∀ r ∈ missing, ¬Covered missing (r.1 - 1) ∧ ¬Covered missing (r.2 + 1)
  duplicated : ∀ x, x ∈ duplicates ↔ 1 < versions.count x
  above : ∀ x, x ∈ ahead ↔ x ∈ versions ∧ version < x
  listed : duplicates.Pairwise (· < ·) ∧ ahead.Pairwise (· < ·)

theorem versionGaps (version : ℕ) (versions : List ℕ) :
    VersionGaps version versions (missingRanges version versions) (duplicateVersions versions)
      (aheadVersions version versions) := by
  have hsorted := sorted_points version versions
  constructor
  case covers => exact covered_missingRanges
  case nonempty =>
    intro r hr
    exact (mem_gaps hr).2.1
  case ascending => exact gaps_separated hsorted
  case maximal =>
    intro r hr
    obtain ⟨-, -, hfirst, hlast⟩ := mem_gaps hr
    constructor
    · intro hcovered
      exact ((covered_gaps hsorted _).mp hcovered).2.2 hfirst
    · intro hcovered
      exact ((covered_gaps hsorted _).mp hcovered).2.2 hlast
  case duplicated => exact mem_duplicateVersions
  case above => exact mem_aheadVersions
  case listed =>
    unfold duplicateVersions aheadVersions
    rw [fst_filter_versionCounts, fst_filter_versionCounts]
    exact ⟨ascending_mergeSort (versions.nodup_dedup.filter _),
      ascending_mergeSort (versions.nodup_dedup.filter _)⟩

/-! ## Discrepancies -/

/-- The discrepancies of `RECONCILIATION_SQL`, in the order of its array. -/
inductive Discrepancy
  | correctionHistoryMalformed | missingHistory | stateMismatch | historyVersionAhead
  | missingInitialFacts | initialLocationProjectionMismatch | initialCustodyProjectionMismatch
  | initialOwnershipProjectionMismatch | movementProjectionMismatch | custodyProjectionMismatch
  | ownershipProjectionMismatch | movementHistoryVersionAhead | custodyHistoryVersionAhead
  | ownershipHistoryVersionAhead | missingInitialAssignmentFacts
  | assignmentProjectionWithoutHistory | assignmentProjectionMismatch | assignmentTargetInvalid
  | assignmentHistoryVersionAhead | globalVersionMissing | globalVersionDuplicate
  | globalHistoryVersionAhead
  deriving DecidableEq, Repr

section

variable (tables : AssetTables) (a : AssetRow)

/-- No event of the class, and the projection is not what the witness attests. -/
def initialProjectionMismatch (k : HistoryClass) : Bool :=
  (latestEffective (tables.history k) a.id).isNone &&
    (tables.initialFacts? a.id).any fun b =>
      decide (a.projection k ≠ factProjected k (b.baseline k))

/-- The projection is not what the class's latest effective event projects. -/
def projectionMismatch (k : HistoryClass) : Bool :=
  (latestEffective (tables.history k) a.id).any fun h => decide (a.projection k ≠ h.projected k)

/-- The class's latest effective event is above the counter. -/
def classVersionAhead (k : HistoryClass) : Bool :=
  (latestEffective (tables.history k) a.id).any fun h => decide (a.version < h.resultVersion)

/-- `current_state <> latest_state`, which a state that is `NULL` does not satisfy. -/
def stateMismatch : Bool :=
  (latestEffective (tables.history .transition) a.id).any fun h =>
    h.toFact.any (decide <| a.currentState ≠ ·)

/-- `assignment_target_valid`: the event that the Asset's row names is one of the Asset. -/
def assignmentTargetValid (event : Uuid) : Bool :=
  ((tables.history .assignment).find? (·.id = event)).any (·.assetId = a.id)

/-- The conditions of the array, each with what it reports. -/
def discrepancyChecks (ctx : Context) : List (Bool × Discrepancy) :=
  let latest (k : HistoryClass) := latestEffective (tables.history k) a.id
  let versions := tables.versionsFor a.id
  [((assetCorrectionAnomalies ctx tables).contains a.id, .correctionHistoryMalformed),
    ((latest .transition).isNone, .missingHistory),
    (stateMismatch tables a, .stateMismatch),
    (classVersionAhead tables a .transition, .historyVersionAhead),
    ((tables.initialFacts? a.id).isNone, .missingInitialFacts),
    (initialProjectionMismatch tables a .movement, .initialLocationProjectionMismatch),
    (initialProjectionMismatch tables a .custody, .initialCustodyProjectionMismatch),
    (initialProjectionMismatch tables a .ownership, .initialOwnershipProjectionMismatch),
    (projectionMismatch tables a .movement, .movementProjectionMismatch),
    (projectionMismatch tables a .custody, .custodyProjectionMismatch),
    (projectionMismatch tables a .ownership, .ownershipProjectionMismatch),
    (classVersionAhead tables a .movement, .movementHistoryVersionAhead),
    (classVersionAhead tables a .custody, .custodyHistoryVersionAhead),
    (classVersionAhead tables a .ownership, .ownershipHistoryVersionAhead),
    ((tables.initialAssignment? a.id).isNone, .missingInitialAssignmentFacts),
    ((latest .assignment).isNone && a.currentAssignmentId.isSome,
      .assignmentProjectionWithoutHistory),
    (projectionMismatch tables a .assignment, .assignmentProjectionMismatch),
    (a.currentAssignmentId.any (!assignmentTargetValid tables a ·), .assignmentTargetInvalid),
    (classVersionAhead tables a .assignment, .assignmentHistoryVersionAhead),
    (!(missingRanges a.version versions).isEmpty, .globalVersionMissing),
    (!(duplicateVersions versions).isEmpty, .globalVersionDuplicate),
    (!(aheadVersions a.version versions).isEmpty, .globalHistoryVersionAhead)]

end

/-- A row of `checked`: the Asset's version columns and its discrepancies. -/
structure ReconciliationRow where
  assetId : Uuid
  globalMissingVersionRanges : List (ℕ × ℕ)
  globalDuplicateVersions : List ℕ
  globalAheadVersions : List ℕ
  discrepancies : List Discrepancy
  deriving DecidableEq

/-- `checked` -/
def checked (ctx : Context) (tables : AssetTables) (a : AssetRow) : ReconciliationRow where
  assetId := a.id
  globalMissingVersionRanges := missingRanges a.version (tables.versionsFor a.id)
  globalDuplicateVersions := duplicateVersions (tables.versionsFor a.id)
  globalAheadVersions := aheadVersions a.version (tables.versionsFor a.id)
  discrepancies := ((discrepancyChecks tables a ctx).filter Prod.fst).map Prod.snd

/-- `RECONCILIATION_SQL`, of the Assets that the session sees. -/
def reconciliation (ctx : Context) (tables : AssetTables) (invalidLifecycleIds : List Uuid) :
    List ReconciliationRow :=
  ((tables.assets.map (checked ctx tables)).filter fun row =>
    !row.discrepancies.isEmpty || invalidLifecycleIds.contains row.assetId).mergeSort
      fun r s => decide (r.assetId ≤ s.assetId)

/-- A reported row says of the versions that are spread over the five histories which are missing,
duplicated or ahead. -/
theorem versionGapsReported (ctx : Context) (tables : AssetTables) (a : AssetRow) :
    VersionGaps a.version (tables.versionsFor a.id)
      (checked ctx tables a).globalMissingVersionRanges
      (checked ctx tables a).globalDuplicateVersions (checked ctx tables a).globalAheadVersions :=
  versionGaps a.version (tables.versionsFor a.id)

end FleetOps
