import FleetOps.Assets.Calls
import FleetOps.Foundations.Machine
import Mathlib.Data.List.Pairwise

/-!
# Optimistic concurrency on an Asset

Every function locks the Asset's row and compares its version with the one the
caller expected, so concurrent calls take effect one after another.  A run is
the list of calls in the order they obtained the lock, whoever sent them.  The
committed calls are then exactly ordered by the versions they expected, and the
run is those calls replayed alone in that order.

Nothing is assumed of the tables that a run starts from.
-/

namespace FleetOps

/-- The version of an Asset's row. -/
def AssetTables.versionOf (tables : AssetTables) (id : Uuid) : ℕ :=
  ((tables.assets.find? (·.id = id)).map AssetRow.version).getD 0

/-- The versions and roles of the rows that a call writes when it is accepted at version `n`. -/
def Call.writes (call : Call) (n : ℕ) : List (ℕ × CorrectionRole) :=
  match call with
  | .correct .. => [(n + 1, .reversal), (n + 2, .corrected)]
  | _ => [(n + 1, .none)]

/-- A committed call moved its Asset from version `n`, writing to its own history and projection
and to nothing else. -/
structure Advances (commit : Machine.Commit (Context × Call) AssetTables) (n : ℕ) : Prop where
  expected : commit.action.2.expectedVersion = some n
  fits : n + commit.action.2.produces ≤ intMax
  asset : ∃ before after,
    commit.before.assets.find? (·.id = commit.action.2.assetId) = some before ∧
    commit.after.assets.find? (·.id = commit.action.2.assetId) = some after ∧
    before.version = n ∧ after.version = n + commit.action.2.produces ∧
    ∀ k, k ≠ commit.action.2.historyClass → after.projection k = before.projection k
  rows : ∃ rows, commit.after.history commit.action.2.historyClass =
      commit.before.history commit.action.2.historyClass ++ rows ∧
    (∀ row ∈ rows, row.assetId = commit.action.2.assetId) ∧
    rows.map (fun row => (row.resultVersion, row.role)) = commit.action.2.writes n
  histories : ∀ k, k ≠ commit.action.2.historyClass →
    commit.after.history k = commit.before.history k
  others : ∀ id, id ≠ commit.action.2.assetId →
    commit.after.assets.find? (·.id = id) = commit.before.assets.find? (·.id = id)

/-- What recording rows for an Asset does to the tables, whichever call records them. -/
private theorem advances_of_record (call : Call) (updated : AssetRow) {ctx : Context}
    {tables : AssetTables} {org : Uuid} {asset projected : AssetRow}
    {rows : List (HistoryRow (Fact call.historyClass))}
    {value : Option (Projected call.historyClass)}
    (hfound : tables.asset? org call.assetId = some asset)
    (hexpected : call.expectedVersion = some asset.version)
    (hfits : asset.version + call.produces ≤ intMax)
    (hasset : ∀ row ∈ rows, row.assetId = asset.id)
    (hrows : rows.map (fun row => (row.resultVersion, row.role)) = call.writes asset.version)
    (hupdated : updated.id = asset.id ∧ ∀ k, updated.projection k = asset.projection k)
    (hprojected : updated.setProjection call.historyClass value = .ok projected) :
    Advances ⟨tables, (ctx, call), tables.record call.historyClass rows
      (projected.atVersion (asset.version + call.produces))⟩ asset.version := by
  obtain ⟨hid, hframe⟩ := setProjection_frame hprojected
  have hasset_id := asset?_id hfound
  have hkey : projected.id = call.assetId := hid.trans (hupdated.1.trans hasset_id)
  have hfind := (asset?_eq_some.mp hfound).2
  refine ⟨hexpected, hfits, ⟨asset, projected.atVersion (asset.version + call.produces),
    hfind, ?_, rfl, rfl, ?_⟩, ⟨rows, AssetTables.history_record, ?_, hrows⟩, ?_, ?_⟩
  · rw [← hkey] at hfind ⊢
    exact AssetTables.find_record_self (projected.atVersion (asset.version + call.produces)) hfind
  · intro k hk
    rw [AssetRow.projection_atVersion, hframe k hk, hupdated.2 k]
  · exact fun row hrow => (hasset row hrow).trans hasset_id
  · exact fun k hk => AssetTables.history_record_of_ne hk
  · intro id hne
    refine AssetTables.find_record_other ?_
    simpa [hkey] using hne

/-- Every accepted call advances its Asset from the version it expected. -/
theorem advances_of_perform {request : Context × Call} {tables after : AssetTables}
    (h : perform request tables = .ok after) :
    ∃ n, Advances ⟨tables, request, after⟩ n := by
  obtain ⟨ctx, call⟩ := request
  rcases perform_cases h with ⟨hone, asset, row, hrecorded⟩ | ⟨k, args, rfl, asset, original, head,
    reversal, corrected, hamended⟩
  · obtain ⟨org, hfound⟩ := hrecorded.found
    obtain ⟨projected, hprojected, rfl⟩ := hrecorded.after_eq
    refine ⟨asset.version, ?_⟩
    rw [← hone]
    refine advances_of_record call asset hfound hrecorded.version (hone ▸ hrecorded.fits) ?_ ?_
      ⟨rfl, fun _ => rfl⟩ hprojected
    · simpa using hrecorded.row_asset
    · cases call <;> simp_all [Call.writes, Call.produces, hrecorded.row_version,
        hrecorded.row_role]
  · obtain ⟨org, hfound⟩ := hamended.found
    obtain ⟨_, _, hreversal, hcorrected⟩ := hamended.rows_eq
    obtain ⟨actor, now, projected, hprojected, rfl⟩ := hamended.after_eq
    refine ⟨asset.version, advances_of_record (.correct k args) (asset.updatedBy actor now) hfound
      hamended.version hamended.fits hamended.rows_asset ?_ ⟨rfl, fun _ => by simp⟩ hprojected⟩
    rw [hreversal, hcorrected]
    rfl

/-- A committed call raises its Asset's version by what it produces. -/
theorem Advances.versionOf {commit : Machine.Commit (Context × Call) AssetTables} {n : ℕ}
    (h : Advances commit n) :
    commit.before.versionOf commit.action.2.assetId = n ∧
      commit.after.versionOf commit.action.2.assetId = n + commit.action.2.produces := by
  obtain ⟨before, after, hbefore, hafter, hversion, hraised, -⟩ := h.asset
  simp [AssetTables.versionOf, hbefore, hafter, hversion, hraised]

theorem Call.produces_pos (call : Call) : 0 < call.produces := by
  cases call <;> simp [Call.produces]

/-- One request expects a lower version than another, or the same. -/
def ExpectsNoLater (earlier later : Context × Call) : Prop :=
  ∃ n m, earlier.2.expectedVersion = some n ∧ later.2.expectedVersion = some m ∧ n ≤ m

/-- What a run of calls against one Asset does, from any tables. -/
structure OptimisticConcurrency (requests : List (Context × Call)) (tables : AssetTables) : Prop where
  /-- Each committed call moved the version from the one it expected, and touched its own class. -/
  advance : ∀ commit ∈ Machine.commits perform requests tables, ∃ n, Advances commit n
  /-- At most one call commits at each version. -/
  unique : ∀ n, ((Machine.commits perform requests tables).map
    fun commit => commit.action.2.expectedVersion).count (some n) ≤ 1
  /-- The run is its committed calls replayed alone in version order. -/
  serial : ∀ replay : List (Context × Call),
    replay.Perm ((Machine.commits perform requests tables).map Machine.Commit.action) →
    replay.Pairwise ExpectsNoLater →
    Machine.run perform replay tables = Machine.run perform requests tables
  /-- A call that expects another version, or would exceed the integer range, is refused. -/
  losing : ∀ earlier request later, requests = earlier ++ request :: later →
    (request.2.expectedVersion ≠ some ((Machine.run perform earlier tables).versionOf
        request.2.assetId) ∨
      (∃ n, request.2.expectedVersion = some n ∧ intMax < n + request.2.produces)) →
    ∃ error, perform request (Machine.run perform earlier tables) = .error error
  /-- A refused call changes nothing. -/
  refused : ∀ earlier request later, requests = earlier ++ request :: later →
    (∃ error, perform request (Machine.run perform earlier tables) = .error error) →
    Machine.run perform (earlier ++ [request]) tables = Machine.run perform earlier tables

/-- The committed calls expect strictly increasing versions. -/
theorem commits_versions {assetId : Uuid} {requests : List (Context × Call)}
    (hasset : ∀ request ∈ requests, request.2.assetId = assetId) (tables : AssetTables) :
    (Machine.commits perform requests tables).Pairwise fun earlier later =>
      ∃ n m, earlier.action.2.expectedVersion = some n ∧
        later.action.2.expectedVersion = some m ∧ n < m := by
  have hrise : ∀ (request : Context × Call) (state next : AssetTables),
      request.2.assetId = assetId → perform request state = .ok next → True →
        state.versionOf assetId < next.versionOf assetId := by
    rintro request state next rfl hperform -
    obtain ⟨n, hadvance⟩ := advances_of_perform hperform
    obtain ⟨hbefore, hafter⟩ := hadvance.versionOf
    have hpos := request.2.produces_pos
    simp only at hbefore hafter
    omega
  have hordered :=
    (Machine.commits_pairwise perform (fun _ => True) (fun request => request.2.assetId = assetId)
    (fun tables => AssetTables.versionOf tables assetId) (fun _ _ _ _ _ _ => trivial) hrise
    requests tables hasset trivial).2
  have hcommitted := Machine.commits_forall perform (fun _ => True)
    (fun request => request.2.assetId = assetId)
    (fun _ _ _ _ _ _ => trivial) requests tables hasset trivial
  refine hordered.imp_of_mem fun {earlier later} hearlier hlater hle => ?_
  obtain ⟨-, hearlierAsset, hfirst⟩ := hcommitted earlier hearlier
  obtain ⟨-, hlaterAsset, hsecond⟩ := hcommitted later hlater
  obtain ⟨n, hn⟩ := advances_of_perform hfirst
  obtain ⟨m, hm⟩ := advances_of_perform hsecond
  refine ⟨n, m, hn.expected, hm.expected, ?_⟩
  have hafter := hn.versionOf.2
  have hbefore := hm.versionOf.1
  have hpos := earlier.action.2.produces_pos
  simp only [hearlierAsset, hlaterAsset] at hafter hbefore
  omega

/-- Any interleaving of calls against one Asset is serialised by its version. -/
theorem optimisticConcurrency (assetId : Uuid) (requests : List (Context × Call))
    (hasset : ∀ request ∈ requests, request.2.assetId = assetId) (tables : AssetTables) :
    OptimisticConcurrency requests tables := by
  have hversions := commits_versions hasset tables
  have hcommitted := Machine.commits_forall perform (fun _ => True)
    (fun request => request.2.assetId = assetId)
    (fun _ _ _ _ _ _ => trivial) requests tables hasset trivial
  have hnodup : ((Machine.commits perform requests tables).map
      fun commit => commit.action.2.expectedVersion).Nodup := by
    refine List.pairwise_map.mpr (hversions.imp ?_)
    rintro earlier later ⟨n, m, hn, hm, hlt⟩ heq
    rw [hn, hm, Option.some.injEq] at heq
    omega
  refine ⟨?_, ?_, ?_, ?_, ?_⟩
  · intro commit hcommit
    exact advances_of_perform (hcommitted commit hcommit).2.2
  · exact fun n => List.nodup_iff_count_le_one.mp hnodup (some n)
  · intro replay hperm hreplay
    have hordered : ((Machine.commits perform requests tables).map Machine.Commit.action).Pairwise
        ExpectsNoLater :=
      List.pairwise_map.mpr (hversions.imp fun ⟨n, m, hn, hm, hlt⟩ => ⟨n, m, hn, hm, hlt.le⟩)
    have hactions : (((Machine.commits perform requests tables).map Machine.Commit.action).map
        fun request => request.2.expectedVersion).Nodup := by
      rwa [List.map_map]
    have heq : replay = (Machine.commits perform requests tables).map Machine.Commit.action := by
      refine List.Perm.eq_of_pairwise ?_ hreplay hordered hperm
      rintro first second hfirst hsecond ⟨n, m, hn, hm, hle⟩ ⟨m', n', hm', hn', hge⟩
      refine List.inj_on_of_nodup_map hactions (hperm.subset hfirst) hsecond ?_
      rw [hn] at hn' ⊢
      rw [hm] at hm' ⊢
      simp only [Option.some.injEq] at hn' hm' ⊢
      omega
    rw [heq, Machine.run_committed]
  · rintro earlier request later - hlosing
    cases hperform : perform request (Machine.run perform earlier tables) with
    | error error => exact ⟨error, rfl⟩
    | ok next =>
        obtain ⟨n, hadvance⟩ := advances_of_perform hperform
        obtain ⟨hbefore, -⟩ := hadvance.versionOf
        have hexpected := hadvance.expected
        have hfits := hadvance.fits
        simp only at hbefore hexpected hfits
        rcases hlosing with hstale | ⟨m, hm, hover⟩
        · exact absurd (hexpected.trans (congrArg some hbefore.symm)) hstale
        · rw [hexpected, Option.some.injEq] at hm
          omega
  · rintro earlier request later - ⟨error, hrefused⟩
    rw [Machine.run_append, Machine.run_cons, Machine.run_nil, Machine.attempt_of_error hrefused]

/-! ## Three calls against one Asset -/

/-- A dock worker's session. -/
def sampleContext : Context :=
  { session :=
      { organization := some 100, credential := some ⟨100, some 1⟩, actorHint := none
        now := .at 50 }
    refs := { actors := [1], parties := [2], locations := [3, 4], attachments := []
              attachmentLinks := [] }
    posixSpace := fun c => c == ' ' }

/-- The tables of a radio that was just received. -/
def sampleTables : AssetTables :=
  { orgId := 100
    assets :=
      [{ id := 8, itemId := 5, assetTag := "A-1", description := "Radio", ownerPartyId := 2
         custodianPartyId := none, currentLocationId := some 3, currentAssignmentId := none
         currentState := .received, version := 1, createdByActorId := 1, updatedByActorId := 1
         createdAt := .at 41, updatedAt := .at 41 }]
    history := fun
      | .transition =>
          [{ id := 10, assetId := 8, resultVersion := 1, fromFact := none
             toFact := some .received, reason := "Physical unit received", actorId := 1
             occurredAt := .at 40, recordedAt := .at 41 }]
      | _ => []
    initialFacts :=
      [{ assetId := 8, initialOwnerPartyId := 2, initialCustodianPartyId := none
         initialLocationId := some 3, actorId := 1, occurredAt := .at 40, recordedAt := .at 41 }]
    initialAssignmentFacts := [{ assetId := 8, actorId := 1, occurredAt := .at 40
                                 recordedAt := .at 41 }] }

/-- A move, a change that expects the version before it, and a correction of the move. -/
def sampleRequests : List (Context × Call) :=
  let change : ChangeArgs :=
    { assetId := 8, expectedVersion := some 1, reason := some "Shelved"
      occurredAt := some (.at 60), clientOpId := none, historyId := some 11 }
  let correction : CorrectionArgs .movement :=
    { assetId := 8, rootId := 11, expectedVersion := some 2, target := some (3 : Uuid)
      reason := some "Wrong shelf", correctionOccurredAt := some (.at 70), occurredAt := none
      pairId := some 12, reversalId := some 13, correctedId := some 14 }
  [(sampleContext, .moveAsset change (some 4)), (sampleContext, .changeCustody change (some 2)),
    (sampleContext, .correct .movement correction)]

theorem optimisticConcurrency_sample :
    OptimisticConcurrency sampleRequests sampleTables ∧
      (Machine.run perform sampleRequests sampleTables).versionOf 8 = 4 :=
  ⟨optimisticConcurrency 8 sampleRequests (by decide) sampleTables, by decide +kernel⟩

end FleetOps
