import FleetOps.Assets.Tables
import FleetOps.Foundations.Query
import Mathlib.Data.List.Dedup

/-!
# Effective histories and their anomalies

A correction does not edit a history row.  It appends a pair under the same
root, a `REVERSAL` that repeats what it cancels and a `CORRECTED` replacement,
one generation up.  The effective view of a history keeps, of every root, the
newest generation; the anomaly view names the Assets whose rows do not form
such generations.
-/

namespace FleetOps

section

variable {φ : Type}

/-- `COALESCE(root, id)`, the assertion that a row belongs to. -/
def HistoryRow.rootId (row : HistoryRow φ) : Uuid := row.root.getD row.id

/-- A replacement in `rows` supersedes the row. -/
def superseded (rows : List (HistoryRow φ)) (row : HistoryRow φ) : Bool :=
  rows.any fun c => c.assetId == row.assetId && c.root == some row.rootId && c.role == .corrected &&
    decide (row.generation < c.generation)

/-- The view `effective_…` of a history. -/
def effective (rows : List (HistoryRow φ)) : List (HistoryRow φ) :=
  rows.filter fun row => row.role != .reversal && !superseded rows row

/-- The view's latest row of an Asset, `ORDER BY result_version DESC LIMIT 1`. -/
def latestEffective (rows : List (HistoryRow φ)) (asset : Uuid) : Option (HistoryRow φ) :=
  Query.latestBy HistoryRow.resultVersion ((effective rows).filter (·.assetId = asset))

/-- The view's latest row of an Asset below a version: what held before it. -/
def effectiveBefore (rows : List (HistoryRow φ)) (asset : Uuid) (version : ℕ) :
    Option (HistoryRow φ) :=
  Query.latestBy HistoryRow.resultVersion
    ((effective rows).filter fun row => row.assetId = asset ∧ row.resultVersion < version)

/-- The view of one Asset's rows is read from that Asset's rows alone. -/
theorem effective_filter (rows : List (HistoryRow φ)) (asset : Uuid) :
    (effective rows).filter (·.assetId = asset) =
      effective (rows.filter (·.assetId = asset)) := by
  unfold effective
  rw [List.filter_filter, List.filter_filter]
  refine List.filter_congr fun row hrow => ?_
  by_cases hasset : row.assetId = asset
  · have hsame : superseded rows row = superseded (rows.filter (·.assetId = asset)) row := by
      unfold superseded
      rw [List.any_filter]
      congr 1
      funext c
      by_cases hc : c.assetId = row.assetId
      · simp [hc, hasset]
      · simp [hc]
    simp [hasset, hsame]
  · simp [hasset]

/-! ## Anomalies -/

/-- `count(DISTINCT …)`. -/
def countDistinct {α : Type} [DecidableEq α] (values : List α) : ℕ := values.dedup.length

/-- A row whose own columns contradict its role. -/
def malformedRow (posixSpace : Char → Bool) (rows : List (HistoryRow φ)) (h : HistoryRow φ) :
    Bool :=
  let original := rows.find? fun r => r.assetId == h.assetId && some r.id == h.root
  if h.role = .none then
    h.root.isSome || h.pairId.isSome || h.generation != 0 || h.correctionOccurredAt.isSome
  else
    h.root.isNone || original.all (·.role != .none) || h.pairId.isNone ||
      decide (h.generation < 1) || h.correctionOccurredAt.isNone ||
      !hasNonSpace posixSpace h.reason || decide (4000 < h.reason.length) ||
      h.reason != normalizeCorrectionReason h.reason

/-- The rows that share a pair id are not one complete pair. -/
def malformedPair (rows : List (HistoryRow φ)) (pair : Option Uuid) : Bool :=
  let group := rows.filter fun h => h.role != .none && h.pairId == pair
  let reversals := (group.filter (·.role == .reversal)).map HistoryRow.resultVersion
  let corrected := (group.filter (·.role == .corrected)).map HistoryRow.resultVersion
  !group.isEmpty && (group.length != 2 || countDistinct (group.map HistoryRow.assetId) != 1 ||
    countDistinct (group.filterMap HistoryRow.root) != 1 ||
    countDistinct (group.map HistoryRow.generation) != 1 || reversals.length != 1 ||
    corrected.length != 1 || countDistinct (group.map HistoryRow.reason) != 1 ||
    countDistinct (group.map HistoryRow.actorId) != 1 ||
    countDistinct (group.filterMap HistoryRow.correctionOccurredAt) != 1 ||
    corrected.max? != reversals.max?.map (· + 1))

/-- The replacements of a root do not count its generations. -/
def malformedGenerations (rows : List (HistoryRow φ)) (asset : Uuid) (root : Option Uuid) : Bool :=
  let generations := (rows.filter fun h => h.role == .corrected && h.assetId == asset &&
    h.root == root).map HistoryRow.generation
  !generations.isEmpty && (some generations.length != generations.max? ||
    some (countDistinct generations) != generations.max?)

/-- A reversal's predecessor, the row that it cancels. -/
def cancels (h p : HistoryRow φ) : Bool :=
  p.assetId == h.assetId && ((h.generation == 1 && some p.id == h.root) ||
    (decide (1 < h.generation) && h.root.isSome && p.root == h.root &&
      p.generation + 1 == h.generation && p.role == .corrected))

/-- A reversal that does not repeat what it cancels. -/
def malformedReversal [DecidableEq φ] (rows : List (HistoryRow φ)) (h : HistoryRow φ) : Bool :=
  h.role == .reversal && rows.any fun p => cancels h p &&
    (h.resultVersion != p.resultVersion + 1 ||
      decide ((h.fromFact, h.toFact, h.occurredAt) ≠ (p.fromFact, p.toFact, p.occurredAt)))

end

/-- A replacement whose source is not the fact in force before its root. -/
def incoherentSource (tables : AssetTables) (k : HistoryClass) (c : HistoryRow (Fact k)) : Bool :=
  c.role == .corrected && (tables.history k).any fun r =>
    r.assetId == c.assetId && some r.id == c.root &&
      decide (c.fromFact ≠
        match effectiveBefore (tables.history k) c.assetId r.resultVersion with
        | some p => p.toFact
        | none => (tables.initialFacts? c.assetId).bind fun facts => facts.baseline k)

/-- `malformed_sql`: the Assets with malformed correction authority in one history. -/
def malformedSql (posixSpace : Char → Bool) (tables : AssetTables) (k : HistoryClass) : List Uuid :=
  let rows := tables.history k
  (rows.filter fun h => malformedRow posixSpace rows h ||
    (h.pairId.isSome && malformedPair rows h.pairId) ||
    (h.role == .corrected && malformedGenerations rows h.assetId h.root) ||
    malformedReversal rows h || incoherentSource tables k h).map HistoryRow.assetId

/-- `EVIDENCE_ANOMALIES`: a transition without the evidence it needs, a reversal that does not
repeat the evidence it cancels. -/
def evidenceAnomalies (refs : References) (tables : AssetTables) : List Uuid :=
  let rows : List (HistoryRow AssetState) := tables.history .transition
  (rows.filter fun h =>
    ((h.evidenceRef.isSome || (evidencePurpose h).isSome) &&
      !validAssetEvidence refs tables.orgId h.evidenceRef h.assetId (evidencePurpose h)) ||
    (h.role == .reversal && rows.any fun p => cancels h p && h.evidenceRef != p.evidenceRef)).map
      HistoryRow.assetId

/-- The view `asset_correction_anomalies`. -/
def assetCorrectionAnomalies (ctx : Context) (tables : AssetTables) : List Uuid :=
  HistoryClass.all.flatMap (malformedSql ctx.posixSpace tables) ++ evidenceAnomalies ctx.refs tables

/-- `check_…_pairs`, the deferred trigger of one history, for a row that a call inserted. -/
def checkPairs (ctx : Context) (k : HistoryClass) (asset : Uuid) (tables : AssetTables) :
    Sql Unit :=
  require (asset ∉ malformedSql ctx.posixSpace tables k ∧
      (k = .transition → asset ∉ evidenceAnomalies ctx.refs tables))
    .checkViolation "Malformed correction history"

/-- A class's projection disagrees with the effective history, or the creation witness. -/
def projectionInvalid (tables : AssetTables) (asset : AssetRow) (k : HistoryClass) : Bool :=
  let expected : Option (Projected k) :=
    match latestEffective (tables.history k) asset.id with
    | some row => if k.isPhysical ∧ (tables.initialFacts? asset.id).isNone then none
        else row.projected k
    | none => (tables.initialFacts? asset.id).bind fun facts => factProjected k (facts.baseline k)
  asset.projection k ≠ expected

end FleetOps
