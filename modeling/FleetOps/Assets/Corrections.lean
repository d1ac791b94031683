import FleetOps.Assets.Operations

/-!
# The correction functions

`correction_sql` is one template for five functions, one for each class.  A
correction replaces the Asset's newest assertion: its root's effective head
must be the row that produced the Asset's version.  It appends the `REVERSAL`
one version up and the `CORRECTED` row two versions up, whose source is the
fact that was in force before the root.

`Amended` says what an accepted correction did.
-/

namespace FleetOps

/-- The arguments of a correction function. -/
structure CorrectionArgs (k : HistoryClass) where
  assetId : Uuid
  rootId : Uuid
  expectedVersion : Option ℕ
  target : Target k
  reason : Option String
  correctionOccurredAt : Option Timestamp
  occurredAt : Option Timestamp
  pairId : Option Uuid
  reversalId : Option Uuid
  correctedId : Option Uuid
  /-- `p_evidence_ref`, an argument of `correct_transition` only. -/
  evidenceRef : Option Uuid := none

/-- `assert_asset_correction_authority`: every projection agrees with its history, no history is
malformed, both witnesses are there, and the versions count without a gap. -/
def assertAssetCorrectionAuthority (ctx : Context) (tables : AssetTables) (asset : AssetRow) :
    Sql Unit := do
  let versions := tables.versionsFor asset.id
  require (HistoryClass.all.all fun k => !projectionInvalid tables asset k) .raiseException
    "Asset authority incomplete"
  require (asset.id ∉ assetCorrectionAnomalies ctx tables) .raiseException
    "Asset authority incomplete"
  require ((tables.initialFacts? asset.id).isSome ∧ (tables.initialAssignment? asset.id).isSome)
    .raiseException "Asset authority incomplete"
  require (versions.length = asset.version ∧ countDistinct versions = asset.version ∧
      versions.min? = some 1 ∧ versions.max? = some asset.version)
    .raiseException "Asset authority incomplete"

/-- The effective head of a root. -/
def effectiveHead (tables : AssetTables) (k : HistoryClass) (asset root : Uuid) :
    Option (HistoryRow (Fact k)) :=
  (effective (tables.history k)).find? fun h =>
    h.assetId = asset ∧ (h.id = root ∨ h.root = some root)

/-- Where no fact precedes the root, a physical class falls back on the creation witness, the
assignment on its own witness, and the lifecycle has no correctable assertion. -/
def correctionFallback (tables : AssetTables) (asset : Uuid) :
    (k : HistoryClass) → Sql (Option (Fact k))
  | .transition => raise .checkViolation "Creation is not correctable"
  | .movement => do
      let facts ← demand (tables.initialFacts? asset) .raiseException "Missing physical witness"
      pure (facts.baseline .movement)
  | .custody => do
      let facts ← demand (tables.initialFacts? asset) .raiseException "Missing physical witness"
      pure (facts.baseline .custody)
  | .ownership => do
      let facts ← demand (tables.initialFacts? asset) .raiseException "Missing physical witness"
      pure (facts.baseline .ownership)
  | .assignment => do
      require (tables.initialAssignment? asset).isSome .raiseException "Missing assignment witness"
      pure none

/-- The fact in force before the root, the source of its replacement. -/
def correctionPrior (tables : AssetTables) (k : HistoryClass) (asset : Uuid)
    (original : HistoryRow (Fact k)) : Sql (Option (Fact k)) :=
  match effectiveBefore (tables.history k) asset original.resultVersion with
  | some previous => pure previous.toFact
  | none => correctionFallback tables asset k

/-- The check of a correction's target, which each class has of its own. -/
def correctionCheck (refs : References) :
    (k : HistoryClass) → Target k → Option (Fact k) → Sql Unit
  | .transition, _, _ => pure ()
  | .movement, location, _ =>
      require (factReference refs .movement location) .foreignKeyViolation "Invalid physical target"
  | .custody, party, _ =>
      require (factReference refs .custody party) .foreignKeyViolation "Invalid physical target"
  | .ownership, party, _ => do
      require (factReference refs .ownership party) .foreignKeyViolation "Invalid physical target"
      require party.isSome .notNullViolation "Owner required"
  | .assignment, (type, id), prior => do
      require (type.isNone = id.isNone ∧ (id.isSome ∨ prior.isSome)) .checkViolation
        "Invalid assignment correction"
      require (prior.all (assigneeExists refs) ∧
          (Target.fact .assignment (type, id)).all (assigneeExists refs))
        .foreignKeyViolation "Invalid assignment target"

/-- The reason, time and keys of a correction pair. -/
structure CorrectionMetadata where
  reason : String
  correctionOccurredAt : Timestamp
  pairId : Uuid
  reversalId : Uuid
  correctedId : Uuid

/-- The metadata check of a correction function. -/
def correctionMetadata {k : HistoryClass} (args : CorrectionArgs k) : Sql CorrectionMetadata := do
  let message := "Correction metadata required"
  let reason ← demand (args.reason.map normalizeCorrectionReason) .checkViolation message
  require (1 ≤ reason.length ∧ reason.length ≤ 4000) .checkViolation message
  let correctionOccurredAt ← demand args.correctionOccurredAt .checkViolation message
  require correctionOccurredAt.isFinite .checkViolation message
  let pairId ← demand args.pairId .checkViolation message
  let reversalId ← demand args.reversalId .checkViolation message
  let correctedId ← demand args.correctedId .checkViolation message
  pure { reason, correctionOccurredAt, pairId, reversalId, correctedId }

/-- The `REVERSAL`, which repeats the head that it cancels. -/
def reversalRow {k : HistoryClass} (ctx : Context) (actor : Uuid) (asset : AssetRow) (root : Uuid)
    (head : HistoryRow (Fact k)) (metadata : CorrectionMetadata) (version : ℕ) :
    HistoryRow (Fact k) :=
  { id := metadata.reversalId, assetId := asset.id, resultVersion := version
    fromFact := head.fromFact, toFact := head.toFact, reason := metadata.reason, actorId := actor
    occurredAt := head.occurredAt, recordedAt := ctx.session.now, evidenceRef := head.evidenceRef
    root := some root, role := .reversal, pairId := some metadata.pairId
    generation := head.generation + 1
    correctionOccurredAt := some metadata.correctionOccurredAt }

/-- The `CORRECTED` row, from the fact before the root to the target. -/
def correctedRow {k : HistoryClass} (ctx : Context) (actor : Uuid) (asset : AssetRow)
    (head : HistoryRow (Fact k)) (args : CorrectionArgs k) (prior : Option (Fact k))
    (metadata : CorrectionMetadata) (version : ℕ) : HistoryRow (Fact k) :=
  { id := metadata.correctedId, assetId := asset.id, resultVersion := version
    fromFact := prior, toFact := Target.fact k args.target, reason := metadata.reason
    actorId := actor, occurredAt := args.occurredAt.getD head.occurredAt
    recordedAt := ctx.session.now, evidenceRef := args.evidenceRef, root := some args.rootId
    role := .corrected, pairId := some metadata.pairId, generation := head.generation + 1
    correctionOccurredAt := some metadata.correctionOccurredAt }

/-- `correction_sql`, the template of the correction functions. -/
def correctionSql (ctx : Context) (k : HistoryClass) (args : CorrectionArgs k)
    (tables : AssetTables) : Sql (Produced k) := do
  let org ← trustedOrganization ctx.session "Trusted credential context required"
  require (ctx.session.actorHint = none) .insufficientPrivilege
    "Trusted credential context required"
  let actor ← currentAuthenticatedActor ctx.session
  let asset ← lockAsset tables org args.assetId args.expectedVersion "Stale Asset version"
  assertAssetCorrectionAuthority ctx tables asset
  let original ← demand ((tables.rowsFor k args.assetId).find? (·.id = args.rootId)) .noDataFound
    "History not found"
  require (original.role = .none) .checkViolation "Ordinary correction root required"
  let head ← demand (effectiveHead tables k args.assetId args.rootId) .serializationFailure
    "Root is not effective global head"
  require (head.resultVersion = asset.version) .serializationFailure
    "Root is not effective global head"
  require (asset.projection k = head.projected k) .raiseException
    "Projection disagrees with history"
  let prior ← correctionPrior tables k args.assetId original
  correctionCheck ctx.refs k args.target prior
  let metadata ← correctionMetadata args
  -- Room for both rows is reserved before either is written.
  let version ← addInteger asset.version 2
  let reversal := reversalRow ctx actor asset args.rootId head metadata (asset.version + 1)
  let corrected := correctedRow ctx actor asset head args prior metadata version
  let tables ← insertHistory ctx k reversal tables
  let tables ← insertHistory ctx k corrected tables
  let asset := asset.updatedBy actor ctx.session.now
  let tables ← updateAsset ctx k asset (corrected.projected k) version tables
  pure (corrected, tables)

/-- `correct_transition`. -/
def correctTransitionSql (ctx : Context) (args : CorrectionArgs .transition) (tables : AssetTables) :
    Sql (Produced .transition) := correctionSql ctx .transition args tables

/-- `correct_movement`. -/
def correctMovementSql (ctx : Context) (args : CorrectionArgs .movement) (tables : AssetTables) :
    Sql (Produced .movement) := correctionSql ctx .movement args tables

/-- `correct_custody`. -/
def correctCustodySql (ctx : Context) (args : CorrectionArgs .custody) (tables : AssetTables) :
    Sql (Produced .custody) := correctionSql ctx .custody args tables

/-- `correct_ownership`. -/
def correctOwnershipSql (ctx : Context) (args : CorrectionArgs .ownership) (tables : AssetTables) :
    Sql (Produced .ownership) := correctionSql ctx .ownership args tables

/-- `correct_assignment`. -/
def correctAssignmentSql (ctx : Context) (args : CorrectionArgs .assignment) (tables : AssetTables) :
    Sql (Produced .assignment) := correctionSql ctx .assignment args tables

/-! ## What an accepted correction did -/

/-- The fact in force before a version, as the tables show it. -/
def standingBefore (tables : AssetTables) (k : HistoryClass) (asset : Uuid) (version : ℕ) :
    Option (Fact k) :=
  match effectiveBefore (tables.history k) asset version with
  | some previous => previous.toFact
  | none => (tables.initialFacts? asset).bind fun facts => facts.baseline k

/-- An accepted correction of `original`, whose head was `head`, recorded a pair. -/
structure Amended (ctx : Context) (k : HistoryClass) (args : CorrectionArgs k)
    (tables : AssetTables) (asset : AssetRow) (original head reversal corrected : HistoryRow (Fact k))
    (after : AssetTables) : Prop where
  found : ∃ org, tables.asset? org args.assetId = some asset
  version : args.expectedVersion = some asset.version
  fits : asset.version + 2 ≤ intMax
  original_find : (tables.rowsFor k asset.id).find? (·.id = args.rootId) = some original
  original_role : original.role = .none
  head_mem : head ∈ (effective (tables.history k)).filter (·.assetId = asset.id)
  head_root : head.id = args.rootId ∨ head.root = some args.rootId
  head_version : head.resultVersion = asset.version
  replaceable : k = .transition →
    (effectiveBefore (tables.history k) asset.id original.resultVersion).isSome
  rows_eq : ∃ actor metadata,
    reversal = reversalRow ctx actor asset args.rootId head metadata (asset.version + 1) ∧
    corrected = correctedRow ctx actor asset head args
      (standingBefore tables k asset.id original.resultVersion) metadata (asset.version + 2)
  evidence : guardAssetEvidence ctx.refs tables.orgId k corrected = .ok ()
  reversal_fresh : ∀ other ∈ tables.history k, other.id ≠ reversal.id
  corrected_fresh : ∀ other ∈ tables.history k ++ [reversal], other.id ≠ corrected.id
  after_eq : ∃ actor now projected,
    (asset.updatedBy actor now).setProjection k (corrected.projected k) = .ok projected ∧
    after = tables.record k [reversal, corrected] (projected.atVersion (asset.version + 2))

theorem correctionFallback_eq_ok {tables : AssetTables} {k : HistoryClass} {asset : Uuid}
    {prior : Option (Fact k)} (h : correctionFallback tables asset k = .ok prior) :
    prior = (tables.initialFacts? asset).bind (fun facts => facts.baseline k) ∧ k ≠ .transition := by
  cases k with
  | transition => simp [correctionFallback] at h
  | movement | custody | ownership =>
      simp only [correctionFallback, bind_eq_ok, demand_eq_ok, pure_eq_ok] at h
      obtain ⟨facts, hfacts, rfl⟩ := h
      simp [hfacts]
  | assignment =>
      simp only [correctionFallback, bind_eq_ok, require_eq_ok, pure_eq_ok] at h
      obtain ⟨-, -, rfl⟩ := h
      cases tables.initialFacts? asset <;> simp [InitialFacts.baseline]

theorem correctionPrior_eq_ok {tables : AssetTables} {k : HistoryClass} {asset : Uuid}
    {original : HistoryRow (Fact k)} {prior : Option (Fact k)}
    (h : correctionPrior tables k asset original = .ok prior) :
    prior = standingBefore tables k asset original.resultVersion ∧
      (k = .transition →
        (effectiveBefore (tables.history k) asset original.resultVersion).isSome) := by
  unfold correctionPrior at h
  unfold standingBefore
  cases hprevious : effectiveBefore (tables.history k) asset original.resultVersion with
  | some previous =>
      simp only [hprevious, pure_eq_ok] at h
      exact ⟨h.symm, fun _ => rfl⟩
  | none =>
      simp only [hprevious] at h
      obtain ⟨hprior, hclass⟩ := correctionFallback_eq_ok h
      exact ⟨hprior, fun hk => absurd hk hclass⟩

/-- What `correctionSql` finds, and its three statements. -/
structure Correcting (ctx : Context) (k : HistoryClass) (args : CorrectionArgs k)
    (row : HistoryRow (Fact k)) (org actor : Uuid) (asset : AssetRow)
    (original head : HistoryRow (Fact k)) (prior : Option (Fact k)) (metadata : CorrectionMetadata)
    (tables first second after : AssetTables) : Prop where
  locked : tables.asset? org args.assetId = some asset
  version : args.expectedVersion = some asset.version
  original_find : (tables.rowsFor k args.assetId).find? (·.id = args.rootId) = some original
  original_role : original.role = .none
  head_find : effectiveHead tables k args.assetId args.rootId = some head
  head_newest : head.resultVersion = asset.version
  prior_eq : correctionPrior tables k args.assetId original = .ok prior
  checked : correctionCheck ctx.refs k args.target prior = .ok ()
  fits : asset.version + 2 ≤ intMax
  row_eq : row = correctedRow ctx actor asset head args prior metadata (asset.version + 2)
  reversal : insertHistory ctx k
    (reversalRow ctx actor asset args.rootId head metadata (asset.version + 1)) tables = .ok first
  corrected : insertHistory ctx k row first = .ok second
  update : updateAsset ctx k (asset.updatedBy actor ctx.session.now) (row.projected k)
    (asset.version + 2) second = .ok after

theorem correctionSql_eq_ok {ctx : Context} {k : HistoryClass} {args : CorrectionArgs k}
    {tables after : AssetTables} {row : HistoryRow (Fact k)}
    (h : correctionSql ctx k args tables = .ok (row, after)) :
    ∃ org actor asset original head prior metadata first second,
      Correcting ctx k args row org actor asset original head prior metadata tables first second
        after := by
  simp only [correctionSql, bind_eq_ok, require_eq_ok, demand_eq_ok, addInteger_eq_ok, pure_eq_ok,
    exists_unit, Prod.mk.injEq] at h
  obtain ⟨org, -, -, actor, -, asset, hlock, -, original, horiginal, hrole, head, hhead, hnewest, -,
    prior, hprior, hcheck, metadata, -, _, ⟨hfits, rfl⟩, first, hfirst, second, hsecond, _, hupdate,
    rfl, rfl⟩ := h
  obtain ⟨hlocked, hversion⟩ := lockAsset_eq_ok.mp hlock
  exact ⟨org, actor, asset, original, head, prior, metadata, first, second,
    { locked := hlocked, version := hversion, original_find := horiginal, original_role := hrole
      head_find := hhead, head_newest := hnewest, prior_eq := hprior, checked := hcheck
      fits := hfits, row_eq := rfl, reversal := hfirst, corrected := hsecond, update := hupdate }⟩

/-- The head is an effective row, of its root. -/
theorem effectiveHead_eq_some {tables : AssetTables} {k : HistoryClass} {asset root : Uuid}
    {head : HistoryRow (Fact k)} (h : effectiveHead tables k asset root = some head) :
    head ∈ (effective (tables.history k)).filter (·.assetId = asset) ∧
      (head.id = root ∨ head.root = some root) := by
  have hfound := List.find?_some h
  simp only [Bool.decide_and, Bool.decide_or, Bool.and_eq_true, Bool.or_eq_true,
    decide_eq_true_eq] at hfound
  exact ⟨List.mem_filter.mpr ⟨List.mem_of_find?_eq_some h, by simpa using hfound.1⟩, hfound.2⟩

theorem amended_of_correctionSql {ctx : Context} {k : HistoryClass} {args : CorrectionArgs k}
    {tables after : AssetTables} {row : HistoryRow (Fact k)}
    (h : correctionSql ctx k args tables = .ok (row, after)) :
    ∃ asset original head reversal,
      Amended ctx k args tables asset original head reversal row after := by
  obtain ⟨org, actor, asset, original, head, _, metadata, _, _, hrun⟩ := correctionSql_eq_ok h
  obtain ⟨rfl, hreplaceable⟩ := correctionPrior_eq_ok hrun.prior_eq
  obtain ⟨-, -, hreversal, rfl⟩ := insertHistory_eq_ok hrun.reversal
  obtain ⟨hguard, -, hcorrected, rfl⟩ := insertHistory_eq_ok hrun.corrected
  obtain ⟨projected, hprojected, rfl⟩ := updateAsset_eq_ok hrun.update
  obtain ⟨hmem, hroot⟩ := effectiveHead_eq_some hrun.head_find
  obtain rfl := hrun.row_eq
  have hid := asset?_id hrun.locked
  refine ⟨asset, original, head, reversalRow ctx actor asset args.rootId head metadata
    (asset.version + 1), ⟨org, hrun.locked⟩, hrun.version, hrun.fits, hid ▸ hrun.original_find,
    hrun.original_role, hid ▸ hmem, hroot, hrun.head_newest, hid ▸ hreplaceable,
    ⟨actor, metadata, rfl, by rw [hid]⟩, hguard, hreversal, ?_, actor, ctx.session.now, projected,
    hprojected, ?_⟩
  · intro other hother
    exact hcorrected other (by simpa [AssetTables.append] using hother)
  · simp [AssetTables.record, AssetTables.append]

namespace Amended

variable {ctx : Context} {k : HistoryClass} {args : CorrectionArgs k} {tables after : AssetTables}
  {asset : AssetRow} {original head reversal corrected : HistoryRow (Fact k)}

theorem original_mem (h : Amended ctx k args tables asset original head reversal corrected after) :
    original ∈ tables.rowsFor k asset.id := List.mem_of_find?_eq_some h.original_find

theorem original_id (h : Amended ctx k args tables asset original head reversal corrected after) :
    original.id = args.rootId := by
  simpa using List.find?_some h.original_find

/-- The pair of a correction is of the locked Asset. -/
theorem rows_asset (h : Amended ctx k args tables asset original head reversal corrected after) :
    ∀ row ∈ [reversal, corrected], row.assetId = asset.id := by
  obtain ⟨actor, metadata, hreversal, hcorrected⟩ := h.rows_eq
  simp [hreversal, hcorrected, reversalRow, correctedRow]

end Amended

end FleetOps
