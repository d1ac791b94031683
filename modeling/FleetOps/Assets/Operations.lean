import FleetOps.Assets.Effective

/-!
# The ordinary operations

`transition_asset`, the three physical operations and the two assignment
operations, in the form they have after the correction and evidence migrations:
they read effective facts and refuse malformed correction authority.  Each
locks the Asset, compares the version, finds the fact in force, and records one
row together with its projection.

`Recorded` says what an accepted operation did.  Each operation has one lemma
that derives it, and everything later is proved from `Recorded`.
-/

namespace FleetOps

/-- The arguments that the ordinary operations share. -/
structure ChangeArgs where
  assetId : Uuid
  expectedVersion : Option ℕ
  reason : Option String
  occurredAt : Option Timestamp
  clientOpId : Option Uuid
  historyId : Option Uuid
  deriving DecidableEq, Repr

/-- The arguments of `transition_asset`. -/
structure TransitionArgs extends ChangeArgs where
  fromState : Option AssetState
  toState : Option AssetState
  evidenceRef : Option Uuid
  deriving DecidableEq, Repr

/-- The row that a call produced, and the tables after it. -/
abbrev Produced (k : HistoryClass) : Type := HistoryRow (Fact k) × AssetTables

/-- `SELECT … FOR UPDATE`, and the comparison of versions under that lock. -/
def lockAsset (tables : AssetTables) (org assetId : Uuid) (expected : Option ℕ) (stale : String) :
    Sql AssetRow := do
  let asset ← demand (tables.asset? org assetId) .noDataFound "Asset not found"
  require (expected = some asset.version) .serializationFailure stale
  pure asset

/-- The gate that the correction migration adds to every ordinary operation. -/
def refuseAnomalies (ctx : Context) (tables : AssetTables) (assetId : Uuid) : Sql Unit :=
  require (assetId ∉ assetCorrectionAnomalies ctx tables) .raiseException
    "Malformed correction authority"

/-- The `INSERT` of the produced row and the `UPDATE` of its projection. -/
def produce (ctx : Context) (k : HistoryClass) (args : ChangeArgs) (actor : Uuid)
    (asset : AssetRow) (fromFact toFact : Option (Fact k)) (evidenceRef : Option Uuid)
    (tables : AssetTables) : Sql (Produced k) := do
  let version ← addInteger asset.version 1
  let id ← notNull args.historyId "id"
  let reason ← notNull args.reason "reason"
  let occurredAt ← notNull args.occurredAt "occurred_at"
  let row : HistoryRow (Fact k) :=
    { id, assetId := asset.id, resultVersion := version, fromFact, toFact, reason,
      actorId := actor, occurredAt, recordedAt := ctx.session.now, evidenceRef,
      clientOpId := args.clientOpId }
  let tables ← insertHistory ctx k row tables
  let tables ← updateAsset ctx k asset (row.projected k) version tables
  pure (row, tables)

/-! ## Lifecycle -/

/-- `transition_asset`. -/
def transitionAsset (ctx : Context) (args : TransitionArgs) (tables : AssetTables) :
    Sql (Produced .transition) := do
  let org ← trustedOrganization ctx.session "Trusted organization required"
  let actor ← currentAuthenticatedActor ctx.session
  let asset ← lockAsset tables org args.assetId args.expectedVersion "Asset version is stale"
  refuseAnomalies ctx tables args.assetId
  let latest : HistoryRow AssetState ←
    demand (latestEffective (tables.history .transition) args.assetId) .raiseException
      "Authoritative history missing"
  require (latest.resultVersion ≤ asset.version ∧ latest.toFact = args.fromState ∧
      asset.projection .transition = latest.projected .transition)
    .raiseException "Asset history is inconsistent"
  produce ctx .transition args.toChangeArgs actor asset args.fromState args.toState
    args.evidenceRef tables

/-! ## Location, custody and ownership -/

/-- The fact in force in a physical class: the latest effective one, or the creation witness. -/
def physicalPrior (tables : AssetTables) (k : HistoryClass) (asset : AssetRow) :
    Sql (Option (Fact k)) :=
  match latestEffective (tables.history k) asset.id with
  | none => do
      let facts ← demand (tables.initialFacts? asset.id) .raiseException
        "Asset initial facts missing"
      pure (facts.baseline k)
  | some latest => do
      require (latest.resultVersion ≤ asset.version) .raiseException
        "Asset history is inconsistent"
      pure latest.toFact

/-- `_operation_sql`, the template of the physical operations; `required` asks for a target. -/
def operationSql (ctx : Context) (k : HistoryClass) (required : Bool) (args : ChangeArgs)
    (target : Option (Fact k)) (tables : AssetTables) : Sql (Produced k) := do
  let org ← trustedOrganization ctx.session "Trusted organization required"
  let actor ← currentAuthenticatedActor ctx.session
  let asset ← lockAsset tables org args.assetId args.expectedVersion "Asset version is stale"
  refuseAnomalies ctx tables args.assetId
  let prior ← physicalPrior tables k asset
  require (asset.projection k = factProjected k prior) .raiseException
    "Asset physical projection is inconsistent"
  require (required → target.isSome) .notNullViolation "Owner is required"
  require (factReference ctx.refs k target) .foreignKeyViolation "Invalid physical target"
  produce ctx k args actor asset prior target none tables

/-- `move_asset`. -/
def moveAsset (ctx : Context) (args : ChangeArgs) (toLocationId : Option Uuid)
    (tables : AssetTables) : Sql (Produced .movement) :=
  operationSql ctx .movement false args toLocationId tables

/-- `change_custody`. -/
def changeCustody (ctx : Context) (args : ChangeArgs) (toCustodianPartyId : Option Uuid)
    (tables : AssetTables) : Sql (Produced .custody) :=
  operationSql ctx .custody false args toCustodianPartyId tables

/-- `change_ownership`. -/
def changeOwnership (ctx : Context) (args : ChangeArgs) (toOwnerPartyId : Option Uuid)
    (tables : AssetTables) : Sql (Produced .ownership) :=
  operationSql ctx .ownership true args toOwnerPartyId tables

/-! ## Assignment -/

/-- What a caller passes as a new fact; an assignee's two columns are separate arguments. -/
def Target : HistoryClass → Type
  | .transition => Option AssetState
  | .movement | .custody | .ownership => Option Uuid
  | .assignment => Option AssigneeType × Option Uuid

/-- The fact that a target states, when it states one. -/
def Target.fact : (k : HistoryClass) → Target k → Option (Fact k)
  | .transition, state => state
  | .movement, location => location
  | .custody, party => party
  | .ownership, party => party
  | .assignment, (some type, some id) => some ⟨type, id⟩
  | .assignment, _ => none

/-- Assignees are polymorphic references, checked without a foreign key. -/
def assigneeExists (refs : References) (assignee : Assignee) : Bool :=
  match assignee.type with
  | .actor => refs.actors.contains assignee.id
  | .location => refs.locations.contains assignee.id
  | .party => refs.parties.contains assignee.id

/-- The assignee in force and the event that the Asset's row has to project. -/
def assignmentPrior (tables : AssetTables) (asset : AssetRow) :
    Sql (Option Assignee × Option Uuid) :=
  match latestEffective (tables.history .assignment) asset.id with
  | none => do
      require (tables.initialAssignment? asset.id).isSome .raiseException
        "Initial assignment facts missing"
      pure (none, none)
  | some latest => do
      require (latest.resultVersion ≤ asset.version) .raiseException
        "Assignment history is inconsistent"
      pure (latest.toFact, latest.projected .assignment)

/-- `assignment_sql`, the template of the assignment operations. -/
def assignmentSql (ctx : Context) (assigning : Bool) (args : ChangeArgs)
    (target : Target .assignment) (tables : AssetTables) : Sql (Produced .assignment) := do
  let org ← trustedOrganization ctx.session "Trusted organization required"
  let actor ← currentAuthenticatedActor ctx.session
  let asset ← lockAsset tables org args.assetId args.expectedVersion "Asset version is stale"
  refuseAnomalies ctx tables args.assetId
  let (prior, event) ← assignmentPrior tables asset
  require (asset.currentAssignmentId = event) .raiseException
    "Assignment projection is inconsistent"
  require (assigning → (Target.fact .assignment target).isSome) .checkViolation
    "Invalid assignment target"
  require (!assigning → prior.isSome) .checkViolation "Asset is already unassigned"
  require (prior.all (assigneeExists ctx.refs) ∧
      (Target.fact .assignment target).all (assigneeExists ctx.refs))
    .foreignKeyViolation "Invalid assignment target"
  produce ctx .assignment args actor asset prior (Target.fact .assignment target) none tables

/-- `assign_asset`. -/
def assignAsset (ctx : Context) (args : ChangeArgs) (assigneeType : Option AssigneeType)
    (assigneeId : Option Uuid) (tables : AssetTables) : Sql (Produced .assignment) :=
  assignmentSql ctx true args (assigneeType, assigneeId) tables

/-- `unassign_asset`. -/
def unassignAsset (ctx : Context) (args : ChangeArgs) (tables : AssetTables) :
    Sql (Produced .assignment) :=
  assignmentSql ctx false args (none, none) tables

/-! ## What an accepted operation did -/

/-- The fact in force in a class, as the tables show it. -/
def standingFact (tables : AssetTables) (k : HistoryClass) (asset : Uuid) : Option (Fact k) :=
  match latestEffective (tables.history k) asset with
  | some latest => latest.toFact
  | none => (tables.initialFacts? asset).bind fun facts => facts.baseline k

/-- The tables after `rows` are recorded in class `k`, with the Asset's new row. -/
def AssetTables.record (tables : AssetTables) (k : HistoryClass) (rows : List (HistoryRow (Fact k)))
    (asset : AssetRow) : AssetTables :=
  (tables.append k rows).putAsset asset

/-- An accepted ordinary operation locked `asset` and recorded `row`. -/
structure Recorded (ctx : Context) (k : HistoryClass) (assetId : Uuid) (expected : Option ℕ)
    (tables : AssetTables) (asset : AssetRow) (row : HistoryRow (Fact k)) (after : AssetTables) :
    Prop where
  found : ∃ org, tables.asset? org assetId = some asset
  version : expected = some asset.version
  fits : asset.version + 1 ≤ intMax
  row_asset : row.assetId = asset.id
  row_version : row.resultVersion = asset.version + 1
  row_role : row.role = .none
  row_root : row.root = none
  row_generation : row.generation = 0
  source : row.fromFact = standingFact tables k asset.id
  evidence : guardAssetEvidence ctx.refs tables.orgId k row = .ok ()
  fresh : ∀ other ∈ tables.history k, other.id ≠ row.id
  after_eq : ∃ projected, asset.setProjection k (row.projected k) = .ok projected ∧
    after = tables.record k [row] (projected.atVersion (asset.version + 1))

theorem asset?_eq_some {tables : AssetTables} {org id : Uuid} {asset : AssetRow} :
    tables.asset? org id = some asset ↔
      org = tables.orgId ∧ tables.assets.find? (·.id = id) = some asset := by
  unfold AssetTables.asset?
  split <;> simp_all

theorem lockAsset_eq_ok {tables : AssetTables} {org assetId : Uuid} {expected : Option ℕ}
    {stale : String} {asset : AssetRow} :
    lockAsset tables org assetId expected stale = .ok asset ↔
      tables.asset? org assetId = some asset ∧ expected = some asset.version := by
  simp only [lockAsset, bind_eq_ok, demand_eq_ok, require_eq_ok, pure_eq_ok]
  constructor
  · rintro ⟨found, hfound, -, hversion, rfl⟩
    exact ⟨hfound, hversion⟩
  · rintro ⟨hfound, hversion⟩
    exact ⟨asset, hfound, (), hversion, rfl⟩

theorem asset?_id {tables : AssetTables} {org id : Uuid} {asset : AssetRow}
    (h : tables.asset? org id = some asset) : asset.id = id := by
  simpa using List.find?_some (asset?_eq_some.mp h).2

theorem historyUnique_fresh {φ : Type} {foreign : List Uuid} {rows : List (HistoryRow φ)}
    {row : HistoryRow φ} (h : historyUnique foreign rows row = true) :
    ∀ other ∈ rows, other.id ≠ row.id := by
  intro other hother
  simp only [historyUnique, Bool.and_eq_true, List.all_eq_true] at h
  exact bne_iff_ne.mp (h.2 other hother).1.1

/-- What an `INSERT` into a history checks and does. -/
theorem insertHistory_eq_ok {ctx : Context} {k : HistoryClass} {row : HistoryRow (Fact k)}
    {tables after : AssetTables} (h : insertHistory ctx k row tables = .ok after) :
    guardAssetEvidence ctx.refs tables.orgId k row = .ok () ∧
      historyChecks ctx.posixSpace k row = true ∧
      (∀ other ∈ tables.history k, other.id ≠ row.id) ∧ after = tables.append k [row] := by
  simp only [insertHistory, bind_eq_ok, require_eq_ok, pure_eq_ok] at h
  obtain ⟨⟨⟩, hguard, -, -, -, hchecks, -, hunique, -, -, -, -, rfl⟩ := h
  exact ⟨hguard, hchecks, historyUnique_fresh hunique, rfl⟩

theorem updateAsset_eq_ok {ctx : Context} {k : HistoryClass} {asset : AssetRow}
    {value : Option (Projected k)} {version : ℕ} {tables after : AssetTables}
    (h : updateAsset ctx k asset value version tables = .ok after) :
    ∃ projected, asset.setProjection k value = .ok projected ∧
      after = tables.putAsset (projected.atVersion version) := by
  simp only [updateAsset, bind_eq_ok, require_eq_ok, pure_eq_ok] at h
  obtain ⟨projected, hprojected, -, -, rfl⟩ := h
  exact ⟨projected, hprojected, rfl⟩

/-- The row that `produce` makes, and its two statements. -/
structure ProducedRow (ctx : Context) (k : HistoryClass) (args : ChangeArgs) (actor : Uuid)
    (asset : AssetRow) (fromFact toFact : Option (Fact k)) (evidenceRef : Option Uuid)
    (row : HistoryRow (Fact k)) (tables inserted after : AssetTables) : Prop where
  fits : asset.version + 1 ≤ intMax
  row_eq : ∃ id reason occurredAt, row =
    { id, assetId := asset.id, resultVersion := asset.version + 1, fromFact, toFact, reason,
      actorId := actor, occurredAt, recordedAt := ctx.session.now, evidenceRef,
      clientOpId := args.clientOpId }
  insert : insertHistory ctx k row tables = .ok inserted
  update : updateAsset ctx k asset (row.projected k) (asset.version + 1) inserted = .ok after

theorem produce_eq_ok {ctx : Context} {k : HistoryClass} {args : ChangeArgs} {actor : Uuid}
    {asset : AssetRow} {fromFact toFact : Option (Fact k)} {evidenceRef : Option Uuid}
    {tables after : AssetTables} {row : HistoryRow (Fact k)}
    (h : produce ctx k args actor asset fromFact toFact evidenceRef tables = .ok (row, after)) :
    ∃ inserted,
      ProducedRow ctx k args actor asset fromFact toFact evidenceRef row tables inserted after := by
  simp only [produce, bind_eq_ok, addInteger_eq_ok, pure_eq_ok, Prod.mk.injEq] at h
  obtain ⟨_, ⟨hfits, rfl⟩, id, -, reason, -, occurredAt, -, inserted, hinsert, _, hupdate, rfl,
    rfl⟩ := h
  exact ⟨inserted, hfits, ⟨id, reason, occurredAt, rfl⟩, hinsert, hupdate⟩

/-- The common end of the ordinary operations: a row is produced of the Asset that was locked, from
the fact in force. -/
structure Producing (ctx : Context) (k : HistoryClass) (args : ChangeArgs) (toFact : Option (Fact k))
    (evidenceRef : Option Uuid) (row : HistoryRow (Fact k)) (org actor : Uuid) (asset : AssetRow)
    (tables after : AssetTables) : Prop where
  locked : tables.asset? org args.assetId = some asset
  version : args.expectedVersion = some asset.version
  produced : produce ctx k args actor asset (standingFact tables k asset.id) toFact evidenceRef
    tables = .ok (row, after)

theorem Producing.recorded {ctx : Context} {k : HistoryClass} {args : ChangeArgs}
    {toFact : Option (Fact k)} {evidenceRef : Option Uuid} {row : HistoryRow (Fact k)}
    {org actor : Uuid} {asset : AssetRow} {tables after : AssetTables}
    (h : Producing ctx k args toFact evidenceRef row org actor asset tables after) :
    Recorded ctx k args.assetId args.expectedVersion tables asset row after ∧
      row.toFact = toFact ∧ row.evidenceRef = evidenceRef := by
  obtain ⟨inserted, hproduced⟩ := produce_eq_ok h.produced
  obtain ⟨hguard, -, hfresh, rfl⟩ := insertHistory_eq_ok hproduced.insert
  obtain ⟨projected, hprojected, rfl⟩ := updateAsset_eq_ok hproduced.update
  obtain ⟨id, reason, occurredAt, rfl⟩ := hproduced.row_eq
  exact ⟨⟨⟨org, h.locked⟩, h.version, hproduced.fits, rfl, rfl, rfl, rfl, rfl, rfl, hguard, hfresh,
    projected, hprojected, rfl⟩, rfl, rfl⟩

/-- `transition_asset`, which is told the state that it leaves. -/
theorem transitionAsset_eq_ok {ctx : Context} {args : TransitionArgs} {tables after : AssetTables}
    {row : HistoryRow (Fact .transition)}
    (h : transitionAsset ctx args tables = .ok (row, after)) :
    ∃ org actor asset, args.fromState = standingFact tables .transition asset.id ∧
      Producing ctx .transition args.toChangeArgs args.toState args.evidenceRef row org actor asset
        tables after := by
  simp only [transitionAsset, bind_eq_ok, require_eq_ok, demand_eq_ok, refuseAnomalies,
    exists_unit] at h
  obtain ⟨org, -, actor, -, asset, hlock, -, latest, hlatest, ⟨-, hfrom, -⟩, h⟩ := h
  obtain ⟨hlocked, hversion⟩ := lockAsset_eq_ok.mp hlock
  have hstanding : args.fromState = standingFact tables .transition asset.id := by
    rw [standingFact, asset?_id hlocked, hlatest]
    exact hfrom.symm
  exact ⟨org, actor, asset, hstanding, hlocked, hversion, hstanding ▸ h⟩

theorem recorded_of_transitionAsset {ctx : Context} {args : TransitionArgs}
    {tables after : AssetTables} {row : HistoryRow (Fact .transition)}
    (h : transitionAsset ctx args tables = .ok (row, after)) :
    (∃ asset, Recorded ctx .transition args.assetId args.expectedVersion tables asset row after) ∧
      row.fromFact = args.fromState ∧ row.toFact = args.toState ∧
      row.evidenceRef = args.evidenceRef := by
  obtain ⟨_, _, asset, hstanding, hproducing⟩ := transitionAsset_eq_ok h
  obtain ⟨hrecorded, hto, hevidence⟩ := hproducing.recorded
  exact ⟨⟨asset, hrecorded⟩, hrecorded.source.trans hstanding.symm, hto, hevidence⟩

theorem physicalPrior_eq_ok {tables : AssetTables} {k : HistoryClass} {asset : AssetRow}
    {prior : Option (Fact k)} (h : physicalPrior tables k asset = .ok prior) :
    prior = standingFact tables k asset.id := by
  unfold physicalPrior at h
  unfold standingFact
  cases hlatest : latestEffective (tables.history k) asset.id with
  | none =>
      simp only [hlatest, bind_eq_ok, demand_eq_ok, pure_eq_ok] at h
      obtain ⟨facts, hfacts, rfl⟩ := h
      simp [hfacts]
  | some latest =>
      simp only [hlatest, bind_eq_ok, require_eq_ok, pure_eq_ok] at h
      obtain ⟨-, -, rfl⟩ := h
      rfl

theorem operationSql_eq_ok {ctx : Context} {k : HistoryClass} {required : Bool}
    {args : ChangeArgs} {target : Option (Fact k)} {tables after : AssetTables}
    {row : HistoryRow (Fact k)}
    (h : operationSql ctx k required args target tables = .ok (row, after)) :
    ∃ org actor asset, Producing ctx k args target none row org actor asset tables after := by
  simp only [operationSql, bind_eq_ok, require_eq_ok, refuseAnomalies, exists_unit] at h
  obtain ⟨org, -, actor, -, asset, hlock, -, prior, hprior, -, -, -, h⟩ := h
  obtain ⟨hlocked, hversion⟩ := lockAsset_eq_ok.mp hlock
  exact ⟨org, actor, asset, hlocked, hversion, physicalPrior_eq_ok hprior ▸ h⟩

theorem recorded_of_operationSql {ctx : Context} {k : HistoryClass} {required : Bool}
    {args : ChangeArgs} {target : Option (Fact k)} {tables after : AssetTables}
    {row : HistoryRow (Fact k)}
    (h : operationSql ctx k required args target tables = .ok (row, after)) :
    ∃ asset, Recorded ctx k args.assetId args.expectedVersion tables asset row after := by
  obtain ⟨_, _, asset, hproducing⟩ := operationSql_eq_ok h
  exact ⟨asset, hproducing.recorded.1⟩

/-- While nothing is recorded, an Asset is unassigned. -/
theorem assignmentPrior_eq_ok {tables : AssetTables} {asset : AssetRow}
    {prior : Option Assignee × Option Uuid} (h : assignmentPrior tables asset = .ok prior) :
    prior.1 = standingFact tables .assignment asset.id := by
  unfold assignmentPrior at h
  unfold standingFact
  cases hlatest : latestEffective (tables.history .assignment) asset.id with
  | none =>
      simp only [hlatest, bind_eq_ok, require_eq_ok, pure_eq_ok] at h
      obtain ⟨-, -, rfl⟩ := h
      cases tables.initialFacts? asset.id <;> rfl
  | some latest =>
      simp only [hlatest, bind_eq_ok, require_eq_ok, pure_eq_ok] at h
      obtain ⟨-, -, rfl⟩ := h
      rfl

/-- The assignment operations, which look both assignees up. -/
theorem assignmentSql_eq_ok {ctx : Context} {assigning : Bool} {args : ChangeArgs}
    {target : Target .assignment} {tables after : AssetTables}
    {row : HistoryRow (Fact .assignment)}
    (h : assignmentSql ctx assigning args target tables = .ok (row, after)) :
    ∃ org actor asset,
      ((standingFact tables .assignment asset.id).all (assigneeExists ctx.refs) ∧
        (Target.fact .assignment target).all (assigneeExists ctx.refs)) ∧
      Producing ctx .assignment args (Target.fact .assignment target) none row org actor asset tables
        after := by
  simp only [assignmentSql, bind_eq_ok, require_eq_ok, refuseAnomalies, exists_unit] at h
  obtain ⟨org, -, actor, -, asset, hlock, -, prior, hprior, -, -, -, hexist, h⟩ := h
  obtain ⟨hlocked, hversion⟩ := lockAsset_eq_ok.mp hlock
  have hstanding := assignmentPrior_eq_ok hprior
  exact ⟨org, actor, asset, hstanding ▸ hexist, hlocked, hversion, hstanding ▸ h⟩

theorem recorded_of_assignmentSql {ctx : Context} {assigning : Bool} {args : ChangeArgs}
    {target : Target .assignment} {tables after : AssetTables}
    {row : HistoryRow (Fact .assignment)}
    (h : assignmentSql ctx assigning args target tables = .ok (row, after)) :
    ∃ asset, Recorded ctx .assignment args.assetId args.expectedVersion tables asset row after := by
  obtain ⟨_, _, asset, -, hproducing⟩ := assignmentSql_eq_ok h
  exact ⟨asset, hproducing.recorded.1⟩

end FleetOps
