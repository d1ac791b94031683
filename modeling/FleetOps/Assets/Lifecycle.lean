import FleetOps.Assets.Calls
import FleetOps.Evidence.Service

/-!
# The lifecycle graph

The database keeps lifecycle events in order; which events are legal is decided
by the services.  `validateEdge` is the graph, in which an Asset on hold may also
return to the state from which the hold was entered.  `Service.transitionAsset`
and `Service.correctTransition` check an event against the effective event that
it follows, hold the Asset's row lock from that reading on, and then call the
database.  `classifyLifecycleIssues` audits every correction once more.
-/

namespace FleetOps

open AssetState

/-- `LIFECYCLE`. -/
def lifecycle : AssetState → List AssetState
  | received => [inStock, onHold]
  | inStock => [configuring, onHold, retired]
  | configuring => [ready, onHold]
  | ready => [deployed, inStock, onHold]
  | deployed => [onHold, outOfService, ready]
  | onHold => [outOfService]
  | outOfService => [configuring, retired]
  | retired => []

/-- `allowed` in `validate_edge`. -/
def allowedStates (fromState : AssetState) (previousState : Option AssetState) : List AssetState :=
  if fromState = onHold then lifecycle fromState ++ previousState.toList else lifecycle fromState

def validateEdge (fromState toState : AssetState) (previousState : Option AssetState) :
    Service Unit :=
  Service.ensure (toState ∈ allowedStates fromState previousState) .lifecycleInvalid
    "Illegal lifecycle transition"

theorem mem_allowedStates {fromState toState : AssetState} {previousState : Option AssetState} :
    toState ∈ allowedStates fromState previousState ↔
      toState ∈ lifecycle fromState ∨ fromState = onHold ∧ previousState = some toState := by
  unfold allowedStates
  split
  · rename_i hhold
    simp [hhold]
  · rename_i hhold
    simp [hhold]

/-! ## The audit of corrections -/

/-- A row of `LIFECYCLE_ISSUES_SQL`: a replacement, with the effective event before its root. -/
structure LifecycleIssueRow where
  assetId : Uuid
  toState : Option AssetState
  previousState : Option AssetState
  fromState : Option AssetState
  disposalValid : Bool
  deriving DecidableEq, Repr

/-- `LIFECYCLE_ISSUES_SQL`; without an `assetId` it reads the whole tenant. -/
def lifecycleIssueRows (refs : References) (tables : AssetTables) (assetId : Option Uuid) :
    List LifecycleIssueRow :=
  let rows : List (HistoryRow AssetState) := tables.history .transition
  (rows.filter fun c => c.role = .corrected ∧ assetId.all (c.assetId = ·)).flatMap fun c =>
    (rows.filter fun r => r.assetId = c.assetId ∧ some r.id = c.root).map fun r =>
      let p := effectiveBefore rows c.assetId r.resultVersion
      { assetId := c.assetId, toState := c.toFact
        previousState := p.bind HistoryRow.fromFact, fromState := p.bind HistoryRow.toFact
        disposalValid := validAssetEvidence refs tables.orgId c.evidenceRef c.assetId
          (some .disposalEvidence) }

/-- A row whose event is not an edge from the event before it, or retires without evidence. -/
def illegalCorrection (row : LifecycleIssueRow) : Bool :=
  match row.fromState, row.toState with
  | some fromState, some toState =>
      (toState = retired && !row.disposalValid) ||
        !(allowedStates fromState row.previousState).contains toState
  | _, _ => true

/-- `classify_lifecycle_issues`: the Assets with an illegal correction, each reported once. -/
def classifyLifecycleIssues (rows : List LifecycleIssueRow) : List Uuid :=
  ((rows.filter illegalCorrection).map LifecycleIssueRow.assetId).eraseDups

/-- `lifecycle_correction_issues`. -/
def lifecycleCorrectionIssues (refs : References) (tables : AssetTables) (assetId : Option Uuid) :
    List Uuid :=
  classifyLifecycleIssues (lifecycleIssueRows refs tables assetId)

/-! ## The services -/

/-- `values` of `transition_asset`. -/
structure TransitionValues where
  expectedVersion : ℕ
  fromState : AssetState
  toState : AssetState
  reason : String
  occurredAt : Timestamp
  evidenceRef : Option Uuid := none
  clientOpId : Option Uuid := none

/-- `values` of `correct_transition`. -/
structure TransitionCorrection where
  expectedVersion : ℕ
  toState : AssetState
  reason : String
  correctionOccurredAt : Timestamp
  occurredAt : Option Timestamp := none
  evidenceRef : Option Uuid := none

/-- The keys that a service draws for a correction. -/
structure PairKeys where
  pairId : Uuid
  reversalId : Uuid
  correctedId : Uuid

/-- The call that `transition_asset` makes. -/
def TransitionValues.args (values : TransitionValues) (assetId transitionId : Uuid) :
    TransitionArgs where
  assetId := assetId
  expectedVersion := some values.expectedVersion
  fromState := some values.fromState
  toState := some values.toState
  reason := some values.reason
  occurredAt := some values.occurredAt
  evidenceRef := values.evidenceRef
  clientOpId := values.clientOpId
  historyId := some transitionId

/-- The call that `correct_transition` makes. -/
def TransitionCorrection.args (values : TransitionCorrection) (assetId rootId : Uuid)
    (keys : PairKeys) : CorrectionArgs .transition where
  assetId := assetId
  rootId := rootId
  expectedVersion := some values.expectedVersion
  target := some values.toState
  reason := some values.reason
  correctionOccurredAt := some values.correctionOccurredAt
  occurredAt := values.occurredAt
  evidenceRef := values.evidenceRef
  pairId := some keys.pairId
  reversalId := some keys.reversalId
  correctedId := some keys.correctedId

namespace Service

/-- The errors that `_constraints` of the Asset services translates. -/
def assetTranslation : SqlState → Option (FailureKind × String)
  | .noDataFound => some (.assetNotFound, "Asset not found")
  | .serializationFailure | .raiseException | .uniqueViolation =>
      some (.assetConflict, "Asset version, history, or tag conflicts with this operation")
  | .notNullViolation | .foreignKeyViolation | .checkViolation | .insufficientPrivilege
  | .numericValueOutOfRange => some (.assetInvalid, "Invalid Asset operation or attribution")

/-- `_constraints` of the Asset services. -/
def assetConstraints {α : Type} (body : Service α) : Service α := translating assetTranslation body

/-- Retirement needs evidence of disposal; any other event may have evidence. -/
def lifecycleEvidence (refs : References) (org : Uuid) (storage : Option EvidenceStorage)
    (asset : Uuid) (toState : AssetState) (evidenceRef : Option Uuid) : Service Unit := do
  ensure (toState = retired → evidenceRef.isSome) .lifecycleInvalid
    "Retirement requires verifiable disposal evidence"
  EvidenceService.verifyAssetEvidence refs org storage asset evidenceRef
    (if toState = retired then some .disposalEvidence else none) (toState = retired)

/-- `transition_asset`. -/
def transitionAsset (ctx : Context) (storage : Option EvidenceStorage) (assetId : Uuid)
    (values : TransitionValues) (transitionId : Uuid) (tables : AssetTables) :
    Service (Produced .transition) := do
  if values.fromState ≠ onHold then
    validateEdge values.fromState values.toState none
  lifecycleEvidence ctx.refs tables.orgId storage assetId values.toState values.evidenceRef
  if values.fromState = onHold then
    -- The exit from a hold depends on how it was entered, which is read under the row lock.
    let _ ← fetch (tables.assets.find? (·.id = assetId)) .assetNotFound "Asset not found"
    let latest : HistoryRow AssetState ← fetch
      (latestEffective (tables.history .transition) assetId) .assetConflict
      "Authoritative ON_HOLD history is missing or inconsistent"
    ensure (latest.toFact = some onHold) .assetConflict
      "Authoritative ON_HOLD history is missing or inconsistent"
    validateEdge values.fromState values.toState latest.fromFact
  assetConstraints <|
    execute (FleetOps.transitionAsset ctx (values.args assetId transitionId) tables)

/-- `_correct`, for a lifecycle correction. -/
def correct (ctx : Context) (args : CorrectionArgs .transition) (tables : AssetTables) :
    Service (Produced .transition) := do
  ensure (lifecycleCorrectionIssues ctx.refs tables (some args.assetId) = []) .assetConflict
    "Malformed corrected lifecycle authority"
  assetConstraints (execute (correctTransitionSql ctx args tables))

/-- `correct_transition`. -/
def correctTransition (ctx : Context) (storage : Option EvidenceStorage) (assetId rootId : Uuid)
    (values : TransitionCorrection) (keys : PairKeys) (tables : AssetTables) :
    Service (Produced .transition) := do
  let locked ← fetch (tables.assets.find? (·.id = assetId)) .assetNotFound "Asset not found"
  ensure (locked.version = values.expectedVersion) .assetConflict "Asset version is stale"
  let root : HistoryRow AssetState ← fetch
    ((tables.rowsFor .transition assetId).find? (·.id = rootId)) .assetNotFound "History not found"
  ensure (root.role = .none) .assetInvalid "Correction requires an ordinary root"
  let prior : HistoryRow AssetState ← fetch
    (effectiveBefore (tables.history .transition) assetId root.resultVersion) .lifecycleInvalid
    "A lifecycle correction requires a replaceable ordinary edge"
  -- The column is `NOT NULL`; a null would fail as an unknown state.
  let fromState ← fetch prior.toFact .lifecycleInvalid "Illegal lifecycle transition"
  validateEdge fromState values.toState prior.fromFact
  lifecycleEvidence ctx.refs tables.orgId storage assetId values.toState values.evidenceRef
  correct ctx (values.args assetId rootId keys) tables

end Service

end FleetOps
