import FleetOps.Evidence.Tables
import Mathlib.Logic.Function.Basic

/-!
# Assets and their five histories

An Asset's row projects what five append-only histories record: its lifecycle
state, location, custodian, owner and assignment.  The five tables have the
same shape, so one row type `HistoryRow` serves them all, over the class's own
kind of `Fact`.

The tables here are one tenant's.  `insertHistory` is an `INSERT` into a
history with the table's constraints and triggers, `updateAsset` the `UPDATE`
of the Asset's row that goes with it.
-/

namespace FleetOps

/-! ## Facts -/

/-- The lifecycle states. -/
inductive AssetState
  | received | inStock | configuring | ready | deployed | onHold | outOfService | retired
  deriving DecidableEq, Repr

/-- The kinds of assignee. -/
inductive AssigneeType
  | actor | location | party
  deriving DecidableEq, Repr

/-- An assignee; its two columns are null together. -/
structure Assignee where
  type : AssigneeType
  id : Uuid
  deriving DecidableEq, Repr

/-- The authority classes, one history table each. -/
inductive HistoryClass
  | transition | movement | custody | ownership | assignment
  deriving DecidableEq, Repr

/-- All the classes, in the migration's order. -/
def HistoryClass.all : List HistoryClass :=
  [.transition, .movement, .custody, .ownership, .assignment]

theorem HistoryClass.mem_all (k : HistoryClass) : k ∈ HistoryClass.all := by
  cases k <;> decide

/-- What a class records: a state, a location, a custodian or owner, an assignee. -/
abbrev Fact : HistoryClass → Type
  | .transition => AssetState
  | .assignment => Assignee
  | .movement | .custody | .ownership => Uuid

/-- What a class projects on the Asset's row: for an assignment, the event that made it. -/
abbrev Projected : HistoryClass → Type
  | .transition => AssetState
  | .movement | .custody | .ownership | .assignment => Uuid

instance : (k : HistoryClass) → DecidableEq (Fact k)
  | .transition => inferInstanceAs (DecidableEq AssetState)
  | .assignment => inferInstanceAs (DecidableEq Assignee)
  | .movement | .custody | .ownership => inferInstanceAs (DecidableEq Uuid)

instance : (k : HistoryClass) → DecidableEq (Projected k)
  | .transition => inferInstanceAs (DecidableEq AssetState)
  | .movement | .custody | .ownership | .assignment => inferInstanceAs (DecidableEq Uuid)

/-! ## Rows -/

/-- `correction_role`. -/
inductive CorrectionRole
  | none | reversal | corrected
  deriving DecidableEq, Repr

/-- A row of a history table. -/
structure HistoryRow (φ : Type) where
  id : Uuid
  assetId : Uuid
  resultVersion : ℕ
  fromFact : Option φ
  toFact : Option φ
  reason : String
  actorId : Uuid
  occurredAt : Timestamp
  recordedAt : Timestamp
  /-- `evidence_ref`, a column of transitions only. -/
  evidenceRef : Option Uuid := none
  clientOpId : Option Uuid := none
  /-- `corrects_…_id` -/
  root : Option Uuid := none
  role : CorrectionRole := .none
  pairId : Option Uuid := none
  generation : ℕ := 0
  correctionOccurredAt : Option Timestamp := none
  deriving DecidableEq

/-- A row of `assets`. -/
structure AssetRow where
  id : Uuid
  itemId : Uuid
  assetTag : String
  description : String
  ownerPartyId : Uuid
  custodianPartyId : Option Uuid
  currentLocationId : Option Uuid
  currentAssignmentId : Option Uuid
  currentState : AssetState
  version : ℕ
  createdByActorId : Uuid
  updatedByActorId : Uuid
  createdAt : Timestamp
  updatedAt : Timestamp
  deriving DecidableEq, Repr

/-- A row of `asset_initial_facts`. -/
structure InitialFacts where
  assetId : Uuid
  initialOwnerPartyId : Uuid
  initialCustodianPartyId : Option Uuid
  initialLocationId : Option Uuid
  actorId : Uuid
  occurredAt : Timestamp
  recordedAt : Timestamp
  deriving DecidableEq, Repr

/-- A row of `asset_initial_assignment_facts`, which attests that an Asset began unassigned. -/
structure InitialAssignmentFacts where
  assetId : Uuid
  actorId : Uuid
  occurredAt : Timestamp
  recordedAt : Timestamp
  deriving DecidableEq, Repr

/-- `asset_identifiers.type`. -/
inductive IdentifierType
  | manufacturerSerial | pcbSerial | mac | imei | other
  deriving DecidableEq, Repr

/-- A row of `asset_identifiers`. -/
structure AssetIdentifier where
  id : Uuid
  assetId : Uuid
  type : IdentifierType
  value : Option String
  unreadableReason : Option String
  createdByActorId : Uuid
  createdAt : Timestamp
  deriving DecidableEq, Repr

/-- One tenant's Asset tables; `orgId` is the `org_id` of every row. -/
structure AssetTables where
  orgId : Uuid
  assets : List AssetRow := []
  history : (k : HistoryClass) → List (HistoryRow (Fact k)) := fun _ => []
  initialFacts : List InitialFacts := []
  initialAssignmentFacts : List InitialAssignmentFacts := []
  identifiers : List AssetIdentifier := []

/-- The tables whose primary keys are shared with the other tenants. -/
inductive TableName
  | assets | assetIdentifiers | history (k : HistoryClass)
  | receipts | receiptComparators | receiptLines | receiptReconciliations | receivingExceptions
  | receiptLineCorrections | purchaseOrderLineCorrections | receiptCorrectionEvaluations
  | receiptEvaluationLines | receiptEvaluationExpectations | receiptEvaluationExceptions
  | exceptionEvents | syncConflicts | syncConflictOperations | syncConflictEvents
  deriving DecidableEq, Repr

/-- What a statement reads besides the tables that it writes. -/
structure Context where
  session : Session
  refs : References
  /-- Primary keys of other tenants' rows. -/
  foreignKeys : TableName → List Uuid := fun _ => []
  /-- `[[:space:]]` in the database's locale. -/
  posixSpace : Char → Bool
  /-- `pg_current_xact_id()` -/
  transactionId : ℕ := 0
  /-- `transaction_isolation` is `read committed`. -/
  readCommitted : Bool := true

/-! ## Projections -/

/-- The Asset column of a class. -/
def AssetRow.projection (asset : AssetRow) : (k : HistoryClass) → Option (Projected k)
  | .transition => some asset.currentState
  | .movement => asset.currentLocationId
  | .custody => asset.custodianPartyId
  | .ownership => some asset.ownerPartyId
  | .assignment => asset.currentAssignmentId

/-- `SET projection = value`; the state and the owner are `NOT NULL`. -/
def AssetRow.setProjection (asset : AssetRow) :
    (k : HistoryClass) → Option (Projected k) → Sql AssetRow
  | .transition, value => do
      let state ← notNull value "current_state"
      pure { asset with currentState := state }
  | .movement, value => pure { asset with currentLocationId := value }
  | .custody, value => pure { asset with custodianPartyId := value }
  | .ownership, value => do
      let owner ← notNull value "owner_party_id"
      pure { asset with ownerPartyId := owner }
  | .assignment, value => pure { asset with currentAssignmentId := value }

/-- `SET version = …`. -/
def AssetRow.atVersion (asset : AssetRow) (version : ℕ) : AssetRow :=
  { asset with version := version }

/-- `SET updated_by_actor_id = …, updated_at = …`. -/
def AssetRow.updatedBy (asset : AssetRow) (actor : Uuid) (now : Timestamp) : AssetRow :=
  { asset with updatedByActorId := actor, updatedAt := now }

@[simp] theorem AssetRow.id_atVersion (asset : AssetRow) (version : ℕ) :
    (asset.atVersion version).id = asset.id := rfl

@[simp] theorem AssetRow.version_atVersion (asset : AssetRow) (version : ℕ) :
    (asset.atVersion version).version = version := rfl

@[simp] theorem AssetRow.projection_atVersion (asset : AssetRow) (version : ℕ)
    (k : HistoryClass) : (asset.atVersion version).projection k = asset.projection k := by
  cases k <;> rfl

@[simp] theorem AssetRow.id_updatedBy (asset : AssetRow) (actor : Uuid) (now : Timestamp) :
    (asset.updatedBy actor now).id = asset.id := rfl

@[simp] theorem AssetRow.projection_updatedBy (asset : AssetRow) (actor : Uuid) (now : Timestamp)
    (k : HistoryClass) : (asset.updatedBy actor now).projection k = asset.projection k := by
  cases k <;> rfl

/-- The projection of a class that projects its fact. -/
def factProjected : (k : HistoryClass) → Option (Fact k) → Option (Projected k)
  | .transition, fact => fact
  | .movement, fact => fact
  | .custody, fact => fact
  | .ownership, fact => fact
  | .assignment, _ => none

/-- What a history row projects: its fact, or the event itself where it assigns. -/
def HistoryRow.projected : (k : HistoryClass) → HistoryRow (Fact k) → Option (Projected k)
  | .assignment, row => if row.toFact.isNone then none else some row.id
  | .transition, row => factProjected .transition row.toFact
  | .movement, row => factProjected .movement row.toFact
  | .custody, row => factProjected .custody row.toFact
  | .ownership, row => factProjected .ownership row.toFact

/-- A class's baseline, the column of `asset_initial_facts`; the lifecycle and the assignment
have none. -/
def InitialFacts.baseline (facts : InitialFacts) : (k : HistoryClass) → Option (Fact k)
  | .transition => none
  | .movement => facts.initialLocationId
  | .custody => facts.initialCustodianPartyId
  | .ownership => some facts.initialOwnerPartyId
  | .assignment => none

/-- The classes whose projection falls back on `asset_initial_facts`. -/
def HistoryClass.isPhysical : HistoryClass → Bool
  | .movement | .custody | .ownership => true
  | .transition | .assignment => false

/-! ## Reading the tables -/

namespace AssetTables

/-- `SELECT … FROM assets WHERE org_id = … AND id = …`. -/
def asset? (tables : AssetTables) (org id : Uuid) : Option AssetRow :=
  if org = tables.orgId then tables.assets.find? (·.id = id) else none

/-- An Asset's witness of creation. -/
def initialFacts? (tables : AssetTables) (asset : Uuid) : Option InitialFacts :=
  tables.initialFacts.find? (·.assetId = asset)

/-- An Asset's witness of initial unassignment. -/
def initialAssignment? (tables : AssetTables) (asset : Uuid) : Option InitialAssignmentFacts :=
  tables.initialAssignmentFacts.find? (·.assetId = asset)

/-- An Asset's rows in one history, in the order they were inserted. -/
def rowsFor (tables : AssetTables) (k : HistoryClass) (asset : Uuid) :
    List (HistoryRow (Fact k)) :=
  (tables.history k).filter (·.assetId = asset)

/-- The versions that the five histories of an Asset produced. -/
def versionsFor (tables : AssetTables) (asset : Uuid) : List ℕ :=
  HistoryClass.all.flatMap fun k => (tables.rowsFor k asset).map HistoryRow.resultVersion

end AssetTables

/-! ## Writing the tables -/

/-- `NOT NULL` on a class's fact columns. -/
def requiredFacts : (k : HistoryClass) → HistoryRow (Fact k) → Bool
  | .transition, row => row.toFact.isSome
  | .ownership, row => row.fromFact.isSome && row.toFact.isSome
  | .movement, _ | .custody, _ | .assignment, _ => true

/-- `length(btrim(reason)) BETWEEN 1 AND 4000`. -/
def reasonLength (reason : String) : Bool :=
  1 ≤ (btrim reason).length && (btrim reason).length ≤ 4000

/-- `reason ~ '[^[:space:]]'`. -/
def hasNonSpace (posixSpace : Char → Bool) (text : String) : Bool :=
  text.toList.any fun c => !posixSpace c

/-- The `CHECK` constraints that are a class's own. -/
def classChecks (posixSpace : Char → Bool) : (k : HistoryClass) → HistoryRow (Fact k) → Bool
  | .transition, row =>
      reasonLength row.reason &&
        ((row.resultVersion == 1 && row.fromFact.isNone && row.toFact == some AssetState.received) ||
          (decide (1 < row.resultVersion) && row.fromFact.isSome))
  | .movement, row | .custody, row | .ownership, row =>
      reasonLength row.reason && hasNonSpace posixSpace row.reason
  | .assignment, row =>
      reasonLength row.reason && hasNonSpace posixSpace row.reason &&
        (row.fromFact.isSome || row.toFact.isSome)

/-- The `CHECK` constraints of a history table. -/
def historyChecks (posixSpace : Char → Bool) (k : HistoryClass) (row : HistoryRow (Fact k)) : Bool :=
  decide (0 < row.resultVersion) && classChecks posixSpace k row &&
    row.correctionOccurredAt.all Timestamp.isFinite

/-- The unique indexes of a history table. -/
def historyUnique {φ : Type} (foreign : List Uuid) (rows : List (HistoryRow φ))
    (row : HistoryRow φ) : Bool :=
  !foreign.contains row.id && rows.all fun other =>
    other.id != row.id &&
      !(other.assetId == row.assetId && other.resultVersion == row.resultVersion) &&
      (row.role == .none || other.role != row.role ||
        !(row.pairId.isSome && other.pairId == row.pairId) &&
          !(row.root.isSome && other.root == row.root && other.generation == row.generation))

/-- The foreign keys of a class's fact columns. -/
def factReference (refs : References) : (k : HistoryClass) → Option (Fact k) → Bool
  | .movement, fact => fact.all refs.locations.contains
  | .custody, fact | .ownership, fact => fact.all refs.parties.contains
  | .transition, _ | .assignment, _ => true

/-- The foreign keys of a history table. -/
def historyReferences (refs : References) (tables : AssetTables) (k : HistoryClass)
    (row : HistoryRow (Fact k)) : Bool :=
  tables.assets.any (·.id = row.assetId) && refs.actors.contains row.actorId &&
    factReference refs k row.fromFact && factReference refs k row.toFact &&
    row.root.all (fun root => (tables.rowsFor k row.assetId).any (·.id = root)) &&
    row.evidenceRef.all fun ref => refs.attachments.any (·.id = ref)

/-- The evidence a transition needs: for disposal where it retires the Asset. -/
def evidencePurpose (row : HistoryRow AssetState) : Option EvidenceRole :=
  if row.toFact = some .retired ∧ row.role ≠ .reversal then some .disposalEvidence else none

/-- `guard_asset_evidence`, a trigger on transitions. -/
def guardAssetEvidence (refs : References) (org : Uuid) :
    (k : HistoryClass) → HistoryRow (Fact k) → Sql Unit
  | .transition, row =>
      require (row.evidenceRef.isSome ∨ (evidencePurpose row).isSome →
        validAssetEvidence refs org row.evidenceRef row.assetId (evidencePurpose row))
        .checkViolation "Verifiable linked evidence required"
  | .movement, _ | .custody, _ | .ownership, _ | .assignment, _ => .ok ()

namespace AssetTables

/-- Rows appended to one history. -/
def append (tables : AssetTables) (k : HistoryClass) (rows : List (HistoryRow (Fact k))) :
    AssetTables :=
  { tables with history := Function.update tables.history k (tables.history k ++ rows) }

/-- The row with this id replaced. -/
def putAsset (tables : AssetTables) (asset : AssetRow) : AssetTables :=
  { tables with assets := tables.assets.map fun a => if a.id = asset.id then asset else a }

end AssetTables

/-- `INSERT INTO` a history table. -/
def insertHistory (ctx : Context) (k : HistoryClass) (row : HistoryRow (Fact k))
    (tables : AssetTables) : Sql AssetTables := do
  guardAssetEvidence ctx.refs tables.orgId k row
  require (requiredFacts k row) .notNullViolation "history fact"
  require (historyChecks ctx.posixSpace k row) .checkViolation "history check"
  require (historyUnique (ctx.foreignKeys (.history k)) (tables.history k) row) .uniqueViolation
    "history key"
  require (historyReferences ctx.refs tables k row) .foreignKeyViolation "history reference"
  enforceAuthenticatedCreator ctx.session row.actorId
  pure (tables.append k [row])

/-- The foreign key of the column that a class projects. -/
def projectionReference (refs : References) (tables : AssetTables) (asset : AssetRow) :
    HistoryClass → Bool
  | .transition => true
  | .movement => asset.currentLocationId.all refs.locations.contains
  | .custody => asset.custodianPartyId.all refs.parties.contains
  | .ownership => refs.parties.contains asset.ownerPartyId
  | .assignment => asset.currentAssignmentId.all fun event =>
      (tables.rowsFor .assignment asset.id).any (·.id = event)

/-- `UPDATE assets SET projection = …, version = …`; `asset` is the locked row. -/
def updateAsset (ctx : Context) (k : HistoryClass) (asset : AssetRow) (value : Option (Projected k))
    (version : ℕ) (tables : AssetTables) : Sql AssetTables := do
  let asset ← asset.setProjection k value
  require (projectionReference ctx.refs tables asset k) .foreignKeyViolation "asset reference"
  pure (tables.putAsset (asset.atVersion version))

end FleetOps
