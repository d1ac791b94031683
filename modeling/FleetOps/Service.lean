import FleetOps.Sql

/-!
# Services

The request boundary calls services, which read through the tenant's rows and
invoke the database's functions.  A service translates the database errors that
it knows into exceptions of its own; an error that it does not know stays a
database error.  Either way the request's transaction is rolled back.
-/

namespace FleetOps

/-- The exceptions that services raise. -/
inductive FailureKind
  | assetNotFound | assetConflict | assetInvalid
  | lifecycleInvalid
  | receivingNotFound | receivingConflict | receivingInvalid
  | evidenceNotFound | evidenceConflict | evidenceInvalid
  | evidenceStorageError
  | procurementNotFound | procurementConflict | procurementInvalid
  | spaceNotFound | spaceConflict | spaceInvalid | spaceHierarchyInvalid
  | labelNotFound | labelConflict
  /-- `KeyError` -/
  | keyError
  /-- `NoResultFound` -/
  | noResultFound
  /-- `DBAPIError`, untranslated -/
  | database (state : SqlState)
  deriving DecidableEq, Repr

/-- A raised exception with its message, and the database error that it was raised from. -/
structure Failure where
  kind : FailureKind
  message : String
  cause : Option SqlError := none
  deriving DecidableEq, Repr

abbrev Service := Except Failure

namespace Service

def fail {α : Type} (kind : FailureKind) (message : String) : Service α :=
  .error { kind, message }

/-- `if not condition: raise …`. -/
def ensure (condition : Prop) [Decidable condition] (kind : FailureKind) (message : String) :
    Service Unit :=
  if condition then .ok () else fail kind message

/-- `.one_or_none()`, and an exception for `None`. -/
def fetch {α : Type} (row : Option α) (kind : FailureKind) (message : String) : Service α :=
  match row with
  | some found => .ok found
  | none => fail kind message

/-- `connection.execute`, which raises the database's error as it is. -/
def execute {α : Type} (statement : Sql α) : Service α :=
  match statement with
  | .ok value => .ok value
  | .error error => .error ⟨.database error.state, error.message, some error⟩

/-- A context that translates the database errors of its body: `raise … from error`. -/
def translating {α : Type} (translate : SqlState → Option (FailureKind × String))
    (body : Service α) : Service α :=
  match body with
  | .error ⟨.database state, message, cause⟩ =>
      match translate state with
      | some (kind, reported) => .error ⟨kind, reported, cause⟩
      | none => .error ⟨.database state, message, cause⟩
  | other => other

variable {α : Type} {kind : FailureKind} {message : String}

@[simp] theorem fail_ne_ok {value : α} : (fail kind message : Service α) ≠ .ok value := by
  simp [fail]

@[simp] theorem ensure_eq_ok {condition : Prop} [Decidable condition] {u : Unit} :
    ensure condition kind message = .ok u ↔ condition := by
  unfold ensure
  split <;> simp_all

@[simp] theorem fetch_eq_ok {row : Option α} {found : α} :
    fetch row kind message = .ok found ↔ row = some found := by
  cases row <;> simp [fetch]

@[simp] theorem execute_eq_ok {statement : Sql α} {value : α} :
    execute statement = .ok value ↔ statement = .ok value := by
  cases statement <;> simp [execute]

@[simp] theorem translating_eq_ok {translate : SqlState → Option (FailureKind × String)}
    {body : Service α} {value : α} : translating translate body = .ok value ↔ body = .ok value := by
  unfold translating
  split
  · split <;> simp
  · rfl

end Service

end FleetOps
