import FleetOps.Assets.Corrections

/-!
# Calls of the database boundary

Every write to an existing Asset goes through one of eleven functions.  A
`Call` names one with its arguments; `perform` runs it as one transaction, the
function first and then the deferred check of the history it wrote.

`perform_cases` says all that an accepted call can have done, in terms of
`Recorded` and `Amended`; the rest of the file is what both leave alone.
-/

namespace FleetOps

/-- A call of one of the operations or correction functions. -/
inductive Call
  | transitionAsset (args : TransitionArgs)
  | moveAsset (args : ChangeArgs) (toLocationId : Option Uuid)
  | changeCustody (args : ChangeArgs) (toCustodianPartyId : Option Uuid)
  | changeOwnership (args : ChangeArgs) (toOwnerPartyId : Option Uuid)
  | assignAsset (args : ChangeArgs) (assigneeType : Option AssigneeType) (assigneeId : Option Uuid)
  | unassignAsset (args : ChangeArgs)
  | correct (k : HistoryClass) (args : CorrectionArgs k)

namespace Call

/-- The history that a call writes to. -/
def historyClass : Call → HistoryClass
  | transitionAsset _ => .transition
  | moveAsset .. => .movement
  | changeCustody .. => .custody
  | changeOwnership .. => .ownership
  | assignAsset .. | unassignAsset _ => .assignment
  | correct k _ => k

def assetId : Call → Uuid
  | transitionAsset args => args.assetId
  | moveAsset args _ | changeCustody args _ | changeOwnership args _ => args.assetId
  | assignAsset args _ _ | unassignAsset args => args.assetId
  | correct _ args => args.assetId

def expectedVersion : Call → Option ℕ
  | transitionAsset args => args.expectedVersion
  | moveAsset args _ | changeCustody args _ | changeOwnership args _ => args.expectedVersion
  | assignAsset args _ _ | unassignAsset args => args.expectedVersion
  | correct _ args => args.expectedVersion

/-- How many versions an accepted call produces. -/
def produces : Call → ℕ
  | correct .. => 2
  | _ => 1

/-- The function that a call is of, with the row it returns. -/
def body (ctx : Context) (tables : AssetTables) : (call : Call) → Sql (Produced call.historyClass)
  | transitionAsset args => FleetOps.transitionAsset ctx args tables
  | moveAsset args location => FleetOps.moveAsset ctx args location tables
  | changeCustody args party => FleetOps.changeCustody ctx args party tables
  | changeOwnership args party => FleetOps.changeOwnership ctx args party tables
  | assignAsset args type id => FleetOps.assignAsset ctx args type id tables
  | unassignAsset args => FleetOps.unassignAsset ctx args tables
  | correct .transition args => correctTransitionSql ctx args tables
  | correct .movement args => correctMovementSql ctx args tables
  | correct .custody args => correctCustodySql ctx args tables
  | correct .ownership args => correctOwnershipSql ctx args tables
  | correct .assignment args => correctAssignmentSql ctx args tables

end Call

/-- One call as one transaction. -/
def perform (request : Context × Call) (tables : AssetTables) : Sql AssetTables := do
  let (_, after) ← request.2.body request.1 tables
  checkPairs request.1 request.2.historyClass request.2.assetId after
  pure after

theorem body_correct {ctx : Context} {tables : AssetTables} (k : HistoryClass)
    (args : CorrectionArgs k) :
    (Call.correct k args).body ctx tables = correctionSql ctx k args tables := by
  cases k <;> rfl

/-- What an accepted call did: it recorded one row, or amended the newest assertion. -/
theorem perform_cases {ctx : Context} {call : Call} {tables after : AssetTables}
    (h : perform (ctx, call) tables = .ok after) :
    (call.produces = 1 ∧ ∃ asset row,
        Recorded ctx call.historyClass call.assetId call.expectedVersion tables asset row after) ∨
      ∃ (k : HistoryClass) (args : CorrectionArgs k), call = .correct k args ∧
        ∃ asset original head reversal corrected,
          Amended ctx k args tables asset original head reversal corrected after := by
  simp only [perform, bind_eq_ok, pure_eq_ok] at h
  obtain ⟨⟨row, _⟩, hbody, -, -, rfl⟩ := h
  cases call with
  | transitionAsset args =>
      obtain ⟨⟨asset, hrecorded⟩, -⟩ := recorded_of_transitionAsset hbody
      exact .inl ⟨rfl, asset, row, hrecorded⟩
  | moveAsset args target | changeCustody args target | changeOwnership args target =>
      obtain ⟨asset, hrecorded⟩ := recorded_of_operationSql hbody
      exact .inl ⟨rfl, asset, row, hrecorded⟩
  | assignAsset args type id =>
      obtain ⟨asset, hrecorded⟩ := recorded_of_assignmentSql hbody
      exact .inl ⟨rfl, asset, row, hrecorded⟩
  | unassignAsset args =>
      obtain ⟨asset, hrecorded⟩ := recorded_of_assignmentSql hbody
      exact .inl ⟨rfl, asset, row, hrecorded⟩
  | correct k args =>
      rw [body_correct] at hbody
      obtain ⟨asset, original, head, reversal, hamended⟩ := amended_of_correctionSql hbody
      exact .inr ⟨k, args, rfl, asset, original, head, reversal, row, hamended⟩

/-! ## What recording leaves alone -/

theorem setProjection_projection {asset projected : AssetRow} {k : HistoryClass}
    {value : Option (Projected k)} (h : asset.setProjection k value = .ok projected) :
    projected.projection k = value := by
  cases k with
  | transition | ownership =>
      simp only [AssetRow.setProjection, bind_eq_ok, notNull_eq_ok, pure_eq_ok] at h
      obtain ⟨_, rfl, rfl⟩ := h
      rfl
  | movement | custody | assignment =>
      simp only [AssetRow.setProjection, pure_eq_ok] at h
      exact h ▸ rfl

/-- An `UPDATE` of one class's column leaves the other columns, the key and the version alone. -/
theorem setProjection_frame {asset projected : AssetRow} {k : HistoryClass}
    {value : Option (Projected k)} (h : asset.setProjection k value = .ok projected) :
    projected.id = asset.id ∧ ∀ other, other ≠ k → projected.projection other =
      asset.projection other := by
  cases k with
  | transition | ownership =>
      simp only [AssetRow.setProjection, bind_eq_ok, notNull_eq_ok, pure_eq_ok] at h
      obtain ⟨_, -, rfl⟩ := h
      exact ⟨rfl, fun other hother => by cases other <;> first | rfl | exact absurd rfl hother⟩
  | movement | custody | assignment =>
      simp only [AssetRow.setProjection, pure_eq_ok] at h
      subst h
      exact ⟨rfl, fun other hother => by cases other <;> first | rfl | exact absurd rfl hother⟩

namespace AssetTables

variable {tables : AssetTables} {k : HistoryClass} {rows : List (HistoryRow (Fact k))}
  {asset : AssetRow}

@[simp] theorem orgId_record : (tables.record k rows asset).orgId = tables.orgId := rfl

@[simp] theorem initialFacts?_record (id : Uuid) :
    (tables.record k rows asset).initialFacts? id = tables.initialFacts? id := rfl

@[simp] theorem history_record :
    (tables.record k rows asset).history k = tables.history k ++ rows := by
  simp [record, append, putAsset]

theorem history_record_of_ne {other : HistoryClass} (h : other ≠ k) :
    (tables.record k rows asset).history other = tables.history other := by
  simp [record, append, putAsset, h]

theorem rowsFor_record (id : Uuid) : (tables.record k rows asset).rowsFor k id =
    tables.rowsFor k id ++ rows.filter (·.assetId = id) := by
  simp [rowsFor]

theorem rowsFor_record_of_ne {other : HistoryClass} (h : other ≠ k) (id : Uuid) :
    (tables.record k rows asset).rowsFor other id = tables.rowsFor other id := by
  rw [rowsFor, history_record_of_ne h, rowsFor]

/-- Rows recorded for an Asset are in its history. -/
theorem rowsFor_record_self (tables : AssetTables) (asset : AssetRow)
    (h : ∀ row ∈ rows, row.assetId = asset.id) :
    (tables.record k rows asset).rowsFor k asset.id = tables.rowsFor k asset.id ++ rows := by
  rw [rowsFor_record, List.filter_eq_self.mpr (by simpa using h)]

/-- Rows recorded for an Asset are in no other Asset's history. -/
theorem rowsFor_record_other (h : ∀ row ∈ rows, row.assetId = asset.id) {id : Uuid}
    (hid : id ≠ asset.id) (other : HistoryClass) :
    (tables.record k rows asset).rowsFor other id = tables.rowsFor other id := by
  by_cases hclass : other = k
  · subst hclass
    rw [rowsFor_record, List.filter_eq_nil_iff.mpr, List.append_nil]
    intro row hrow
    simpa [h row hrow] using Ne.symm hid
  · exact rowsFor_record_of_ne hclass id

private theorem find?_put_self {assets : List AssetRow} {asset found : AssetRow}
    (h : assets.find? (·.id = asset.id) = some found) :
    (assets.map fun a => if a.id = asset.id then asset else a).find? (·.id = asset.id) =
      some asset := by
  induction assets with
  | nil => simp at h
  | cons a rest ih =>
      by_cases ha : a.id = asset.id
      · simp [ha]
      · simp only [List.find?_cons, ha, decide_false] at h
        simp only [List.map_cons, ha, if_false, List.find?_cons, decide_false]
        exact ih h

private theorem find?_put_other {assets : List AssetRow} {asset : AssetRow} {id : Uuid}
    (hid : id ≠ asset.id) :
    (assets.map fun a => if a.id = asset.id then asset else a).find? (·.id = id) =
      assets.find? (·.id = id) := by
  induction assets with
  | nil => rfl
  | cons a rest ih =>
      by_cases ha : a.id = asset.id
      · simp only [List.map_cons, ha, if_true, List.find?_cons, Ne.symm hid, decide_false, ih]
      · simp only [List.map_cons, ha, if_false, List.find?_cons, ih]

theorem find_record_self (asset : AssetRow) {found : AssetRow}
    (h : tables.assets.find? (·.id = asset.id) = some found) :
    (tables.record k rows asset).assets.find? (·.id = asset.id) = some asset :=
  find?_put_self h

theorem find_record_other {id : Uuid} (hid : id ≠ asset.id) :
    (tables.record k rows asset).assets.find? (·.id = id) = tables.assets.find? (·.id = id) :=
  find?_put_other hid

/-- The five histories together gain what one of them gains. -/
theorem versionsFor_record_self (h : ∀ row ∈ rows, row.assetId = asset.id) :
    ((tables.record k rows asset).versionsFor asset.id).Perm
      (tables.versionsFor asset.id ++ rows.map HistoryRow.resultVersion) := by
  have hself := tables.rowsFor_record_self asset h
  have hother : ∀ other, other ≠ k →
      (tables.record k rows asset).rowsFor other asset.id = tables.rowsFor other asset.id :=
    fun other hne => rowsFor_record_of_ne hne asset.id
  refine List.perm_iff_count.mpr fun version => ?_
  simp only [versionsFor, HistoryClass.all, List.flatMap_cons, List.flatMap_nil, List.count_append,
    List.count_nil]
  cases k with
  | transition =>
      rw [hself, hother .movement (by decide), hother .custody (by decide),
        hother .ownership (by decide), hother .assignment (by decide)]
      simp only [List.map_append, List.count_append]
      omega
  | movement =>
      rw [hself, hother .transition (by decide), hother .custody (by decide),
        hother .ownership (by decide), hother .assignment (by decide)]
      simp only [List.map_append, List.count_append]
      omega
  | custody =>
      rw [hself, hother .transition (by decide), hother .movement (by decide),
        hother .ownership (by decide), hother .assignment (by decide)]
      simp only [List.map_append, List.count_append]
      omega
  | ownership =>
      rw [hself, hother .transition (by decide), hother .movement (by decide),
        hother .custody (by decide), hother .assignment (by decide)]
      simp only [List.map_append, List.count_append]
      omega
  | assignment =>
      rw [hself, hother .transition (by decide), hother .movement (by decide),
        hother .custody (by decide), hother .ownership (by decide)]
      simp only [List.map_append, List.count_append]
      omega

theorem versionsFor_record_other (h : ∀ row ∈ rows, row.assetId = asset.id) {id : Uuid}
    (hid : id ≠ asset.id) :
    (tables.record k rows asset).versionsFor id = tables.versionsFor id := by
  simp only [versionsFor, rowsFor_record_other h hid]

end AssetTables

end FleetOps
