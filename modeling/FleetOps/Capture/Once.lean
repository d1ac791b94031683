import FleetOps.Capture.Sequencing
import FleetOps.Capture.Workflows

/-!
# Operations are captured once

A transaction that records an operation does what the stored result says and
nothing else (`CaptureEffect`, `Recording`); any other committed transaction of
an operation is a replay, which leaves everything as it was
(`Capture.attempt_cases`).  So over a run each record has one transaction that
made it (`CapturedOnce`), and whoever submits a recorded operation again changes
nothing: its Actor is answered with the record, anyone else learns nothing
(`Replayed`).
-/

namespace FleetOps

/-! ## Effects -/

/-- What an operation's transaction does to its tenant's records, by the result that it stores. -/
inductive CaptureEffect {ν : Type} (verbs : Verbs ν) (ctx : Context) (op : CaptureOperation)
    (before : Database) : SyncState → CaptureResult → Database → Prop
  | rejection (code : RejectionCode) :
      CaptureEffect verbs ctx op before .rejected (.rejection code) before
  /-- One conflict, which no other of the operation precedes. -/
  | conflict (row : SyncConflict) (own : row.operationId = op.operationId)
      (only : ∀ other ∈ before.conflicts.conflicts, other.operationId ≠ op.operationId) :
      CaptureEffect verbs ctx op before .rejected
        (.conflict row.id row.expectedFacts row.currentFacts)
        { before with conflicts :=
          { before.conflicts with conflicts := before.conflicts.conflicts ++ [row] } }
  /-- One call of the operation's verb. -/
  | applied (values : ν) (value : Payload) (after : Database)
      (valid : verbs.validate op = .ok values)
      (apply : verbs.apply ctx op values before = .ok (value, after)) :
      CaptureEffect verbs ctx op before .applied (.applied value) after

/-- The record keeps an operation as it was submitted. -/
structure CaptureRecord.Keeps (row : CaptureRecord) (op : CaptureOperation) : Prop where
  stream : row.stream = op.stream row.stream.orgId
  claimedActorId : row.claimedActorId = op.actorId
  entity : row.entityType = op.entityType ∧ row.entityId = op.entityId
  expectedVersion : row.expectedVersion = op.expectedVersion
  operation : row.operation = op.operation
  payload : row.payload = op.payload
  occurredAt : row.occurredAt = op.occurredAt

/-- The context of a transaction in a tenant. -/
def CaptureTurn.context (turn : CaptureTurn) (org : Uuid) : Context :=
  { turn.ctx with session := { turn.ctx.session with organization := some org } }

/-- A transaction that records an operation, with all that it changes. -/
structure Recording {ν : Type} (verbs : Verbs ν) (turn : CaptureTurn) (op : CaptureOperation)
    (row : CaptureRecord) (s after : CaptureState) : Prop where
  admission : Admission op row s after
  keeps : row.Keeps op
  identity : turn.identity = some ⟨row.stream.orgId, row.actorId⟩
  effect : CaptureEffect verbs (turn.context row.stream.orgId) op (s.db row.stream.orgId)
    row.syncState row.result (after.db row.stream.orgId)
  others : ∀ org, org ≠ row.stream.orgId → after.db org = s.db org

variable {ν : Type} {verbs : Verbs ν} {turn : CaptureTurn} {op : CaptureOperation}
  {s after : CaptureState} {response : CaptureResponse} {row : CaptureRecord}

/-- The conflict that is observed is the operation's only one. -/
theorem conflict_of_insertSyncConflict {ctx : Context} {assets : AssetTables}
    {values : SyncConflictValues} {tables tables' : ConflictTables}
    (h : insertSyncConflict ctx assets values tables = .ok tables') :
    ∃ row : SyncConflict, row.id = values.id ∧ row.operationId = values.operationId ∧
      row.expectedFacts = values.expectedFacts ∧ row.currentFacts = values.currentFacts ∧
      (∀ other ∈ tables.conflicts, other.operationId ≠ values.operationId) ∧
      tables' = { tables with conflicts := tables.conflicts ++ [row] } := by
  simp only [insertSyncConflict, guardSyncConflict, bind_eq_ok, require_eq_ok, pure_eq_ok,
    exists_unit] at h
  obtain ⟨_, ⟨actor, -, -, -, rfl⟩, -, ⟨-, -, hkeys⟩, -, rfl⟩ := h
  refine ⟨_, rfl, rfl, rfl, rfl, fun other hother => ?_, rfl⟩
  have hnew := List.all_eq_true.mp hkeys other hother
  simp only [decide_eq_true_eq] at hnew
  exact hnew.2

namespace Capture

variable {identity : AuthenticatedIdentity} {db db' : Database} {state : SyncState}
  {result : CaptureResult}

/-- What is left when the savepoint is released. -/
theorem effect_of_savepoint
    (h : savepoint verbs turn identity op db = .ok (state, result, db')) :
    CaptureEffect verbs turn.ctx op db state result db' := by
  have happlied : ∀ values, verbs.validate op = .ok values →
      ∀ outcome, verbs.apply turn.ctx op values db = .ok outcome →
        (SyncState.applied, CaptureResult.applied outcome.1, outcome.2) = (state, result, db') →
          CaptureEffect verbs turn.ctx op db state result db' := by
    intro values hvalid outcome happly heq
    obtain ⟨rfl, rfl, rfl⟩ := by simpa only [Prod.mk.injEq] using heq
    exact .applied values outcome.1 outcome.2 hvalid happly
  unfold savepoint at h
  split at h
  · exact absurd h invalid_ne_ok
  · simp only [bind_eq_ok] at h
    obtain ⟨values, hvalid, h⟩ := h
    split at h
    case isFalse =>
      simp only [pure_bind, bind_eq_ok, pure_eq_ok] at h
      obtain ⟨outcome, happly, heq⟩ := h
      exact happlied values hvalid outcome happly heq
    simp only [bind_eq_ok] at h
    obtain ⟨asset, -, h⟩ := h
    split at h
    case h_2 =>
      simp only [bind_eq_ok, pure_eq_ok] at h
      obtain ⟨outcome, happly, heq⟩ := h
      exact happlied values hvalid outcome happly heq
    split at h
    · simp only [bind_eq_ok, execute_eq_ok, pure_eq_ok, Prod.mk.injEq] at h
      obtain ⟨conflicts, hinsert, rfl, rfl, rfl⟩ := h
      obtain ⟨row, hid, hown, hexpected, hcurrent, honly, rfl⟩ :=
        conflict_of_insertSyncConflict hinsert
      simp only at hid hexpected hcurrent
      rw [← hid, ← hexpected, ← hcurrent]
      exact .conflict row hown honly
    · simp only [bind_eq_ok, pure_eq_ok] at h
      obtain ⟨outcome, happly, heq⟩ := h
      exact happlied values hvalid outcome happly heq

/-- An exception that rejects the operation leaves nothing. -/
theorem effect_of_settle (h : settle verbs turn identity op db = .ok (state, result, db')) :
    CaptureEffect verbs turn.ctx op db state result db' := by
  unfold settle at h
  split at h
  · next outcome hsavepoint =>
      obtain rfl := Except.ok.inj h
      exact effect_of_savepoint hsavepoint
  · next error herror =>
      split at h
      · next code hcode =>
          simp only [Except.ok.injEq, Prod.mk.injEq] at h
          obtain ⟨rfl, rfl, rfl⟩ := h
          exact .rejection code
      · exact nomatch h

/-! ## Transactions -/

/-- A committed operation is a replay of its record by the Actor who made it, or is recorded. -/
theorem process_cases (hkeys : (s.streams.map CaptureStream.key).Nodup)
    (h : process verbs turn identity op s = .ok (response, after)) :
    (∃ original ∈ s.operations, original.operationId = op.operationId ∧
      identity = ⟨original.stream.orgId, original.actorId⟩ ∧ response = original.out true ∧
      after = s) ∨
    ∃ row, Admission op row s after ∧ row.Keeps op ∧
      identity = ⟨row.stream.orgId, row.actorId⟩ ∧
      CaptureEffect verbs turn.ctx op (s.db row.stream.orgId) row.syncState row.result
        (after.db row.stream.orgId) ∧
      (∀ org, org ≠ row.stream.orgId → after.db org = s.db org) ∧ response = row.out false := by
  unfold process at h
  split at h
  · next original horiginal =>
      have hmem := List.mem_of_find?_eq_some horiginal
      have hfound := List.find?_some horiginal
      simp only [decide_eq_true_eq] at hfound
      by_cases hactor : original.actorId = identity.actorId
      · rw [if_neg (not_not_intro hactor), pure_eq_ok] at h
        obtain ⟨rfl, rfl⟩ := Prod.mk.inj h
        refine .inl ⟨original, hmem, hfound.2, ?_, rfl, rfl⟩
        rw [hfound.1, hactor]
      · rw [if_pos hactor] at h
        exact absurd h invalid_ne_ok
  · simp only [bind_eq_ok, execute_eq_ok, pure_eq_ok] at h
    obtain ⟨⟨flags, streams⟩, hsequence, ⟨syncState, result, db⟩, hsettle, ⟨stored, final⟩, hinsert,
      h⟩ := h
    obtain ⟨rfl, rfl⟩ := Prod.mk.inj h
    obtain ⟨hperformer, last, rfl, hcounts⟩ := sequence_eq_ok hkeys hsequence
    obtain ⟨hfresh, ⟨performer, hperformer', rfl⟩, rfl⟩ := insertOperation_eq_ok hinsert
    obtain rfl := Except.ok.inj (hperformer'.symm.trans hperformer)
    refine .inr ⟨_, ⟨hfresh, rfl, rfl, rfl, last, rfl, hcounts⟩,
      ⟨rfl, rfl, ⟨rfl, rfl⟩, rfl, rfl, rfl, rfl⟩, rfl, ?_, fun org hne => ?_, rfl⟩
    · have heffect := effect_of_settle hsettle
      simpa [CaptureState.putDb, CaptureOperation.stream] using heffect
    · exact if_neg hne

theorem attempt_cases (hkeys : (s.streams.map CaptureStream.key).Nodup)
    (h : attempt verbs turn op s = .ok (response, after)) :
    (∃ original ∈ s.operations, original.operationId = op.operationId ∧
      turn.identity = some ⟨original.stream.orgId, original.actorId⟩ ∧
      response = original.out true ∧ after = s) ∨
    ∃ row, Recording verbs turn op row s after ∧ response = row.out false := by
  unfold attempt at h
  split at h
  · exact nomatch h
  · next identity hidentity =>
      simp only [bind_eq_ok, execute_eq_ok, pure_eq_ok, exists_unit] at h
      obtain ⟨⟨found, final⟩, hprocess, -, -, h⟩ := h
      obtain ⟨rfl, rfl⟩ := Prod.mk.inj h
      rcases process_cases hkeys hprocess with ⟨original, hmem, hid, rfl, hresponse, hsame⟩ |
        ⟨row, hadmission, hkeeps, rfl, heffect, hothers, hresponse⟩
      · exact .inl ⟨original, hmem, hid, hidentity, hresponse, hsame⟩
      · exact .inr ⟨row, ⟨hadmission, hkeeps, hidentity, heffect, hothers⟩, hresponse⟩

end Capture

/-! ## Runs -/

/-- The transition recorded the operation. -/
def recordedBy (id : Uuid) (commit : Machine.Commit CaptureStep CaptureState) : Bool :=
  decide (id ∈ commit.after.operations.map CaptureRecord.operationId ∧
    id ∉ commit.before.operations.map CaptureRecord.operationId)

/-- The records of a run, with the transactions that made them. -/
structure CapturedOnce (verbs : Verbs ν)
    (commits : List (Machine.Commit CaptureStep CaptureState)) (s : CaptureState) : Prop where
  unique : (s.operations.map CaptureRecord.operationId).Nodup
  /-- Each record was made by one transaction. -/
  recorded : ∀ row ∈ s.operations, ∃ commit,
    commits.filter (recordedBy row.operationId) = [commit] ∧ ∃ turn op,
      commit.action = .attempt turn op ∧ Recording verbs turn op row commit.before commit.after
  /-- Every other transaction of an operation left everything as it was. -/
  replayed : ∀ commit ∈ commits, ∀ turn op, commit.action = .attempt turn op →
    (∃ row ∈ s.operations, Recording verbs turn op row commit.before commit.after) ∨
      op.operationId ∈ commit.before.operations.map CaptureRecord.operationId ∧
        commit.after = commit.before
  /-- No record changes or is lost. -/
  kept : ∀ commit ∈ commits, commit.after.operations <+: s.operations

/-- How a recorded operation is answered again, whatever it now says. -/
structure Replayed (verbs : Verbs ν) (row : CaptureRecord) (s : CaptureState) : Prop where
  unchanged : ∀ turn op, op.operationId = row.operationId → (Capture.answer verbs turn op s).2 = s
  /-- Its Actor gets the record, unless a check of the unchanged records fails. -/
  owner : ∀ (turn : CaptureTurn) op, op.operationId = row.operationId →
    turn.identity = some ⟨row.stream.orgId, row.actorId⟩ →
      verbs.deferred (turn.context row.stream.orgId) (s.db row.stream.orgId)
          (s.db row.stream.orgId) = .ok () →
        (Capture.answer verbs turn op s).1 = .ok (row.out true)
  /-- Anyone else gets no answer but that it is unavailable. -/
  stranger : ∀ (turn : CaptureTurn) op response, op.operationId = row.operationId →
    turn.identity ≠ some ⟨row.stream.orgId, row.actorId⟩ →
      (Capture.answer verbs turn op s).1 = .ok response → response = Capture.unavailable op

namespace CapturedOnce

variable {commits : List (Machine.Commit CaptureStep CaptureState)} {next : CaptureState}

/-- A record that is not there yet was made by no transition. -/
theorem filter_eq_nil (h : CapturedOnce verbs commits s) {id : Uuid}
    (hfresh : id ∉ s.operations.map CaptureRecord.operationId) :
    commits.filter (recordedBy id) = [] := by
  refine List.filter_eq_nil_iff.mpr fun commit hcommit hrecorded => hfresh ?_
  exact ((h.kept commit hcommit).map CaptureRecord.operationId).mem (of_decide_eq_true hrecorded).1

/-- A step that records nothing. -/
theorem unchanged (h : CapturedOnce verbs commits s) {step : CaptureStep}
    (hoperations : next.operations = s.operations)
    (hreplay : ∀ turn op, step = .attempt turn op →
      op.operationId ∈ s.operations.map CaptureRecord.operationId ∧ next = s) :
    CapturedOnce verbs (commits ++ [⟨s, step, next⟩]) next := by
  constructor
  case unique => exact hoperations ▸ h.unique
  case recorded =>
    intro row hrow
    rw [hoperations] at hrow
    obtain ⟨commit, hfilter, hmade⟩ := h.recorded row hrow
    have hnot : recordedBy row.operationId ⟨s, step, next⟩ = false := by
      simp [recordedBy, hoperations]
    refine ⟨commit, ?_, hmade⟩
    rw [List.filter_append, hfilter, List.filter_singleton, hnot]
    rfl
  case replayed =>
    intro commit hcommit turn op haction
    rw [hoperations]
    rcases List.mem_append.mp hcommit with hold | hnew
    · exact h.replayed commit hold turn op haction
    · obtain rfl := List.mem_singleton.mp hnew
      exact .inr (hreplay turn op haction)
  case kept =>
    intro commit hcommit
    rw [hoperations]
    rcases List.mem_append.mp hcommit with hold | hnew
    · exact h.kept commit hold
    · rw [List.mem_singleton.mp hnew]
      exact hoperations ▸ List.prefix_rfl

/-- A step that records an operation. -/
theorem record (h : CapturedOnce verbs commits s)
    (hrecording : Recording verbs turn op row s next) :
    CapturedOnce verbs (commits ++ [⟨s, .attempt turn op, next⟩]) next := by
  have hadmission := hrecording.admission
  have hfresh := hadmission.fresh
  rw [← hadmission.operationId] at hfresh
  have hids : next.operations.map CaptureRecord.operationId =
      s.operations.map CaptureRecord.operationId ++ [row.operationId] := by
    rw [hadmission.operations, List.map_append, List.map_singleton]
  have hprefix : s.operations <+: next.operations := ⟨[row], hadmission.operations.symm⟩
  constructor
  case unique =>
    rw [hids]
    exact List.nodup_append.mpr ⟨h.unique, List.nodup_singleton _, fun id hid other hother heq =>
      hfresh (by rwa [← List.mem_singleton.mp hother, ← heq])⟩
  case recorded =>
    intro other hother
    rw [hadmission.operations] at hother
    rcases List.mem_append.mp hother with hold | hnew
    · obtain ⟨commit, hfilter, hmade⟩ := h.recorded other hold
      have hnot : recordedBy other.operationId ⟨s, .attempt turn op, next⟩ = false :=
        decide_eq_false fun hboth => hboth.2 (List.mem_map_of_mem hold)
      refine ⟨commit, ?_, hmade⟩
      rw [List.filter_append, hfilter, List.filter_singleton, hnot]
      rfl
    · obtain rfl := List.mem_singleton.mp hnew
      have hmade : recordedBy other.operationId ⟨s, .attempt turn op, next⟩ = true :=
        decide_eq_true ⟨by rw [hids]; exact List.mem_concat_self, hfresh⟩
      refine ⟨⟨s, .attempt turn op, next⟩, ?_, turn, op, rfl, hrecording⟩
      rw [List.filter_append, h.filter_eq_nil hfresh, List.filter_singleton, hmade]
      rfl
  case replayed =>
    intro commit hcommit turn' op' haction
    rcases List.mem_append.mp hcommit with hold | hnew
    · refine (h.replayed commit hold turn' op' haction).imp_left ?_
      rintro ⟨other, hother, hmade⟩
      exact ⟨other, hprefix.mem hother, hmade⟩
    · obtain rfl := List.mem_singleton.mp hnew
      obtain ⟨rfl, rfl⟩ := CaptureStep.attempt.inj haction
      refine .inl ⟨row, ?_, hrecording⟩
      rw [hadmission.operations]
      exact List.mem_concat_self
  case kept =>
    intro commit hcommit
    rcases List.mem_append.mp hcommit with hold | hnew
    · exact (h.kept commit hold).trans hprefix
    · obtain rfl := List.mem_singleton.mp hnew
      exact List.prefix_rfl

/-- Every committed step keeps the account. -/
theorem exec (h : CapturedOnce verbs commits s) (hs : s.Sequenced) {step : CaptureStep}
    (hexec : s.exec verbs step = .ok next) :
    CapturedOnce verbs (commits ++ [⟨s, step, next⟩]) next := by
  cases step with
  | elsewhere db =>
      obtain rfl := Except.ok.inj hexec
      exact h.unchanged rfl fun turn op hstep => absurd hstep (by simp)
  | attempt turn op =>
      cases hattempt : Capture.attempt verbs turn op s with
      | error error =>
          rw [CaptureState.exec, hattempt] at hexec
          exact absurd hexec (by simp)
      | ok outcome =>
          obtain ⟨response, final⟩ := outcome
          rw [CaptureState.exec, hattempt] at hexec
          obtain rfl : final = next := Except.ok.inj hexec
          rcases Capture.attempt_cases hs.keys hattempt with ⟨original, hmem, hid, -, -, rfl⟩ |
            ⟨row, hrecording, -⟩
          · refine h.unchanged rfl fun turn' op' hstep => ⟨?_, rfl⟩
            obtain ⟨-, rfl⟩ := CaptureStep.attempt.inj hstep
            exact hid ▸ List.mem_map_of_mem hmem
          · exact h.record hrecording

end CapturedOnce

theorem CapturedOnce.start (db : Uuid → Database) : CapturedOnce verbs [] { db } where
  unique := List.nodup_nil
  recorded := fun _ hrow => absurd hrow List.not_mem_nil
  replayed := fun _ hcommit => absurd hcommit List.not_mem_nil
  kept := fun _ hcommit => absurd hcommit List.not_mem_nil

theorem captured_run {commits : List (Machine.Commit CaptureStep CaptureState)} (hs : s.Sequenced)
    (h : CapturedOnce verbs commits s) (steps : List CaptureStep) :
    (Machine.run (CaptureState.exec verbs) steps s).Sequenced ∧
      CapturedOnce verbs (commits ++ Machine.commits (CaptureState.exec verbs) steps s)
        (Machine.run (CaptureState.exec verbs) steps s) :=
  Machine.run_traced (CaptureState.exec verbs)
    (fun commits reached => reached.Sequenced ∧ CapturedOnce verbs commits reached)
    (fun _ _ _ _ hexec hinv => ⟨(sequenced_exec hinv.1 hexec).1, hinv.2.exec hinv.1 hexec⟩)
    steps commits s ⟨hs, h⟩

/-- The records are only added to. -/
theorem operations_run (hs : s.Sequenced) (steps : List CaptureStep) :
    s.operations <+: (Machine.run (CaptureState.exec verbs) steps s).operations := by
  refine (Machine.run_invariant (CaptureState.exec verbs)
    (fun reached => reached.Sequenced ∧ s.operations <+: reached.operations) (fun _ => True) ?_
    steps s (fun _ _ => trivial) ⟨hs, List.prefix_rfl⟩).2
  rintro step reached next - hexec ⟨hreached, hprefix⟩
  refine ⟨(sequenced_exec hreached hexec).1, hprefix.trans ?_⟩
  rcases exec_cases hreached hexec with ⟨-, hoperations⟩ | ⟨op, row, hadmission⟩
  · exact hoperations ▸ List.prefix_rfl
  · exact ⟨[row], hadmission.operations.symm⟩

/-! ## Replays -/

/-- What a submission of a recorded operation can commit. -/
theorem replay_of_attempt (hs : s.Sequenced)
    (hunique : (s.operations.map CaptureRecord.operationId).Nodup) (hrow : row ∈ s.operations)
    (hid : op.operationId = row.operationId)
    (h : Capture.attempt verbs turn op s = .ok (response, after)) :
    turn.identity = some ⟨row.stream.orgId, row.actorId⟩ ∧ response = row.out true := by
  rcases Capture.attempt_cases hs.keys h with ⟨original, hmem, hsame, hidentity, hresponse, -⟩ |
    ⟨other, hrecording, -⟩
  · obtain rfl := List.inj_on_of_nodup_map hunique hmem hrow (hsame.trans hid)
    exact ⟨hidentity, hresponse⟩
  · exact absurd (hid ▸ List.mem_map_of_mem hrow) hrecording.admission.fresh

/-- The Actor of a record finds it. -/
theorem attempt_of_owner (hunique : (s.operations.map CaptureRecord.operationId).Nodup)
    (hrow : row ∈ s.operations) (hid : op.operationId = row.operationId)
    (hidentity : turn.identity = some ⟨row.stream.orgId, row.actorId⟩)
    (hdeferred : verbs.deferred (turn.context row.stream.orgId) (s.db row.stream.orgId)
      (s.db row.stream.orgId) = .ok ()) :
    Capture.attempt verbs turn op s = .ok (row.out true, s) := by
  have hfound : s.operation? row.stream.orgId op.operationId = some row := by
    have hids : Keys.Distinct CaptureRecord.operationId s.operations := hunique
    refine hids.find?_of_imp hrow (by simp [hid]) fun other _ hother => ?_
    simp only [decide_eq_true_eq] at hother
    exact hother.2.trans hid
  have hnone : (s.db row.stream.orgId).conflicts.conflicts.filter
      (· ∉ (s.db row.stream.orgId).conflicts.conflicts) = [] :=
    List.filter_eq_nil_iff.mpr fun conflict hmem => by simpa using hmem
  rw [Capture.attempt, hidentity]
  simp only [bind_eq_ok, Capture.execute_eq_ok, pure_eq_ok, exists_unit, Capture.process, hfound]
  refine ⟨(row.out true, s), if_neg (not_not_intro rfl), hdeferred, ?_, rfl⟩
  simp only [hnone]
  rfl

/-- A record answers every further submission of its operation. -/
theorem replayed_of_mem (hs : s.Sequenced)
    (hunique : (s.operations.map CaptureRecord.operationId).Nodup) (hrow : row ∈ s.operations) :
    Replayed verbs row s where
  unchanged turn op hid := hs.answer_of_recorded (hid ▸ List.mem_map_of_mem hrow)
  owner turn op hid hidentity hdeferred := by
    rw [Capture.answer, attempt_of_owner hunique hrow hid hidentity hdeferred]
  stranger turn op response hid hidentity hanswer := by
    unfold Capture.answer at hanswer
    cases hattempt : Capture.attempt verbs turn op s with
    | ok outcome => exact absurd (replay_of_attempt hs hunique hrow hid hattempt).1 hidentity
    | error error =>
        rw [hattempt] at hanswer
        by_cases hunavailable : error.unavailable = true
        · simp only [hunavailable, if_true] at hanswer
          exact (Except.ok.inj hanswer).symm
        · simp only [hunavailable] at hanswer
          exact absurd hanswer (by simp)

/-- Whatever is submitted in whatever order, by any Actors and tenants, each operation is recorded
by at most one transaction, with the one effect that its result states, and is a duplicate from
then on. -/
theorem captureOnce {ν : Type} (verbs : Verbs ν) (db : Uuid → Database) (steps : List CaptureStep) :
    let s := Machine.run (CaptureState.exec verbs) steps { db }
    CapturedOnce verbs (Machine.commits (CaptureState.exec verbs) steps { db }) s ∧
      (∀ row ∈ s.operations, ∀ more, let later := Machine.run (CaptureState.exec verbs) more s
        row ∈ later.operations ∧ Replayed verbs row later) ∧
      ∀ requests, ∃ more, Capture.batches verbs requests s =
        Machine.run (CaptureState.exec verbs) more s := by
  intro s
  have hcaptured : s.Sequenced ∧
      CapturedOnce verbs (Machine.commits (CaptureState.exec verbs) steps { db }) s :=
    captured_run (CaptureState.sequenced_start db) (CapturedOnce.start db) steps
  refine ⟨hcaptured.2, fun row hrow more => ?_, fun requests =>
    Capture.batches_run verbs requests s⟩
  obtain ⟨hlater, honce⟩ := captured_run hcaptured.1 hcaptured.2 more
  have hkept : row ∈ (Machine.run (CaptureState.exec verbs) more s).operations :=
    (operations_run hcaptured.1 more).mem hrow
  exact ⟨hkept, replayed_of_mem hlater honce.unique hkept⟩

end FleetOps
