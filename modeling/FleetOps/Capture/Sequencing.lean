import FleetOps.Capture.Streams
import FleetOps.Foundations.Sequence

/-!
# Sequence numbers of a stream

Every recorded operation advanced its stream's counter, and nothing else does:
the counter is the highest number of the records under its key (`Sequence.mark`),
so the flags, which compare a number with the counter, compare it with the
numbers recorded before.

A transaction is either an admission, which adds one record and moves one
counter (`Admission`), or leaves both tables as they were.
-/

namespace FleetOps

open Sequence

/-! ## One stream's counter -/

/-- What `_sequence` does to the streams, for an operation with a number under a key: the counter
was at `last`, for the same Actor. -/
structure Counts (key : StreamKey) (clientSeq : ℕ) (actor : Uuid) (last : ℕ)
    (before after : List CaptureStream) : Prop where
  prior : ⟨key, last, actor⟩ ∈ before ∨ (∀ row ∈ before, row.key ≠ key) ∧ last = 0
  keys : (after.map CaptureStream.key).Nodup
  mem : ∀ row, row ∈ after ↔
    row ∈ before ∧ row.key ≠ key ∨ row = ⟨key, max clientSeq last, actor⟩

theorem insertStream_eq_ok {ctx : Context} {key : StreamKey} {streams after : List CaptureStream}
    (h : insertStream ctx key streams = .ok after) :
    ∃ performer, currentAuthenticatedActor ctx.session = .ok performer ∧
      ((∃ row ∈ streams, row.key = key) ∧ after = streams ∨
        (∀ row ∈ streams, row.key ≠ key) ∧ after = streams ++ [⟨key, 0, performer⟩]) := by
  unfold insertStream at h
  rw [bind_eq_ok] at h
  obtain ⟨performer, hperformer, h⟩ := h
  refine ⟨performer, hperformer, ?_⟩
  by_cases hany : streams.any (·.key = key) = true
  · rw [if_pos hany, pure_eq_ok] at h
    obtain ⟨row, hrow, hkey⟩ := List.any_eq_true.mp hany
    exact .inl ⟨⟨row, hrow, of_decide_eq_true hkey⟩, h.symm⟩
  · rw [if_neg hany] at h
    simp only [bind_eq_ok, exists_unit, pure_eq_ok, require_eq_ok] at h
    refine .inr ⟨fun row hrow hkey => hany ?_, h.2.symm⟩
    exact List.any_eq_true.mpr ⟨row, hrow, decide_eq_true hkey⟩

/-- The row that is updated is the only one with its key. -/
theorem mem_updated {streams : List CaptureStream} (hkeys : (streams.map CaptureStream.key).Nodup)
    {row : CaptureStream} (hrow : row ∈ streams) (lastSeq : ℕ) (other : CaptureStream) :
    other ∈ streams.map (fun s => if s.key = row.key then { s with lastSeq } else s) ↔
      other ∈ streams ∧ other.key ≠ row.key ∨ other = { row with lastSeq } := by
  rw [List.mem_map]
  constructor
  · rintro ⟨source, hsource, rfl⟩
    by_cases hkey : source.key = row.key
    · obtain rfl := List.inj_on_of_nodup_map hkeys hsource hrow hkey
      rw [if_pos rfl]
      exact .inr rfl
    · rw [if_neg hkey]
      exact .inl ⟨hsource, hkey⟩
  · rintro (⟨hmem, hkey⟩ | rfl)
    · exact ⟨other, hmem, if_neg hkey⟩
    · exact ⟨row, hrow, if_pos rfl⟩

theorem updateStream_eq_ok {ctx : Context} {row : CaptureStream} {lastSeq : ℕ}
    {streams after : List CaptureStream} (h : updateStream ctx row lastSeq streams = .ok after) :
    currentAuthenticatedActor ctx.session = .ok row.actorId ∧
      after = streams.map fun s => if s.key = row.key then { s with lastSeq } else s := by
  unfold updateStream guardCaptureStream at h
  simp only [bind_eq_ok, require_eq_ok, pure_eq_ok, exists_unit] at h
  obtain ⟨⟨performer, hperformer, -, -, rfl, -⟩, hafter⟩ := h
  exact ⟨hperformer, hafter.symm⟩

/-- `_sequence`, where keys differ. -/
theorem sequence_eq_ok {turn : CaptureTurn} {identity : AuthenticatedIdentity}
    {op : CaptureOperation} {streams after : List CaptureStream} {flags : List SequenceFlag}
    (hkeys : (streams.map CaptureStream.key).Nodup)
    (h : Capture.sequence turn identity op streams = .ok (flags, after)) :
    currentAuthenticatedActor turn.ctx.session = .ok identity.actorId ∧
      ∃ last, flags = sequenceFlags op.clientSeq last ∧
        Counts (op.stream identity.organizationId) op.clientSeq identity.actorId last
          streams after := by
  unfold Capture.sequence at h
  simp only [bind_eq_ok, Capture.execute_eq_ok] at h
  obtain ⟨opened, hopened, h⟩ := h
  cases hfound : opened.find? (·.key = op.stream identity.organizationId) with
  | none => simp [hfound, throw, throwThe, MonadExceptOf.throw, bind, Except.bind] at h
  | some found =>
  simp only [hfound, pure_bind] at h
  have hmem := List.mem_of_find?_eq_some hfound
  have hkey : found.key = op.stream identity.organizationId := by
    simpa using List.find?_some hfound
  by_cases hactor : found.actorId = identity.actorId
  case neg =>
    rw [if_pos hactor] at h
    exact absurd h Capture.invalid_ne_ok
  rw [if_neg (not_not_intro hactor)] at h
  simp only [bind_eq_ok, Capture.execute_eq_ok, pure_eq_ok] at h
  obtain ⟨updated, hupdated, h⟩ := h
  obtain ⟨rfl, rfl⟩ := Prod.mk.inj h
  obtain ⟨hperformer, rfl⟩ := updateStream_eq_ok hupdated
  rw [hactor] at hperformer
  refine ⟨hperformer, found.lastSeq, rfl, ?_⟩
  obtain ⟨performer, hperformer', hrows⟩ := insertStream_eq_ok hopened
  obtain rfl := Except.ok.inj (hperformer'.symm.trans hperformer)
  -- The keys of the updated rows are those of the opened ones.
  have hsame : ∀ lastSeq, (opened.map fun s =>
      if s.key = found.key then { s with lastSeq } else s).map CaptureStream.key =
        opened.map CaptureStream.key := by
    intro lastSeq
    rw [List.map_map]
    refine List.map_congr_left fun s _ => ?_
    simp only [Function.comp_apply]
    split <;> rfl
  have hfoundRow : found = ⟨op.stream identity.organizationId, found.lastSeq, identity.actorId⟩ := by
    rw [← hkey, ← hactor]
  rcases hrows with ⟨-, rfl⟩ | ⟨hnone, rfl⟩
  · refine ⟨.inl (hfoundRow ▸ hmem), (hsame _).symm ▸ hkeys, fun other => ?_⟩
    rw [mem_updated hkeys hmem, hkey, hactor]
  · let opening : CaptureStream := ⟨op.stream identity.organizationId, 0, identity.actorId⟩
    have hopenedKeys : ((streams ++ [opening]).map CaptureStream.key).Nodup := by
      rw [List.map_append, List.map_singleton, List.nodup_append]
      refine ⟨hkeys, List.nodup_singleton _, fun k hk other hother heq => ?_⟩
      obtain ⟨source, hsource, rfl⟩ := List.mem_map.mp hk
      exact hnone source hsource (heq.trans (List.mem_singleton.mp hother))
    have hzero : found.lastSeq = 0 := by
      rcases List.mem_append.mp hmem with hold | hnew
      · exact absurd hkey (hnone found hold)
      · rw [List.mem_singleton.mp hnew]
    refine ⟨.inr (And.intro hnone hzero), (hsame _).symm ▸ hopenedKeys, fun other => ?_⟩
    rw [mem_updated hopenedKeys hmem, hkey, hactor, List.mem_append, List.mem_singleton]
    constructor
    · rintro (⟨hold | hnew, hother⟩ | rfl)
      · exact .inl ⟨hold, hother⟩
      · exact absurd (congrArg CaptureStream.key hnew) hother
      · exact .inr rfl
    · rintro (⟨hold, hother⟩ | rfl)
      · exact .inl ⟨.inl hold, hother⟩
      · exact .inr rfl

/-! ## Transactions -/

/-- An operation is admitted: its record is added, and its stream's counter goes on. -/
structure Admission (op : CaptureOperation) (row : CaptureRecord) (s after : CaptureState) :
    Prop where
  fresh : op.operationId ∉ s.operations.map CaptureRecord.operationId
  operationId : row.operationId = op.operationId
  clientSeq : row.clientSeq = op.clientSeq
  operations : after.operations = s.operations ++ [row]
  counts : ∃ last, row.sequenceFlags = sequenceFlags row.clientSeq last ∧
    Counts row.stream row.clientSeq row.actorId last s.streams after.streams

theorem insertOperation_eq_ok {ctx : Context} {row stored : CaptureRecord} {s after : CaptureState}
    (h : insertOperation ctx row s = .ok (stored, after)) :
    row.operationId ∉ s.operations.map CaptureRecord.operationId ∧
      (∃ performer, currentAuthenticatedActor ctx.session = .ok performer ∧
        stored = { row with actorId := performer, recordedAt := ctx.session.now }) ∧
      after = { s with operations := s.operations ++ [stored] } := by
  unfold insertOperation guardCaptureRecord at h
  simp only [bind_eq_ok, require_eq_ok, pure_eq_ok, exists_unit] at h
  obtain ⟨_, ⟨performer, hperformer, -, rfl⟩, -, -, -, hunique, -, h⟩ := h
  obtain ⟨rfl, rfl⟩ := Prod.mk.inj h
  refine ⟨fun hmem => ?_, ⟨performer, hperformer, rfl⟩, rfl⟩
  obtain ⟨other, hother, hid⟩ := List.mem_map.mp hmem
  exact of_decide_eq_true (List.all_eq_true.mp hunique other hother) hid

variable {ν : Type} {verbs : Verbs ν} {turn : CaptureTurn} {op : CaptureOperation}
  {s after : CaptureState} {response : CaptureResponse}

theorem process_eq_ok {identity : AuthenticatedIdentity}
    (hkeys : (s.streams.map CaptureStream.key).Nodup)
    (h : Capture.process verbs turn identity op s = .ok (response, after)) :
    response.operationId = op.operationId ∧
      (after = s ∨ ∃ row, Admission op row s after) := by
  unfold Capture.process at h
  split at h
  · next original horiginal =>
      have hid : original.operationId = op.operationId := by
        have := List.find?_some horiginal
        simp only [decide_eq_true_eq] at this
        exact this.2
      by_cases hactor : original.actorId = identity.actorId
      · rw [if_neg (not_not_intro hactor), pure_eq_ok] at h
        obtain ⟨rfl, rfl⟩ := Prod.mk.inj h
        exact ⟨hid, .inl rfl⟩
      · rw [if_pos hactor] at h
        exact absurd h Capture.invalid_ne_ok
  · simp only [bind_eq_ok, Capture.execute_eq_ok, pure_eq_ok] at h
    obtain ⟨⟨flags, streams⟩, hsequence, ⟨syncState, result, db⟩, -, ⟨stored, final⟩, hinsert, h⟩ := h
    obtain ⟨rfl, rfl⟩ := Prod.mk.inj h
    obtain ⟨hperformer, last, rfl, hcounts⟩ := sequence_eq_ok hkeys hsequence
    obtain ⟨hfresh, ⟨performer, hperformer', rfl⟩, rfl⟩ := insertOperation_eq_ok hinsert
    obtain rfl := Except.ok.inj (hperformer'.symm.trans hperformer)
    exact ⟨rfl, .inr ⟨_, hfresh, rfl, rfl, rfl, last, rfl, hcounts⟩⟩

theorem attempt_eq_ok (hkeys : (s.streams.map CaptureStream.key).Nodup)
    (h : Capture.attempt verbs turn op s = .ok (response, after)) :
    response.operationId = op.operationId ∧ (after = s ∨ ∃ row, Admission op row s after) := by
  unfold Capture.attempt at h
  split at h
  · exact nomatch h
  · simp only [bind_eq_ok, Capture.execute_eq_ok, pure_eq_ok, exists_unit] at h
    obtain ⟨⟨found, final⟩, hprocess, -, -, h⟩ := h
    obtain ⟨rfl, rfl⟩ := Prod.mk.inj h
    exact process_eq_ok hkeys hprocess

/-! ## The invariant -/

/-- The highest number recorded under a key. -/
abbrev markOf (log : List CaptureRecord) (key : StreamKey) : ℕ :=
  mark CaptureRecord.stream CaptureRecord.clientSeq log key

namespace CaptureState

/-- The streams are what the records say. -/
structure Sequenced (s : CaptureState) : Prop where
  keys : (s.streams.map CaptureStream.key).Nodup
  marks : ∀ stream ∈ s.streams, stream.lastSeq = markOf s.operations stream.key
  recorded : ∀ stream ∈ s.streams, ∃ row ∈ s.operations, row.stream = stream.key
  opened : ∀ row ∈ s.operations, ∃ stream ∈ s.streams,
    stream.key = row.stream ∧ stream.actorId = row.actorId
  positive : ∀ row ∈ s.operations, 0 < row.clientSeq
  flags : Each (fun before row =>
    row.sequenceFlags = sequenceFlags row.clientSeq (markOf before row.stream)) s.operations

/-- The streams of one state go on in another. -/
def Continues (s after : CaptureState) : Prop :=
  ∀ stream ∈ s.streams, ∃ later ∈ after.streams,
    later.key = stream.key ∧ later.actorId = stream.actorId ∧ stream.lastSeq ≤ later.lastSeq

theorem Continues.refl (s : CaptureState) : s.Continues s :=
  fun stream hstream => ⟨stream, hstream, rfl, rfl, le_rfl⟩

theorem Continues.trans {s between after : CaptureState} (h : s.Continues between)
    (h' : between.Continues after) : s.Continues after := by
  intro stream hstream
  obtain ⟨later, hlater, hkey, hactor, hle⟩ := h stream hstream
  obtain ⟨last, hlast, hkey', hactor', hle'⟩ := h' later hlater
  exact ⟨last, hlast, hkey'.trans hkey, hactor'.trans hactor, hle.trans hle'⟩

theorem sequenced_start (db : Uuid → Database) : Sequenced { db } where
  keys := List.nodup_nil
  marks := fun _ h => absurd h List.not_mem_nil
  recorded := fun _ h => absurd h List.not_mem_nil
  opened := fun _ h => absurd h List.not_mem_nil
  positive := fun _ h => absurd h List.not_mem_nil
  flags := each_nil

end CaptureState

open CaptureState

/-- The counter before an admission is the mark of what was recorded before it. -/
theorem CaptureState.Sequenced.last_eq (h : s.Sequenced) {key : StreamKey} {clientSeq last : ℕ}
    {actor : Uuid}
    {streams : List CaptureStream} (hcounts : Counts key clientSeq actor last s.streams streams) :
    last = markOf s.operations key := by
  rcases hcounts.prior with hrow | ⟨hnone, rfl⟩
  · exact h.marks _ hrow
  · refine (mark_eq_zero fun row hrow hkey => ?_).symm
    obtain ⟨stream, hstream, hsame, -⟩ := h.opened row hrow
    exact hnone stream hstream (hsame.trans hkey)

theorem Admission.sequenced {row : CaptureRecord} (h : s.Sequenced)
    (hadmission : Admission op row s after) : after.Sequenced := by
  obtain ⟨last, hflags, hcounts⟩ := hadmission.counts
  have hlast := h.last_eq hcounts
  have hmark : markOf after.operations row.stream = max row.clientSeq last := by
    rw [hadmission.operations, markOf, mark_concat_self, hlast]
  constructor
  case keys => exact hcounts.keys
  case marks =>
    intro stream hstream
    rcases (hcounts.mem stream).mp hstream with ⟨hold, hkey⟩ | rfl
    · rw [hadmission.operations, markOf, mark_concat_of_ne fun h => hkey h.symm]
      exact h.marks stream hold
    · exact hmark.symm
  case recorded =>
    intro stream hstream
    rw [hadmission.operations]
    rcases (hcounts.mem stream).mp hstream with ⟨hold, -⟩ | rfl
    · obtain ⟨other, hother, hkey⟩ := h.recorded stream hold
      exact ⟨other, List.mem_append_left _ hother, hkey⟩
    · exact ⟨row, List.mem_concat_self, rfl⟩
  case opened =>
    intro other hother
    rw [hadmission.operations] at hother
    by_cases hkey : other.stream = row.stream
    · refine ⟨_, (hcounts.mem _).mpr (.inr rfl), hkey.symm, ?_⟩
      rcases List.mem_append.mp hother with hold | hnew
      · obtain ⟨stream, hstream, hsame, hactor⟩ := h.opened other hold
        rcases hcounts.prior with hrow | ⟨hnone, -⟩
        · rw [List.inj_on_of_nodup_map h.keys hstream hrow (hsame.trans hkey)] at hactor
          exact hactor
        · exact absurd (hsame.trans hkey) (hnone stream hstream)
      · rw [List.mem_singleton.mp hnew]
    · rcases List.mem_append.mp hother with hold | hnew
      · obtain ⟨stream, hstream, hsame, hactor⟩ := h.opened other hold
        exact ⟨stream, (hcounts.mem _).mpr (.inl ⟨hstream, hsame ▸ hkey⟩), hsame, hactor⟩
      · exact absurd (congrArg CaptureRecord.stream (List.mem_singleton.mp hnew)) hkey
  case positive =>
    intro other hother
    rw [hadmission.operations] at hother
    rcases List.mem_append.mp hother with hold | hnew
    · exact h.positive other hold
    · rw [List.mem_singleton.mp hnew, hadmission.clientSeq]
      exact op.sequence.1
  case flags =>
    rw [hadmission.operations, each_concat]
    exact ⟨h.flags, hlast ▸ hflags⟩

theorem Admission.continues {row : CaptureRecord} (hadmission : Admission op row s after)
    (h : s.Sequenced) : s.Continues after := by
  obtain ⟨last, -, hcounts⟩ := hadmission.counts
  intro stream hstream
  by_cases hkey : stream.key = row.stream
  · refine ⟨_, (hcounts.mem _).mpr (.inr rfl), hkey.symm, ?_⟩
    rcases hcounts.prior with hrow | ⟨hnone, -⟩
    · rw [List.inj_on_of_nodup_map h.keys hstream hrow hkey]
      exact ⟨rfl, le_max_right _ _⟩
    · exact absurd hkey (hnone stream hstream)
  · exact ⟨stream, (hcounts.mem _).mpr (.inl ⟨hstream, hkey⟩), rfl, rfl, le_rfl⟩

theorem exec_cases {step : CaptureStep} (h : s.Sequenced)
    (hrun : s.exec verbs step = .ok after) :
    (after.streams = s.streams ∧ after.operations = s.operations) ∨
      ∃ op row, Admission op row s after := by
  cases step with
  | elsewhere db =>
      obtain rfl := Except.ok.inj hrun
      exact .inl ⟨rfl, rfl⟩
  | attempt turn op =>
      cases hattempt : Capture.attempt verbs turn op s with
      | error error => rw [CaptureState.exec, hattempt] at hrun; exact nomatch hrun
      | ok outcome =>
          obtain ⟨response, final⟩ := outcome
          rw [CaptureState.exec, hattempt] at hrun
          obtain rfl : final = after := Except.ok.inj hrun
          obtain ⟨-, rfl | ⟨row, hadmission⟩⟩ := attempt_eq_ok h.keys hattempt
          · exact .inl ⟨rfl, rfl⟩
          · exact .inr ⟨op, row, hadmission⟩

/-- What a committed step keeps. -/
theorem sequenced_exec {step : CaptureStep} (h : s.Sequenced)
    (hrun : s.exec verbs step = .ok after) : after.Sequenced ∧ s.Continues after := by
  rcases exec_cases h hrun with ⟨hstreams, hoperations⟩ | ⟨op, row, hadmission⟩
  · refine ⟨⟨?_, ?_, ?_, ?_, ?_, ?_⟩, fun stream hstream => ?_⟩
    · exact hstreams ▸ h.keys
    · rw [hstreams, hoperations]; exact h.marks
    · rw [hstreams, hoperations]; exact h.recorded
    · rw [hstreams, hoperations]; exact h.opened
    · exact hoperations ▸ h.positive
    · exact hoperations ▸ h.flags
    · exact ⟨stream, hstreams ▸ hstream, rfl, rfl, le_rfl⟩
  · exact ⟨hadmission.sequenced h, hadmission.continues h⟩

theorem sequenced_run (h : s.Sequenced) (steps : List CaptureStep) :
    (Machine.run (CaptureState.exec verbs) steps s).Sequenced ∧
      s.Continues (Machine.run (CaptureState.exec verbs) steps s) := by
  refine Machine.run_invariant (CaptureState.exec verbs)
    (fun reached => reached.Sequenced ∧ s.Continues reached) (fun _ => True) ?_ steps s
    (fun _ _ => trivial) ⟨h, .refl s⟩
  rintro step reached next - hrun ⟨hreached, hcontinues⟩
  obtain ⟨hnext, hgoes⟩ := sequenced_exec hreached hrun
  exact ⟨hnext, hcontinues.trans hgoes⟩

/-! ## Batches -/

namespace Capture

/-- An operation's answer leaves what its step leaves. -/
theorem answer_snd : (answer verbs turn op s).2 =
    Machine.attempt (CaptureState.exec verbs) (.attempt turn op) s := by
  unfold answer
  cases hattempt : attempt verbs turn op s with
  | error error =>
      have hexec : s.exec verbs (.attempt turn op) = .error error := by
        rw [CaptureState.exec, hattempt]
        rfl
      rw [Machine.attempt_of_error hexec]
  | ok outcome =>
      have hexec : s.exec verbs (.attempt turn op) = .ok outcome.2 := by
        rw [CaptureState.exec, hattempt]
        rfl
      rw [Machine.attempt_of_ok hexec]

variable (verbs) in
theorem serve_run (request : CaptureBatch) (entries : List (CaptureOperation × ℕ))
    (responses : List (Option CaptureResponse)) (s : CaptureState) :
    ∃ steps, (serve verbs request entries responses s).2 =
      Machine.run (CaptureState.exec verbs) steps s := by
  induction entries generalizing responses s with
  | nil => exact ⟨[], rfl⟩
  | cons entry rest ih =>
      obtain ⟨op, index⟩ := entry
      have hstep : (answer verbs (request.turns index) op
          (Machine.run (CaptureState.exec verbs) (request.meanwhile index) s)).2 =
            Machine.run (CaptureState.exec verbs)
              (request.meanwhile index ++ [.attempt (request.turns index) op]) s := by
        rw [answer_snd, Machine.run_append]
        rfl
      rw [serve]
      split
      · next response after hanswer =>
          obtain ⟨steps, hsteps⟩ := ih (responses.set index (some response)) after
          rw [hanswer] at hstep
          refine ⟨request.meanwhile index ++ [.attempt (request.turns index) op] ++ steps, ?_⟩
          rw [hsteps, Machine.run_append, ← hstep]
      · next error after hanswer =>
          rw [hanswer] at hstep
          exact ⟨_, hstep⟩

variable (verbs) in
/-- Batches are runs of their operations' transactions, among those of other sessions. -/
theorem batches_run (requests : List CaptureBatch) (s : CaptureState) :
    ∃ steps, batches verbs requests s = Machine.run (CaptureState.exec verbs) steps s := by
  induction requests generalizing s with
  | nil => exact ⟨[], rfl⟩
  | cons request rest ih =>
      obtain ⟨first, hfirst⟩ := serve_run verbs request (ordered request.operations)
        (List.replicate request.operations.length none) s
      obtain ⟨steps, hsteps⟩ := ih (batch verbs request s).2
      refine ⟨first ++ steps, ?_⟩
      rw [batches, List.foldl_cons]
      rw [batches] at hsteps
      rw [hsteps, Machine.run_append, ← hfirst]
      rfl

/-! ## The order of a batch -/

theorem ordered_perm (operations : List CaptureOperation) :
    (ordered operations).Perm operations.zipIdx :=
  (List.Perm.flatMap_left _ fun _ _ => List.perm_insertionSort _ _).trans
    (Dictionary.flatMap_group _)

/-- Positions differ. -/
theorem ordered_positions (operations : List CaptureOperation) :
    ((ordered operations).map Prod.snd).Nodup := by
  refine ((ordered_perm operations).map Prod.snd).nodup_iff.mpr ?_
  rw [List.zipIdx_map_snd]
  exact List.nodup_range'

theorem ordered_pairwise (operations : List CaptureOperation) :
    (ordered operations).Pairwise fun a b => groupKey a = groupKey b →
      a.1.clientSeq < b.1.clientSeq ∨ a.1.clientSeq = b.1.clientSeq ∧ a.2 < b.2 := by
  have hgrouped : Dictionary.Grouped groupKey operations.zipIdx _ :=
    Dictionary.grouped_group operations.zipIdx
  have hsorted : (ordered operations).Pairwise fun a b =>
      groupKey a = groupKey b → sortKey a ≤ sortKey b := by
    refine List.pairwise_flatMap.mpr ⟨fun group _ => ?_, ?_⟩
    · have hgroup := List.pairwise_insertionSort (fun a b => sortKey a ≤ sortKey b) group.2
      exact hgroup.imp fun {a b} hle (_ : groupKey a = groupKey b) => hle
    · refine (List.pairwise_map.mp hgrouped.nodup).imp_of_mem
        fun {first second} hfirst hsecond hne => ?_
      -- Entries of two groups have different keys.
      intro a ha b hb hsame
      have hkeyOf : ∀ group ∈ Dictionary.group groupKey operations.zipIdx, ∀ entry,
          entry ∈ group.2.insertionSort (fun a b => sortKey a ≤ sortKey b) →
            groupKey entry = group.1 := by
        intro group hgroup entry hentry
        rw [(List.perm_insertionSort _ _).mem_iff, hgrouped.members group hgroup] at hentry
        exact of_decide_eq_true (List.mem_filter.mp hentry).2
      rw [← hkeyOf first hfirst a ha, ← hkeyOf second hsecond b hb] at hne
      exact absurd hsame hne
  refine (hsorted.and (List.pairwise_map.mp (ordered_positions operations))).imp ?_
  rintro a b ⟨hle, hne⟩ hsame
  rcases Prod.Lex.toLex_le_toLex.mp (hle hsame) with hlt | ⟨heq, hpos⟩
  · exact .inl hlt
  · exact .inr ⟨heq, lt_of_le_of_ne hpos hne⟩

/-! ## Answers -/

variable (verbs) in
/-- The state in which an entry is processed, after others of its batch. -/
def stateAt (request : CaptureBatch) (done : List (CaptureOperation × ℕ)) (index : ℕ)
    (s : CaptureState) : CaptureState :=
  Machine.run (CaptureState.exec verbs) (request.meanwhile index) (serve verbs request done [] s).2

theorem serve_snd_congr (request : CaptureBatch) (entries : List (CaptureOperation × ℕ))
    (first second : List (Option CaptureResponse)) (s : CaptureState) :
    (serve verbs request entries first s).2 = (serve verbs request entries second s).2 := by
  induction entries generalizing first second s with
  | nil => rfl
  | cons entry rest ih =>
      simp only [serve]
      split
      · exact ih _ _ _
      · rfl

/-- The loop, when it ends: each entry's answer is at its position, and nothing else is written. -/
theorem serve_ok {request : CaptureBatch} {entries : List (CaptureOperation × ℕ)}
    {responses final : List (Option CaptureResponse)} {s : CaptureState}
    (h : (serve verbs request entries responses s).1 = .ok final)
    (hpositions : (entries.map Prod.snd).Nodup)
    (hbound : ∀ entry ∈ entries, entry.2 < responses.length) :
    final.length = responses.length ∧
      (∀ i, i ∉ entries.map Prod.snd → final[i]? = responses[i]?) ∧
      ∀ done entry rest, entries = done ++ entry :: rest →
        ∃ response, final[entry.2]? = some (some response) ∧
          (answer verbs (request.turns entry.2) entry.1 (stateAt verbs request done entry.2 s)).1 =
            .ok response := by
  induction entries generalizing responses s with
  | nil =>
      obtain rfl := Except.ok.inj h
      exact ⟨rfl, fun _ _ => rfl, fun done entry rest hsplit => by simp at hsplit⟩
  | cons entry rest ih =>
      obtain ⟨op, index⟩ := entry
      obtain ⟨hindex, hrest⟩ := List.nodup_cons.mp hpositions
      rw [serve] at h
      split at h
      case h_2 => exact nomatch h
      next response after hanswer =>
      have hlength : (responses.set index (some response)).length = responses.length :=
        List.length_set
      obtain ⟨hfinal, hothers, hentries⟩ := ih h hrest fun entry hentry =>
        hlength ▸ hbound entry (List.mem_cons_of_mem _ hentry)
      refine ⟨hfinal.trans hlength, fun i hi => ?_, fun done entry later hsplit => ?_⟩
      · rw [List.map_cons, List.mem_cons, not_or] at hi
        rw [hothers i hi.2, List.getElem?_set_ne fun heq => hi.1 heq.symm]
      · cases done with
        | nil =>
            obtain ⟨rfl, rfl⟩ := List.cons.inj hsplit
            refine ⟨response, ?_, congrArg Prod.fst hanswer⟩
            rw [hothers index hindex, List.getElem?_set_self]
            exact hbound _ (List.mem_cons_self ..)
        | cons head done =>
            obtain ⟨rfl, rfl⟩ := List.cons.inj hsplit
            obtain ⟨given, hgiven, hstate⟩ := hentries done entry later rfl
            refine ⟨given, hgiven, ?_⟩
            have hafter : (serve verbs request ((op, index) :: done) [] s).2 =
                (serve verbs request done [] after).2 := by
              simp only [serve, hanswer]
              exact serve_snd_congr ..
            rw [stateAt, hafter]
            exact hstate

theorem answer_operationId (h : s.Sequenced) (hanswer : (answer verbs turn op s).1 = .ok response) :
    response.operationId = op.operationId := by
  unfold answer at hanswer
  cases hattempt : attempt verbs turn op s with
  | ok outcome =>
      rw [hattempt] at hanswer
      obtain rfl := Except.ok.inj hanswer
      exact (attempt_eq_ok h.keys hattempt).1
  | error error =>
      rw [hattempt] at hanswer
      by_cases hunavailable : error.unavailable = true
      · simp only [hunavailable, if_true] at hanswer
        obtain rfl := Except.ok.inj hanswer
        rfl
      · simp only [hunavailable] at hanswer
        exact nomatch hanswer

/-- A batch answers each operation at its position with what its own transaction gives. -/
structure Answered (verbs : Verbs ν) (request : CaptureBatch) (s : CaptureState)
    (responses : List (Option CaptureResponse)) : Prop where
  length : responses.length = request.operations.length
  entries : ∀ done op index rest, ordered request.operations = done ++ (op, index) :: rest →
    request.operations[index]? = some op ∧
      ∃ response, responses[index]? = some (some response) ∧
        response.operationId = op.operationId ∧
        (answer verbs (request.turns index) op (stateAt verbs request done index s)).1 = .ok response

theorem batch_answered (h : s.Sequenced) {request : CaptureBatch}
    {responses : List (Option CaptureResponse)}
    (hbatch : (batch verbs request s).1 = .ok responses) : Answered verbs request s responses := by
  have hzip : ∀ entry ∈ ordered request.operations,
      request.operations[entry.2]? = some entry.1 := fun entry hentry =>
    List.mk_mem_zipIdx_iff_getElem?.mp ((ordered_perm request.operations).mem_iff.mp hentry)
  obtain ⟨hlength, -, hentries⟩ := serve_ok hbatch (ordered_positions _) fun entry hentry => by
    rw [List.length_replicate]
    exact (List.getElem?_eq_some_iff.mp (hzip entry hentry)).1
  refine ⟨hlength.trans List.length_replicate, fun done op index rest hsplit => ?_⟩
  obtain ⟨response, hresponse, hanswer⟩ := hentries done (op, index) rest hsplit
  have hmem : (op, index) ∈ ordered request.operations :=
    hsplit ▸ List.mem_append_right _ (List.mem_cons_self ..)
  refine ⟨hzip _ hmem, response, hresponse, answer_operationId ?_ hanswer, hanswer⟩
  obtain ⟨steps, hsteps⟩ := serve_run verbs request done [] s
  rw [stateAt, hsteps]
  exact (sequenced_run (sequenced_run h steps).1 _).1

end Capture

/-! ## The law of a stream -/

/-- What a stream's records say of its counter, their flags and its Actor. -/
structure StreamLaw (s : CaptureState) (stream : CaptureStream) : Prop where
  bound : ∀ row ∈ s.operations, row.stream = stream.key → row.clientSeq ≤ stream.lastSeq
  attained : ∃ row ∈ s.operations, row.stream = stream.key ∧ row.clientSeq = stream.lastSeq
  reused : Each (fun before row => row.stream = stream.key →
    (SequenceFlag.reused ∈ row.sequenceFlags ↔ row.clientSeq ≤ markOf before stream.key))
      s.operations
  gap : Each (fun before row => row.stream = stream.key →
    (SequenceFlag.gap ∈ row.sequenceFlags ↔ markOf before stream.key + 1 < row.clientSeq))
      s.operations
  unflagged : (∀ row ∈ s.operations, row.stream = stream.key → row.sequenceFlags = []) ↔
    numbers CaptureRecord.stream CaptureRecord.clientSeq s.operations stream.key =
      List.range' 1
        (numbers CaptureRecord.stream CaptureRecord.clientSeq s.operations stream.key).length
  actor : ∀ row ∈ s.operations, row.stream = stream.key → row.actorId = stream.actorId

theorem sequenceFlags_reused {clientSeq last : ℕ} :
    SequenceFlag.reused ∈ sequenceFlags clientSeq last ↔ clientSeq ≤ last := by
  unfold sequenceFlags
  split
  · simpa
  · split <;> simp <;> omega

theorem sequenceFlags_gap {clientSeq last : ℕ} :
    SequenceFlag.gap ∈ sequenceFlags clientSeq last ↔ last + 1 < clientSeq := by
  unfold sequenceFlags
  split
  · simp; omega
  · split
    · simp; omega
    · simp; omega

theorem sequenceFlags_eq_nil {clientSeq last : ℕ} :
    sequenceFlags clientSeq last = [] ↔ clientSeq = last + 1 := by
  unfold sequenceFlags
  split
  · simp; omega
  · split <;> simp <;> omega

theorem CaptureState.Sequenced.law (h : s.Sequenced) {stream : CaptureStream}
    (hstream : stream ∈ s.streams) : StreamLaw s stream where
  bound := by
    intro row hrow hkey
    rw [h.marks stream hstream, ← hkey]
    exact le_mark hrow
  attained := by
    obtain ⟨row, hrow, hkey⟩ := h.recorded stream hstream
    have hmark : ∃ top ∈ s.operations, top.stream = row.stream ∧
        top.clientSeq = markOf s.operations row.stream := exists_seq_eq_mark hrow
    obtain ⟨top, htop, hsame, hseq⟩ := hmark
    rw [h.marks stream hstream, ← hkey]
    exact ⟨top, htop, hsame, hseq⟩
  reused := by
    intro before row after hsplit hkey
    rw [h.flags before row after hsplit, sequenceFlags_reused, hkey]
  gap := by
    intro before row after hsplit hkey
    rw [h.flags before row after hsplit, sequenceFlags_gap, hkey]
  unflagged := by
    rw [counts_iff]
    constructor
    · intro hnone before row after hsplit hkey
      have hrow : row ∈ s.operations := hsplit ▸ List.mem_append_right _ (List.mem_cons_self ..)
      have hflags := hnone row hrow hkey
      rw [h.flags before row after hsplit, sequenceFlags_eq_nil, hkey] at hflags
      exact hflags
    · intro hcounted row hrow hkey
      obtain ⟨before, after, hsplit⟩ := List.append_of_mem hrow
      rw [h.flags before row after hsplit, sequenceFlags_eq_nil, hkey]
      exact hcounted before row after hsplit hkey
  actor := by
    intro row hrow hkey
    obtain ⟨other, hother, hsame, hactor⟩ := h.opened row hrow
    rw [← hactor, List.inj_on_of_nodup_map h.keys hother hstream (hsame.trans hkey)]

/-- What is recorded already is not recorded again, by any tenant. -/
theorem CaptureState.Sequenced.answer_of_recorded (h : s.Sequenced)
    (hrecorded : op.operationId ∈ s.operations.map CaptureRecord.operationId) :
    (Capture.answer verbs turn op s).2 = s := by
  unfold Capture.answer
  cases hattempt : Capture.attempt verbs turn op s with
  | error error => rfl
  | ok outcome =>
      rcases (attempt_eq_ok h.keys hattempt).2 with hsame | ⟨row, hadmission⟩
      · exact hsame
      · exact absurd hrecorded hadmission.fresh

theorem answer_of_error {error : CaptureError} (h : Capture.attempt verbs turn op s = .error error) :
    (Capture.answer verbs turn op s).2 = s := by
  rw [Capture.answer, h]

/-- Stream sequencing, after any transactions and then any batches, among which other sessions'
transactions may be committed. -/
theorem streamSequencing {ν : Type} (verbs : Verbs ν) (db : Uuid → Database)
    (steps : List CaptureStep) (requests : List CaptureBatch) :
    let s := Capture.batches verbs requests (Machine.run (CaptureState.exec verbs) steps { db })
    ((∀ row ∈ s.operations, ∃ stream ∈ s.streams, stream.key = row.stream) ∧
      ∀ stream ∈ s.streams, StreamLaw s stream) ∧
    (∀ turn op, op.operationId ∈ s.operations.map CaptureRecord.operationId →
      (Capture.answer verbs turn op s).2 = s) ∧
    (∀ turn op error, Capture.attempt verbs turn op s = .error error →
      (Capture.answer verbs turn op s).2 = s) ∧
    (∀ more, s.Continues (Capture.batches verbs more s)) ∧
    (∀ request responses, (Capture.batch verbs request s).1 = .ok responses →
      Capture.Answered verbs request s responses) ∧
    ∀ operations, (Capture.ordered operations).Perm operations.zipIdx ∧
      (Capture.ordered operations).Pairwise fun a b => Capture.groupKey a = Capture.groupKey b →
        a.1.clientSeq < b.1.clientSeq ∨ a.1.clientSeq = b.1.clientSeq ∧ a.2 < b.2 := by
  intro s
  obtain ⟨ran, hran⟩ := Capture.batches_run verbs requests
    (Machine.run (CaptureState.exec verbs) steps { db })
  have hs : s.Sequenced := by
    change (Capture.batches verbs requests _).Sequenced
    rw [hran]
    exact (sequenced_run (sequenced_run (CaptureState.sequenced_start db) steps).1 ran).1
  refine ⟨⟨fun row hrow => ?_, fun stream => hs.law⟩, fun turn op => hs.answer_of_recorded,
    fun turn op error => answer_of_error, fun more => ?_, fun request responses hbatch =>
    Capture.batch_answered hs hbatch, fun operations =>
    ⟨Capture.ordered_perm operations, Capture.ordered_pairwise operations⟩⟩
  · obtain ⟨stream, hstream, hkey, -⟩ := hs.opened row hrow
    exact ⟨stream, hstream, hkey⟩
  · obtain ⟨later, hlater⟩ := Capture.batches_run verbs more s
    rw [hlater]
    exact (sequenced_run hs later).2

/-! ## A batch with every outcome -/

/-- A verb that stores nothing. -/
def sampleVerbs : Verbs Unit where
  validate _ := pure ()
  apply _ _ _ db := pure (⟨[], rfl⟩, db)
  deferred _ _ _ := pure ()

/-- An operation of one tab. -/
def sampleOperation (operationId : Uuid) (clientSeq : ℕ)
    (sequence : 0 < clientSeq ∧ clientSeq ≤ 9223372036854775807) : CaptureOperation :=
  { operationId, actorId := 1, clientId := 30, clientEpoch := 31, clientSeq
    entityType := "ASSET", entityId := 8, expectedVersion := none, operation := .attachEvidence
    payload := ⟨[], rfl⟩, occurredAt := .at 40, sequence, version := by simp
    entity := by decide, boundedPayload := by decide, aware := rfl }

/-- Five entries, of which one is sent twice and the last comes from another Actor. -/
def sampleBatch : CaptureBatch where
  operations :=
    [sampleOperation 53 3 (by decide), sampleOperation 51 1 (by decide),
      sampleOperation 54 3 (by decide), sampleOperation 51 1 (by decide),
      sampleOperation 55 4 (by decide)]
  meanwhile _ := []
  turns index :=
    let actor : Uuid := if index = 4 then 2 else 1
    { identity := some ⟨100, actor⟩, conflictId := 900
      ctx :=
        { session :=
            { organization := none, credential := some ⟨100, some actor⟩, actorHint := none
              now := .at 50 }
          refs := { actors := [1, 2], parties := [], locations := [], attachments := []
                    attachmentLinks := [] }
          posixSpace := fun c => c == ' ' } }

/-- Operation 51 is admitted, 53 leaves a gap and 54 has the number of 53.  What is sent again is a
duplicate, and what another Actor sends on the stream is unavailable. -/
example :
    let served := Capture.batch sampleVerbs sampleBatch
      { db := fun org => ⟨{ tables := { orgId := org } }, {}⟩ }
    served.2.operations.map (fun row => (row.operationId, row.sequenceFlags)) =
        [(51, []), (53, [.gap]), (54, [.reused])] ∧
      served.1.toOption.map (List.map fun response => response.bind CaptureResponse.syncState) =
        some [some .applied, some .applied, some .applied, none, some .rejected] ∧
      served.1.toOption.map (List.map fun response => response.bind CaptureResponse.recordedAt) =
        some [some (.at 50), some (.at 50), some (.at 50), some (.at 50), none] := by
  decide +kernel

end FleetOps
