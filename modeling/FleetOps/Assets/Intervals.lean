import FleetOps.Assets.Soundness

/-!
# Assignment intervals

`assignmentHistory` derives from the effective events of an Asset who held it
and when: an event that assigns opens an interval, and the next effective event,
whatever it records, closes it.  Nothing is read from the Asset's row.

`assignmentIntervals`: in every state that actions reach the intervals are those
of the effective view, and the open one is what the Asset's row projects.
-/

namespace FleetOps

open Amendment

/-! ## The read -/

/-- The columns of a row that say what it cancels. -/
structure AuditColumns where
  id : Uuid
  /-- `row[root_field]` -/
  root : Option Uuid
  role : CorrectionRole
  generation : ℕ
  deriving DecidableEq, Repr

def HistoryRow.audit {φ : Type} (row : HistoryRow φ) : AuditColumns :=
  ⟨row.id, row.root, row.role, row.generation⟩

/-- `corrected` of `audit_rows`. -/
def correctedIds (rows : List AuditColumns) : List ((Option Uuid × ℕ) × Uuid) :=
  Dictionary.ofRows Prod.fst <| (rows.filter (·.role = .corrected)).map fun row =>
    ((row.root, row.generation), row.id)

/-- `cancels_history_id` of a row: a first reversal cancels its root, a later one the replacement
below it. -/
def cancelsHistoryId (corrected : List ((Option Uuid × ℕ) × Uuid)) (row : AuditColumns) :
    Option Uuid :=
  match row.role, row.generation with
  | .reversal, 1 => row.root
  | .reversal, g + 2 => corrected.lookup (row.root, g + 1)
  | _, _ => none

/-- `audit_rows`: the rows, each with the authority that it cancels. -/
def auditRows {ρ : Type} (columns : ρ → AuditColumns) (rows : List ρ) : List (ρ × Option Uuid) :=
  rows.map fun row => (row, cancelsHistoryId (correctedIds (rows.map columns)) (columns row))

theorem map_auditRows {ρ : Type} (columns : ρ → AuditColumns) (rows : List ρ) :
    (auditRows columns rows).map Prod.fst = rows := by
  rw [auditRows, List.map_map]
  exact List.map_id rows

/-- One interval of `assignment_history`; an open one has no end. -/
structure AssignmentInterval where
  establishingEventId : Uuid
  assigneeType : AssigneeType
  assigneeId : Uuid
  startedAt : Timestamp
  endedAt : Option Timestamp
  deriving DecidableEq, Repr

/-- What `assignment_history` returns. -/
structure AssignmentHistory where
  initialAssignmentFact : Option InitialAssignmentFacts
  events : List (HistoryRow Assignee × Option Uuid)
  intervals : List AssignmentInterval

/-- The interval that an event opens, with the events after it. -/
def HistoryRow.interval (event : HistoryRow Assignee) (assignee : Assignee)
    (next : Option (HistoryRow Assignee)) : AssignmentInterval where
  establishingEventId := event.id
  assigneeType := assignee.type
  assigneeId := assignee.id
  startedAt := event.occurredAt
  endedAt := next.map HistoryRow.occurredAt

/-- The loop of `assignment_history`. -/
def intervalsOf : List (HistoryRow Assignee) → List AssignmentInterval
  | [] => []
  | event :: rest =>
      match event.toFact with
      | some assignee => event.interval assignee rest.head? :: intervalsOf rest
      | none => intervalsOf rest

/-- `assignment_history`. -/
def assignmentHistory (tables : AssetTables) (assetId : Uuid) : Service AssignmentHistory := do
  let _ ← Service.fetch (tables.assets.find? (·.id = assetId)) .assetNotFound "Asset not found"
  let events := auditRows HistoryRow.audit <| (tables.rowsFor .assignment assetId).insertionSort
    fun a b => a.resultVersion ≤ b.resultVersion
  let effective ← effectiveEvents (events.map Prod.fst)
  pure
    { initialAssignmentFact := tables.initialAssignment? assetId, events
      intervals := intervalsOf effective }

/-! ## The loop -/

section

variable {effective : List (HistoryRow Assignee)} {interval : AssignmentInterval}

/-- Each event that assigns opens one interval, which the next event closes. -/
theorem mem_intervalsOf : interval ∈ intervalsOf effective ↔
    ∃ (i : ℕ) (event : HistoryRow Assignee) (assignee : Assignee), effective[i]? = some event ∧
      event.toFact = some assignee ∧ interval = event.interval assignee effective[i + 1]? := by
  induction effective with
  | nil => simp [intervalsOf]
  | cons first rest ih =>
      have hrest : interval ∈ intervalsOf rest ↔ ∃ (i : ℕ) (event : HistoryRow Assignee)
          (assignee : Assignee), (first :: rest)[i + 1]? = some event ∧
            event.toFact = some assignee ∧
            interval = event.interval assignee (first :: rest)[i + 1 + 1]? := by
        simpa using ih
      have hsplit : ∀ p : ℕ → Prop, (∃ i, p i) ↔ p 0 ∨ ∃ i, p (i + 1) := by
        intro p
        constructor
        · rintro ⟨_ | i, hi⟩
          · exact .inl hi
          · exact .inr ⟨i, hi⟩
        · rintro (h | ⟨i, hi⟩)
          · exact ⟨0, h⟩
          · exact ⟨i + 1, hi⟩
      rw [hsplit, ← hrest, intervalsOf]
      cases hfact : first.toFact with
      | none => simp [hfact]
      | some assignee => simp [hfact, List.head?_eq_getElem?]

/-- The intervals are of distinct events. -/
theorem nodup_intervalsOf (hids : (effective.map HistoryRow.id).Nodup) :
    ((intervalsOf effective).map AssignmentInterval.establishingEventId).Nodup := by
  have hsublist : ∀ events : List (HistoryRow Assignee),
      ((intervalsOf events).map AssignmentInterval.establishingEventId).Sublist
        (events.map HistoryRow.id) := by
    intro events
    induction events with
    | nil => exact List.Sublist.slnil
    | cons first rest ih =>
        rw [intervalsOf, List.map_cons]
        cases first.toFact with
        | none => exact ih.cons _
        | some assignee => exact ih.cons_cons _
  exact hids.sublist (hsublist effective)

/-- The event that the last one leaves in force, if it assigns. -/
def currentEvent (effective : List (HistoryRow Assignee)) : Option Uuid :=
  effective.getLast?.bind fun last => last.projected .assignment

theorem projected_eq_some {event : HistoryRow Assignee} {id : Uuid} :
    event.projected .assignment = some id ↔ event.toFact.isSome ∧ event.id = id := by
  rw [HistoryRow.projected]
  cases event.toFact <;> simp

theorem currentEvent_eq_some {id : Uuid} : currentEvent effective = some id ↔
    ∃ last, effective.getLast? = some last ∧ last.toFact.isSome ∧ last.id = id :=
  Option.bind_eq_some_iff.trans
    (exists_congr fun _ => and_congr_right fun _ => projected_eq_some)

/-- An interval is open exactly if its event is the one in force. -/
theorem open_iff (hids : (effective.map HistoryRow.id).Nodup)
    (h : interval ∈ intervalsOf effective) :
    interval.endedAt = none ↔ currentEvent effective = some interval.establishingEventId := by
  obtain ⟨i, event, assignee, hevent, hassigns, rfl⟩ := mem_intervalsOf.mp h
  have hlt : i < effective.length := (List.getElem?_eq_some_iff.mp hevent).1
  have hopen : (event.interval assignee effective[i + 1]?).endedAt = none ↔
      i + 1 = effective.length := by
    rw [HistoryRow.interval, Option.map_eq_none_iff, List.getElem?_eq_none_iff]
    omega
  rw [hopen]
  refine Iff.trans ?_ currentEvent_eq_some.symm
  rw [List.getLast?_eq_getElem?]
  constructor
  · intro hlast
    refine ⟨event, ?_, by simp [hassigns], rfl⟩
    rw [← hlast]
    exact hevent
  · rintro ⟨last, hlast, -, hid⟩
    -- Two events with one id are one.
    obtain ⟨hbound, hlast⟩ := List.getElem?_eq_some_iff.mp hlast
    obtain ⟨_, hevent⟩ := List.getElem?_eq_some_iff.mp hevent
    have hlastIndex : effective.length - 1 < (effective.map HistoryRow.id).length := by
      simpa using hbound
    have hindexLt : i < (effective.map HistoryRow.id).length := by simpa using hlt
    have hindex : effective.length - 1 = i := by
      refine (@List.Nodup.getElem_inj_iff _ _ hids _ hlastIndex _ hindexLt).mp ?_
      rw [List.getElem_map, List.getElem_map, hlast, hid, hevent]
      rfl
    omega

/-- If an event is in force, its interval is open. -/
theorem exists_open (hids : (effective.map HistoryRow.id).Nodup) {id : Uuid}
    (h : currentEvent effective = some id) :
    ∃ interval ∈ intervalsOf effective, interval.endedAt = none ∧
      interval.establishingEventId = id := by
  obtain ⟨last, hlast, hsome, rfl⟩ := currentEvent_eq_some.mp h
  obtain ⟨assignee, hassigns⟩ := Option.isSome_iff_exists.mp hsome
  rw [List.getLast?_eq_getElem?] at hlast
  have hmem := mem_intervalsOf.mpr ⟨_, last, assignee, hlast, hassigns, rfl⟩
  refine ⟨_, hmem, (open_iff hids hmem).mpr ?_, rfl⟩
  exact currentEvent_eq_some.mpr ⟨last, by rw [List.getLast?_eq_getElem?, hlast], hsome, rfl⟩

end

/-! ## The history of an Asset -/

/-- The intervals are those of the effective events, and agree with the event in force. -/
structure AssignmentLaw (tables : AssetTables) (asset : AssetRow) (history : AssignmentHistory) :
    Prop where
  /-- The view shows the events in the order of their versions. -/
  ordered : (effectiveRows tables .assignment asset.id).Pairwise fun earlier later =>
    earlier.resultVersion < later.resultVersion
  /-- One interval for each event that assigns, up to the event after it. -/
  spans : ∀ interval, interval ∈ history.intervals ↔
    ∃ (i : ℕ) (event : HistoryRow Assignee) (assignee : Assignee),
      (effectiveRows tables .assignment asset.id)[i]? = some event ∧
        event.toFact = some assignee ∧
        interval = event.interval assignee (effectiveRows tables .assignment asset.id)[i + 1]?
  once : (history.intervals.map AssignmentInterval.establishingEventId).Nodup
  /-- An interval is open if its event is the current one, and the current one's is open. -/
  opened : ∀ interval ∈ history.intervals, interval.endedAt = none ↔
    asset.currentAssignmentId = some interval.establishingEventId
  current : ∀ id, asset.currentAssignmentId = some id →
    ∃ interval ∈ history.intervals, interval.endedAt = none ∧ interval.establishingEventId = id
  /-- Neither a reversal nor a row that a correction superseded opens an interval. -/
  effective : ∀ interval ∈ history.intervals, ∀ row ∈ tables.rowsFor .assignment asset.id,
    row.id = interval.establishingEventId →
      row.role ≠ .reversal ∧ superseded (tables.history .assignment) row = false

section

variable {posixSpace : Char → Bool} {creation : HistoryRow AssetState} {facts : InitialFacts}
  {refs : References} {tables : AssetTables} {asset : AssetRow}
  {entries : (k : HistoryClass) → List (Entry (HistoryRow (Fact k)))}

/-- `effective_events` returns the rows of the view. -/
theorem SoundAsset.effectiveEvents_eq
    (h : SoundAsset posixSpace creation facts refs tables asset entries) (k : HistoryClass)
    {rows : List (HistoryRow (Fact k))} (hrows : rows.Perm (tables.rowsFor k asset.id)) :
    effectiveEvents rows = .ok (effectiveRows tables k asset.id) := by
  have hwell : asset.id ∉ malformedSql posixSpace tables k :=
    (not_mem_malformedSql_iff (h.constrained.keys k) (h.constrained.checks k)).mpr
      ((h.history.classes k).wellFormed h.history.initial (h.formed k))
  obtain ⟨events, hevents, hperm, hordered⟩ :=
    effectiveEventsAgree (h.constrained.keys k) (h.constrained.checks k) hwell hrows
  have hview : (effectiveRows tables k asset.id).Pairwise fun a b =>
      a.resultVersion < b.resultVersion := by
    rw [effectiveRows, (h.history.classes k).effective_eq]
    exact (h.history.classes k).ascending.heads
  have hsame : events = effectiveRows tables k asset.id :=
    hperm.eq_of_pairwise (fun a b _ _ hab hba => absurd hab hba.asymm) hordered hview
  rw [hevents, hsame]

/-- The event that the view leaves in force is what the Asset's row projects. -/
theorem SoundAsset.currentEvent_eq
    (h : SoundAsset posixSpace creation facts refs tables asset entries) :
    currentEvent (effectiveRows tables .assignment asset.id) = asset.currentAssignmentId := by
  have hprojection : asset.currentAssignmentId = _ := h.history.projections .assignment
  rw [hprojection, effectiveRows, (h.history.classes .assignment).effective_eq, currentEvent,
    standingProjection, List.getLast?_map]
  cases (entries .assignment).getLast? <;> rfl

theorem SoundAsset.assignmentHistory_accepted
    (h : SoundAsset posixSpace creation facts refs tables asset entries) :
    ∃ history, assignmentHistory tables asset.id = .ok history ∧
      AssignmentLaw tables asset history := by
  have hclass := h.history.classes .assignment
  have hevents := h.effectiveEvents_eq .assignment
    (List.perm_insertionSort (fun a b => a.resultVersion ≤ b.resultVersion)
      (tables.rowsFor .assignment asset.id))
  have hids : ((effectiveRows tables .assignment asset.id).map HistoryRow.id).Nodup :=
    ((h.constrained.keys .assignment).ids.filter _).filter _
  have hread : ∃ history, assignmentHistory tables asset.id = .ok history ∧
      history.intervals = intervalsOf (effectiveRows tables .assignment asset.id) := by
    simp only [assignmentHistory, bind_eq_ok, Service.fetch_eq_ok, map_auditRows, pure_eq_ok]
    exact ⟨_, ⟨asset, h.history.found, _, hevents, rfl⟩, rfl⟩
  obtain ⟨history, hhistory, hintervals⟩ := hread
  refine ⟨history, hhistory, ?_, fun interval => ?_, ?_, fun interval hmem => ?_,
    fun id hcurrent => ?_, fun interval hmem row hrow hid => ?_⟩
  · rw [effectiveRows, hclass.effective_eq]
    exact hclass.ascending.heads
  · rw [hintervals]
    exact mem_intervalsOf
  · rw [hintervals]
    exact nodup_intervalsOf hids
  · rw [hintervals] at hmem
    rw [open_iff hids hmem, h.currentEvent_eq]
  · rw [hintervals]
    exact exists_open hids (h.currentEvent_eq.trans hcurrent)
  · rw [hintervals] at hmem
    obtain ⟨i, event, assignee, hevent, -, rfl⟩ := mem_intervalsOf.mp hmem
    have hview := List.mem_of_getElem? hevent
    have heffective := (List.mem_filter.mp hview).1
    obtain ⟨hraw, hkeep⟩ := List.mem_filter.mp heffective
    obtain rfl : row = event :=
      (h.constrained.keys .assignment).ids.eq (List.mem_filter.mp hrow).1 hraw hid
    simpa using hkeep

end

/-- In every state that actions reach from the creation of an Asset, its assignment history is that
of its effective events. -/
theorem assignmentIntervals {ctx : Context} {args : UnitArgs} {tenant created : Tenant}
    {line : ReceiptLine} (hkeys : tenant.tables.Referential)
    (hconstrained : tenant.tables.Constrained ctx.posixSpace)
    (hcreate : createReceivedUnit ctx args tenant = .ok (line, created))
    (actions : List LifecycleAction) :
    ∃ state asset history, state = Machine.run (Registry.exec ctx.posixSpace) actions
        ⟨ctx.refs, created.tables⟩ ∧
      state.tables.assets.find? (·.id = args.assetId) = some asset ∧
      assignmentHistory state.tables args.assetId = .ok history ∧
      AssignmentLaw state.tables asset history := by
  obtain ⟨creation, facts, -, -, hrun⟩ := Registry.run_sound hkeys hconstrained hcreate
  obtain ⟨⟨asset, entries, hid, hsound⟩, -⟩ := hrun actions
  obtain ⟨history, hhistory, hlaw⟩ := hsound.assignmentHistory_accepted
  exact ⟨_, asset, history, rfl, hid ▸ hsound.history.found, hid ▸ hhistory, hlaw⟩

/-- Two assignments, of which the second is corrected into an unassignment and back. -/
def sampleAssignments : List LifecycleAction :=
  let assign (expectedVersion : ℕ) (time : ℤ) (type : AssigneeType) (id event : Uuid) :
      LifecycleAction :=
    .change sampleContext (.assignAsset
      { assetId := 8, expectedVersion := some expectedVersion, reason := some "Issued"
        occurredAt := some (.at time), clientOpId := none, historyId := some event }
      (some type) (some id)) nofun
  let correct (expectedVersion : ℕ) (time : Option Timestamp) (target : Target .assignment)
      (pair : Uuid) : LifecycleAction :=
    .change sampleContext (.correct .assignment
      { assetId := 8, rootId := 21, expectedVersion := some expectedVersion, target
        reason := some "Wrong form", correctionOccurredAt := some (.at 95), occurredAt := time
        pairId := some pair, reversalId := some (pair + 1), correctedId := some (pair + 2) }) nofun
  [assign 1 60 .party 2 20, assign 2 70 .actor 1 21, correct 3 (some (.at 65)) (none, none) 30,
    correct 5 none (some .location, some 4) 40]

theorem assignmentIntervals_sample :
    ∃ line created state asset history,
      createReceivedUnit sampleContext sampleUnit sampleTenant = .ok (line, created) ∧
      state = Machine.run (Registry.exec sampleContext.posixSpace) sampleAssignments
        ⟨sampleContext.refs, created.tables⟩ ∧
      assignmentHistory state.tables 8 = .ok history ∧
      history.intervals = [⟨20, .party, 2, .at 60, some (.at 65)⟩, ⟨42, .location, 4, .at 65, none⟩] ∧
      AssignmentLaw state.tables asset history := by
  have hrun : ((createReceivedUnit sampleContext sampleUnit sampleTenant).toOption.map
      fun created => ((assignmentHistory (Machine.run (Registry.exec sampleContext.posixSpace)
        sampleAssignments ⟨sampleContext.refs, created.2.tables⟩).tables 8).toOption.map
          AssignmentHistory.intervals)) =
      some (some [⟨20, .party, 2, .at 60, some (.at 65)⟩, ⟨42, .location, 4, .at 65, none⟩]) := by
    decide +kernel
  obtain ⟨line, created, hcreate, -⟩ := sampleUnit_created
  obtain ⟨state, asset, history, hstate, -, hhistory, hlaw⟩ := assignmentIntervals
    sampleTenant_referential sampleTenant_constrained hcreate sampleAssignments
  have hread : assignmentHistory state.tables 8 = .ok history := hhistory
  simp only [hcreate, Except.toOption, Option.map_some, ← hstate, hread, Option.some.injEq] at hrun
  exact ⟨line, created, state, asset, history, hcreate, hstate, hread, hrun, hlaw⟩

end FleetOps
