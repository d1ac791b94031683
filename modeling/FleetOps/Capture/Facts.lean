import FleetOps.Assets.Invariant
import FleetOps.Foundations.Keys

/-!
# The facts of an Asset at a version

A stale operation is recorded with what it expected and what held instead.  The
service computes both from the histories (`Service.facts`), and the trigger on
sync conflicts computes them again (`captureAssetFacts`).  Both read raw rows up
to a version: reversals and superseded rows count, since they were made at later
versions than the state that they undo.

`rowsUpTo` is that reading.  No call changes it at a version that has been
reached (`rowsUpTo_perform`).
-/

namespace FleetOps

open Amendment

/-- The facts of an Asset at a version, as the JSON objects of both sides list them. -/
inductive AssetFacts
  | unknown (version : ℕ)
  | known (version : ℕ) (state : Option AssetState)
      (locationId custodianPartyId ownerPartyId assigneeId : Option Uuid)
  deriving DecidableEq, Repr

namespace AssetTables

variable (tables : AssetTables)

/-- The rows of one history of an Asset `WHERE result_version <= …`. -/
def rowsUpTo (k : HistoryClass) (asset : Uuid) (version : ℕ) : List (HistoryRow (Fact k)) :=
  (tables.rowsFor k asset).filter (·.resultVersion ≤ version)

/-- `… ORDER BY result_version DESC LIMIT 1`. -/
def latestUpTo (k : HistoryClass) (asset : Uuid) (version : ℕ) : Option (HistoryRow (Fact k)) :=
  Query.latestBy HistoryRow.resultVersion (tables.rowsUpTo k asset version)

end AssetTables

/-! ## The service's facts -/

namespace Service

/-- The value of one class in `_facts`. -/
def factAt (tables : AssetTables) (asset : Uuid) (version : ℕ) (k : HistoryClass) :
    Option (Fact k) :=
  match tables.latestUpTo k asset version with
  | some row => row.toFact
  | none =>
      if k.isPhysical then (tables.initialFacts? asset).bind fun facts => facts.baseline k
      else none

/-- `_facts`. -/
def facts (tables : AssetTables) (asset : AssetRow) (version : ℕ) : AssetFacts :=
  if asset.version < version then .unknown version
  else
    .known version (factAt tables asset.id version .transition)
      (factAt tables asset.id version .movement) (factAt tables asset.id version .custody)
      (factAt tables asset.id version .ownership)
      ((factAt tables asset.id version .assignment).map Assignee.id)

end Service

/-! ## The database's facts -/

/-- `CASE WHEN EXISTS (…) THEN (…) ELSE initial END`. -/
def existingFact (tables : AssetTables) (asset : Uuid) (version : ℕ) (k : HistoryClass) :
    Option (Fact k) :=
  if (tables.rowsFor k asset).any fun row => row.resultVersion ≤ version then
    (tables.latestUpTo k asset version).bind HistoryRow.toFact
  else (tables.initialFacts? asset).bind fun facts => facts.baseline k

/-- `capture_asset_facts`. -/
def captureAssetFacts (session : Session) (tables : AssetTables) (asset : Uuid) (version : ℕ) :
    Option AssetFacts := do
  let org ← session.organization
  let a ← tables.asset? org asset
  if a.version < version then some (.unknown version)
  else
    some (.known version
      ((tables.latestUpTo .transition a.id version).bind HistoryRow.toFact)
      (existingFact tables a.id version .movement) (existingFact tables a.id version .custody)
      (((tables.latestUpTo .ownership a.id version).bind HistoryRow.toFact).or
        ((tables.initialFacts? a.id).map InitialFacts.initialOwnerPartyId))
      (((tables.latestUpTo .assignment a.id version).bind HistoryRow.toFact).map Assignee.id))

theorem existingFact_eq (tables : AssetTables) (asset : Uuid) (version : ℕ) {k : HistoryClass}
    (hphysical : k.isPhysical = true) :
    existingFact tables asset version k = Service.factAt tables asset version k := by
  have hany : (tables.rowsFor k asset).any (fun row => decide (row.resultVersion ≤ version)) =
      (tables.latestUpTo k asset version).isSome := by
    rw [Bool.eq_iff_iff, Option.isSome_iff_ne_none, AssetTables.latestUpTo, Ne,
      Query.latestBy_eq_none, AssetTables.rowsUpTo, List.filter_eq_nil_iff, List.any_eq_true]
    simp
  rw [existingFact, Service.factAt, hany]
  cases tables.latestUpTo k asset version with
  | none => simp [hphysical]
  | some row => rfl

/-- Every change of ownership names an owner. -/
def AssetTables.Owned (tables : AssetTables) (asset : Uuid) : Prop :=
  ∀ row ∈ tables.rowsFor .ownership asset, row.toFact.isSome

/-- The service and the database compute the same facts. -/
theorem captureAssetFacts_eq {session : Session} {tables : AssetTables} {asset : AssetRow}
    (horg : session.organization = some tables.orgId)
    (hfound : tables.assets.find? (·.id = asset.id) = some asset) (howned : tables.Owned asset.id)
    (version : ℕ) :
    captureAssetFacts session tables asset.id version =
      some (Service.facts tables asset version) := by
  have hasset : tables.asset? tables.orgId asset.id = some asset := asset?_eq_some.mpr ⟨rfl, hfound⟩
  have howner : ((tables.latestUpTo .ownership asset.id version).bind HistoryRow.toFact).or
      ((tables.initialFacts? asset.id).map InitialFacts.initialOwnerPartyId) =
        Service.factAt tables asset.id version .ownership := by
    rw [Service.factAt]
    cases hlatest : tables.latestUpTo .ownership asset.id version with
    | none => cases tables.initialFacts? asset.id <;> rfl
    | some row =>
        -- `COALESCE` does not reach the baseline: the row names an owner.
        have hrow := howned row (List.mem_filter.mp (Query.mem_of_latestBy hlatest)).1
        obtain ⟨owner, howner⟩ := Option.isSome_iff_exists.mp hrow
        simp [howner]
  have hplain : ∀ k : HistoryClass, k.isPhysical = false →
      (tables.latestUpTo k asset.id version).bind HistoryRow.toFact =
        Service.factAt tables asset.id version k := by
    intro k hk
    rw [Service.factAt]
    cases tables.latestUpTo k asset.id version <;> simp [hk]
  have hmovement := existingFact_eq tables asset.id version (k := .movement) rfl
  have hcustody := existingFact_eq tables asset.id version (k := .custody) rfl
  simp only [captureAssetFacts, horg, hasset, Option.bind_eq_bind, Option.bind_some, howner,
    hplain .transition rfl, hplain .assignment rfl, hmovement, hcustody]
  unfold Service.facts
  split <;> rfl

/-! ## Facts that held -/

/-- The assignee that an Asset's row names through its current assignment. -/
def AssetTables.currentAssignee (tables : AssetTables) (asset : AssetRow) : Option Assignee :=
  asset.currentAssignmentId.bind fun event =>
    ((tables.rowsFor .assignment asset.id).find? (·.id = event)).bind HistoryRow.toFact

/-- The facts that an Asset's row shows at its own version. -/
def AssetTables.currentFacts (tables : AssetTables) (asset : AssetRow) : AssetFacts :=
  .known asset.version (some asset.currentState) asset.currentLocationId asset.custodianPartyId
    (some asset.ownerPartyId) ((tables.currentAssignee asset).map Assignee.id)

/-- Everything that a call writes is above the version that it expected. -/
theorem Call.lt_of_mem_writes {call : Call} {n : ℕ} {write : ℕ × CorrectionRole}
    (h : write ∈ call.writes n) : n < write.1 := by
  cases call with
  | correct k args =>
      simp only [Call.writes, List.mem_cons, List.not_mem_nil, or_false] at h
      rcases h with rfl | rfl <;> simp
  | transitionAsset | moveAsset | changeCustody | changeOwnership | assignAsset | unassignAsset =>
      simp only [Call.writes, List.mem_singleton] at h
      simp [h]

namespace AssetHistory

variable {creation : HistoryRow AssetState} {initial : InitialFacts} {tables after : AssetTables}
  {asset : AssetRow} {entries : (k : HistoryClass) → List (Entry (HistoryRow (Fact k)))}

/-- At the Asset's version the latest row of a class is the last head. -/
theorem latestUpTo_version (h : AssetHistory creation initial tables asset entries)
    (k : HistoryClass) :
    tables.latestUpTo k asset.id asset.version = (entries k).getLast?.map Entry.head := by
  have hall : tables.rowsUpTo k asset.id asset.version = rowsOf (entries k) := by
    rw [← (h.classes k).rows]
    exact List.filter_eq_self.mpr fun row hrow => by simpa using h.version_le hrow
  rw [AssetTables.latestUpTo, hall, Query.latestBy_eq_getLast? (h.classes k).ascending,
    getLast?_rowsOf]

/-- The current assignment is the event of the last head that assigns. -/
theorem currentAssignee_eq (h : AssetHistory creation initial tables asset entries) :
    tables.currentAssignee asset =
      ((entries .assignment).getLast?.map Entry.head).bind HistoryRow.toFact := by
  have hprojection := h.projections .assignment
  have hclass := h.classes .assignment
  simp only [AssetRow.projection, standingProjection] at hprojection
  rw [AssetTables.currentAssignee, hprojection]
  cases hlast : (entries .assignment).getLast? with
  | none => simp [factProjected]
  | some last =>
      simp only [HistoryRow.projected, Option.map_some, Option.bind_some]
      split
      case isTrue hnone => simpa using (Option.isNone_iff_eq_none.mp hnone).symm
      case isFalse hsome =>
        have hhead : last.head ∈ rowsOf (entries .assignment) :=
          mem_rowsOf.mpr ⟨last, List.mem_of_getLast? hlast, last.head_mem_rows⟩
        -- Ids are unique among the rows, so the event is found again.
        have hfind : (rowsOf (entries .assignment)).find? (·.id = last.head.id) =
            some last.head := by
          have hids : Keys.Distinct HistoryRow.id (rowsOf (entries .assignment)) :=
            hclass.overlay.ids
          exact hids.find?_eq hhead rfl
        rw [hclass.rows, Option.bind_some, hfind, Option.bind_some]

/-- At the Asset's version the facts are what its row shows. -/
theorem facts_version (h : AssetHistory creation initial tables asset entries) :
    Service.facts tables asset asset.version = tables.currentFacts asset := by
  have hvalue : ∀ k : HistoryClass, Service.factAt tables asset.id asset.version k =
      standing HistoryRow.toFact (initial.baseline k) (entries k) := by
    intro k
    rw [Service.factAt, h.latestUpTo_version, standing]
    cases (entries k).getLast? with
    | none => cases k <;> simp [h.initial, HistoryClass.isPhysical, InitialFacts.baseline]
    | some last => rfl
  have hprojected : ∀ k : HistoryClass, k ≠ .assignment → asset.projection k =
      factProjected k (Service.factAt tables asset.id asset.version k) := by
    intro k hk
    rw [h.projections k, hvalue k, standingProjection, standing]
    cases (entries k).getLast? with
    | none => rfl
    | some last =>
        cases k with
        | assignment => exact absurd rfl hk
        | transition | movement | custody | ownership => rfl
  have htransition := hprojected .transition (by decide)
  have hmovement := hprojected .movement (by decide)
  have hcustody := hprojected .custody (by decide)
  have hownership := hprojected .ownership (by decide)
  have hassignment : Service.factAt tables asset.id asset.version .assignment =
      tables.currentAssignee asset := by
    rw [h.currentAssignee_eq, hvalue, standing]
    cases (entries .assignment).getLast? <;> rfl
  simp only [AssetRow.projection, factProjected] at htransition hmovement hcustody hownership
  rw [Service.facts, if_neg (lt_irrefl _), AssetTables.currentFacts, hassignment, htransition,
    hmovement, hcustody, hownership]

/-! ## Facts that stay -/

/-- An accepted call leaves the rows up to the Asset's version alone. -/
theorem rowsUpTo_perform (h : AssetHistory creation initial tables asset entries)
    {request : Context × Call} (hperform : FleetOps.perform request tables = .ok after)
    {version : ℕ} (hversion : version ≤ asset.version) (k : HistoryClass) :
    after.rowsUpTo k asset.id version = tables.rowsUpTo k asset.id version := by
  obtain ⟨n, hadvances⟩ := advances_of_perform hperform
  by_cases hclass : k = request.2.historyClass
  · subst hclass
    obtain ⟨rows, hhistory, hasset, hwrites⟩ := hadvances.rows
    have hnew : rows.filter (fun row => decide (row.assetId = asset.id) &&
        decide (row.resultVersion ≤ version)) = [] := by
      refine List.filter_eq_nil_iff.mpr fun row hrow hkept => ?_
      simp only [Bool.and_eq_true, decide_eq_true_eq] at hkept
      -- A row of this Asset was made after the version that the call expected.
      have hself : request.2.assetId = asset.id := (hasset row hrow).symm.trans hkept.1
      obtain ⟨before, -, hbefore, -, hn, -⟩ := hadvances.asset
      rw [hself] at hbefore
      obtain rfl : before = asset := Option.some.inj (hbefore.symm.trans h.found)
      have hmem : (row.resultVersion, row.role) ∈ request.2.writes n := by
        rw [← hwrites]
        exact List.mem_map_of_mem (f := fun row : HistoryRow _ => (row.resultVersion, row.role)) hrow
      have habove := Call.lt_of_mem_writes hmem
      omega
    have happended : after.history request.2.historyClass =
        tables.history request.2.historyClass ++ rows := hhistory
    simp only [AssetTables.rowsUpTo, AssetTables.rowsFor, List.filter_filter, Bool.and_comm]
    rw [happended, List.filter_append, hnew, List.append_nil]
  · rw [AssetTables.rowsUpTo, AssetTables.rowsFor, hadvances.histories k hclass]
    rfl

/-- An accepted call leaves the facts at versions up to the Asset's alone. -/
theorem factAt_perform (h : AssetHistory creation initial tables asset entries)
    {updated : AssetRow} {fresh : (k : HistoryClass) → List (Entry (HistoryRow (Fact k)))}
    (hafter : AssetHistory creation initial after updated fresh) (hid : updated.id = asset.id)
    {request : Context × Call} (hperform : FleetOps.perform request tables = .ok after)
    {version : ℕ} (hversion : version ≤ asset.version) (k : HistoryClass) :
    Service.factAt after asset.id version k = Service.factAt tables asset.id version k := by
  have hinitial := hafter.initial
  rw [hid] at hinitial
  rw [Service.factAt, Service.factAt, AssetTables.latestUpTo, AssetTables.latestUpTo,
    h.rowsUpTo_perform hperform hversion, hinitial, h.initial]

/-- An accepted call does not lower the Asset's version. -/
theorem version_perform (h : AssetHistory creation initial tables asset entries)
    {updated : AssetRow} {fresh : (k : HistoryClass) → List (Entry (HistoryRow (Fact k)))}
    (hafter : AssetHistory creation initial after updated fresh) (hid : updated.id = asset.id)
    {request : Context × Call} (hperform : FleetOps.perform request tables = .ok after) :
    asset.version ≤ updated.version := by
  obtain ⟨n, hadvances⟩ := advances_of_perform hperform
  have hfound := hafter.found
  rw [hid] at hfound
  by_cases hself : asset.id = request.2.assetId
  · obtain ⟨before, next, hbefore, hnext, hn, hraised, -⟩ := hadvances.asset
    simp only [← hself] at hbefore hnext
    obtain rfl : before = asset := Option.some.inj (hbefore.symm.trans h.found)
    obtain rfl : next = updated := Option.some.inj (hnext.symm.trans hfound)
    omega
  · have hsame := hadvances.others asset.id hself
    simp only at hsame
    rw [hfound, h.found, Option.some.injEq] at hsame
    exact hsame ▸ le_rfl

end AssetHistory

/-- An accepted call names the owners that it records. -/
theorem AssetTables.Owned.perform {tables after : AssetTables} {id : Uuid}
    (howned : tables.Owned id) {request : Context × Call}
    (hperform : FleetOps.perform request tables = .ok after) :
    after.Owned id ∧ after.orgId = tables.orgId := by
  have hrecord : ∀ {k : HistoryClass} {rows : List (HistoryRow (Fact k))} {updated : AssetRow},
      (k = .ownership → ∀ row ∈ rows, row.assetId = id → row.toFact.isSome) →
      (tables.record k rows updated).Owned id := by
    intro k rows updated hnamed row hrow
    by_cases hclass : HistoryClass.ownership = k
    · subst hclass
      rw [AssetTables.rowsFor_record] at hrow
      rcases List.mem_append.mp hrow with hold | hnew
      · exact howned row hold
      · obtain ⟨hmem, hasset⟩ := List.mem_filter.mp hnew
        exact hnamed rfl row hmem (by simpa using hasset)
    · rw [AssetTables.rowsFor_record_of_ne hclass] at hrow
      exact howned row hrow
  -- The Asset's owner column is not null, so what it is set to names an owner.
  have hset : ∀ {k : HistoryClass} {row : HistoryRow (Fact k)} {locked projected : AssetRow},
      k = .ownership → locked.setProjection k (row.projected k) = .ok projected →
        row.toFact.isSome := by
    rintro k row locked projected rfl h
    simp only [AssetRow.setProjection, bind_eq_ok, notNull_eq_ok] at h
    obtain ⟨owner, howner, -⟩ := h
    exact Option.isSome_iff_exists.mpr ⟨owner, howner⟩
  obtain ⟨ctx, call⟩ := request
  rcases perform_cases hperform with ⟨-, locked, row, hrecorded⟩ | ⟨k, args, rfl, locked, original,
    head, reversal, corrected, hamended⟩
  · obtain ⟨projected, hprojected, rfl⟩ := hrecorded.after_eq
    refine ⟨hrecord fun hk other hother _ => ?_, rfl⟩
    obtain rfl := List.mem_singleton.mp hother
    exact hset hk hprojected
  · obtain ⟨actor, now, projected, hprojected, rfl⟩ := hamended.after_eq
    obtain ⟨_, _, hreversal, -⟩ := hamended.rows_eq
    refine ⟨hrecord fun hk other hother hasset => ?_, rfl⟩
    simp only [List.mem_cons, List.not_mem_nil, or_false] at hother
    rcases hother with rfl | rfl
    · -- A reversal repeats the row that it cancels.
      subst hk
      obtain ⟨heffective, hlocked⟩ := List.mem_filter.mp hamended.head_mem
      have hself : head.assetId = id := by
        rw [hreversal] at hasset
        exact (of_decide_eq_true hlocked).trans hasset
      rw [hreversal]
      exact howned head
        (List.mem_filter.mpr ⟨(List.mem_filter.mp heffective).1, by simpa using hself⟩)
    · exact hset hk hprojected

/-- The tables of an Asset that calls reached, with the facts they show at a version they had. -/
structure Recalls (creation : HistoryRow AssetState) (initial : InitialFacts) (org id : Uuid)
    (version : ℕ) (recalled : (k : HistoryClass) → Option (Fact k))
    (tables : AssetTables) : Prop where
  history : ∃ asset entries, asset.id = id ∧ version ≤ asset.version ∧
    AssetHistory creation initial tables asset entries
  owned : tables.Owned id
  orgId : tables.orgId = org
  recalled : ∀ k, Service.factAt tables id version k = recalled k

theorem Recalls.perform {creation : HistoryRow AssetState} {initial : InitialFacts} {org id : Uuid}
    {version : ℕ} {recalled : (k : HistoryClass) → Option (Fact k)} {tables after : AssetTables}
    (h : Recalls creation initial org id version recalled tables) {request : Context × Call}
    (hperform : FleetOps.perform request tables = .ok after) :
    Recalls creation initial org id version recalled after := by
  obtain ⟨asset, entries, rfl, hversion, hhistory⟩ := h.history
  obtain ⟨updated, fresh, hid, hafter, -⟩ := hhistory.perform hperform
  obtain ⟨howned, horg⟩ := h.owned.perform hperform
  have hraised := hhistory.version_perform hafter hid hperform
  exact ⟨⟨updated, fresh, hid, hversion.trans hraised, hafter⟩, howned, horg.trans h.orgId,
    fun k => (hhistory.factAt_perform hafter hid hperform hversion k).trans (h.recalled k)⟩

theorem Recalls.run {creation : HistoryRow AssetState} {initial : InitialFacts} {org id : Uuid}
    {version : ℕ} {recalled : (k : HistoryClass) → Option (Fact k)} {tables : AssetTables}
    (h : Recalls creation initial org id version recalled tables)
    (requests : List (Context × Call)) :
    Recalls creation initial org id version recalled (Machine.run FleetOps.perform requests tables) :=
  Machine.run_invariant FleetOps.perform _ (fun _ => True)
    (fun _ _ _ _ hperform hrecalls => hrecalls.perform hperform) requests tables
    (fun _ _ => trivial) h

/-- In every state that calls reach from the creation of an Asset, the service and the database
compute the same facts at every version, and at a version that the Asset has had they are what its
row showed then, whatever calls and corrections came after. -/
theorem historicalFacts {ctx : Context} {args : UnitArgs} {tenant created : Tenant}
    {line : ReceiptLine} (hkeys : tenant.tables.Referential)
    (hcreate : createReceivedUnit ctx args tenant = .ok (line, created)) {session : Session}
    (horg : session.organization = some created.tables.orgId)
    (earlier later : List (Context × Call)) :
    let past := Machine.run perform earlier created.tables
    let present := Machine.run perform later past
    ∃ committed asset, past.assets.find? (·.id = args.assetId) = some committed ∧
      present.assets.find? (·.id = args.assetId) = some asset ∧
      (∀ version, captureAssetFacts session present args.assetId version =
        some (Service.facts present asset version)) ∧
      Service.facts present asset committed.version = past.currentFacts committed := by
  intro past present
  obtain ⟨receipt, owner, performer, hinsert⟩ := createReceivedUnit_eq_ok hcreate
  have hbegin := history_of_insertReceivedAsset hkeys hinsert
  have howned : created.tables.Owned args.assetId := by
    intro row hrow
    have hrows : row ∈ rowsOf _ := (hbegin.classes .ownership).rows ▸ hrow
    simp at hrows
  have hpast : Recalls _ _ _ args.assetId 0 _ past :=
    Recalls.run ⟨⟨_, _, rfl, Nat.zero_le _, hbegin⟩, howned, rfl, fun _ => rfl⟩ earlier
  obtain ⟨committed, entries, hid, -, hhistory⟩ := hpast.history
  have hpresent : Recalls _ _ _ args.assetId committed.version _ present :=
    Recalls.run ⟨⟨committed, entries, hid, le_rfl, hhistory⟩, hpast.owned, hpast.orgId,
      fun _ => rfl⟩ later
  obtain ⟨asset, fresh, hidNow, hversion, hnow⟩ := hpresent.history
  refine ⟨committed, asset, hid ▸ hhistory.found, hidNow ▸ hnow.found, fun version => ?_, ?_⟩
  · rw [← hidNow]
    exact captureAssetFacts_eq (horg.trans (congrArg some hpresent.orgId.symm)) hnow.found
      (hidNow ▸ hpresent.owned) version
  · rw [← hhistory.facts_version, Service.facts, Service.facts, if_neg (by omega),
      if_neg (lt_irrefl _), hidNow, hid]
    simp only [hpresent.recalled]

theorem historicalFacts_sample :
    ∃ line created, createReceivedUnit sampleContext sampleUnit sampleTenant =
      .ok (line, created) ∧
        (let past := Machine.run perform (sampleRequests.take 1) created.tables
        let present := Machine.run perform (sampleRequests.drop 1) past
        ∃ committed asset, past.assets.find? (·.id = 8) = some committed ∧
          present.assets.find? (·.id = 8) = some asset ∧
          (∀ version, captureAssetFacts sampleContext.session present 8 version =
            some (Service.facts present asset version)) ∧
          Service.facts present asset committed.version = past.currentFacts committed) := by
  obtain ⟨line, created, hcreate, -⟩ := sampleUnit_created
  have horg : sampleContext.session.organization = some created.tables.orgId := by
    have hrun : (createReceivedUnit sampleContext sampleUnit sampleTenant).toOption.map
        (fun created => created.2.tables.orgId) = some 100 := by decide +kernel
    rw [hcreate] at hrun
    exact hrun.symm
  exact ⟨line, created, hcreate, historicalFacts sampleTenant_referential hcreate horg
    (sampleRequests.take 1) (sampleRequests.drop 1)⟩

end FleetOps
