import FleetOps.Assets.Acceptance

/-!
# Offered transitions

`transitionOptions` reads the effective event in force and offers what the
graph allows from it; `Service.transitionAsset` checks an event against the
graph on its own, in two places that depend on whether the Asset is on hold.
`offeredTransitions`: in every state that actions reach, what is offered is what
is accepted.
-/

namespace FleetOps

open AssetState

/-! ## The read -/

/-- One choice. -/
structure TransitionOption where
  toState : AssetState
  requiresEvidence : Bool
  deriving DecidableEq, Repr

/-- What `transition_options` returns. -/
structure TransitionOptions where
  assetId : Uuid
  expectedVersion : ℕ
  fromState : AssetState
  options : List TransitionOption
  deriving DecidableEq, Repr

/-- The states in the order of their names, which `sorted` puts them in. -/
def AssetState.sorted : List AssetState :=
  [configuring, deployed, inStock, onHold, outOfService, ready, received, retired]

theorem AssetState.mem_sorted (state : AssetState) : state ∈ AssetState.sorted := by
  cases state <;> decide

/-- `allowed` in `transition_options`: an Asset on hold may also return to where its effective entry
came from. -/
def offeredStates (state : AssetState) (enteredFrom : Option AssetState) :
    Service (List AssetState) :=
  if state = onHold then do
    let entered ← Service.fetch enteredFrom .assetConflict
      "Authoritative ON_HOLD entry state is missing"
    pure (lifecycle state ++ [entered])
  else
    pure (lifecycle state)

/-- `transition_options`. -/
def transitionOptions (tables : AssetTables) (assetId : Uuid) : Service TransitionOptions := do
  let inconsistent := "Authoritative state history is missing or inconsistent"
  let row ← Service.fetch (tables.assets.find? (·.id = assetId)) .assetNotFound "Asset not found"
  let history : HistoryRow AssetState ←
    Service.fetch (latestEffective (tables.history .transition) row.id) .assetConflict inconsistent
  Service.ensure (history.toFact = some row.currentState ∧ history.resultVersion ≤ row.version)
    .assetConflict inconsistent
  let state := row.currentState
  let allowed ← offeredStates state history.fromFact
  pure
    { assetId := row.id, expectedVersion := row.version, fromState := state
      options := (AssetState.sorted.filter (· ∈ allowed)).map fun value =>
        { toState := value, requiresEvidence := value = retired } }

/-- What is offered is what `validate_edge` allows. -/
theorem offeredStates_eq_ok {state : AssetState} {enteredFrom : Option AssetState}
    {allowed : List AssetState} (h : offeredStates state enteredFrom = .ok allowed) :
    allowed = allowedStates state enteredFrom := by
  by_cases hhold : state = onHold
  · simp only [offeredStates, hhold, if_true, bind_eq_ok, Service.fetch_eq_ok, pure_eq_ok] at h
    obtain ⟨entered, hentered, rfl⟩ := h
    simp [allowedStates, hhold, hentered]
  · simp only [offeredStates, hhold, if_false, pure_eq_ok] at h
    simp [allowedStates, hhold, h]

/-- What an offer says of the Asset, and the effective event that its options follow. -/
structure Offering (tables : AssetTables) (assetId : Uuid) (offered : TransitionOptions)
    (row : AssetRow) (latest : HistoryRow AssetState) : Prop where
  found : tables.assets.find? (·.id = assetId) = some row
  effective : latestEffective (tables.history .transition) assetId = some latest
  current : latest.toFact = some row.currentState
  asset : offered.assetId = assetId
  version : offered.expectedVersion = row.version
  source : offered.fromState = row.currentState
  mem_options : ∀ value, value ∈ offered.options.map TransitionOption.toState ↔
    value ∈ allowedStates row.currentState latest.fromFact

/-- The options follow the effective event as the graph reads it. -/
theorem transitionOptions_eq_ok {tables : AssetTables} {assetId : Uuid}
    {offered : TransitionOptions} (h : transitionOptions tables assetId = .ok offered) :
    ∃ row latest, Offering tables assetId offered row latest := by
  simp only [transitionOptions, bind_eq_ok, Service.fetch_eq_ok, Service.ensure_eq_ok, exists_unit,
    pure_eq_ok] at h
  obtain ⟨row, hrow, latest, hlatest, ⟨hstate, -⟩, allowed, hallowed, rfl⟩ := h
  have hid : row.id = assetId := by simpa using List.find?_some hrow
  rw [hid] at hlatest
  refine ⟨row, latest, hrow, hlatest, hstate, hid, rfl, rfl, fun value => ?_⟩
  rw [← offeredStates_eq_ok hallowed]
  simp [AssetState.mem_sorted]

/-! ## The operation -/

/-- The arguments of `transition_asset` besides those that an offer gives, with the context of
the request. -/
structure TransitionRequest where
  ctx : Context
  storage : Option EvidenceStorage
  reason : String
  occurredAt : Timestamp
  evidenceRef : Option Uuid
  clientOpId : Option Uuid
  transitionId : Uuid

/-- The request for one of the states, with the offer's source and version. -/
def TransitionRequest.action (request : TransitionRequest) (offered : TransitionOptions)
    (toState : AssetState) : LifecycleAction :=
  .transitionAsset request.ctx request.storage offered.assetId
    { expectedVersion := offered.expectedVersion, fromState := offered.fromState, toState
      reason := request.reason, occurredAt := request.occurredAt
      evidenceRef := request.evidenceRef, clientOpId := request.clientOpId } request.transitionId

/-- A request that is valid but for the edge that it asks for. -/
structure TransitionRequest.Valid (request : TransitionRequest) (state : Registry)
    (offered : TransitionOptions) (toState : AssetState) : Prop where
  /-- An actor of the organization performs it. -/
  performer : ∃ actor ∈ state.refs.actors, request.ctx.session.Trusted state.tables.orgId actor
  reason : reasonLength request.reason
  /-- The service draws a new key. -/
  fresh : request.transitionId ∉ request.ctx.foreignKeys (.history .transition) ∧
    ∀ row ∈ state.tables.history .transition, row.id ≠ request.transitionId
  /-- The version has a successor among the database's integers. -/
  room : offered.expectedVersion + 1 ≤ intMax
  /-- Evidence is verifiable, and is of disposal where the Asset is retired. -/
  evidence : EvidenceService.verifyAssetEvidence state.refs state.tables.orgId request.storage
    offered.assetId request.evidenceRef
    (if toState = retired then some .disposalEvidence else none) (toState = retired) = .ok ()

section

variable {refs : References} {org asset : Uuid} {storage : Option EvidenceStorage}
  {ref : Option Uuid} {role : Option EvidenceRole} {required : Bool}

/-- Verified evidence is valid evidence to the database. -/
theorem valid_of_verifyAssetEvidence
    (h : EvidenceService.verifyAssetEvidence refs org storage asset ref role required = .ok ())
    (hneeded : ref.isSome ∨ required = true) : validAssetEvidence refs org ref asset role = true := by
  cases ref with
  | none =>
      simp only [EvidenceService.verifyAssetEvidence, Service.ensure_eq_ok] at h
      simp_all
  | some id =>
      simp only [EvidenceService.verifyAssetEvidence, bind_eq_ok, Service.ensure_eq_ok,
        exists_unit] at h
      obtain ⟨_, -, hvalid, -⟩ := h
      exact hvalid

theorem attached_of_validAssetEvidence (h : ref.isSome → validAssetEvidence refs org ref asset role) :
    (ref.all fun ref => refs.attachments.any (·.id = ref)) = true := by
  cases ref with
  | none => rfl
  | some id =>
      have hvalid := h rfl
      simp only [validAssetEvidence, List.any_eq_true, Bool.and_eq_true] at hvalid
      obtain ⟨a, ha, ⟨⟨hid, -⟩, -⟩, -⟩ := hvalid
      rw [Option.all_some, List.any_eq_true]
      exact ⟨a, ha, by simpa using hid⟩

end

section

variable {posixSpace : Char → Bool} {creation : HistoryRow AssetState} {facts : InitialFacts}
  {state : Registry} {asset : AssetRow}
  {entries : (k : HistoryClass) → List (Amendment.Entry (HistoryRow (Fact k)))}

/-- The event in force is there, agrees with the Asset's row and is not above its version. -/
theorem SoundAsset.latest {refs : References} {tables : AssetTables}
    (h : SoundAsset posixSpace creation facts refs tables asset entries) :
    ∃ latest : HistoryRow AssetState,
      latestEffective (tables.history .transition) asset.id = some latest ∧
        latest.toFact = some asset.currentState ∧ latest.resultVersion ≤ asset.version ∧
        (asset.currentState = onHold → latest.fromFact.isSome) := by
  have hlatest := (h.history.classes .transition).latestEffective_eq
  have hprojection := h.history.projections .transition
  obtain ⟨rest, hrest⟩ := h.history.creation
  cases hlast : (entries .transition).getLast? with
  | none =>
      rw [List.getLast?_eq_none_iff, hrest] at hlast
      exact absurd hlast (List.cons_ne_nil _ _)
  | some last =>
      rw [hlast, Option.map_some] at hlatest
      rw [standingProjection, hlast] at hprojection
      have hmem := mem_of_latestEffective (a := asset) hlatest
      have hstate : last.head.toFact = some asset.currentState := hprojection.symm
      refine ⟨last.head, hlatest, hstate, ?_, fun hhold => ?_⟩
      · exact h.history.version_le (List.mem_filter.mpr ⟨hmem.1, decide_eq_true hmem.2⟩)
      · -- Only the creation has no source, and it enters no hold.
        have hchecks := h.constrained.checks .transition last.head hmem.1
        simp only [historyChecks, classChecks, Bool.and_eq_true, Bool.or_eq_true, beq_iff_eq]
          at hchecks
        rcases hchecks.1.2.2 with ⟨-, hcreated⟩ | ⟨-, hsome⟩
        · rw [hstate, hhold] at hcreated
          exact absurd hcreated (by decide)
        · exact hsome

/-- The database function accepts an event from the state in force, with the evidence it needs. -/
theorem SoundAsset.transitionAsset_accepted {ctx : Context} {tables : AssetTables}
    (h : SoundAsset ctx.posixSpace creation facts ctx.refs tables asset entries)
    {values : TransitionValues} {transitionId actor : Uuid}
    (htrusted : ctx.session.Trusted tables.orgId actor) (hactor : actor ∈ ctx.refs.actors)
    (hversion : values.expectedVersion = asset.version) (hroom : asset.version + 1 ≤ intMax)
    (hfrom : values.fromState = asset.currentState) (hreason : reasonLength values.reason)
    (hforeign : transitionId ∉ ctx.foreignKeys (.history .transition))
    (hfresh : ∀ row ∈ tables.history .transition, row.id ≠ transitionId)
    (hevidence : values.evidenceRef.isSome ∨ values.toState = retired →
      validAssetEvidence ctx.refs tables.orgId values.evidenceRef asset.id
        (if values.toState = retired then some .disposalEvidence else none)) :
    ∃ row after, FleetOps.transitionAsset ctx (values.args asset.id transitionId) tables =
      .ok (row, after) ∧ checkPairs ctx .transition asset.id after = .ok () := by
  obtain ⟨latest, hlatest, hstate, hbelow, -⟩ := h.latest
  have hpositive := h.constrained.version asset h.mem
  let args := values.args asset.id transitionId
  let row : HistoryRow (Fact .transition) := recordedRow ctx .transition args.toChangeArgs actor
    asset (some values.fromState) (some values.toState) values.evidenceRef transitionId
    values.reason values.occurredAt
  have hpurpose : evidencePurpose row =
      if values.toState = retired then some .disposalEvidence else none := by
    by_cases hretired : values.toState = retired
    · rw [if_pos hretired, evidencePurpose,
        if_pos ⟨congrArg some hretired, by simp [row, recordedRow]⟩]
    · rw [if_neg hretired, evidencePurpose,
        if_neg fun hboth => hretired (Option.some.inj hboth.1)]
  have hguard : guardAssetEvidence ctx.refs tables.orgId .transition row = .ok () := by
    simp only [guardAssetEvidence, require_eq_ok, hpurpose]
    intro hneeded
    refine hevidence (hneeded.imp_right fun hsome => ?_)
    by_contra hretired
    rw [if_neg hretired] at hsome
    exact absurd hsome (by decide)
  have hknown : RowKnown ctx.refs .transition row :=
    ⟨rfl, rfl, attached_of_validAssetEvidence fun hsome => hevidence (.inl hsome)⟩
  have hclass : classChecks ctx.posixSpace .transition row = true := by
    have hlater : 1 < row.resultVersion := Nat.succ_lt_succ hpositive
    simp only [classChecks, Bool.and_eq_true, Bool.or_eq_true, decide_eq_true_eq]
    exact ⟨hreason, .inr ⟨hlater, rfl⟩⟩
  have hadmits : Admits ctx .transition row tables :=
    h.admits_ordinary rfl rfl ⟨rfl, rfl, rfl⟩ hguard rfl hclass hforeign hfresh hknown hactor
      htrusted.creator
  have hproduced : ∃ after, produce ctx .transition args.toChangeArgs actor asset
      (some values.fromState) (some values.toState) values.evidenceRef tables = .ok (row, after) :=
    produce_accepted hroom rfl rfl rfl hadmits rfl rfl
  obtain ⟨after, hproduce⟩ := hproduced
  have hcall : FleetOps.transitionAsset ctx args tables = .ok (row, after) := by
    simp only [FleetOps.transitionAsset, refuseAnomalies, bind_eq_ok, require_eq_ok, demand_eq_ok,
      exists_unit]
    refine ⟨_, htrusted.trustedOrganization _, actor, htrusted.currentActor, asset,
      h.lockAsset (congrArg some hversion) _, h.anomalies, latest, hlatest, ⟨hbelow, ?_, ?_⟩,
      hproduce⟩
    · exact hstate.trans (congrArg some hfrom.symm)
    · exact hstate.symm
  obtain ⟨⟨locked, hrecorded⟩, -⟩ := recorded_of_transitionAsset hcall
  obtain ⟨org, hfound⟩ := hrecorded.found
  obtain rfl := h.history.eq_of_found hfound (asset?_id hfound)
  exact ⟨row, after, hcall, h.checkPairs_recorded hrecorded ⟨rfl, rfl⟩
    (h.constrained.transitionAsset hcall)⟩

/-- `transition_options` answers. -/
theorem SoundAsset.transitionOptions_accepted {refs : References} {tables : AssetTables}
    (h : SoundAsset posixSpace creation facts refs tables asset entries) :
    ∃ offered, transitionOptions tables asset.id = .ok offered ∧ offered.assetId = asset.id := by
  obtain ⟨latest, hlatest, hstate, hversion, hentered⟩ := h.latest
  have hallowed : ∃ allowed, offeredStates asset.currentState latest.fromFact = .ok allowed := by
    by_cases hhold : asset.currentState = onHold
    · obtain ⟨entered, hsome⟩ := Option.isSome_iff_exists.mp (hentered hhold)
      refine ⟨lifecycle asset.currentState ++ [entered], ?_⟩
      rw [offeredStates, if_pos hhold, hsome]
      rfl
    · exact ⟨lifecycle asset.currentState, by rw [offeredStates, if_neg hhold]; rfl⟩
  obtain ⟨allowed, hallowed⟩ := hallowed
  simp only [transitionOptions, bind_eq_ok, Service.fetch_eq_ok, Service.ensure_eq_ok, exists_unit,
    pure_eq_ok]
  exact ⟨_, ⟨asset, h.history.found, latest, hlatest, ⟨hstate, hversion⟩, allowed, hallowed, rfl⟩,
    rfl⟩

/-- What is offered is accepted. -/
theorem SoundAsset.offered_accepted
    (h : SoundAsset posixSpace creation facts state.refs state.tables asset entries)
    {offered : TransitionOptions} (hoffered : transitionOptions state.tables asset.id = .ok offered)
    {request : TransitionRequest} {toState : AssetState}
    (hvalid : request.Valid state offered toState)
    (hoption : toState ∈ offered.options.map TransitionOption.toState) :
    ∃ next, Registry.exec posixSpace (request.action offered toState) state = .ok next := by
  obtain ⟨row, latest, hoffer⟩ := transitionOptions_eq_ok hoffered
  obtain rfl : asset = row := Option.some.inj (h.history.found.symm.trans hoffer.found)
  obtain ⟨actor, hactor, htrusted⟩ := hvalid.performer
  have hallowed := (hoffer.mem_options toState).mp hoption
  have hevidence := hvalid.evidence
  have hroom := hvalid.room
  rw [hoffer.asset] at hevidence
  rw [hoffer.version] at hroom
  let ctx : Context := { request.ctx with posixSpace, refs := state.refs }
  let values : TransitionValues :=
    { expectedVersion := offered.expectedVersion, fromState := offered.fromState, toState
      reason := request.reason, occurredAt := request.occurredAt
      evidenceRef := request.evidenceRef, clientOpId := request.clientOpId }
  have hneeds : values.evidenceRef.isSome ∨ values.toState = retired →
      validAssetEvidence ctx.refs state.tables.orgId values.evidenceRef asset.id
        (if values.toState = retired then some .disposalEvidence else none) := by
    intro hneeded
    exact valid_of_verifyAssetEvidence hevidence (hneeded.imp_right fun hretired => by
      simpa [values] using hretired)
  have haccepted : ∃ row after, FleetOps.transitionAsset ctx
      (values.args asset.id request.transitionId) state.tables = .ok (row, after) ∧
        checkPairs ctx .transition asset.id after = .ok () :=
    SoundAsset.transitionAsset_accepted h htrusted hactor hoffer.version hroom hoffer.source
      hvalid.reason hvalid.fresh.1 hvalid.fresh.2 hneeds
  obtain ⟨produced, after, hcall, hcheck⟩ := haccepted
  have hretires : toState = retired → request.evidenceRef.isSome := by
    rintro rfl
    cases href : request.evidenceRef with
    | some ref => rfl
    | none => simp [href, EvidenceService.verifyAssetEvidence] at hevidence
  have hservice : Service.transitionAsset ctx request.storage asset.id values request.transitionId
      state.tables = .ok (produced, after) := by
    have hverified : Service.lifecycleEvidence ctx.refs state.tables.orgId request.storage asset.id
        values.toState values.evidenceRef = .ok () := by
      simp only [Service.lifecycleEvidence, bind_eq_ok, Service.ensure_eq_ok, exists_unit]
      exact ⟨hretires, hevidence⟩
    unfold Service.transitionAsset
    by_cases hhold : values.fromState = onHold
    · -- The exit from a hold is checked against the effective entry, as it was offered.
      simp only [hhold, ne_eq, not_true_eq_false, if_false, if_true, bind_eq_ok,
        Service.assetConstraints, Service.translating_eq_ok, Service.execute_eq_ok,
        Service.fetch_eq_ok, Service.ensure_eq_ok, validateEdge, exists_unit]
      have hcurrent : asset.currentState = onHold := hoffer.source.symm.trans hhold
      exact ⟨hverified, asset, h.history.found, latest, hoffer.effective,
        hcurrent ▸ hoffer.current, hcurrent ▸ hallowed, hcall⟩
    · simp only [hhold, ne_eq, not_false_eq_true, if_true, if_false, bind_eq_ok,
        Service.assetConstraints, Service.translating_eq_ok, Service.execute_eq_ok,
        Service.ensure_eq_ok, validateEdge, exists_unit]
      have hedge : values.toState ∈ lifecycle values.fromState := by
        rw [← hoffer.source] at hallowed
        exact (mem_allowedStates.mp hallowed).resolve_right fun hboth => hhold hboth.1
      exact ⟨mem_allowedStates.mpr (.inl hedge), hverified, hcall⟩
  refine ⟨⟨state.refs, after⟩, ?_⟩
  simp only [Registry.exec, TransitionRequest.action, LifecycleAction.within, Registry.step,
    commitTransition, bind_eq_ok, Service.execute_eq_ok, exists_unit, pure_eq_ok, hoffer.asset]
  exact ⟨(produced, after), hservice, after, ⟨hcheck, rfl⟩, rfl⟩

/-- What is accepted was offered. -/
theorem SoundAsset.accepted_offered
    (h : SoundAsset posixSpace creation facts state.refs state.tables asset entries)
    {offered : TransitionOptions} (hoffered : transitionOptions state.tables asset.id = .ok offered)
    {request : TransitionRequest} {toState : AssetState} {next : Registry}
    (hexec : Registry.exec posixSpace (request.action offered toState) state = .ok next) :
    toState ∈ offered.options.map TransitionOption.toState := by
  obtain ⟨row, latest, hoffer⟩ := transitionOptions_eq_ok hoffered
  obtain rfl : asset = row := Option.some.inj (h.history.found.symm.trans hoffer.found)
  simp only [Registry.exec, TransitionRequest.action, LifecycleAction.within, Registry.step,
    bind_eq_ok, hoffer.asset] at hexec
  obtain ⟨⟨produced, after⟩, hservice, -⟩ := hexec
  have hallowed := (allowed_of_transitionAsset hservice).2 latest hoffer.effective
  rw [hoffer.mem_options, ← hoffer.source]
  exact hallowed

end

/-! ## The offer is exact -/

/-- In every state that actions reach from the creation of an Asset, `transition_options` answers,
and of the requests with the source and version of its answer that are otherwise valid exactly those
for an offered state are accepted. -/
theorem offeredTransitions {ctx : Context} {args : UnitArgs} {tenant created : Tenant}
    {line : ReceiptLine} (hkeys : tenant.tables.Referential)
    (hconstrained : tenant.tables.Constrained ctx.posixSpace)
    (hcreate : createReceivedUnit ctx args tenant = .ok (line, created))
    (actions : List LifecycleAction) :
    ∃ state offered, state = Machine.run (Registry.exec ctx.posixSpace) actions
        ⟨ctx.refs, created.tables⟩ ∧
      transitionOptions state.tables args.assetId = .ok offered ∧
      ∀ (toState : AssetState) (request : TransitionRequest), request.Valid state offered toState →
        (toState ∈ offered.options.map TransitionOption.toState ↔
          ∃ next, Registry.exec ctx.posixSpace
            (request.action offered toState) state = .ok next) := by
  obtain ⟨creation, facts, -, -, hrun⟩ := Registry.run_sound hkeys hconstrained hcreate
  obtain ⟨⟨asset, entries, hid, hsound⟩, -⟩ := hrun actions
  obtain ⟨offered, hoffered, -⟩ := hsound.transitionOptions_accepted
  refine ⟨_, offered, rfl, hid ▸ hoffered, fun toState request hvalid => ⟨fun hoption => ?_, ?_⟩⟩
  · exact hsound.offered_accepted hoffered hvalid hoption
  · rintro ⟨next, hexec⟩
    exact hsound.accepted_offered hoffered hexec

/-- An event that is corrected into a hold. -/
def sampleHold : List LifecycleAction :=
  let event (expectedVersion : ℕ) (fromState toState : AssetState) (id : Uuid) : LifecycleAction :=
    .transitionAsset sampleContext none 8
      { expectedVersion, fromState, toState, reason := "Observed", occurredAt := .at 90 } id
  [event 1 received inStock 20, event 2 inStock configuring 21,
    .correctTransition sampleContext none 8 21
      { expectedVersion := 3, toState := onHold, reason := "Held at intake"
        correctionOccurredAt := .at 95 } ⟨23, 24, 25⟩]

def sampleExit : TransitionRequest :=
  { ctx := sampleContext, storage := none, reason := "Released", occurredAt := .at 99
    evidenceRef := none, clientOpId := none, transitionId := 40 }

/-- The Asset may leave the hold for where the corrected entry came from. -/
theorem offeredTransitions_sample :
    ∃ line created state offered, createReceivedUnit sampleContext sampleUnit sampleTenant =
        .ok (line, created) ∧
      state = Machine.run (Registry.exec sampleContext.posixSpace) sampleHold
        ⟨sampleContext.refs, created.tables⟩ ∧
      offered.options.map TransitionOption.toState = [inStock, outOfService] ∧
      ∃ next, Registry.exec sampleContext.posixSpace (sampleExit.action offered inStock) state =
        .ok next := by
  have hrun : ((createReceivedUnit sampleContext sampleUnit sampleTenant).toOption.map
      fun created =>
        let state := Machine.run (Registry.exec sampleContext.posixSpace) sampleHold
          ⟨sampleContext.refs, created.2.tables⟩
        ((transitionOptions state.tables 8).toOption, state.tables.orgId, state.refs.actors,
          decide (∀ row ∈ state.tables.history .transition, row.id ≠ 40))) =
      some (some ⟨8, 5, onHold, [⟨inStock, false⟩, ⟨outOfService, false⟩]⟩, 100, [1], true) := by
    decide +kernel
  obtain ⟨line, created, hcreate, -⟩ := sampleUnit_created
  obtain ⟨state, offered, hstate, hoffered, hexact⟩ := offeredTransitions sampleTenant_referential
    sampleTenant_constrained hcreate sampleHold
  simp only [hcreate, Except.toOption, Option.map_some, ← hstate, Option.some.injEq, Prod.mk.injEq,
    decide_eq_true_eq] at hrun
  obtain ⟨hoptions, horg, hactors, hfresh⟩ := hrun
  have hoffered : transitionOptions state.tables 8 = .ok offered := hoffered
  rw [hoffered] at hoptions
  obtain rfl := Option.some.inj hoptions
  refine ⟨line, created, state, _, hcreate, hstate, rfl,
    (hexact inStock sampleExit ?_).mp (by decide)⟩
  refine ⟨⟨1, by simp [hactors], ?_⟩, by decide, ⟨by decide, hfresh⟩, by decide, rfl⟩
  rw [horg]
  exact ⟨rfl, rfl⟩

end FleetOps
