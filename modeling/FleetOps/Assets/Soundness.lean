import FleetOps.Assets.Generations
import FleetOps.Assets.Legality

/-!
# Soundness of Assets

Before the database admits another event of an Asset it checks the whole
authority behind it: no anomaly in any history, projections that agree, both
witnesses, versions without a gap, and references that exist.  `SoundAsset`
says all that.  It holds of a new Asset (`sound_of_insertReceivedAsset`) and is
kept by every accepted call (`SoundAsset.perform`), so these checks fail in no
state that calls can reach.

`Evolves` says what a call did to the entries of an Asset.
-/

namespace FleetOps

open Amendment Keys

/-! ## References of recorded facts -/

/-- A fact refers to rows that are there. -/
def factKnown (refs : References) : (k : HistoryClass) → Option (Fact k) → Bool
  | .transition, state => factReference refs .transition state
  | .movement, location => factReference refs .movement location
  | .custody, party => factReference refs .custody party
  | .ownership, party => factReference refs .ownership party
  | .assignment, assignee => assignee.all (assigneeExists refs)

/-- Only an assignee is checked without a foreign key. -/
theorem factKnown_eq {refs : References} {k : HistoryClass} (hk : k ≠ .assignment)
    (fact : Option (Fact k)) : factKnown refs k fact = factReference refs k fact := by
  cases k with
  | assignment => exact absurd rfl hk
  | transition | movement | custody | ownership => rfl

/-- What a row refers to is there. -/
structure RowKnown (refs : References) (k : HistoryClass) (row : HistoryRow (Fact k)) : Prop where
  fromFact : factKnown refs k row.fromFact
  toFact : factKnown refs k row.toFact
  evidence : row.evidenceRef.all fun ref => refs.attachments.any (·.id = ref)

/-- What the rows of an Asset refer to is there. -/
def FactsKnown (refs : References) (tables : AssetTables) (id : Uuid) : Prop :=
  ∀ k, ∀ row ∈ tables.rowsFor k id, RowKnown refs k row

section

variable {refs more : References} {k : HistoryClass}

theorem contains_append_left {α : Type} [BEq α] [LawfulBEq α] {rows new : List α} {x : α}
    (h : rows.contains x = true) : (rows ++ new).contains x = true := by
  rw [List.contains_iff_mem] at h ⊢
  exact List.mem_append_left _ h

theorem factKnown_extend {fact : Option (Fact k)} (h : factKnown refs k fact = true) :
    factKnown (refs.extend more) k fact = true := by
  cases fact with
  | none => cases k <;> rfl
  | some fact =>
      cases k with
      | transition => rfl
      | movement | custody | ownership => exact contains_append_left h
      | assignment =>
          simp only [factKnown, Option.all_some, assigneeExists] at h ⊢
          cases htype : fact.type <;> simp only [htype] at h ⊢ <;> exact contains_append_left h

theorem RowKnown.extend {row : HistoryRow (Fact k)} (h : RowKnown refs k row) :
    RowKnown (refs.extend more) k row := by
  refine ⟨factKnown_extend h.fromFact, factKnown_extend h.toFact, ?_⟩
  have hevidence := h.evidence
  cases hrow : row.evidenceRef with
  | none => rfl
  | some ref =>
      rw [hrow, Option.all_some] at hevidence
      rw [Option.all_some, References.extend, List.any_append, hevidence, Bool.true_or]

end

section

variable {ctx : Context} {k : HistoryClass} {tables after : AssetTables} {id : Uuid}

theorem FactsKnown.insertHistory (h : FactsKnown ctx.refs tables id) {row : HistoryRow (Fact k)}
    (hassigns : k = .assignment → row.assetId = id →
      factKnown ctx.refs k row.fromFact ∧ factKnown ctx.refs k row.toFact)
    (hinsert : FleetOps.insertHistory ctx k row tables = .ok after) :
    FactsKnown ctx.refs after id := by
  obtain ⟨hadmits, rfl⟩ := insertHistory_iff.mp hinsert
  intro j other hother
  obtain ⟨hmem, hasset⟩ := List.mem_filter.mp hother
  rcases mem_append hmem with hold | ⟨rfl, rfl⟩
  · exact h j other (List.mem_filter.mpr ⟨hold, hasset⟩)
  · have hreferences := hadmits.references
    simp only [historyReferences, Bool.and_eq_true] at hreferences
    obtain ⟨⟨⟨-, hfrom⟩, hto⟩, -⟩ := hreferences.1
    by_cases hk : k = .assignment
    · obtain ⟨hfrom, hto⟩ := hassigns hk (by simpa using hasset)
      exact ⟨hfrom, hto, hreferences.2⟩
    · exact ⟨(factKnown_eq hk _).trans hfrom, (factKnown_eq hk _).trans hto, hreferences.2⟩

theorem FactsKnown.updateAsset (h : FactsKnown ctx.refs tables id) {asset : AssetRow}
    {value : Option (Projected k)} {version : ℕ}
    (hupdate : FleetOps.updateAsset ctx k asset value version tables = .ok after) :
    FactsKnown ctx.refs after id := by
  obtain ⟨projected, -, rfl⟩ := updateAsset_eq_ok hupdate
  exact h

theorem FactsKnown.produce (h : FactsKnown ctx.refs tables id) {args : ChangeArgs} {actor : Uuid}
    {asset : AssetRow} {fromFact toFact : Option (Fact k)} {evidenceRef : Option Uuid}
    {row : HistoryRow (Fact k)}
    (hassigns : k = .assignment → factKnown ctx.refs k fromFact ∧ factKnown ctx.refs k toFact)
    (hproduce : FleetOps.produce ctx k args actor asset fromFact toFact evidenceRef tables =
      .ok (row, after)) : FactsKnown ctx.refs after id := by
  obtain ⟨_, hproduced⟩ := produce_eq_ok hproduce
  obtain ⟨_, _, _, rfl⟩ := hproduced.row_eq
  exact (h.insertHistory (fun hk _ => hassigns hk) hproduced.insert).updateAsset hproduced.update

/-- An assignment's correction checks both of its assignees. -/
theorem known_of_correctionCheck {refs : References} {target : Target .assignment}
    {prior : Option Assignee} (h : correctionCheck refs .assignment target prior = .ok ()) :
    factKnown refs .assignment prior ∧
      factKnown refs .assignment (Target.fact .assignment target) := by
  obtain ⟨type, id⟩ := target
  simp only [correctionCheck, bind_eq_ok, require_eq_ok, exists_unit] at h
  exact h.2

/-- A correction repeats what its head refers to, and checks its replacement. -/
theorem FactsKnown.correctionSql (h : FactsKnown ctx.refs tables id) {args : CorrectionArgs k}
    {row : HistoryRow (Fact k)}
    (hcorrect : FleetOps.correctionSql ctx k args tables = .ok (row, after)) :
    FactsKnown ctx.refs after id := by
  obtain ⟨_, _, asset, _, head, prior, _, _, _, hrun⟩ := correctionSql_eq_ok hcorrect
  have hassigned : k = .assignment →
      factKnown ctx.refs k prior ∧ factKnown ctx.refs k (Target.fact k args.target) := by
    rintro rfl
    exact known_of_correctionCheck hrun.checked
  have hcorrected := hrun.corrected
  rw [hrun.row_eq] at hcorrected
  refine ((h.insertHistory ?_ hrun.reversal).insertHistory (fun hk _ => hassigned hk)
    hcorrected).updateAsset hrun.update
  intro _ hasset
  replace hasset : asset.id = id := hasset
  obtain ⟨heffective, -⟩ := effectiveHead_eq_some hrun.head_find
  rw [← asset?_id hrun.locked, hasset] at heffective
  obtain ⟨hrow, howner⟩ := List.mem_filter.mp heffective
  have hmem : head ∈ tables.rowsFor k id := List.mem_filter.mpr ⟨(List.mem_filter.mp hrow).1, howner⟩
  exact ⟨(h k head hmem).fromFact, (h k head hmem).toFact⟩

theorem FactsKnown.transitionAsset (h : FactsKnown ctx.refs tables id) {args : TransitionArgs}
    {row : HistoryRow AssetState}
    (hcall : FleetOps.transitionAsset ctx args tables = .ok (row, after)) :
    FactsKnown ctx.refs after id := by
  obtain ⟨_, _, _, -, hproducing⟩ := transitionAsset_eq_ok hcall
  exact h.produce (k := .transition) (fun hk => absurd hk (by decide)) hproducing.produced

theorem FactsKnown.operationSql (h : FactsKnown ctx.refs tables id) (hk : k ≠ .assignment)
    {required : Bool} {args : ChangeArgs} {target : Option (Fact k)} {row : HistoryRow (Fact k)}
    (hcall : FleetOps.operationSql ctx k required args target tables = .ok (row, after)) :
    FactsKnown ctx.refs after id := by
  obtain ⟨_, _, _, hproducing⟩ := operationSql_eq_ok hcall
  exact h.produce (fun heq => absurd heq hk) hproducing.produced

theorem FactsKnown.assignmentSql (h : FactsKnown ctx.refs tables id) {assigning : Bool}
    {args : ChangeArgs} {target : Target .assignment} {row : HistoryRow Assignee}
    (hcall : FleetOps.assignmentSql ctx assigning args target tables = .ok (row, after)) :
    FactsKnown ctx.refs after id := by
  obtain ⟨_, _, _, hexist, hproducing⟩ := assignmentSql_eq_ok hcall
  exact h.produce (k := .assignment) (fun _ => hexist) hproducing.produced

/-- What the rows of an Asset refer to stays there. -/
theorem FactsKnown.perform (h : FactsKnown ctx.refs tables id) {call : Call}
    (hperform : FleetOps.perform (ctx, call) tables = .ok after) : FactsKnown ctx.refs after id := by
  simp only [FleetOps.perform, bind_eq_ok, pure_eq_ok] at hperform
  obtain ⟨⟨row, _⟩, hbody, -, -, rfl⟩ := hperform
  cases call with
  | transitionAsset args => exact h.transitionAsset hbody
  | moveAsset args target => exact h.operationSql (k := .movement) (by decide) hbody
  | changeCustody args target => exact h.operationSql (k := .custody) (by decide) hbody
  | changeOwnership args target => exact h.operationSql (k := .ownership) (by decide) hbody
  | assignAsset args type id => exact h.assignmentSql hbody
  | unassignAsset args => exact h.assignmentSql hbody
  | correct k args =>
      rw [body_correct] at hbody
      exact h.correctionSql hbody

end

/-! ## Soundness -/

/-- An Asset whose histories pass every check that the database makes of them. -/
structure SoundAsset (posixSpace : Char → Bool) (creation : HistoryRow AssetState)
    (facts : InitialFacts) (refs : References) (tables : AssetTables) (asset : AssetRow)
    (entries : (k : HistoryClass) → List (Entry (HistoryRow (Fact k)))) : Prop where
  history : AssetHistory creation facts tables asset entries
  constrained : tables.Constrained posixSpace
  formed : ∀ k, Formed posixSpace (tables.history k) asset.id
  evidential : Evidential refs tables.orgId (tables.history .transition) asset.id
  known : FactsKnown refs tables asset.id
  baseline : ∀ k, factKnown refs k (facts.baseline k)
  witness : (tables.initialAssignment? asset.id).isSome

/-- What an accepted call did to the entries of an Asset: nothing, if it is of another Asset, or
a new entry, or a pair on the entry that made the Asset's version. -/
inductive Evolves (asset : AssetRow) (call : Call)
    (entries fresh : (k : HistoryClass) → List (Entry (HistoryRow (Fact k)))) : Prop
  | other (outside : call.assetId ≠ asset.id) (same : fresh = entries)
  | recorded (row : HistoryRow (Fact call.historyClass)) (ordinary : call.produces = 1)
      (own : call.assetId = asset.id) (version : row.resultVersion = asset.version + 1)
      (concat : fresh = Function.update entries call.historyClass
        (entries call.historyClass ++ [Entry.plain row]))
  | amended (k : HistoryClass) (args : CorrectionArgs k)
      (earlier : List (Entry (HistoryRow (Fact k)))) (last : Entry (HistoryRow (Fact k)))
      (pair : HistoryRow (Fact k) × HistoryRow (Fact k)) (correction : call = .correct k args)
      (own : args.assetId = asset.id) (split : entries k = earlier ++ [last])
      (root : last.root.id = args.rootId) (head : last.head.resultVersion = asset.version)
      (version : pair.2.resultVersion = asset.version + 2)
      (time : pair.2.occurredAt = args.occurredAt.getD last.head.occurredAt)
      (amend : fresh = Function.update entries k (earlier ++ [last.amend pair]))

section

variable {creation : HistoryRow AssetState} {facts : InitialFacts} {ctx : Context}
  {call : Call} {tables after : AssetTables} {asset : AssetRow}
  {entries : (k : HistoryClass) → List (Entry (HistoryRow (Fact k)))}

theorem AssetHistory.evolves (h : AssetHistory creation facts tables asset entries)
    (hperform : FleetOps.perform (ctx, call) tables = .ok after) :
    ∃ updated fresh, updated.id = asset.id ∧ AssetHistory creation facts after updated fresh ∧
      Evolves asset call entries fresh := by
  rcases perform_cases hperform with ⟨hordinary, locked, row, hrecorded⟩ | ⟨k, args, rfl, locked,
    original, head, reversal, corrected, hamended⟩
  · obtain ⟨org, hfound⟩ := hrecorded.found
    have hid := asset?_id hfound
    by_cases hown : call.assetId = asset.id
    · obtain rfl := h.eq_of_found hfound (hid.trans hown)
      obtain ⟨updated, hupdated, hafter⟩ := h.recorded hrecorded
      exact ⟨updated, _, hupdated, hafter, .recorded row hordinary hown hrecorded.row_version rfl⟩
    · refine ⟨asset, entries, rfl, (h.of_recorded hrecorded).resolve_left ?_, .other hown rfl⟩
      rintro ⟨rfl, -⟩
      exact hown hid.symm
  · obtain ⟨org, hfound⟩ := hamended.found
    have hid := asset?_id hfound
    by_cases hown : args.assetId = asset.id
    · obtain rfl := h.eq_of_found hfound (hid.trans hown)
      obtain ⟨updated, earlier, last, hupdated, hsplit, -, hafter⟩ := h.amended hamended
      obtain ⟨earlier', last', hsplit', rfl, rfl, -⟩ := h.correction_target hamended
      obtain ⟨rfl, hlast⟩ := List.append_inj' (hsplit.symm.trans hsplit') rfl
      obtain rfl := List.singleton_inj.mp hlast
      obtain ⟨actor, metadata, -, hcorrected⟩ := hamended.rows_eq
      refine ⟨updated, _, hupdated, hafter, .amended k args earlier last (reversal, corrected) rfl
        hown hsplit hamended.original_id hamended.head_version ?_ ?_ rfl⟩
      · simp [hcorrected, correctedRow]
      · simp [hcorrected, correctedRow]
    · refine ⟨asset, entries, rfl, (h.of_amended hamended).resolve_left ?_, .other hown rfl⟩
      rintro ⟨rfl, -⟩
      exact hown hid.symm

/-- A call wrote rows of its Asset in its history, which then passed the deferred checks. -/
theorem perform_written (hperform : FleetOps.perform (ctx, call) tables = .ok after) :
    ∃ (c : HistoryClass) (rows : List (HistoryRow (Fact c))) (updated : AssetRow),
      c = call.historyClass ∧ after = tables.record c rows updated ∧
        (∀ row ∈ rows, row.assetId = call.assetId) ∧
        checkPairs ctx c call.assetId after = .ok () := by
  have hcheck : checkPairs ctx call.historyClass call.assetId after = .ok () := by
    simp only [FleetOps.perform, bind_eq_ok, pure_eq_ok] at hperform
    obtain ⟨_, -, _, hcheck, rfl⟩ := hperform
    exact hcheck
  rcases perform_cases hperform with ⟨-, locked, row, hrecorded⟩ | ⟨k, args, rfl, locked,
    original, head, reversal, corrected, hamended⟩
  · obtain ⟨org, hfound⟩ := hrecorded.found
    obtain ⟨projected, -, rfl⟩ := hrecorded.after_eq
    refine ⟨_, _, _, rfl, rfl, fun other hother => ?_, hcheck⟩
    rw [List.mem_singleton.mp hother, hrecorded.row_asset, asset?_id hfound]
  · obtain ⟨org, hfound⟩ := hamended.found
    obtain ⟨actor, now, projected, -, rfl⟩ := hamended.after_eq
    refine ⟨k, _, _, rfl, rfl, fun other hother => ?_, hcheck⟩
    rw [hamended.rows_asset other hother, asset?_id hfound]
    rfl

/-- What the deferred checks passed is well formed. -/
theorem formed_of_checkPairs {k : HistoryClass} {id : Uuid}
    (hconstrained : after.Constrained ctx.posixSpace)
    (hcheck : checkPairs ctx k id after = .ok ()) :
    Formed ctx.posixSpace (after.history k) id ∧
      (k = .transition → Evidential ctx.refs after.orgId (after.history .transition) id) := by
  simp only [checkPairs, require_eq_ok] at hcheck
  have hwell := (not_mem_malformedSql_iff (hconstrained.keys k) (hconstrained.checks k)).mp hcheck.1
  exact ⟨⟨hwell.rows, hwell.roots⟩, fun hk => not_mem_evidenceAnomalies.mp (hcheck.2 hk)⟩

/-- Every accepted call, against this Asset or another, keeps the Asset sound. -/
theorem SoundAsset.perform
    (h : SoundAsset ctx.posixSpace creation facts ctx.refs tables asset entries)
    (hperform : FleetOps.perform (ctx, call) tables = .ok after) :
    ∃ updated fresh, updated.id = asset.id ∧
      SoundAsset ctx.posixSpace creation facts ctx.refs after updated fresh ∧
      Evolves asset call entries fresh := by
  obtain ⟨updated, fresh, hid, hhistory, hevolves⟩ := h.history.evolves hperform
  have hconstrained := h.constrained.perform hperform
  have hknown := h.known.perform hperform
  obtain ⟨c, rows, written, -, rfl, hrows, hcheck⟩ := perform_written hperform
  obtain ⟨hformed, hevidential⟩ := formed_of_checkPairs hconstrained hcheck
  have hother : call.assetId ≠ asset.id → ∀ row ∈ rows, row.assetId ≠ asset.id := by
    intro hne row hrow
    rw [hrows row hrow]
    exact hne
  refine ⟨updated, fresh, hid, ⟨hhistory, hconstrained, fun j => ?_, ?_, hid ▸ hknown, h.baseline,
    hid ▸ h.witness⟩, hevolves⟩
  · rw [hid]
    by_cases hj : j = c
    · subst hj
      by_cases hown : call.assetId = asset.id
      · exact hown ▸ hformed
      · rw [AssetTables.history_record]
        exact (h.formed j).widen (hother hown)
    · rw [AssetTables.history_record_of_ne hj]
      exact h.formed j
  · rw [hid]
    by_cases hj : .transition = c
    · subst hj
      by_cases hown : call.assetId = asset.id
      · exact hown ▸ hevidential rfl
      · rw [AssetTables.history_record]
        exact h.evidential.widen (hother hown)
    · rw [AssetTables.history_record_of_ne hj]
      exact h.evidential

/-- New reference rows keep it sound too. -/
theorem SoundAsset.extend {posixSpace : Char → Bool} {refs : References}
    (h : SoundAsset posixSpace creation facts refs tables asset entries) (more : References) :
    SoundAsset posixSpace creation facts (refs.extend more) tables asset entries :=
  ⟨h.history, h.constrained, h.formed, h.evidential.of_grows (refs.grows_extend more),
    fun k row hrow => (h.known k row hrow).extend, fun k => factKnown_extend (h.baseline k),
    h.witness⟩

end

/-! ## A new Asset -/

/-- A unit's admission keeps the constraints. -/
theorem constrained_of_insertReceivedAsset {ctx : Context} {items : List Item} {args : UnitArgs}
    {receipt : Receipt} {owner performer : Uuid} {tables after : AssetTables}
    (hconstrained : tables.Constrained ctx.posixSpace)
    (h : insertReceivedAsset ctx items args receipt owner performer tables = .ok after) :
    after.Constrained ctx.posixSpace ∧ (after.initialAssignment? args.assetId).isSome := by
  obtain ⟨hadmitted, rfl⟩ := insertReceivedAsset_eq_ok h
  have hasset : ({ tables with assets := tables.assets ++
      [args.asset receipt owner performer ctx.session.now] } : AssetTables).Constrained
        ctx.posixSpace := by
    refine ⟨hconstrained.assets.concat hadmitted.asset.fresh, fun a ha => ?_, hconstrained.keys,
      hconstrained.required, hconstrained.checks, hconstrained.initialFacts,
      hconstrained.initialAssignmentFacts⟩
    rcases List.mem_append.mp ha with hold | hnew
    · exact hconstrained.version a hold
    · rw [List.mem_singleton.mp hnew, hadmitted.asset.version]
      exact Nat.one_pos
  obtain ⟨_, hcreation⟩ := hadmitted.creation
  have hsecond := hasset.insertHistory hcreation
  obtain ⟨-, -, -, rfl⟩ := insertHistory_eq_ok hcreation
  refine ⟨⟨hsecond.assets, hsecond.version, hsecond.keys, hsecond.required, hsecond.checks,
    hsecond.initialFacts.concat hadmitted.facts,
    hsecond.initialAssignmentFacts.concat hadmitted.unassigned⟩, ?_⟩
  simp [AssetTables.initialAssignment?, AssetTables.receive, UnitArgs.bundle]

/-- A new Asset is sound. -/
theorem sound_of_insertReceivedAsset {ctx : Context} {items : List Item} {args : UnitArgs}
    {receipt : Receipt} {owner performer : Uuid} {tables after : AssetTables}
    (hkeys : tables.Referential) (hconstrained : tables.Constrained ctx.posixSpace)
    (h : insertReceivedAsset ctx items args receipt owner performer tables = .ok after) :
    SoundAsset ctx.posixSpace (args.creation receipt performer ctx.session.now)
      (args.facts receipt owner performer ctx.session.now) ctx.refs after
      (args.asset receipt owner performer ctx.session.now)
      (Function.update (fun _ => []) .transition
        [Entry.plain (args.creation receipt performer ctx.session.now)]) := by
  have hhistory := history_of_insertReceivedAsset hkeys h
  obtain ⟨hafter, hwitness⟩ := constrained_of_insertReceivedAsset hconstrained h
  have hbaseline : ctx.refs.parties.contains owner ∧
      args.custodianPartyId.all ctx.refs.parties.contains ∧
      receipt.dockLocationId.all ctx.refs.locations.contains := by
    obtain ⟨hadmitted, -⟩ := insertReceivedAsset_eq_ok h
    exact ⟨hadmitted.asset.owner, hadmitted.asset.custodian, hadmitted.asset.location⟩
  -- The creation event is the only row of the Asset.
  have hrows : ∀ k, ∀ row ∈ after.rowsFor k args.assetId,
      row.role = .none ∧ row.root = none ∧ row.pairId = none ∧ row.generation = 0 ∧
        row.correctionOccurredAt = none ∧ RowKnown ctx.refs k row := by
    intro k row hrow
    have hentries := (hhistory.classes k).rows
    change after.rowsFor k args.assetId = _ at hentries
    by_cases hk : k = .transition
    · subst hk
      rw [hentries, Function.update_self, rowsOf_cons, Entry.rows_plain, rowsOf_nil,
        List.append_nil, List.mem_singleton] at hrow
      rw [hrow]
      exact ⟨rfl, rfl, rfl, rfl, rfl, rfl, rfl, rfl⟩
    · rw [hentries, Function.update_of_ne hk, rowsOf_nil] at hrow
      exact absurd hrow List.not_mem_nil
  have hmem : ∀ {k} {row : HistoryRow (Fact k)}, row ∈ after.history k →
      row.assetId = args.assetId → row ∈ after.rowsFor k args.assetId :=
    fun hrow hasset => List.mem_filter.mpr ⟨hrow, decide_eq_true hasset⟩
  refine ⟨hhistory, hafter, fun k => ⟨fun c hc hasset => ?_, fun r hr hasset _ => ?_⟩,
    ⟨fun c hc hasset => ?_, fun c hc hasset hreversal => ?_⟩, fun k row hrow => ?_, fun k => ?_,
    hwitness⟩
  · obtain ⟨hrole, hroot, hpair, hgeneration, htime, -⟩ := hrows k c (hmem hc hasset)
    exact ⟨fun _ => ⟨hroot, hpair, hgeneration, htime⟩, fun hne => absurd hrole hne,
      fun hne => absurd hrole hne⟩
  · refine ⟨0, fun _ => r, rfl, fun g hg => absurd hg (Nat.not_lt_zero g), ?_⟩
    intro c hc hne _ hsame
    exact absurd (hrows k c (hmem hc (hsame.trans hasset))).1 hne
  · have hrow := hmem hc hasset
    have hentries := (hhistory.classes .transition).rows
    change after.rowsFor .transition args.assetId = _ at hentries
    rw [hentries, Function.update_self, rowsOf_cons, Entry.rows_plain, rowsOf_nil,
      List.append_nil, List.mem_singleton] at hrow
    rw [hrow]
    rfl
  · have hrole := (hrows .transition c (hmem hc hasset)).1
    exact absurd (hrole.symm.trans hreversal) (by decide)
  · exact (hrows k row hrow).2.2.2.2.2
  · cases k with
    | transition | assignment => rfl
    | movement => exact hbaseline.2.2
    | custody => exact hbaseline.2.1
    | ownership => exact hbaseline.1

/-! ## Runs -/

/-- The call that an action makes. -/
def LifecycleAction.call? : LifecycleAction → Option (Context × Call)
  | .transitionAsset ctx _ assetId values transitionId =>
      some (ctx, .transitionAsset (values.args assetId transitionId))
  | .correctTransition ctx _ assetId rootId values keys =>
      some (ctx, .correct .transition (values.args assetId rootId keys))
  | .change ctx call _ => some (ctx, call)
  | .register _ => none

/-- An action against a database with a locale. -/
def LifecycleAction.within (posixSpace : Char → Bool) : LifecycleAction → LifecycleAction
  | .transitionAsset ctx storage assetId values transitionId =>
      .transitionAsset { ctx with posixSpace } storage assetId values transitionId
  | .correctTransition ctx storage assetId rootId values keys =>
      .correctTransition { ctx with posixSpace } storage assetId rootId values keys
  | .change ctx call outside => .change { ctx with posixSpace } call outside
  | .register more => .register more

/-- The actions of one database, whose locale is fixed. -/
def Registry.exec (posixSpace : Char → Bool) (action : LifecycleAction) (state : Registry) :
    Service Registry :=
  Registry.step (action.within posixSpace) state

theorem correctTransitionSql_of_service {ctx : Context} {storage : Option EvidenceStorage}
    {assetId rootId : Uuid} {values : TransitionCorrection} {keys : PairKeys}
    {tables : AssetTables} {produced : Produced .transition}
    (h : Service.correctTransition ctx storage assetId rootId values keys tables = .ok produced) :
    correctTransitionSql ctx (values.args assetId rootId keys) tables = .ok produced := by
  simp only [Service.correctTransition, Service.correct, bind_eq_ok, Service.assetConstraints,
    Service.translating_eq_ok, Service.execute_eq_ok, exists_unit] at h
  obtain ⟨_, -, -, _, -, -, _, -, _, -, -, -, -, h⟩ := h
  exact h

/-- An action made an accepted call, or added reference rows. -/
theorem Registry.exec_cases {posixSpace : Char → Bool} {action : LifecycleAction}
    {state next : Registry} (h : Registry.exec posixSpace action state = .ok next) :
    (∃ more, action = .register more ∧ next = ⟨state.refs.extend more, state.tables⟩) ∨
      ∃ ctx call after, action.call? = some (ctx, call) ∧ next = ⟨state.refs, after⟩ ∧
        perform ({ ctx with refs := state.refs, posixSpace }, call) state.tables = .ok after := by
  cases action with
  | transitionAsset ctx storage assetId values transitionId =>
      simp only [Registry.exec, LifecycleAction.within, Registry.step, commitTransition, bind_eq_ok,
        pure_eq_ok, Service.execute_eq_ok, exists_unit] at h
      obtain ⟨⟨row, after⟩, hcall, _, ⟨hcheck, rfl⟩, rfl⟩ := h
      refine .inr ⟨ctx, _, after, rfl, rfl, ?_⟩
      have hbody := (allowed_of_transitionAsset hcall).1
      simp only [perform, bind_eq_ok, pure_eq_ok, exists_unit]
      exact ⟨(row, after), hbody, hcheck, rfl⟩
  | correctTransition ctx storage assetId rootId values keys =>
      simp only [Registry.exec, LifecycleAction.within, Registry.step, commitTransition, bind_eq_ok,
        pure_eq_ok, Service.execute_eq_ok, exists_unit] at h
      obtain ⟨⟨row, after⟩, hcall, _, ⟨hcheck, rfl⟩, rfl⟩ := h
      refine .inr ⟨ctx, _, after, rfl, rfl, ?_⟩
      have hbody := correctTransitionSql_of_service hcall
      simp only [perform, bind_eq_ok, pure_eq_ok, exists_unit]
      exact ⟨(row, after), hbody, hcheck, rfl⟩
  | change ctx call outside =>
      simp only [Registry.exec, LifecycleAction.within, Registry.step, Service.assetConstraints,
        bind_eq_ok, Service.translating_eq_ok, Service.execute_eq_ok, pure_eq_ok] at h
      obtain ⟨after, hperform, rfl⟩ := h
      exact .inr ⟨ctx, call, after, rfl, rfl, hperform⟩
  | register more =>
      simp only [Registry.exec, LifecycleAction.within, Registry.step, pure_eq_ok] at h
      exact .inl ⟨more, rfl, h.symm⟩

/-- A sound Asset, among the rows of its tenant. -/
def Registry.Sound (posixSpace : Char → Bool) (creation : HistoryRow AssetState)
    (facts : InitialFacts) (id : Uuid) (state : Registry) : Prop :=
  ∃ asset entries, asset.id = id ∧
    SoundAsset posixSpace creation facts state.refs state.tables asset entries

theorem Registry.exec_sound {posixSpace : Char → Bool} {creation : HistoryRow AssetState}
    {facts : InitialFacts} {id : Uuid} {action : LifecycleAction} {state next : Registry}
    (hexec : Registry.exec posixSpace action state = .ok next)
    (h : state.Sound posixSpace creation facts id) : next.Sound posixSpace creation facts id := by
  obtain ⟨asset, entries, hid, hsound⟩ := h
  rcases Registry.exec_cases hexec with ⟨more, -, rfl⟩ | ⟨ctx, call, after, -, rfl, hperform⟩
  · exact ⟨asset, entries, hid, hsound.extend more⟩
  · obtain ⟨updated, fresh, hupdated, hafter, -⟩ := hsound.perform hperform
    exact ⟨updated, fresh, hupdated.trans hid, hafter⟩

/-- In every state that actions reach from its creation, an Asset is sound and its lifecycle
legal. -/
theorem Registry.run_sound {ctx : Context} {args : UnitArgs} {tenant created : Tenant}
    {line : ReceiptLine} (hkeys : tenant.tables.Referential)
    (hconstrained : tenant.tables.Constrained ctx.posixSpace)
    (hcreate : createReceivedUnit ctx args tenant = .ok (line, created)) :
    ∃ creation facts, created.tables.rowsFor .transition args.assetId = [creation] ∧
      creation.toFact = some .received ∧
      ∀ actions, (Machine.run (Registry.exec ctx.posixSpace) actions
          ⟨ctx.refs, created.tables⟩).Sound ctx.posixSpace creation facts args.assetId ∧
        LegalHistory creation args.assetId
          (Machine.run (Registry.exec ctx.posixSpace) actions ⟨ctx.refs, created.tables⟩) := by
  obtain ⟨receipt, owner, performer, hinsert⟩ := createReceivedUnit_eq_ok hcreate
  have hbegin := sound_of_insertReceivedAsset hkeys hconstrained hinsert
  refine ⟨args.creation receipt performer ctx.session.now,
    args.facts receipt owner performer ctx.session.now,
    (hbegin.history.classes .transition).rows.trans (by simp), rfl, fun actions => ?_⟩
  refine Machine.run_invariant (Registry.exec ctx.posixSpace) (fun state =>
    state.Sound ctx.posixSpace (args.creation receipt performer ctx.session.now)
      (args.facts receipt owner performer ctx.session.now) args.assetId ∧
    LegalHistory (args.creation receipt performer ctx.session.now) args.assetId state)
    (fun _ => True) (fun action state next _ hexec hinv => ?_) actions _ (fun _ _ => trivial) ?_
  · exact ⟨Registry.exec_sound hexec hinv.1, Registry.step_legal hexec hinv.2⟩
  · exact ⟨⟨_, _, rfl, hbegin⟩, _, _, _, [], rfl, hbegin.history, Function.update_self .., trivial⟩

/-- A tenant without Assets satisfies the constraints. -/
theorem sampleTenant_constrained : sampleTenant.tables.Constrained sampleContext.posixSpace where
  assets := distinct_nil
  version := fun _ ha => absurd ha List.not_mem_nil
  keys := fun _ => historyKeys_of_length_le_one (Nat.zero_le 1)
  required := fun _ _ hrow => absurd hrow List.not_mem_nil
  checks := fun _ _ hrow => absurd hrow List.not_mem_nil
  initialFacts := distinct_nil
  initialAssignmentFacts := distinct_nil

end FleetOps
