import FleetOps.Assets.Eligibility

/-!
# Acceptance of corrections

The arguments of a correction are valid if they pass the checks that do not read
the root's head (`CorrectionArgs.Valid`).  Of a sound Asset whose last entry of a
class made its version, a correction with valid arguments goes through everything
else that the correction function and the deferred check ask for
(`SoundAsset.correct_accepted`).
-/

namespace FleetOps

open Amendment Keys

/-! ## Valid arguments -/

/-- The evidence that a replacement needs is there; `p_evidence_ref` is an argument of
`correct_transition` only. -/
def CorrectionArgs.Evidenced (refs : References) (org : Uuid) :
    (k : HistoryClass) → CorrectionArgs k → Prop
  | .transition, args =>
      (args.evidenceRef.isSome ∨ Target.fact .transition args.target = some .retired) →
        validAssetEvidence refs org args.evidenceRef args.assetId
          (if Target.fact .transition args.target = some .retired then some .disposalEvidence
            else none)
  | .movement, args | .custody, args | .ownership, args | .assignment, args =>
      args.evidenceRef = none

/-- The arguments of a correction pass every check that does not read the root, except for the
source `prior` that a target may have to suit. -/
structure CorrectionArgs.Valid {k : HistoryClass} (args : CorrectionArgs k) (ctx : Context)
    (tables : AssetTables) (locked : AssetRow) (prior : Option (Fact k)) (actor : Uuid)
    (stated : String) (instant : Timestamp) (chosen : PairKeys) : Prop where
  session : ctx.session.Trusted tables.orgId actor ∧ ctx.session.actorHint = none
  performer : actor ∈ ctx.refs.actors
  asset : args.assetId = locked.id
  current : args.expectedVersion = some locked.version
  /-- The counter has room for both rows. -/
  room : locked.version + 2 ≤ intMax
  reason : args.reason = some stated ∧ 1 ≤ (normalizeCorrectionReason stated).length ∧
    (normalizeCorrectionReason stated).length ≤ 4000 ∧
    hasNonSpace ctx.posixSpace (normalizeCorrectionReason stated)
  time : args.correctionOccurredAt = some instant ∧ instant.isFinite
  keys : args.pairId = some chosen.pairId ∧ args.reversalId = some chosen.reversalId ∧
    args.correctedId = some chosen.correctedId
  distinct : chosen.reversalId ≠ chosen.correctedId
  foreign : ∀ id ∈ [chosen.reversalId, chosen.correctedId], id ∉ ctx.foreignKeys (.history k)
  fresh : ∀ row ∈ tables.history k, row.id ≠ chosen.reversalId ∧ row.id ≠ chosen.correctedId ∧
    row.pairId ≠ some chosen.pairId
  target : correctionCheck ctx.refs k args.target prior = .ok ()
  state : k = .transition → (Target.fact k args.target).isSome
  evidence : args.Evidenced ctx.refs tables.orgId

/-- The metadata that a valid correction records. -/
def PairKeys.metadata (keys : PairKeys) (reason : String) (time : Timestamp) :
    CorrectionMetadata where
  reason := normalizeCorrectionReason reason
  correctionOccurredAt := time
  pairId := keys.pairId
  reversalId := keys.reversalId
  correctedId := keys.correctedId

theorem normalizeCorrectionReason_idempotent (reason : String) :
    normalizeCorrectionReason (normalizeCorrectionReason reason) =
      normalizeCorrectionReason reason := trimWhere_idempotent _ reason

section

variable {k : HistoryClass} {args : CorrectionArgs k} {ctx : Context} {tables : AssetTables}
  {asset : AssetRow} {prior : Option (Fact k)} {actor : Uuid} {reason : String} {time : Timestamp}
  {keys : PairKeys}

namespace CorrectionArgs.Valid

variable (h : args.Valid ctx tables asset prior actor reason time keys)

include h

theorem metadata : correctionMetadata args = .ok (keys.metadata reason time) := by
  simp only [correctionMetadata, bind_eq_ok, require_eq_ok, demand_eq_ok, exists_unit, pure_eq_ok,
    Option.map_eq_some_iff]
  exact ⟨_, ⟨reason, h.reason.1, rfl⟩, ⟨h.reason.2.1, h.reason.2.2.1⟩, time, h.time.1, h.time.2, _,
    h.keys.1, _, h.keys.2.1, _, h.keys.2.2, rfl⟩

/-- The recorded reason meets the constraints on reasons. -/
theorem reasonLength : FleetOps.reasonLength (normalizeCorrectionReason reason) = true := by
  rw [FleetOps.reasonLength, btrim_of_normalized (normalizeCorrectionReason_idempotent reason)]
  simpa using ⟨h.reason.2.1, h.reason.2.2.1⟩

/-- The target refers to rows that are there. -/
theorem known : factKnown ctx.refs k (Target.fact k args.target) = true := by
  have hcheck := h.target
  cases k with
  | transition => rfl
  | movement | custody =>
      rw [correctionCheck, require_eq_ok] at hcheck
      exact hcheck
  | ownership =>
      simp only [correctionCheck, bind_eq_ok, require_eq_ok, exists_unit] at hcheck
      exact hcheck.1
  | assignment => exact (known_of_correctionCheck hcheck).2

/-- The target states what its class requires. -/
theorem required (hprior : k = .ownership → prior.isSome) {row : HistoryRow (Fact k)}
    (hfrom : row.fromFact = prior) (hto : row.toFact = Target.fact k args.target) :
    requiredFacts k row = true := by
  have hcheck := h.target
  cases k with
  | transition => exact (congrArg Option.isSome hto).trans (h.state rfl)
  | movement | custody | assignment => rfl
  | ownership =>
      simp only [correctionCheck, bind_eq_ok, require_eq_ok, exists_unit] at hcheck
      simp only [requiredFacts, Bool.and_eq_true, hto, hfrom]
      exact ⟨hprior rfl, hcheck.2⟩

/-- An assignment's replacement does not record nothing on top of nothing. -/
theorem assigns (hk : k = .assignment) : prior.isSome ∨ (Target.fact k args.target).isSome := by
  subst hk
  have hcheck := h.target
  rcases htarget : args.target with ⟨type, id⟩
  simp only [htarget, correctionCheck, bind_eq_ok, require_eq_ok, exists_unit] at hcheck
  obtain ⟨⟨htypes, hone⟩, -⟩ := hcheck
  cases hprior : prior with
  | some fact => exact .inl rfl
  | none =>
      refine .inr ?_
      cases type <;> cases id <;> simp_all [Target.fact]

/-- The evidence behind a replacement is valid, as far as its class keeps evidence. -/
theorem guarded {row : HistoryRow (Fact k)} (hasset : row.assetId = asset.id)
    (hrole : row.role = .corrected) (hto : row.toFact = Target.fact k args.target)
    (href : row.evidenceRef = args.evidenceRef) :
    guardAssetEvidence ctx.refs tables.orgId k row = .ok () := by
  have hevidence := h.evidence
  cases k with
  | transition =>
      have hpurpose : evidencePurpose row =
          if Target.fact .transition args.target = some .retired then some .disposalEvidence
            else none := by
        simp [evidencePurpose, hto, hrole]
      simp only [guardAssetEvidence, require_eq_ok, href, hpurpose, hasset, ← h.asset]
      intro hneeded
      refine hevidence (hneeded.imp id fun hsome => ?_)
      by_contra hne
      simp [hne] at hsome
  | movement | custody | ownership | assignment => rfl

theorem attached : args.evidenceRef.all fun ref => ctx.refs.attachments.any (·.id = ref) := by
  have hevidence := h.evidence
  cases k with
  | transition =>
      cases href : args.evidenceRef with
      | none => rfl
      | some ref =>
          have hvalid := hevidence (.inl (by simp [href]))
          rw [href] at hvalid
          simp only [validAssetEvidence, List.any_eq_true, Bool.and_eq_true, beq_iff_eq,
            Option.some.injEq] at hvalid
          obtain ⟨a, ha, ⟨⟨hid, -⟩, -⟩, -⟩ := hvalid
          rw [Option.all_some, List.any_eq_true]
          exact ⟨a, ha, decide_eq_true hid⟩
  | movement | custody | ownership | assignment =>
      rw [show args.evidenceRef = none from hevidence]
      rfl

end CorrectionArgs.Valid

end


/-! ## Acceptance -/

section

variable {creation : HistoryRow AssetState} {facts : InitialFacts} {ctx : Context}
  {tables : AssetTables} {asset : AssetRow}
  {entries : (k : HistoryClass) → List (Entry (HistoryRow (Fact k)))} {k : HistoryClass}

theorem factReference_of_known {refs : References} {fact : Option (Fact k)}
    (h : factKnown refs k fact = true) : factReference refs k fact = true := by
  cases k with
  | assignment => rfl
  | transition | movement | custody | ownership => exact h

/-- The `UPDATE` of a projection accepts what a row in the history projects. -/
theorem updateAsset_accepted (ctx : Context) (tables : AssetTables) (asset : AssetRow)
    (version : ℕ) {row : HistoryRow (Fact k)}
    (hrequired : requiredFacts k row) (hknown : factKnown ctx.refs k row.toFact)
    (hrow : row ∈ tables.rowsFor k asset.id) :
    ∃ after, updateAsset ctx k asset (row.projected k) version tables = .ok after := by
  simp only [updateAsset, bind_eq_ok, require_eq_ok, exists_unit, pure_eq_ok]
  cases k with
  | transition =>
      obtain ⟨state, hstate⟩ := Option.isSome_iff_exists.mp hrequired
      exact ⟨_, { asset with currentState := state },
        congrArg (asset.setProjection .transition) hstate, rfl, rfl⟩
  | movement => exact ⟨_, { asset with currentLocationId := row.toFact }, rfl, hknown, rfl⟩
  | custody => exact ⟨_, { asset with custodianPartyId := row.toFact }, rfl, hknown, rfl⟩
  | ownership =>
      simp only [requiredFacts, Bool.and_eq_true] at hrequired
      obtain ⟨owner, howner⟩ := Option.isSome_iff_exists.mp hrequired.2
      refine ⟨_, { asset with ownerPartyId := owner },
        congrArg (asset.setProjection .ownership) howner, ?_, rfl⟩
      rw [howner] at hknown
      exact hknown
  | assignment =>
      refine ⟨_, { asset with currentAssignmentId := row.projected .assignment }, rfl, ?_, rfl⟩
      cases hto : row.toFact with
      | none => simp [projectionReference, HistoryRow.projected, hto]
      | some assignee =>
          simp only [projectionReference, HistoryRow.projected, hto, Option.isNone_some,
            Bool.false_eq_true, if_false, Option.all_some, List.any_eq_true]
          exact ⟨row, hrow, decide_eq_true rfl⟩

/-- The head of an entry starts from what the entries before it left. -/
theorem AssetHistory.head_source (h : AssetHistory creation facts tables asset entries)
    (earlier later : List (Entry (HistoryRow (Fact k)))) {entry : Entry (HistoryRow (Fact k))}
    (hsplit : entries k = earlier ++ entry :: later) :
    entry.head.fromFact = standing HistoryRow.toFact (facts.baseline k) earlier := by
  have hchained := (h.classes k).chained
  rw [hsplit] at hchained
  exact (follows_append.mp hchained).2.head

namespace SoundAsset

variable (h : SoundAsset ctx.posixSpace creation facts ctx.refs tables asset entries)

include h

/-- The rows that a correction row refers to are there. -/
theorem references_correction {entry : Entry (HistoryRow (Fact k))} (hentry : entry ∈ entries k)
    {row : HistoryRow (Fact k)} (hasset : row.assetId = asset.id)
    (hroot : row.root = some entry.root.id) (hactor : row.actorId ∈ ctx.refs.actors)
    (hknown : RowKnown ctx.refs k row) : historyReferences ctx.refs tables k row = true := by
  have hexists : tables.assets.any (·.id = row.assetId) = true :=
    List.any_eq_true.mpr ⟨asset, h.mem, decide_eq_true hasset.symm⟩
  have hmem : entry.root ∈ tables.rowsFor k row.assetId := by
    rw [hasset]
    exact (h.history.classes k).mem_rows hentry entry.root_mem_rows
  have hnamed : (tables.rowsFor k row.assetId).any (·.id = entry.root.id) = true :=
    List.any_eq_true.mpr ⟨_, hmem, decide_eq_true rfl⟩
  simp [historyReferences, hexists, hactor, factReference_of_known hknown.fromFact,
    factReference_of_known hknown.toFact, hroot, hnamed, hknown.evidence]

/-- An amendable entry has a source where its class's rows always have one. -/
theorem source_isSome {earlier : List (Entry (HistoryRow (Fact k)))}
    {last : Entry (HistoryRow (Fact k))} (hsplit : entries k = earlier ++ [last])
    (hreplaceable : k = .transition → earlier ≠ []) (hk : k = .transition ∨ k = .ownership) :
    last.head.fromFact.isSome := by
  have hrows : ∀ entry ∈ entries k, entry.head ∈ tables.history k := by
    intro entry hentry
    have hmem := (h.history.classes k).mem_rows hentry entry.head_mem_rows
    exact (List.mem_filter.mp hmem).1
  have hhead := hrows last (by simp [hsplit])
  rcases hk with rfl | rfl
  · -- The rows before it leave it no version 1.
    obtain ⟨first, rest, rfl⟩ := List.exists_cons_of_ne_nil (hreplaceable rfl)
    have hascending := (h.history.classes .transition).ascending.heads
    rw [hsplit, List.map_append] at hascending
    have hlt := (List.pairwise_append.mp hascending).2.2 first.head (by simp) last.head (by simp)
    have hpos := h.constrained.version_pos (hrows first (by simp [hsplit]))
    have hchecks := h.constrained.checks .transition last.head hhead
    simp only [historyChecks, classChecks, Bool.and_eq_true, Bool.or_eq_true, beq_iff_eq,
      decide_eq_true_eq] at hchecks
    rcases hchecks.1.2.2 with hfirst | hlater
    · omega
    · exact hlater.2
  · have hrequired := h.constrained.required .ownership last.head hhead
    simp only [requiredFacts, Bool.and_eq_true] at hrequired
    exact hrequired.1

/-- The source of a replacement is what the entries before its root left. -/
theorem correctionPrior_eq {earlier : List (Entry (HistoryRow (Fact k)))}
    {last : Entry (HistoryRow (Fact k))} (hsplit : entries k = earlier ++ [last])
    (hreplaceable : k = .transition → earlier ≠ []) :
    correctionPrior tables k asset.id last.root =
      .ok (standing HistoryRow.toFact (facts.baseline k) earlier) := by
  have hclass := h.history.classes k
  rw [hsplit] at hclass
  rw [correctionPrior, hclass.effectiveBefore_root]
  cases earlier using List.reverseRecOn with
  | append_singleton before entry =>
      rw [List.getLast?_concat, standing_concat]
      rfl
  | nil =>
      have hinitial := h.history.initial
      have hwitness := h.witness
      change correctionFallback tables asset.id k = .ok (facts.baseline k)
      cases k with
      | transition => exact absurd rfl (hreplaceable rfl)
      | movement | custody | ownership =>
          simp only [correctionFallback, bind_eq_ok, demand_eq_ok, pure_eq_ok]
          exact ⟨facts, hinitial, rfl⟩
      | assignment =>
          simp only [correctionFallback, bind_eq_ok, require_eq_ok, pure_eq_ok, exists_unit]
          exact ⟨hwitness, rfl⟩

/-- The reversal of a head passes the constraints. -/
theorem admits_reversal (hrooted : tables.Rooted) {entry : Entry (HistoryRow (Fact k))}
    (hentry : entry ∈ entries k) {args : CorrectionArgs k} (hroot : entry.root.id = args.rootId)
    {prior : Option (Fact k)} {actor : Uuid} {reason : String} {time : Timestamp} {keys : PairKeys}
    (hvalid : args.Valid ctx tables asset prior actor reason time keys)
    (hsource : k = .transition → entry.head.fromFact.isSome) :
    Admits ctx k (reversalRow ctx actor asset args.rootId entry.head (keys.metadata reason time)
      (asset.version + 1)) tables := by
  have hmem := (h.history.classes k).mem_rows hentry entry.head_mem_rows
  obtain ⟨hhead, hasset⟩ := List.mem_filter.mp hmem
  have hpositive := h.constrained.version asset h.mem
  have hknown := h.known k entry.head hmem
  refine ⟨h.guard_reversal hentry, ?_, ?_, ?_, ?_, hvalid.session.1.creator⟩
  · have hrequired := h.constrained.required k entry.head hhead
    cases k with
    | transition | ownership => exact hrequired
    | movement | custody | assignment => rfl
  · refine historyChecks_correction (Nat.lt_succ_of_le hpositive) hvalid.reasonLength
      hvalid.reason.2.2.2 hsource (fun hk => ?_) hvalid.time.2
    subst hk
    have hchecks := h.constrained.checks .assignment entry.head hhead
    simp only [historyChecks, classChecks, Bool.and_eq_true, Bool.or_eq_true] at hchecks
    exact hchecks.1.2.2
  · refine h.unique_correction hrooted hentry rfl (Nat.lt_succ_self _) (congrArg some hroot.symm)
      rfl (hvalid.foreign _ (by simp [reversalRow, PairKeys.metadata])) fun other hother => ?_
    exact ⟨(hvalid.fresh other hother).1, (hvalid.fresh other hother).2.2⟩
  · exact h.references_correction hentry rfl (congrArg some hroot.symm) hvalid.performer
      ⟨hknown.fromFact, hknown.toFact, hknown.evidence⟩

end SoundAsset

end

section

variable {creation : HistoryRow AssetState} {facts : InitialFacts} {ctx : Context}
  {tables : AssetTables} {asset : AssetRow}
  {entries : (k : HistoryClass) → List (Entry (HistoryRow (Fact k)))} {k : HistoryClass}
  {args : CorrectionArgs k} {actor : Uuid} {reason : String} {time : Timestamp} {keys : PairKeys}

namespace SoundAsset

variable (h : SoundAsset ctx.posixSpace creation facts ctx.refs tables asset entries)

include h

/-- The replacement passes the constraints next to its reversal. -/
theorem admits_corrected (hrooted : tables.Rooted)
    {earlier : List (Entry (HistoryRow (Fact k)))} {last : Entry (HistoryRow (Fact k))}
    (hsplit : entries k = earlier ++ [last]) (hroot : last.root.id = args.rootId)
    (hreplaceable : k = .transition → earlier ≠ [])
    (hvalid : args.Valid ctx tables asset (standing HistoryRow.toFact (facts.baseline k) earlier)
      actor reason time keys) :
    Admits ctx k (correctedRow ctx actor asset last.head args
        (standing HistoryRow.toFact (facts.baseline k) earlier) (keys.metadata reason time)
        (asset.version + 2))
      (tables.append k [reversalRow ctx actor asset args.rootId last.head
        (keys.metadata reason time) (asset.version + 1)]) := by
  have hlast : last ∈ entries k := by simp [hsplit]
  have hsource := h.history.head_source earlier [] hsplit
  have hsome : ∀ {j}, k = j → j = .transition ∨ j = .ownership →
      (standing HistoryRow.toFact (facts.baseline k) earlier).isSome := by
    rintro j rfl hk
    rw [← hsource]
    exact h.source_isSome hsplit hreplaceable hk
  have hmem := (h.history.classes k).mem_rows hlast last.head_mem_rows
  have hknown := (h.known k last.head hmem).fromFact
  rw [hsource] at hknown
  refine ⟨hvalid.guarded rfl rfl rfl rfl, ?_, ?_, ?_, ?_, hvalid.session.1.creator⟩
  · exact hvalid.required (fun hk => hsome hk (.inr rfl)) rfl rfl
  · have hpositive := h.constrained.version asset h.mem
    exact historyChecks_correction (by simp only [correctedRow]; omega) hvalid.reasonLength
      hvalid.reason.2.2.2 (fun hk => hsome hk (.inl rfl)) hvalid.assigns hvalid.time.2
  · have hunique : historyUnique (ctx.foreignKeys (.history k)) (tables.history k)
        (correctedRow ctx actor asset last.head args
          (standing HistoryRow.toFact (facts.baseline k) earlier) (keys.metadata reason time)
          (asset.version + 2)) = true :=
      h.unique_correction hrooted hlast rfl (by simp only [correctedRow]; omega)
        (congrArg some hroot.symm) rfl
        (hvalid.foreign _ (by simp [correctedRow, PairKeys.metadata]))
        fun other hother => (hvalid.fresh other hother).2
    obtain ⟨hforeign, hrows⟩ := historyUnique_iff.mp hunique
    refine historyUnique_iff.mpr ⟨hforeign, fun other hother => ?_⟩
    simp only [AssetTables.append, Function.update_self, List.mem_append, List.mem_singleton]
      at hother
    rcases hother with hold | rfl
    · exact hrows other hold
    · refine ⟨hvalid.distinct, fun hsame => ?_, fun _ hrole => ?_⟩
      · have hnumber : asset.version + 1 = asset.version + 2 := hsame.2
        omega
      · exact absurd hrole (by simp [reversalRow, correctedRow])
  · refine historyReferences_append (h.references_correction hlast rfl (congrArg some hroot.symm)
      hvalid.performer ⟨hknown, hvalid.known, hvalid.attached⟩)

/-- With valid arguments a correction of the entry that made the Asset's version is accepted. -/
theorem correctionSql_accepted (hrooted : tables.Rooted)
    {earlier : List (Entry (HistoryRow (Fact k)))} {last : Entry (HistoryRow (Fact k))}
    (hsplit : entries k = earlier ++ [last]) (hroot : last.root.id = args.rootId)
    (hversion : last.head.resultVersion = asset.version)
    (hreplaceable : k = .transition → earlier ≠ [])
    (hvalid : args.Valid ctx tables asset (standing HistoryRow.toFact (facts.baseline k) earlier)
      actor reason time keys) :
    ∃ after, correctionSql ctx k args tables = .ok (correctedRow ctx actor asset last.head args
      (standing HistoryRow.toFact (facts.baseline k) earlier) (keys.metadata reason time)
      (asset.version + 2), after) := by
  have hlast : last ∈ entries k := by simp [hsplit]
  have hclass := h.history.classes k
  have hsource := h.history.head_source earlier [] hsplit
  have hreversal := h.admits_reversal hrooted hlast hroot hvalid fun hk =>
    h.source_isSome hsplit hreplaceable (.inl hk)
  have hcorrected := h.admits_corrected hrooted hsplit hroot hreplaceable hvalid
  have hrootMem := hclass.mem_rows hlast last.root_mem_rows
  have hfind : (tables.rowsFor k asset.id).find? (·.id = args.rootId) = some last.root :=
    ((h.constrained.keys k).ids.filter _).find?_eq hrootMem hroot
  have hhead := hclass.effectiveHead_eq hlast
  rw [hroot] at hhead
  have hprojection : asset.projection k = last.head.projected k := by
    rw [h.history.projections k, standingProjection, hsplit, List.getLast?_concat]
  obtain ⟨after, hupdate⟩ := updateAsset_accepted ctx
    ((tables.append k [reversalRow ctx actor asset args.rootId last.head
      (keys.metadata reason time) (asset.version + 1)]).append k [correctedRow ctx actor asset
        last.head args (standing HistoryRow.toFact (facts.baseline k) earlier)
        (keys.metadata reason time) (asset.version + 2)])
    (asset.updatedBy actor ctx.session.now) (asset.version + 2) hcorrected.required hvalid.known
    (by simp [AssetTables.rowsFor, AssetTables.append, correctedRow])
  refine ⟨after, ?_⟩
  simp only [correctionSql, bind_eq_ok, require_eq_ok, demand_eq_ok, addInteger_eq_ok, pure_eq_ok,
    Prod.mk.injEq, exists_unit, hvalid.asset]
  exact ⟨_, hvalid.session.1.trustedOrganization _, hvalid.session.2, actor,
    hvalid.session.1.currentActor, asset, h.lockAsset hvalid.current _, h.authority, last.root,
    hfind, (hclass.overlay.overlaid last hlast).root_role, last.head, hhead, hversion,
    hprojection, _, h.correctionPrior_eq hsplit hreplaceable, hvalid.target, _, hvalid.metadata, _,
    ⟨hvalid.room, rfl⟩, _, insertHistory_iff.mpr ⟨hreversal, rfl⟩, _,
    insertHistory_iff.mpr ⟨hcorrected, rfl⟩, after, hupdate, rfl, rfl⟩

end SoundAsset

/-- So is the transaction around it. -/
theorem SoundAsset.correct_accepted (ctx : Context)
    (h : SoundAsset ctx.posixSpace creation facts ctx.refs tables asset entries)
    (hrooted : tables.Rooted)
    {earlier : List (Entry (HistoryRow (Fact k)))} {last : Entry (HistoryRow (Fact k))}
    (hsplit : entries k = earlier ++ [last]) (hroot : last.root.id = args.rootId)
    (hversion : last.head.resultVersion = asset.version)
    (hreplaceable : k = .transition → earlier ≠ [])
    (hvalid : args.Valid ctx tables asset (standing HistoryRow.toFact (facts.baseline k) earlier)
      actor reason time keys) :
    ∃ after, FleetOps.perform (ctx, .correct k args) tables = .ok after := by
  obtain ⟨after, hcorrect⟩ := h.correctionSql_accepted hrooted hsplit hroot hversion hreplaceable
    hvalid
  have hconstrained := h.constrained.correctionSql hcorrect
  obtain ⟨locked, original, head, reversal, hamended⟩ := amended_of_correctionSql hcorrect
  obtain ⟨org, hfound⟩ := hamended.found
  obtain rfl := h.history.eq_of_found hfound ((asset?_id hfound).trans hvalid.asset)
  have hnormal := (normalizeCorrectionReason_idempotent reason).symm
  have hcheck := h.checkPairs_amended hamended ⟨hvalid.reason.2.2.2, hnormal⟩ hconstrained
  refine ⟨after, ?_⟩
  simp only [FleetOps.perform, bind_eq_ok, pure_eq_ok, exists_unit]
  refine ⟨_, (body_correct k args).trans hcorrect, ?_, rfl⟩
  change checkPairs ctx k args.assetId after = .ok ()
  rw [hvalid.asset]
  exact hcheck

end

end FleetOps
