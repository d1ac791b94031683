import FleetOps.Assets.Soundness

/-!
# Acceptance of valid calls

What the database checks of an Asset holds of a sound one, so only the arguments
of a call decide whether it is accepted.  The file goes through the checks in the
order in which a call meets them: the session, the authority behind the Asset,
the constraints of the inserted rows, and the deferred checks of the history
that they leave (`SoundAsset.checkPairs_recorded`).
-/

namespace FleetOps

open Amendment Keys

/-! ## Sessions -/

/-- The session of an authenticated performer of the organization. -/
structure Session.Trusted (session : Session) (org actor : Uuid) : Prop where
  organization : session.organization = some org
  credential : session.credential = some ⟨org, some actor⟩

section

variable {session : Session} {org actor : Uuid}

theorem Session.Trusted.trustedOrganization (h : session.Trusted org actor) (message : String) :
    FleetOps.trustedOrganization session message = .ok org :=
  demand_eq_ok.mpr h.organization

theorem Session.Trusted.currentActor (h : session.Trusted org actor) :
    currentAuthenticatedActor session = .ok actor := by
  simp [currentAuthenticatedActor, h.organization, h.credential]

theorem Session.Trusted.creator (h : session.Trusted org actor) :
    enforceAuthenticatedCreator session actor = .ok () := by
  simp [enforceAuthenticatedCreator, h.currentActor]

end

/-! ## Authority -/

section

variable {creation : HistoryRow AssetState} {facts : InitialFacts} {ctx : Context}
  {tables after : AssetTables} {asset : AssetRow}
  {entries : (k : HistoryClass) → List (Entry (HistoryRow (Fact k)))} {k : HistoryClass}

/-- The versions of an Asset are counted. -/
theorem AssetHistory.counted (h : AssetHistory creation facts tables asset entries)
    (hversion : 0 < asset.version) : Counted asset.version (tables.versionsFor asset.id) := by
  obtain ⟨hmax, hlength, hdistinct⟩ := count_of_perm_range' h.versions hversion
  refine ⟨hlength, hdistinct, List.min?_eq_some_iff.mpr ⟨?_, fun v hv => ?_⟩, hmax⟩
  · rw [h.versions.mem_iff, List.mem_range'_1]
    omega
  · rw [h.versions.mem_iff, List.mem_range'_1] at hv
    exact hv.1

/-- Each projection agrees with its history. -/
theorem AssetHistory.projectionValid (h : AssetHistory creation facts tables asset entries)
    (k : HistoryClass) : projectionInvalid tables asset k = false := by
  have hprojection := h.projections k
  unfold projectionInvalid
  rw [(h.classes k).latestEffective_eq, h.initial, hprojection, standingProjection]
  cases (entries k).getLast? <;> simp

namespace SoundAsset

variable (h : SoundAsset ctx.posixSpace creation facts ctx.refs tables asset entries)

include h

theorem mem : asset ∈ tables.assets := List.mem_of_find?_eq_some h.history.found

theorem wellFormed (k : HistoryClass) : asset.id ∉ malformedSql ctx.posixSpace tables k :=
  (not_mem_malformedSql_iff (h.constrained.keys k) (h.constrained.checks k)).mpr
    ((h.history.classes k).wellFormed h.history.initial (h.formed k))

theorem anomalies : asset.id ∉ assetCorrectionAnomalies ctx tables := by
  intro hmem
  rcases List.mem_append.mp hmem with hmalformed | hevidence
  · obtain ⟨k, -, hk⟩ := List.mem_flatMap.mp hmalformed
    exact h.wellFormed k hk
  · exact not_mem_evidenceAnomalies.mpr h.evidential hevidence

theorem authority : assertAssetCorrectionAuthority ctx tables asset = .ok () := by
  refine assertAssetCorrectionAuthority_eq_ok.mpr
    ⟨h.history.projectionValid, h.anomalies, ⟨?_, h.witness⟩, ?_⟩
  · rw [h.history.initial]
    rfl
  · exact h.history.counted (h.constrained.version asset h.mem)

/-- The row lock on the Asset, at its version. -/
theorem lockAsset {expected : Option ℕ} (hexpected : expected = some asset.version)
    (stale : String) :
    FleetOps.lockAsset tables tables.orgId asset.id expected stale = .ok asset := by
  rw [lockAsset_eq_ok, asset?_eq_some]
  exact ⟨⟨rfl, h.history.found⟩, hexpected⟩

/-! ## Deferred checks -/

/-- The history of an Asset after an admitted operation passes the deferred checks. -/
theorem checkPairs_recorded {assetId : Uuid} {expected : Option ℕ} {row : HistoryRow (Fact k)}
    (hrecorded : Recorded ctx k assetId expected tables asset row after)
    (hcolumns : row.pairId = none ∧ row.correctionOccurredAt = none)
    (hconstrained : after.Constrained ctx.posixSpace) :
    checkPairs ctx k asset.id after = .ok () := by
  obtain ⟨updated, hid, hhistory⟩ := h.history.recorded hrecorded
  have hclass := hhistory.classes k
  have hinitial := hhistory.initial
  rw [hid] at hclass hinitial
  have hafter : after.history k = tables.history k ++ [row] := by
    obtain ⟨projected, -, rfl⟩ := hrecorded.after_eq
    exact AssetTables.history_record
  have hformed : Formed ctx.posixSpace (after.history k) asset.id := by
    rw [hafter]
    exact (h.formed k).concat hrecorded.row_role
      ⟨hrecorded.row_root, hcolumns.1, hrecorded.row_generation, hcolumns.2⟩ hrecorded.fresh
  simp only [checkPairs, require_eq_ok]
  refine ⟨?_, fun hk => ?_⟩
  · exact (not_mem_malformedSql_iff (hconstrained.keys k) (hconstrained.checks k)).mpr
      (hclass.wellFormed hinitial hformed)
  · subst hk
    rw [not_mem_evidenceAnomalies, hafter, orgId_of_recorded hrecorded]
    exact h.evidential.concat (h.formed .transition) hrecorded.row_role hrecorded.fresh
      hrecorded.evidence

/-! ## Ordinary rows -/

/-- The constraints of an ordinary row that a valid call records. -/
theorem admits_ordinary {row : HistoryRow (Fact k)} (hasset : row.assetId = asset.id)
    (hversion : row.resultVersion = asset.version + 1)
    (hordinary : row.role = .none ∧ row.root = none ∧ row.correctionOccurredAt = none)
    (hguard : guardAssetEvidence ctx.refs tables.orgId k row = .ok ())
    (hrequired : requiredFacts k row) (hclass : classChecks ctx.posixSpace k row)
    (hforeign : row.id ∉ ctx.foreignKeys (.history k))
    (hfresh : ∀ other ∈ tables.history k, other.id ≠ row.id)
    (hknown : RowKnown ctx.refs k row) (hactor : row.actorId ∈ ctx.refs.actors)
    (hperformer : enforceAuthenticatedCreator ctx.session row.actorId = .ok ()) :
    Admits ctx k row tables := by
  obtain ⟨hrole, hroot, htime⟩ := hordinary
  refine ⟨hguard, hrequired, ?_, ?_, ?_, hperformer⟩
  · simp [historyChecks, hversion, hclass, htime]
  · refine historyUnique_iff.mpr ⟨hforeign, fun other hother => ⟨hfresh other hother, ?_, ?_⟩⟩
    · rintro ⟨hsame, hnumber⟩
      have hmem : other ∈ tables.rowsFor k asset.id :=
        List.mem_filter.mpr ⟨hother, decide_eq_true (hsame.trans hasset)⟩
      have hle := h.history.version_le hmem
      omega
    · intro hne
      exact absurd hrole hne
  · have hfacts : factReference ctx.refs k row.fromFact ∧ factReference ctx.refs k row.toFact := by
      cases k with
      | transition | assignment => exact ⟨rfl, rfl⟩
      | movement | custody | ownership => exact ⟨hknown.fromFact, hknown.toFact⟩
    have hexists : tables.assets.any (·.id = row.assetId) = true :=
      List.any_eq_true.mpr ⟨asset, h.mem, decide_eq_true hasset.symm⟩
    simp [historyReferences, hexists, hactor, hfacts.1, hfacts.2, hroot, hknown.evidence]

end SoundAsset

/-- The row that an operation records. -/
def recordedRow (ctx : Context) (k : HistoryClass) (args : ChangeArgs) (actor : Uuid)
    (asset : AssetRow) (fromFact toFact : Option (Fact k)) (evidenceRef : Option Uuid) (id : Uuid)
    (reason : String) (occurredAt : Timestamp) : HistoryRow (Fact k) :=
  { id, assetId := asset.id, resultVersion := asset.version + 1, fromFact, toFact, reason
    actorId := actor, occurredAt, recordedAt := ctx.session.now, evidenceRef
    clientOpId := args.clientOpId }

theorem produce_accepted {args : ChangeArgs} {actor id : Uuid} {fromFact toFact : Option (Fact k)}
    {evidenceRef : Option Uuid} {reason : String} {occurredAt : Timestamp} {projected : AssetRow}
    (hroom : asset.version + 1 ≤ intMax) (hid : args.historyId = some id)
    (hreason : args.reason = some reason) (htime : args.occurredAt = some occurredAt)
    (hadmits : Admits ctx k (recordedRow ctx k args actor asset fromFact toFact evidenceRef id
      reason occurredAt) tables)
    (hprojected : asset.setProjection k ((recordedRow ctx k args actor asset fromFact toFact
      evidenceRef id reason occurredAt).projected k) = .ok projected)
    (hreference : projectionReference ctx.refs (tables.append k [recordedRow ctx k args actor asset
      fromFact toFact evidenceRef id reason occurredAt]) projected k = true) :
    ∃ after, produce ctx k args actor asset fromFact toFact evidenceRef tables =
      .ok (recordedRow ctx k args actor asset fromFact toFact evidenceRef id reason occurredAt,
        after) := by
  simp only [produce, bind_eq_ok, addInteger_eq_ok, notNull_eq_ok, pure_eq_ok, Prod.mk.injEq]
  exact ⟨_, _, ⟨hroom, rfl⟩, id, hid, reason, hreason, occurredAt, htime, _,
    insertHistory_iff.mpr ⟨hadmits, rfl⟩, _, by
      simp only [updateAsset, bind_eq_ok, require_eq_ok, exists_unit, pure_eq_ok]
      exact ⟨projected, hprojected, hreference, rfl⟩, rfl, rfl⟩

end

end FleetOps
