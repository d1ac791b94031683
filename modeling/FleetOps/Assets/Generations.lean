import FleetOps.Assets.Constraints
import FleetOps.Assets.Events
import FleetOps.Assets.History

/-!
# Growth of well formed histories

The deferred checks read whole histories, but a call appends only a row or a
pair.  `Formed` is what the corrections of one Asset look like in one history;
it is kept by rows of other Assets (`Formed.widen`), by an ordinary row
(`Formed.concat`) and by a pair on top of a root's authority (`Formed.amend`).
-/

namespace FleetOps

open Amendment

section

variable {φ : Type} {posixSpace : Char → Bool} {rows fresh : List (HistoryRow φ)}
  {r rev cor : HistoryRow φ} {asset : Uuid}

/-! ## Lineages -/

/-- Rows that do not correct a root leave its lineage as it is. -/
theorem Lineage.widen {n : ℕ} {head : ℕ → HistoryRow φ} (h : Lineage rows r n head)
    (hfresh : ∀ c ∈ fresh, c.role ≠ .none → c.root = some r.id → c.assetId ≠ r.assetId) :
    Lineage (rows ++ fresh) r n head := by
  have hold : ∀ c ∈ rows ++ fresh, c.role ≠ .none → c.root = some r.id →
      c.assetId = r.assetId → c ∈ rows := by
    intro c hc hrole hroot hasset
    rcases List.mem_append.mp hc with hc | hc
    · exact hc
    · exact absurd hasset (hfresh c hc hrole hroot)
  refine ⟨h.root, fun g hg => ?_, fun c hc hrole hroot hasset => ?_⟩
  · obtain ⟨rev, hgeneration⟩ := h.next g hg
    refine ⟨rev, ?_, ?_, fun c hc => ⟨fun hrev => ?_, fun hcor => ?_⟩, hgeneration.shared,
      hgeneration.versions, hgeneration.repeats⟩
    · exact ⟨List.mem_append_left _ hgeneration.reversal.1, hgeneration.reversal.2⟩
    · exact ⟨List.mem_append_left _ hgeneration.corrected.1, hgeneration.corrected.2⟩
    · have hmem := hold c hc (by simp [hrev.role]) hrev.root hrev.asset
      exact (hgeneration.unique c hmem).1 hrev
    · have hmem := hold c hc (by simp [hcor.role]) hcor.root hcor.asset
      exact (hgeneration.unique c hmem).2 hcor
  · exact h.all c (hold c hc hrole hroot hasset) hrole hroot hasset

/-- A pair that cancels and replaces the authority of a root. -/
structure Supersedes (r p rev cor : HistoryRow φ) (n : ℕ) : Prop where
  reversal : rev.Corrects r .reversal (n + 1)
  corrected : cor.Corrects r .corrected (n + 1)
  shared : cor.pairId = rev.pairId ∧ cor.actorId = rev.actorId ∧ cor.reason = rev.reason ∧
    cor.correctionOccurredAt = rev.correctionOccurredAt
  versions : rev.resultVersion = p.resultVersion + 1 ∧ cor.resultVersion = rev.resultVersion + 1
  repeats : rev.fromFact = p.fromFact ∧ rev.toFact = p.toFact ∧ rev.occurredAt = p.occurredAt

/-- Such a pair is one more generation. -/
theorem Lineage.amend {n : ℕ} {head : ℕ → HistoryRow φ} (h : Lineage rows r n head)
    (hpair : Supersedes r (head n) rev cor n) :
    Lineage (rows ++ [rev, cor]) r (n + 1) (Function.update head (n + 1) cor) := by
  have hnot : ∀ {c : HistoryRow φ} {role : CorrectionRole} {g : ℕ}, c ∈ rows → role ≠ .none →
      c.Corrects r role g → g ≤ n := by
    intro c role g hc hrole hcorrects
    have hall := h.all c hc (hcorrects.role ▸ hrole) hcorrects.root hcorrects.asset
    rw [hcorrects.generation] at hall
    exact hall.2
  refine ⟨?_, fun g hg => ?_, fun c hc hrole hroot hasset => ?_⟩
  · rw [Function.update_of_ne (by omega)]
    exact h.root
  · by_cases hlast : g = n
    · subst hlast
      rw [Function.update_self, Function.update_of_ne (by omega)]
      refine ⟨rev, ⟨by simp, hpair.reversal⟩, ⟨by simp, hpair.corrected⟩,
        fun c hc => ⟨fun hrev => ?_, fun hcor => ?_⟩, hpair.shared, hpair.versions, hpair.repeats⟩
      · rcases List.mem_append.mp hc with hold | hnew
        · have hle := hnot hold (by decide) hrev
          omega
        · simp only [List.mem_cons, List.not_mem_nil, or_false] at hnew
          rcases hnew with rfl | rfl
          · rfl
          · exact absurd (hrev.role.symm.trans hpair.corrected.role) (by decide)
      · rcases List.mem_append.mp hc with hold | hnew
        · have hle := hnot hold (by decide) hcor
          omega
        · simp only [List.mem_cons, List.not_mem_nil, or_false] at hnew
          rcases hnew with rfl | rfl
          · exact absurd (hcor.role.symm.trans hpair.reversal.role) (by decide)
          · rfl
    · have hlt : g < n := by omega
      rw [Function.update_of_ne (by omega), Function.update_of_ne (by omega)]
      obtain ⟨old, hgeneration⟩ := h.next g hlt
      refine ⟨old, ⟨List.mem_append_left _ hgeneration.reversal.1, hgeneration.reversal.2⟩,
        ⟨List.mem_append_left _ hgeneration.corrected.1, hgeneration.corrected.2⟩,
        fun c hc => ?_, hgeneration.shared, hgeneration.versions, hgeneration.repeats⟩
      rcases List.mem_append.mp hc with hold | hnew
      · exact hgeneration.unique c hold
      · -- The new rows are of a later generation.
        simp only [List.mem_cons, List.not_mem_nil, or_false] at hnew
        have hlater : c.generation = n + 1 := by
          rcases hnew with rfl | rfl
          · exact hpair.reversal.generation
          · exact hpair.corrected.generation
        refine ⟨fun hrev => ?_, fun hcor => ?_⟩
        · have hsame := hrev.generation
          omega
        · have hsame := hcor.generation
          omega
  · rcases List.mem_append.mp hc with hold | hnew
    · have hall := h.all c hold hrole hroot hasset
      omega
    · simp only [List.mem_cons, List.not_mem_nil, or_false] at hnew
      rcases hnew with rfl | rfl
      · rw [hpair.reversal.generation]
        omega
      · rw [hpair.corrected.generation]
        omega

theorem WellFormedRow.widen {c : HistoryRow φ} (h : WellFormedRow posixSpace rows c) :
    WellFormedRow posixSpace (rows ++ fresh) c := by
  refine ⟨h.ordinary, fun hrole => ?_, h.metadata⟩
  obtain ⟨r, hr, hnamed⟩ := h.named hrole
  exact ⟨r, List.mem_append_left _ hr, hnamed⟩

/-! ## Histories -/

/-- The rows of an Asset form whole generations. -/
structure Formed (posixSpace : Char → Bool) (rows : List (HistoryRow φ)) (asset : Uuid) :
    Prop where
  columns : ∀ c ∈ rows, c.assetId = asset → WellFormedRow posixSpace rows c
  roots : ∀ r ∈ rows, r.assetId = asset → r.role = .none → ∃ n head, Lineage rows r n head

/-- Rows of other Assets. -/
theorem Formed.widen (h : Formed posixSpace rows asset)
    (hfresh : ∀ c ∈ fresh, c.assetId ≠ asset) : Formed posixSpace (rows ++ fresh) asset := by
  have hold : ∀ c ∈ rows ++ fresh, c.assetId = asset → c ∈ rows := by
    intro c hc hasset
    exact (List.mem_append.mp hc).resolve_right fun hnew => hfresh c hnew hasset
  refine ⟨fun c hc hasset => (h.columns c (hold c hc hasset) hasset).widen, fun r hr hasset hrole =>
    ?_⟩
  obtain ⟨n, head, hlineage⟩ := h.roots r (hold r hr hasset) hasset hrole
  refine ⟨n, head, hlineage.widen fun c hc _ _ => ?_⟩
  rw [hasset]
  exact hfresh c hc

/-- An ordinary row. -/
theorem Formed.concat {row : HistoryRow φ} (h : Formed posixSpace rows asset)
    (hrole : row.role = .none) (hcolumns : row.root = none ∧ row.pairId = none ∧
      row.generation = 0 ∧ row.correctionOccurredAt = none)
    (hfresh : ∀ other ∈ rows, other.id ≠ row.id) :
    Formed posixSpace (rows ++ [row]) asset := by
  refine ⟨fun c hc hasset => ?_, fun r hr hasset hordinary => ?_⟩
  · rcases List.mem_append.mp hc with hold | hnew
    · exact (h.columns c hold hasset).widen
    · rw [List.mem_singleton.mp hnew]
      exact ⟨fun _ => hcolumns, fun hne => absurd hrole hne, fun hne => absurd hrole hne⟩
  · rcases List.mem_append.mp hr with hold | hnew
    · obtain ⟨n, head, hlineage⟩ := h.roots r hold hasset hordinary
      refine ⟨n, head, hlineage.widen fun c hc hne _ => ?_⟩
      exact absurd (List.mem_singleton.mp hc ▸ hrole) hne
    · -- Nothing names a new row as its root.
      rw [List.mem_singleton.mp hnew] at hasset ⊢
      refine ⟨0, fun _ => row, rfl, fun g hg => absurd hg (Nat.not_lt_zero g), ?_⟩
      intro c hc hne hroot hsame
      rcases List.mem_append.mp hc with hold | hself
      · obtain ⟨named, hnamed, hid, -⟩ := (h.columns c hold (hsame.trans hasset)).named hne
        rw [hroot, Option.some.injEq] at hid
        exact absurd hid.symm (hfresh named hnamed)
      · exact absurd (List.mem_singleton.mp hself ▸ hrole) hne

/-- A pair on top of a root's authority. -/
theorem Formed.amend {n : ℕ} {head : ℕ → HistoryRow φ} (h : Formed posixSpace rows asset)
    (hids : Keys.Distinct HistoryRow.id rows) (hr : r ∈ rows) (hrole : r.role = .none)
    (hlineage : Lineage rows r n head) (hpair : Supersedes r (head n) rev cor n)
    (hmetadata : rev.pairId.isSome ∧ rev.correctionOccurredAt.isSome ∧
      hasNonSpace posixSpace rev.reason ∧ rev.reason = normalizeCorrectionReason rev.reason) :
    Formed posixSpace (rows ++ [rev, cor]) asset := by
  obtain ⟨hpairId, htime, hspace, hnormal⟩ := hmetadata
  obtain ⟨hsamePair, -, hsameReason, hsameTime⟩ := hpair.shared
  have hcorrection : ∀ {c : HistoryRow φ} {role : CorrectionRole}, role ≠ .none →
      c.Corrects r role (n + 1) → c.pairId.isSome → c.correctionOccurredAt.isSome →
      c.reason = rev.reason → WellFormedRow posixSpace (rows ++ [rev, cor]) c := by
    intro c role hne hcorrects hpairId htime hreason
    have hnot : c.role ≠ .none := hcorrects.role ▸ hne
    refine ⟨fun hnone => absurd hnone hnot, fun _ => ?_, fun _ => ?_⟩
    · exact ⟨r, List.mem_append_left _ hr, hcorrects.root, hcorrects.asset.symm, hrole⟩
    · rw [hreason, hcorrects.generation]
      exact ⟨hpairId, by omega, htime, hspace, hnormal⟩
  have hnew : ∀ c ∈ [rev, cor], c.role ≠ .none ∧ c.root = some r.id := by
    intro c hc
    simp only [List.mem_cons, List.not_mem_nil, or_false] at hc
    rcases hc with rfl | rfl
    · exact ⟨by simp [hpair.reversal.role], hpair.reversal.root⟩
    · exact ⟨by simp [hpair.corrected.role], hpair.corrected.root⟩
  refine ⟨fun c hc hsame => ?_, fun other hother hsame hordinary => ?_⟩
  · rcases List.mem_append.mp hc with hold | hfresh
    · exact (h.columns c hold hsame).widen
    · simp only [List.mem_cons, List.not_mem_nil, or_false] at hfresh
      rcases hfresh with rfl | rfl
      · exact hcorrection (by decide) hpair.reversal hpairId htime rfl
      · exact hcorrection (by decide) hpair.corrected (hsamePair ▸ hpairId) (hsameTime ▸ htime)
          hsameReason
  · rcases List.mem_append.mp hother with hold | hfresh
    · by_cases hid : other.id = r.id
      · rw [hids.eq hold hr hid]
        exact ⟨_, _, hlineage.amend hpair⟩
      · obtain ⟨m, heads, hlineage⟩ := h.roots other hold hsame hordinary
        refine ⟨m, heads, hlineage.widen fun c hc _ hroot => ?_⟩
        rw [(hnew c hc).2, Option.some.injEq] at hroot
        exact absurd hroot.symm hid
    · exact absurd hordinary (hnew other hfresh).1

end

/-! ## Evidence -/

section

variable {refs : References} {org asset : Uuid} {rows fresh : List (HistoryRow AssetState)}

/-- The evidence that the transitions of an Asset need, and that their reversals repeat. -/
structure Evidential (refs : References) (org : Uuid) (rows : List (HistoryRow AssetState))
    (asset : Uuid) : Prop where
  guarded : ∀ h ∈ rows, h.assetId = asset → guardAssetEvidence refs org .transition h = .ok ()
  repeats : ∀ h ∈ rows, h.assetId = asset → h.role = .reversal → ∀ p ∈ rows,
    cancels h p = true → h.evidenceRef = p.evidenceRef

theorem not_mem_evidenceAnomalies {tables : AssetTables} :
    asset ∉ evidenceAnomalies refs tables ↔
      Evidential refs tables.orgId (tables.history .transition) asset := by
  have hrow : ∀ h : HistoryRow AssetState,
      (((h.evidenceRef.isSome || (evidencePurpose h).isSome) &&
        !validAssetEvidence refs tables.orgId h.evidenceRef h.assetId (evidencePurpose h)) ||
      (h.role == .reversal && List.any (α := HistoryRow AssetState) (tables.history .transition)
        fun p => cancels h p && h.evidenceRef != p.evidenceRef)) = false ↔
      guardAssetEvidence refs tables.orgId .transition h = .ok () ∧
        (h.role = .reversal → ∀ p : HistoryRow AssetState, p ∈ tables.history .transition →
          cancels h p = true → h.evidenceRef = p.evidenceRef) := by
    intro h
    simp only [guardAssetEvidence, require_eq_ok, Bool.or_eq_false_iff, Bool.and_eq_false_imp,
      Bool.or_eq_true, Bool.not_eq_false', List.any_eq_false, beq_iff_eq, Bool.and_eq_true,
      bne_iff_ne, ne_eq, not_and, not_not]
  constructor
  · intro hnone
    have hall : ∀ h : HistoryRow AssetState, h ∈ tables.history .transition → h.assetId = asset →
        guardAssetEvidence refs tables.orgId .transition h = .ok () ∧
          (h.role = .reversal → ∀ p : HistoryRow AssetState, p ∈ tables.history .transition →
            cancels h p = true → h.evidenceRef = p.evidenceRef) := by
      intro h hh hasset
      rw [← hrow h, ← Bool.not_eq_true]
      intro hbad
      exact hnone (List.mem_map.mpr ⟨h, List.mem_filter.mpr ⟨hh, hbad⟩, hasset⟩)
    exact ⟨fun h hh hasset => (hall h hh hasset).1, fun h hh hasset => (hall h hh hasset).2⟩
  · intro hgood hmem
    obtain ⟨h, hh, hasset⟩ := List.mem_map.mp hmem
    obtain ⟨hh, hbad⟩ := List.mem_filter.mp hh
    have hfine := (hrow h).mpr ⟨hgood.guarded h hh hasset, hgood.repeats h hh hasset⟩
    rw [hbad] at hfine
    exact absurd hfine (by decide)

theorem guardAssetEvidence_of_grows {before after : References} (hgrows : before.Grows after)
    {k : HistoryClass} {row : HistoryRow (Fact k)}
    (h : guardAssetEvidence before org k row = .ok ()) :
    guardAssetEvidence after org k row = .ok () := by
  cases k with
  | transition =>
      simp only [guardAssetEvidence, require_eq_ok] at h ⊢
      exact fun hneeded => validAssetEvidence_of_grows hgrows (h hneeded)
  | movement | custody | ownership | assignment => rfl

theorem Evidential.of_grows {after : References} (h : Evidential refs org rows asset)
    (hgrows : refs.Grows after) : Evidential after org rows asset :=
  ⟨fun c hc hasset => guardAssetEvidence_of_grows hgrows (h.guarded c hc hasset), h.repeats⟩

/-- Rows of other Assets. -/
theorem Evidential.widen (h : Evidential refs org rows asset)
    (hfresh : ∀ c ∈ fresh, c.assetId ≠ asset) : Evidential refs org (rows ++ fresh) asset := by
  have hold : ∀ c ∈ rows ++ fresh, c.assetId = asset → c ∈ rows := by
    intro c hc hasset
    exact (List.mem_append.mp hc).resolve_right fun hnew => hfresh c hnew hasset
  refine ⟨fun c hc hasset => h.guarded c (hold c hc hasset) hasset,
    fun c hc hasset hrole p hp hcancels => ?_⟩
  have hsame : p.assetId = c.assetId := by
    simp only [cancels, Bool.and_eq_true, beq_iff_eq] at hcancels
    exact hcancels.1
  exact h.repeats c (hold c hc hasset) hasset hrole p (hold p hp (hsame.trans hasset)) hcancels

/-- A row with a fresh id is cancelled by an earlier row only as a replacement under its root. -/
theorem Formed.cancels_fresh {φ : Type} {posixSpace : Char → Bool} {rows : List (HistoryRow φ)}
    {h p : HistoryRow φ} (hformed : Formed posixSpace rows asset) (hh : h ∈ rows)
    (hasset : h.assetId = asset) (hrole : h.role = .reversal)
    (hfresh : ∀ other ∈ rows, other.id ≠ p.id) (hcancels : cancels h p = true) :
    p.assetId = h.assetId ∧ h.root.isSome ∧ p.root = h.root ∧ p.generation + 1 = h.generation ∧
      p.role = .corrected := by
  obtain ⟨r, hr, hroot, -⟩ := (hformed.columns h hh hasset).named (by simp [hrole])
  simp only [cancels, Bool.and_eq_true, Bool.or_eq_true, beq_iff_eq, decide_eq_true_eq]
    at hcancels
  obtain ⟨hsame, ⟨-, hid⟩ | ⟨⟨⟨⟨-, hsome⟩, hunder⟩, hgeneration⟩, hcorrected⟩⟩ := hcancels
  · rw [hroot, Option.some.injEq] at hid
    exact absurd hid.symm (hfresh r hr)
  · exact ⟨hsame, hsome, hunder, hgeneration, hcorrected⟩

/-- An ordinary row. -/
theorem Evidential.concat {posixSpace : Char → Bool} {row : HistoryRow AssetState}
    (h : Evidential refs org rows asset) (hformed : Formed posixSpace rows asset)
    (hrole : row.role = .none) (hfresh : ∀ other ∈ rows, other.id ≠ row.id)
    (hguard : guardAssetEvidence refs org .transition row = .ok ()) :
    Evidential refs org (rows ++ [row]) asset := by
  refine ⟨fun c hc hasset => ?_, fun c hc hasset hreversal p hp hcancels => ?_⟩
  · rcases List.mem_append.mp hc with hold | hnew
    · exact h.guarded c hold hasset
    · rw [List.mem_singleton.mp hnew]
      exact hguard
  · rcases List.mem_append.mp hc with hold | hnew
    · rcases List.mem_append.mp hp with hp | hp
      · exact h.repeats c hold hasset hreversal p hp hcancels
      · rw [List.mem_singleton.mp hp] at hcancels
        have hcorrected :=
          (hformed.cancels_fresh hold hasset hreversal hfresh hcancels).2.2.2.2
        exact absurd (hrole.symm.trans hcorrected) (by decide)
    · rw [List.mem_singleton.mp hnew] at hreversal
      exact absurd (hrole.symm.trans hreversal) (by decide)

/-- A pair on top of a root's authority. -/
theorem Evidential.amend {posixSpace : Char → Bool} {n : ℕ} {head : ℕ → HistoryRow AssetState}
    {r rev cor : HistoryRow AssetState} (h : Evidential refs org rows asset)
    (hformed : Formed posixSpace rows asset) (hkeys : HistoryKeys (rows ++ [rev, cor]))
    (hr : r ∈ rows) (hlineage : Lineage rows r n head)
    (hpair : Supersedes r (head n) rev cor n)
    (hfresh : ∀ other ∈ rows, other.id ≠ rev.id ∧ other.id ≠ cor.id)
    (hevidence : rev.evidenceRef = (head n).evidenceRef)
    (hguards : guardAssetEvidence refs org .transition rev = .ok () ∧
      guardAssetEvidence refs org .transition cor = .ok ()) :
    Evidential refs org (rows ++ [rev, cor]) asset := by
  have hcases : ∀ {c}, c ∈ rows ++ [rev, cor] → c ∈ rows ∨ c = rev ∨ c = cor := by
    intro c hc
    simpa using hc
  refine ⟨fun c hc hasset => ?_, fun c hc hasset hreversal p hp hcancels => ?_⟩
  · rcases hcases hc with hold | rfl | rfl
    · exact h.guarded c hold hasset
    · exact hguards.1
    · exact hguards.2
  · rcases hcases hc with hold | rfl | rfl
    · rcases hcases hp with hp | hp
      · exact h.repeats c hold hasset hreversal p hp hcancels
      · -- An earlier reversal is of an earlier generation.
        have hnew : (∀ other ∈ rows, other.id ≠ p.id) ∧ p.root = some r.id ∧
            p.assetId = r.assetId ∧ p.generation = n + 1 := by
          rcases hp with rfl | rfl
          · exact ⟨fun other hother => (hfresh other hother).1, hpair.reversal.root,
              hpair.reversal.asset, hpair.reversal.generation⟩
          · exact ⟨fun other hother => (hfresh other hother).2, hpair.corrected.root,
              hpair.corrected.asset, hpair.corrected.generation⟩
        obtain ⟨hid, hroot, hsame, hgeneration⟩ := hnew
        obtain ⟨hassets, -, hroots, hnext, -⟩ :=
          hformed.cancels_fresh hold hasset hreversal hid hcancels
        have hall := hlineage.all c hold (by simp [hreversal]) (hroots.symm.trans hroot)
          (hassets.symm.trans hsame)
        omega
    · have hhead := (hlineage.amend hpair).head_of_cancels hkeys (List.mem_append_left _ hr)
        (Nat.lt_succ_self n) hpair.reversal hp hcancels
      rw [Function.update_of_ne (by omega)] at hhead
      rw [hhead, hevidence]
    · exact absurd (hpair.corrected.role.symm.trans hreversal) (by decide)

end

/-! ## Sources -/

section

variable {tables : AssetTables} {k : HistoryClass} {asset : Uuid} {facts : InitialFacts}
  {entries : List (Entry (HistoryRow (Fact k)))} {posixSpace : Char → Bool}

/-- Every replacement starts from the fact in force before its root. -/
theorem ClassHistory.source (h : ClassHistory tables k asset (facts.baseline k) entries)
    (hfacts : tables.initialFacts? asset = some facts) {c r : HistoryRow (Fact k)}
    (hc : c ∈ tables.rowsFor k asset) (hrole : c.role = .corrected)
    (hr : r ∈ tables.rowsFor k asset) (hroot : c.root = some r.id) :
    c.fromFact = factBefore tables k r := by
  have hasset : r.assetId = asset := by simpa using (List.mem_filter.mp hr).2
  rw [h.rows] at hc hr
  obtain ⟨entry, hentry, hrow⟩ := mem_rowsOf.mp hc
  have hoverlaid := h.overlay.overlaid entry hentry
  rcases hoverlaid.mem_cases hrow with rfl | hreversal | ⟨hunder, pair, hpair, rfl⟩
  · exact absurd (hoverlaid.root_role.symm.trans hrole) (by decide)
  · exact absurd (hreversal.symm.trans hrole) (by decide)
  · rw [hunder, Option.some.injEq] at hroot
    have heq : r = entry.root := h.overlay.eq_of_id hr
      (mem_rowsOf.mpr ⟨entry, hentry, entry.root_mem_rows⟩) hroot.symm
    obtain ⟨earlier, later, rfl⟩ := List.append_of_mem hentry
    have hsource := h.chained.replacement hpair
    rw [hsource, factBefore, hasset, heq, h.effectiveBefore_root, hfacts, standing]
    cases earlier.getLast? <;> rfl

/-- Whole generations in a chained history are well formed. -/
theorem ClassHistory.wellFormed (h : ClassHistory tables k asset (facts.baseline k) entries)
    (hfacts : tables.initialFacts? asset = some facts)
    (hformed : Formed posixSpace (tables.history k) asset) :
    WellFormed posixSpace tables k asset := by
  refine ⟨hformed.columns, hformed.roots, fun c hc hasset hrole r hr hsame hroot => ?_⟩
  have hmem : ∀ row ∈ tables.history k, row.assetId = asset → row ∈ tables.rowsFor k asset :=
    fun row hrow hasset => List.mem_filter.mpr ⟨hrow, decide_eq_true hasset⟩
  exact h.source hfacts (hmem c hc hasset) hrole (hmem r hr hsame) hroot

end

end FleetOps
