import FleetOps.Assets.Acceptance

/-!
# Roots and their corrections

A root's effective head is the head of its entry
(`ClassHistory.effectiveHead_eq`), and its generations are those of its entry
(`ClassHistory.lineage`).  So the pair of a correction passes the deferred check
(`SoundAsset.checkPairs_amended`) and repeats no key
(`SoundAsset.unique_correction`).

The unique index on a root's generations does not name the Asset, so one more
constraint of the tables is needed: a correction's root is a row of the same
Asset (`AssetTables.Rooted`).
-/

namespace FleetOps

open Amendment Keys

/-! ## Roots -/

/-- The foreign key of a correction row on its root. -/
def AssetTables.Rooted (tables : AssetTables) : Prop :=
  ∀ k, ∀ c ∈ tables.history k, ∀ root ∈ c.root, ∃ r ∈ tables.history k,
    r.id = root ∧ r.assetId = c.assetId

theorem AssetTables.Rooted.append {tables : AssetTables} (h : tables.Rooted) {k : HistoryClass}
    {rows : List (HistoryRow (Fact k))}
    (hrows : ∀ row ∈ rows, ∀ root ∈ row.root, ∃ r ∈ tables.history k,
      r.id = root ∧ r.assetId = row.assetId) : (tables.append k rows).Rooted := by
  intro j c hc root hroot
  by_cases hj : j = k
  · subst hj
    simp only [AssetTables.append, Function.update_self] at hc ⊢
    rcases List.mem_append.mp hc with hold | hnew
    · obtain ⟨r, hr, hnamed⟩ := h j c hold root hroot
      exact ⟨r, List.mem_append_left _ hr, hnamed⟩
    · obtain ⟨r, hr, hnamed⟩ := hrows c hnew root hroot
      exact ⟨r, List.mem_append_left _ hr, hnamed⟩
  · simp only [AssetTables.append, Function.update_of_ne hj] at hc ⊢
    exact h j c hc root hroot

/-- Every accepted call names a root of its Asset, or none. -/
theorem AssetTables.Rooted.perform {ctx : Context} {call : Call} {tables after : AssetTables}
    (h : tables.Rooted) (hperform : FleetOps.perform (ctx, call) tables = .ok after) :
    after.Rooted := by
  rcases perform_cases hperform with ⟨-, locked, row, hrecorded⟩ | ⟨k, args, rfl, locked,
    original, head, reversal, corrected, hamended⟩
  · obtain ⟨projected, -, rfl⟩ := hrecorded.after_eq
    refine h.append fun other hother root hroot => ?_
    rw [List.mem_singleton.mp hother, hrecorded.row_root] at hroot
    exact absurd hroot (by simp)
  · obtain ⟨actor, metadata, hreversal, hcorrected⟩ := hamended.rows_eq
    have hroots : ∀ row ∈ [reversal, corrected], row.root = some args.rootId := by
      simp [hreversal, hcorrected, reversalRow, correctedRow]
    have hassets := hamended.rows_asset
    have hmem := List.mem_filter.mp hamended.original_mem
    have hid := hamended.original_id
    obtain ⟨_, now, projected, -, rfl⟩ := hamended.after_eq
    refine h.append fun row hrow root hroot => ⟨original, hmem.1, ?_, ?_⟩
    · rw [hroots row hrow, Option.mem_some_iff] at hroot
      exact hid.trans hroot
    · rw [hassets row hrow]
      simpa using hmem.2

/-- A unit's creation event corrects nothing. -/
theorem rooted_of_insertReceivedAsset {ctx : Context} {items : List Item} {args : UnitArgs}
    {receipt : Receipt} {owner performer : Uuid} {tables after : AssetTables} (h : tables.Rooted)
    (hinsert : insertReceivedAsset ctx items args receipt owner performer tables = .ok after) :
    after.Rooted := by
  obtain ⟨-, rfl⟩ := insertReceivedAsset_eq_ok hinsert
  have hassets : ({ tables with assets := tables.assets ++
      [args.asset receipt owner performer ctx.session.now] } : AssetTables).Rooted := h
  refine hassets.append fun row hrow root hroot => ?_
  rw [List.mem_singleton.mp hrow] at hroot
  exact absurd hroot (Option.not_mem_none root)

section

variable {φ : Type} {asset : Uuid} {entries : List (Entry (HistoryRow φ))}

/-- The entries of a history have roots of their own. -/
theorem Entries.roots (h : Entries asset entries) :
    Distinct (fun entry : Entry (HistoryRow φ) => entry.root.id) entries := by
  have hsublist : (entries.map Entry.root).Sublist (rowsOf entries) := by
    clear h
    induction entries with
    | nil => exact List.Sublist.slnil
    | cons entry rest ih =>
        rw [List.map_cons, rowsOf_cons]
        exact (List.singleton_sublist.mpr entry.root_mem_rows).append ih
  have hids := h.ids.sublist (hsublist.map HistoryRow.id)
  rwa [List.map_map] at hids

/-- An ordinary row is the root of its entry. -/
theorem Entries.entry_of_ordinary (h : Entries asset entries) {row : HistoryRow φ}
    (hrow : row ∈ rowsOf entries) (hrole : row.role = .none) :
    ∃ entry ∈ entries, entry.root = row := by
  obtain ⟨entry, hentry, hmem⟩ := mem_rowsOf.mp hrow
  exact ⟨entry, hentry, ((h.overlaid entry hentry).eq_root hmem hrole).symm⟩

/-- A head that amends nothing is the root. -/
theorem Overlaid.head_of_zero {entry : Entry (HistoryRow φ)} (h : Overlaid entry)
    (hzero : entry.head.generation = 0) : entry.head = entry.root := by
  cases h with
  | plain role root generation => rfl
  | amend hbefore roles roots generations =>
      rw [Entry.head_amend, generations.2] at hzero
      exact absurd hzero (Nat.succ_ne_zero _)

/-- Only the head of a root's own entry is in force under it. -/
theorem Entries.entry_of_head (h : Entries asset entries) {entry other : Entry (HistoryRow φ)}
    (hentry : entry ∈ entries) (hother : other ∈ entries)
    (hnamed : other.head.id = entry.root.id ∨ other.head.root = some entry.root.id) :
    other.root.id = entry.root.id := by
  have hhead := (h.overlaid other hother).rootId_eq other.head other.head_mem_rows
  rcases hnamed with hid | hroot
  · have heq : other.head = entry.root :=
      h.eq_of_id (mem_rowsOf.mpr ⟨other, hother, other.head_mem_rows⟩)
        (mem_rowsOf.mpr ⟨entry, hentry, entry.root_mem_rows⟩) hid
    rw [heq, (h.overlaid entry hentry).rootId_eq _ entry.root_mem_rows] at hhead
    exact hhead.symm
  · rw [HistoryRow.rootId, hroot, Option.getD_some] at hhead
    exact hhead.symm

/-- What names a root is among the rows of its entry. -/
theorem Entries.mem_of_root (h : Entries asset entries) {entry : Entry (HistoryRow φ)}
    (hentry : entry ∈ entries) {row : HistoryRow φ} (hrow : row ∈ rowsOf entries)
    (hroot : row.root = some entry.root.id) : row ∈ entry.rows := by
  obtain ⟨other, hother, hmem⟩ := mem_rowsOf.mp hrow
  have hid := (h.overlaid other hother).rootId_eq row hmem
  rw [HistoryRow.rootId, hroot, Option.getD_some] at hid
  rwa [h.eq_of_root hentry hother hid]

end

section

variable {creation : HistoryRow AssetState} {facts : InitialFacts} {tables : AssetTables}
  {asset : AssetRow} {id : Uuid} {k : HistoryClass} {baseline : Option (Fact k)}

/-- A root's effective head is the head of its entry. -/
theorem ClassHistory.effectiveHead_eq {entries : List (Entry (HistoryRow (Fact k)))}
    (h : ClassHistory tables k id baseline entries) {entry : Entry (HistoryRow (Fact k))}
    (hentry : entry ∈ entries) : effectiveHead tables k id entry.root.id = some entry.head := by
  have hview : effectiveHead tables k id entry.root.id =
      ((effective (tables.history k)).filter (·.assetId = id)).find? fun row =>
        decide (row.id = entry.root.id ∨ row.root = some entry.root.id) := by
    rw [effectiveHead, List.find?_filter]
    congr 1
    funext row
    simp
  rw [hview, h.effective_eq, List.find?_map]
  have hself : entry.head.id = entry.root.id ∨ entry.head.root = some entry.root.id := by
    by_cases hpos : 0 < entry.head.generation
    · exact .inr ((h.overlay.overlaid entry hentry).head_of_pos hpos).2
    · have hzero : entry.head.generation = 0 := by omega
      exact .inl (congrArg _ ((h.overlay.overlaid entry hentry).head_of_zero hzero))
  rw [h.overlay.roots.find?_of_imp hentry (by simpa using hself) fun other hother hnamed =>
    h.overlay.entry_of_head hentry hother (by simpa using hnamed)]
  rfl

/-- The generations of a root are those of its entry. -/
theorem ClassHistory.lineage {posixSpace : Char → Bool}
    {entries : List (Entry (HistoryRow (Fact k)))}
    (h : ClassHistory tables k id baseline entries)
    (hformed : Formed posixSpace (tables.history k) id)
    {entry : Entry (HistoryRow (Fact k))} (hentry : entry ∈ entries) :
    ∃ heads, Lineage (tables.history k) entry.root entry.head.generation heads ∧
      heads entry.head.generation = entry.head := by
  have hoverlaid := h.overlay.overlaid entry hentry
  have hmem : ∀ row ∈ entry.rows, row ∈ tables.history k ∧ row.assetId = id := by
    intro row hrow
    simpa [AssetTables.rowsFor] using h.mem_rows hentry hrow
  obtain ⟨hroot, hrootAsset⟩ := hmem _ entry.root_mem_rows
  obtain ⟨n, heads, hlineage⟩ := hformed.roots _ hroot hrootAsset hoverlaid.root_role
  -- Every generation of the root is one of the entry's.
  have hle : n ≤ entry.head.generation := by
    cases n with
    | zero => exact Nat.zero_le _
    | succ g =>
        obtain ⟨rev, hgeneration⟩ := hlineage.next g (Nat.lt_succ_self g)
        obtain ⟨hcor, hcorrects⟩ := hgeneration.corrected
        have hrow : heads (g + 1) ∈ rowsOf entries := by
          rw [← h.rows]
          exact List.mem_filter.mpr ⟨hcor, decide_eq_true (hcorrects.asset.trans hrootAsset)⟩
        have hin := h.overlay.mem_of_root hentry hrow hcorrects.root
        rw [← hcorrects.generation]
        exact hoverlaid.generation_le _ hin
  by_cases hpos : 0 < entry.head.generation
  · obtain ⟨hrole, hunder⟩ := hoverlaid.head_of_pos hpos
    obtain ⟨hhead, hheadAsset⟩ := hmem _ entry.head_mem_rows
    have hall := hlineage.all _ hhead (by simp [hrole]) hunder (hheadAsset.trans hrootAsset.symm)
    obtain rfl : n = entry.head.generation := by omega
    refine ⟨heads, hlineage, ?_⟩
    obtain ⟨g, hg⟩ : ∃ g, entry.head.generation = g + 1 := ⟨entry.head.generation - 1, by omega⟩
    obtain ⟨rev, hgeneration⟩ := hlineage.next g (by omega)
    rw [hg]
    exact ((hgeneration.unique _ hhead).2
      ⟨hrole, hunder, hheadAsset.trans hrootAsset.symm, hg⟩).symm
  · obtain rfl : n = 0 := by omega
    have hzero : entry.head.generation = 0 := by omega
    refine ⟨heads, hzero ▸ hlineage, ?_⟩
    rw [hzero, hlineage.root, hoverlaid.head_of_zero hzero]

/-- An entry whose head made the Asset's version is its class's last. -/
theorem AssetHistory.last_of_version
    {entries : (k : HistoryClass) → List (Entry (HistoryRow (Fact k)))}
    (h : AssetHistory creation facts tables asset entries) {entry : Entry (HistoryRow (Fact k))}
    (hentry : entry ∈ entries k) (hversion : entry.head.resultVersion = asset.version) :
    ∃ earlier, entries k = earlier ++ [entry] := by
  obtain ⟨earlier, later, hsplit⟩ := List.append_of_mem hentry
  have hascending := (h.classes k).ascending.heads
  rw [hsplit, List.map_append, List.map_cons] at hascending
  cases later with
  | nil => exact ⟨earlier, hsplit⟩
  | cons next rest =>
      have hlater := (List.pairwise_append.mp hascending).2.1
      have hlt := (List.pairwise_cons.mp hlater).1 next.head (by simp)
      have hnext : next ∈ entries k := by simp [hsplit]
      have hle := h.version_le ((h.classes k).mem_rows hnext next.head_mem_rows)
      omega

end

/-! ## The deferred check -/

section

variable {creation : HistoryRow AssetState} {facts : InitialFacts} {ctx : Context}
  {tables after : AssetTables} {asset : AssetRow}
  {entries : (k : HistoryClass) → List (Entry (HistoryRow (Fact k)))} {k : HistoryClass}

/-- The evidence of an Asset is evidence whatever its role. -/
theorem validAssetEvidence_anyRole {refs : References} {org id : Uuid} {ref : Option Uuid}
    {role : Option EvidenceRole} (h : validAssetEvidence refs org ref id role = true) :
    validAssetEvidence refs org ref id none = true := by
  simp only [validAssetEvidence, List.any_eq_true, Bool.and_eq_true] at h ⊢
  obtain ⟨a, ha, hform, l, hl, ⟨hlink, -⟩, hfinite⟩ := h
  exact ⟨a, ha, hform, l, hl, ⟨hlink, by simp⟩, hfinite⟩

/-- A reversal repeats evidence that was checked with what it cancels. -/
theorem SoundAsset.guard_reversal
    (h : SoundAsset ctx.posixSpace creation facts ctx.refs tables asset entries)
    {entry : Entry (HistoryRow (Fact k))} (hentry : entry ∈ entries k) {actor root : Uuid}
    {metadata : CorrectionMetadata} {version : ℕ} :
    guardAssetEvidence ctx.refs tables.orgId k
      (reversalRow ctx actor asset root entry.head metadata version) = .ok () := by
  have hmem := (h.history.classes k).mem_rows hentry entry.head_mem_rows
  obtain ⟨hhead, hasset⟩ := List.mem_filter.mp hmem
  cases k with
  | transition =>
      have hguard := h.evidential.guarded entry.head hhead (of_decide_eq_true hasset)
      rw [guardAssetEvidence, require_eq_ok, of_decide_eq_true hasset] at hguard
      have hpurpose : evidencePurpose
          (reversalRow ctx actor asset root entry.head metadata version) = none := by
        simp [evidencePurpose, reversalRow]
      rw [guardAssetEvidence, require_eq_ok, hpurpose]
      rintro (hneeded | hnone)
      · exact validAssetEvidence_anyRole (hguard (.inl hneeded))
      · exact absurd hnone (by simp)
  | movement | custody | ownership | assignment => rfl

/-- The history of an Asset after a correction passes the deferred check. -/
theorem SoundAsset.checkPairs_amended
    (h : SoundAsset ctx.posixSpace creation facts ctx.refs tables asset entries)
    {args : CorrectionArgs k} {original head reversal corrected : HistoryRow (Fact k)}
    (hamended : Amended ctx k args tables asset original head reversal corrected after)
    (hreason : hasNonSpace ctx.posixSpace corrected.reason ∧
      corrected.reason = normalizeCorrectionReason corrected.reason)
    (hconstrained : after.Constrained ctx.posixSpace) :
    checkPairs ctx k asset.id after = .ok () := by
  obtain ⟨earlier, last, hsplit, rfl, rfl, -⟩ := h.history.correction_target hamended
  obtain ⟨updated, _, _, hid, -, -, hhistory⟩ := h.history.amended hamended
  have hclass := hhistory.classes k
  have hinitial := hhistory.initial
  rw [hid] at hclass hinitial
  have hlast : last ∈ entries k := by simp [hsplit]
  have hoverlaid := (h.history.classes k).overlay.overlaid last hlast
  obtain ⟨heads, hlineage, hheads⟩ := (h.history.classes k).lineage (h.formed k) hlast
  obtain ⟨hroot, hrootAsset⟩ := List.mem_filter.mp hamended.original_mem
  obtain ⟨actor, metadata, hreversal, hcorrected⟩ := hamended.rows_eq
  have hpair : Supersedes last.root (heads last.head.generation) reversal corrected
      last.head.generation := by
    rw [hheads, hreversal, hcorrected]
    have hsame : asset.id = last.root.assetId := (of_decide_eq_true hrootAsset).symm
    exact ⟨⟨rfl, congrArg some hamended.original_id.symm, hsame, rfl⟩,
      ⟨rfl, congrArg some hamended.original_id.symm, hsame, rfl⟩, ⟨rfl, rfl, rfl, rfl⟩,
      ⟨congrArg (· + 1) hamended.head_version.symm, rfl⟩, ⟨rfl, rfl, rfl⟩⟩
  have hafter : after.history k = tables.history k ++ [reversal, corrected] := by
    obtain ⟨_, _, projected, -, rfl⟩ := hamended.after_eq
    exact AssetTables.history_record
  have hformed : Formed ctx.posixSpace (after.history k) asset.id := by
    rw [hafter]
    refine (h.formed k).amend (h.constrained.keys k).ids hroot hoverlaid.root_role hlineage hpair ?_
    rw [hcorrected] at hreason
    rw [hreversal]
    exact ⟨rfl, rfl, hreason⟩
  simp only [checkPairs, require_eq_ok]
  refine ⟨?_, fun hk => ?_⟩
  · exact (not_mem_malformedSql_iff (hconstrained.keys k) (hconstrained.checks k)).mpr
      (hclass.wellFormed hinitial hformed)
  · subst hk
    have horg : after.orgId = tables.orgId := by
      obtain ⟨_, _, projected, -, rfl⟩ := hamended.after_eq
      rfl
    have hkeys := hconstrained.keys .transition
    rw [hafter] at hkeys
    rw [not_mem_evidenceAnomalies, hafter, horg]
    refine h.evidential.amend (h.formed .transition) hkeys hroot hlineage hpair
      (fun other hother => ?_) ?_ ⟨?_, hamended.evidence⟩
    · exact ⟨hamended.reversal_fresh other hother,
        hamended.corrected_fresh other (List.mem_append_left _ hother)⟩
    · rw [hheads, hreversal]
      rfl
    · rw [hreversal]
      exact h.guard_reversal hlast

/-! ## Rows of a pair -/

/-- What the `CHECK` constraints of the classes ask of a correction row. -/
theorem historyChecks_correction {posixSpace : Char → Bool} {row : HistoryRow (Fact k)}
    (hversion : 1 < row.resultVersion) (hlength : reasonLength row.reason)
    (hspace : hasNonSpace posixSpace row.reason)
    (hsource : k = .transition → row.fromFact.isSome)
    (hassign : k = .assignment → row.fromFact.isSome ∨ row.toFact.isSome)
    (htime : row.correctionOccurredAt.all Timestamp.isFinite) :
    historyChecks posixSpace k row = true := by
  have hclass : classChecks posixSpace k row = true := by
    cases k with
    | transition => simp [classChecks, hlength, hversion, hsource rfl]
    | movement | custody | ownership => simp [classChecks, hlength, hspace]
    | assignment =>
        have hsome := hassign rfl
        simp only [classChecks, hlength, hspace, Bool.and_self, Bool.true_and, Bool.or_eq_true]
        exact hsome
  simp [historyChecks, hclass, htime, Nat.lt_of_succ_lt hversion]

/-- Rows appended to a history keep what a row refers to. -/
theorem historyReferences_append {refs : References} {row : HistoryRow (Fact k)}
    {rows : List (HistoryRow (Fact k))} (h : historyReferences refs tables k row = true) :
    historyReferences refs (tables.append k rows) k row = true := by
  simp only [historyReferences, Bool.and_eq_true] at h ⊢
  obtain ⟨⟨hfacts, hroot⟩, hevidence⟩ := h
  refine ⟨⟨hfacts, ?_⟩, hevidence⟩
  cases hrow : row.root with
  | none => rfl
  | some root =>
      rw [hrow, Option.all_some, List.any_eq_true] at hroot
      obtain ⟨r, hr, hid⟩ := hroot
      rw [Option.all_some, List.any_eq_true]
      refine ⟨r, ?_, hid⟩
      simp only [AssetTables.rowsFor, AssetTables.append, Function.update_self, List.filter_append]
      exact List.mem_append_left _ hr

/-- A row of the next generation of a root repeats no key. -/
theorem SoundAsset.unique_correction
    (h : SoundAsset ctx.posixSpace creation facts ctx.refs tables asset entries)
    (hrooted : tables.Rooted) {entry : Entry (HistoryRow (Fact k))} (hentry : entry ∈ entries k)
    {row : HistoryRow (Fact k)} (hasset : row.assetId = asset.id)
    (hversion : asset.version < row.resultVersion) (hroot : row.root = some entry.root.id)
    (hgeneration : row.generation = entry.head.generation + 1)
    (hforeign : row.id ∉ ctx.foreignKeys (.history k))
    (hfresh : ∀ other ∈ tables.history k, other.id ≠ row.id ∧ other.pairId ≠ row.pairId) :
    historyUnique (ctx.foreignKeys (.history k)) (tables.history k) row = true := by
  have hclass := h.history.classes k
  refine historyUnique_iff.mpr ⟨hforeign, fun other hother => ⟨(hfresh other hother).1, ?_, ?_⟩⟩
  · rintro ⟨hsame, hnumber⟩
    have hmem : other ∈ tables.rowsFor k asset.id :=
      List.mem_filter.mpr ⟨hother, decide_eq_true (hsame.trans hasset)⟩
    have hle := h.history.version_le hmem
    omega
  · intro _ _
    refine ⟨fun hpair => (hfresh other hother).2 hpair.2, ?_⟩
    rintro ⟨-, hsame, hnumber⟩
    -- Whatever names the root is of its Asset, and so of its entry.
    obtain ⟨r, hr, hid, hnamed⟩ := hrooted k other hother _ (hsame.trans hroot)
    have hrootMem := hclass.mem_rows hentry entry.root_mem_rows
    obtain ⟨hrootHistory, hrootAsset⟩ := List.mem_filter.mp hrootMem
    obtain rfl := (h.constrained.keys k).ids.eq hr hrootHistory hid
    have hmem : other ∈ tables.rowsFor k asset.id :=
      List.mem_filter.mpr ⟨hother, decide_eq_true (hnamed.symm.trans (by simpa using hrootAsset))⟩
    rw [hclass.rows] at hmem
    have hin := hclass.overlay.mem_of_root hentry hmem (hsame.trans hroot)
    have hle := (hclass.overlay.overlaid entry hentry).generation_le other hin
    omega

end

end FleetOps
