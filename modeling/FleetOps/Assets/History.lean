import FleetOps.Assets.Calls
import FleetOps.Assets.Overlay

/-!
# The history invariant of an Asset

`ClassHistory` says that the rows of one class are well formed entries whose
facts chain from the class's baseline; `AssetHistory` ties the five classes of
an Asset together by their shared version counter and by the projections.

The invariant is kept by recording one row (`AssetHistory.recorded`) and by
amending the newest assertion (`AssetHistory.amended`), which are all that an
accepted call does.
-/

namespace FleetOps

open Amendment

/-- The rows of one class of an Asset, as entries chained from the baseline. -/
structure ClassHistory (tables : AssetTables) (k : HistoryClass) (asset : Uuid)
    (baseline : Option (Fact k)) (entries : List (Entry (HistoryRow (Fact k)))) : Prop where
  rows : tables.rowsFor k asset = rowsOf entries
  overlay : Entries asset entries
  numbered : ∀ entry ∈ entries, entry.Numbered HistoryRow.resultVersion
  ascending : Ascending HistoryRow.resultVersion entries
  chained : Chained HistoryRow.fromFact HistoryRow.toFact baseline entries

namespace ClassHistory

variable {tables : AssetTables} {k : HistoryClass} {asset : Uuid} {baseline : Option (Fact k)}
  {entries : List (Entry (HistoryRow (Fact k)))}

/-- The rows of an entry are among the Asset's. -/
theorem mem_rows (h : ClassHistory tables k asset baseline entries)
    {entry : Entry (HistoryRow (Fact k))} (hentry : entry ∈ entries) {row : HistoryRow (Fact k)}
    (hrow : row ∈ entry.rows) : row ∈ tables.rowsFor k asset := by
  rw [h.rows]
  exact mem_rowsOf.mpr ⟨entry, hentry, hrow⟩

/-- The effective rows of the class are the heads of its entries. -/
theorem effective_eq (h : ClassHistory tables k asset baseline entries) :
    (effective (tables.history k)).filter (·.assetId = asset) = entries.map Entry.head := by
  rw [effective_filter]
  exact (congrArg effective h.rows).trans h.overlay.effective_rowsOf

/-- The latest effective row is the last head. -/
theorem latestEffective_eq (h : ClassHistory tables k asset baseline entries) :
    latestEffective (tables.history k) asset = entries.getLast?.map Entry.head := by
  rw [latestEffective, h.effective_eq, Query.latestBy_eq_getLast? h.ascending.heads,
    List.getLast?_map]

/-- What held before a version is the last head below it. -/
theorem effectiveBefore_eq (earlier later : List (Entry (HistoryRow (Fact k)))) {version : ℕ}
    (h : ClassHistory tables k asset baseline (earlier ++ later))
    (hbelow : ∀ entry ∈ earlier, entry.head.resultVersion < version)
    (habove : ∀ entry ∈ later, version ≤ entry.head.resultVersion) :
    effectiveBefore (tables.history k) asset version = earlier.getLast?.map Entry.head := by
  have hview : (effective (tables.history k)).filter
      (fun row => decide (row.assetId = asset ∧ row.resultVersion < version)) =
        earlier.map Entry.head := by
    have hsplit : (effective (tables.history k)).filter
        (fun row => decide (row.assetId = asset ∧ row.resultVersion < version)) =
          ((effective (tables.history k)).filter (·.assetId = asset)).filter
            (fun row => decide (row.resultVersion < version)) := by
      rw [List.filter_filter]
      exact List.filter_congr fun row _ => by simp [Bool.and_comm]
    rw [hsplit, h.effective_eq, List.map_append, List.filter_append]
    have hkeep : (earlier.map Entry.head).filter (fun row => decide (row.resultVersion < version)) =
        earlier.map Entry.head := by
      refine List.filter_eq_self.mpr fun row hrow => ?_
      obtain ⟨entry, hentry, rfl⟩ := List.mem_map.mp hrow
      simpa using hbelow entry hentry
    have hdrop : (later.map Entry.head).filter (fun row => decide (row.resultVersion < version)) =
        [] := by
      refine List.filter_eq_nil_iff.mpr fun row hrow => ?_
      obtain ⟨entry, hentry, rfl⟩ := List.mem_map.mp hrow
      simpa using habove entry hentry
    rw [hkeep, hdrop, List.append_nil]
  have hsorted := h.ascending.heads
  rw [List.map_append] at hsorted
  rw [effectiveBefore, hview, Query.latestBy_eq_getLast? (List.pairwise_append.mp hsorted).1,
    List.getLast?_map]

/-- What held before a root is the head before its entry. -/
theorem effectiveBefore_root {earlier later : List (Entry (HistoryRow (Fact k)))}
    {entry : Entry (HistoryRow (Fact k))}
    (h : ClassHistory tables k asset baseline (earlier ++ entry :: later)) :
    effectiveBefore (tables.history k) asset entry.root.resultVersion =
      earlier.getLast?.map Entry.head := by
  have hrows := h.ascending
  unfold Ascending at hrows
  rw [rowsOf_append, rowsOf_cons] at hrows
  obtain ⟨-, hlater, hearlier⟩ := List.pairwise_append.mp hrows
  refine effectiveBefore_eq earlier (entry :: later) h ?_ ?_
  · intro other hother
    exact hearlier _ (mem_rowsOf.mpr ⟨other, hother, other.head_mem_rows⟩) _
      (List.mem_append_left _ entry.root_mem_rows)
  · intro other hother
    rcases List.mem_cons.mp hother with rfl | hother
    · exact (h.numbered other (by simp)).root_le other.head_mem_rows
    · exact ((List.pairwise_append.mp hlater).2.2 _ entry.root_mem_rows _
        (mem_rowsOf.mpr ⟨other, hother, other.head_mem_rows⟩)).le

theorem standingFact_eq {facts : InitialFacts}
    (h : ClassHistory tables k asset (facts.baseline k) entries)
    (hfacts : tables.initialFacts? asset = some facts) :
    standingFact tables k asset = standing HistoryRow.toFact (facts.baseline k) entries := by
  rw [standingFact, h.latestEffective_eq, hfacts, standing]
  cases entries.getLast? <;> rfl

/-- A row recorded at the end. -/
theorem concat {after : AssetTables} {row : HistoryRow (Fact k)}
    (h : ClassHistory tables k asset baseline entries)
    (hafter : after.rowsFor k asset = tables.rowsFor k asset ++ [row])
    (hordinary : row.role = .none ∧ row.root = none ∧ row.generation = 0)
    (hasset : row.assetId = asset) (hfresh : ∀ other ∈ tables.rowsFor k asset, other.id ≠ row.id)
    (hversion : ∀ other ∈ tables.rowsFor k asset, other.resultVersion < row.resultVersion)
    (hsource : row.fromFact = standing HistoryRow.toFact baseline entries) :
    ClassHistory after k asset baseline (entries ++ [Entry.plain row]) := by
  have hrowsOf : rowsOf (entries ++ [Entry.plain row]) = rowsOf entries ++ [row] := by simp
  rw [h.rows] at hfresh hversion
  refine ⟨?_, ⟨?_, ?_, ?_⟩, ?_, ?_, h.chained.concat hsource⟩
  · rw [hafter, h.rows, hrowsOf]
  · intro entry hentry
    rcases List.mem_append.mp hentry with hold | hnew
    · exact h.overlay.overlaid entry hold
    · rw [List.mem_singleton.mp hnew]
      exact .plain hordinary.1 hordinary.2.1 hordinary.2.2
  · intro other hother
    rw [hrowsOf, List.mem_append, List.mem_singleton] at hother
    rcases hother with hold | rfl
    · exact h.overlay.asset other hold
    · exact hasset
  · rw [hrowsOf, List.map_append, List.nodup_append]
    refine ⟨h.overlay.ids, List.nodup_singleton _, ?_⟩
    intro id hid fresh hnew
    obtain ⟨other, hother, rfl⟩ := List.mem_map.mp hid
    rw [List.map_singleton, List.mem_singleton] at hnew
    exact hnew ▸ hfresh other hother
  · intro entry hentry
    rcases List.mem_append.mp hentry with hold | hnew
    · exact h.numbered entry hold
    · rw [List.mem_singleton.mp hnew]
      exact Entry.numbered_plain row
  · unfold Ascending
    rw [hrowsOf]
    exact h.ascending.append_rows (List.pairwise_singleton _ _) (by simpa using hversion)

/-- A correction pair appended to the last entry. -/
theorem amendLast {after : AssetTables} {earlier : List (Entry (HistoryRow (Fact k)))}
    {last : Entry (HistoryRow (Fact k))}
    (h : ClassHistory tables k asset baseline (earlier ++ [last]))
    (pair : HistoryRow (Fact k) × HistoryRow (Fact k))
    (hafter : after.rowsFor k asset = tables.rowsFor k asset ++ [pair.1, pair.2])
    (hroles : pair.1.role = .reversal ∧ pair.2.role = .corrected)
    (hroots : pair.1.root = some last.root.id ∧ pair.2.root = some last.root.id)
    (hgenerations : pair.1.generation = last.head.generation + 1 ∧
      pair.2.generation = last.head.generation + 1)
    (hasset : pair.1.assetId = asset ∧ pair.2.assetId = asset)
    (hfresh : ∀ other ∈ tables.rowsFor k asset, other.id ≠ pair.1.id ∧ other.id ≠ pair.2.id)
    (hdistinct : pair.1.id ≠ pair.2.id)
    (hversions : pair.1.resultVersion = last.head.resultVersion + 1 ∧
      pair.2.resultVersion = last.head.resultVersion + 2)
    (hsource : pair.2.fromFact = standing HistoryRow.toFact baseline earlier) :
    ClassHistory after k asset baseline (earlier ++ [last.amend pair]) := by
  have hlast : last ∈ earlier ++ [last] := by simp
  have hnumbered := h.numbered last hlast
  have hbelow : ∀ other ∈ rowsOf (earlier ++ [last]),
      other.resultVersion ≤ last.head.resultVersion := by
    intro other hother
    obtain ⟨entry, hentry, hrow⟩ := mem_rowsOf.mp hother
    have hhead := (h.numbered entry hentry).le_head hrow
    rcases List.mem_append.mp hentry with hold | hnew
    · have hheads := h.ascending.heads
      rw [List.map_append] at hheads
      exact hhead.trans ((List.pairwise_append.mp hheads).2.2 _ (List.mem_map_of_mem hold) _
        (by simp)).le
    · rwa [List.mem_singleton.mp hnew] at hhead
  rw [h.rows] at hfresh
  refine ⟨?_, ⟨?_, ?_, ?_⟩, ?_, ?_, h.chained.amendLast hsource⟩
  · rw [hafter, h.rows, rowsOf_amendLast]
  · intro entry hentry
    rcases List.mem_append.mp hentry with hold | hnew
    · exact h.overlay.overlaid entry (List.mem_append_left _ hold)
    · rw [List.mem_singleton.mp hnew]
      exact .amend (h.overlay.overlaid last hlast) hroles hroots hgenerations
  · intro other hother
    rw [rowsOf_amendLast, List.mem_append] at hother
    rcases hother with hold | hnew
    · exact h.overlay.asset other hold
    · simp only [List.mem_cons, List.not_mem_nil, or_false] at hnew
      rcases hnew with rfl | rfl
      · exact hasset.1
      · exact hasset.2
  · rw [rowsOf_amendLast, List.map_append, List.nodup_append]
    refine ⟨h.overlay.ids, by simpa using hdistinct, ?_⟩
    intro id hid fresh hnew
    obtain ⟨other, hother, rfl⟩ := List.mem_map.mp hid
    simp only [List.map_cons, List.map_nil, List.mem_cons, List.not_mem_nil, or_false] at hnew
    rcases hnew with rfl | rfl
    · exact (hfresh other hother).1
    · exact (hfresh other hother).2
  · intro entry hentry
    rcases List.mem_append.mp hentry with hold | hnew
    · exact h.numbered entry (List.mem_append_left _ hold)
    · rw [List.mem_singleton.mp hnew]
      exact hnumbered.amend hversions.1 hversions.2
  · unfold Ascending
    rw [rowsOf_amendLast]
    refine h.ascending.append_rows (by simp [hversions.1, hversions.2]) ?_
    intro old hold new hnew
    have hle := hbelow old hold
    simp only [List.mem_cons, List.not_mem_nil, or_false] at hnew
    rcases hnew with rfl | rfl
    · omega
    · omega

end ClassHistory

/-- What the entries of a class project on the Asset's row. -/
def standingProjection (k : HistoryClass) (facts : InitialFacts)
    (entries : List (Entry (HistoryRow (Fact k)))) : Option (Projected k) :=
  match entries.getLast? with
  | some entry => entry.head.projected k
  | none => factProjected k (facts.baseline k)

/-- The lifecycle begins with the creation event, which is never amended. -/
def BeginsWith (creation : HistoryRow AssetState) (entries : List (Entry (HistoryRow AssetState))) :
    Prop :=
  ∃ rest, entries = Entry.plain creation :: rest

/-- The histories of an Asset: five classes under one version counter, and their projections. -/
structure AssetHistory (creation : HistoryRow AssetState) (facts : InitialFacts)
    (tables : AssetTables) (asset : AssetRow)
    (entries : (k : HistoryClass) → List (Entry (HistoryRow (Fact k)))) : Prop where
  found : tables.assets.find? (·.id = asset.id) = some asset
  initial : tables.initialFacts? asset.id = some facts
  versions : (tables.versionsFor asset.id).Perm (List.range' 1 asset.version)
  classes : ∀ k, ClassHistory tables k asset.id (facts.baseline k) (entries k)
  projections : ∀ k, asset.projection k = standingProjection k facts (entries k)
  creation : BeginsWith creation (entries .transition)

namespace AssetHistory

variable {creation : HistoryRow AssetState} {facts : InitialFacts} {tables after : AssetTables}
  {asset : AssetRow}
  {entries : (k : HistoryClass) → List (Entry (HistoryRow (Fact k)))}

/-- No row is above the Asset's version. -/
theorem version_le (h : AssetHistory creation facts tables asset entries) {k : HistoryClass}
    {row : HistoryRow (Fact k)} (hrow : row ∈ tables.rowsFor k asset.id) :
    row.resultVersion ≤ asset.version := by
  have hmem : row.resultVersion ∈ tables.versionsFor asset.id :=
    List.mem_flatMap.mpr ⟨k, k.mem_all, List.mem_map_of_mem hrow⟩
  have hrange := h.versions.subset hmem
  rw [List.mem_range'_1] at hrange
  omega

/-- Recording rows for one Asset leaves the histories of the others alone. -/
theorem record_other (h : AssetHistory creation facts tables asset entries) {k : HistoryClass}
    {rows : List (HistoryRow (Fact k))} {other : AssetRow}
    (hrows : ∀ row ∈ rows, row.assetId = other.id) (hne : asset.id ≠ other.id) :
    AssetHistory creation facts (tables.record k rows other) asset entries := by
  refine ⟨?_, h.initial, ?_, ?_, h.projections, h.creation⟩
  · rw [AssetTables.find_record_other hne]
    exact h.found
  · rw [AssetTables.versionsFor_record_other hrows hne]
    exact h.versions
  · intro j
    obtain ⟨hj, hoverlay, hnumbered, hascending, hchained⟩ := h.classes j
    exact ⟨(AssetTables.rowsFor_record_other hrows hne j).trans hj, hoverlay, hnumbered, hascending,
      hchained⟩

/-- Recording rows in one class of an Asset, as a change of that class's entries. -/
theorem record_self (h : AssetHistory creation facts tables asset entries) {k : HistoryClass}
    {rows : List (HistoryRow (Fact k))} {updated : AssetRow}
    {fresh : List (Entry (HistoryRow (Fact k)))}
    (hid : updated.id = asset.id) (hrows : ∀ row ∈ rows, row.assetId = asset.id)
    (hversion : updated.version = asset.version + rows.length)
    (hnumbers : rows.map HistoryRow.resultVersion =
      List.range' (asset.version + 1) rows.length)
    (hclass : ClassHistory (tables.record k rows updated) k asset.id (facts.baseline k) fresh)
    (hprojection : updated.projection k = standingProjection k facts fresh)
    (hframe : ∀ other, other ≠ k → updated.projection other = asset.projection other)
    (hcreation : BeginsWith creation (Function.update entries k fresh .transition)) :
    AssetHistory creation facts (tables.record k rows updated) updated
      (Function.update entries k fresh) := by
  have hrowsUpdated : ∀ row ∈ rows, row.assetId = updated.id := by
    intro row hrow
    rw [hid]
    exact hrows row hrow
  refine ⟨?_, ?_, ?_, ?_, ?_, hcreation⟩
  · exact AssetTables.find_record_self updated (hid ▸ h.found)
  · rw [AssetTables.initialFacts?_record, hid]
    exact h.initial
  · refine (AssetTables.versionsFor_record_self hrowsUpdated).trans ?_
    rw [hnumbers, hid, hversion, ← List.range'_append_1]
    rw [Nat.add_comm 1]
    exact h.versions.append_right _
  · intro j
    rw [hid]
    by_cases hj : j = k
    · subst hj
      rw [Function.update_self]
      exact hclass
    · rw [Function.update_of_ne hj]
      obtain ⟨hrowsOf, hoverlay, hnumbered, hascending, hchained⟩ := h.classes j
      exact ⟨(AssetTables.rowsFor_record_of_ne hj asset.id).trans hrowsOf, hoverlay, hnumbered,
        hascending, hchained⟩
  · intro j
    by_cases hj : j = k
    · subst hj
      rw [Function.update_self]
      exact hprojection
    · rw [Function.update_of_ne hj, hframe j hj]
      exact h.projections j

theorem beginsWith_append {first more : List (Entry (HistoryRow AssetState))}
    (h : BeginsWith creation first) : BeginsWith creation (first ++ more) := by
  obtain ⟨rest, rfl⟩ := h
  exact ⟨rest ++ more, rfl⟩

/-- An accepted ordinary operation adds an entry to its class. -/
theorem recorded (h : AssetHistory creation facts tables asset entries) {ctx : Context}
    {k : HistoryClass}
    {assetId : Uuid} {expected : Option ℕ} {row : HistoryRow (Fact k)}
    (hrecorded : Recorded ctx k assetId expected tables asset row after) :
    ∃ updated, updated.id = asset.id ∧
      AssetHistory creation facts after updated
        (Function.update entries k (entries k ++ [Entry.plain row])) := by
  obtain ⟨projected, hprojected, rfl⟩ := hrecorded.after_eq
  obtain ⟨hid, hframe⟩ := setProjection_frame hprojected
  have hrows : ∀ other ∈ [row], other.assetId = asset.id := by
    simpa using hrecorded.row_asset
  have hversion : [row].map HistoryRow.resultVersion = List.range' (asset.version + 1) 1 := by
    simp [hrecorded.row_version]
  refine ⟨projected.atVersion (asset.version + 1), hid,
    h.record_self hid hrows rfl hversion ?_ ?_ ?_ ?_⟩
  · refine (h.classes k).concat ?_ ⟨hrecorded.row_role, hrecorded.row_root,
      hrecorded.row_generation⟩ hrecorded.row_asset ?_ ?_ ?_
    · rw [← hid] at hrows ⊢
      exact tables.rowsFor_record_self (projected.atVersion (asset.version + 1)) hrows
    · exact fun other hother => hrecorded.fresh other (List.mem_filter.mp hother).1
    · intro other hother
      rw [hrecorded.row_version]
      exact Nat.lt_succ_of_le (h.version_le hother)
    · rw [hrecorded.source, (h.classes k).standingFact_eq h.initial]
  · rw [AssetRow.projection_atVersion, setProjection_projection hprojected, standingProjection,
      List.getLast?_concat]
    rfl
  · intro other hother
    rw [AssetRow.projection_atVersion, hframe other hother]
  · cases k with
    | transition => simpa using beginsWith_append h.creation
    | movement | custody | ownership | assignment => simpa using h.creation

/-- A corrected root is the root of its class's last entry, whose head made the Asset's version. -/
theorem correction_target (h : AssetHistory creation facts tables asset entries) {ctx : Context}
    {k : HistoryClass} {args : CorrectionArgs k}
    {original head reversal corrected : HistoryRow (Fact k)}
    (hamended : Amended ctx k args tables asset original head reversal corrected after) :
    ∃ earlier last, entries k = earlier ++ [last] ∧ head = last.head ∧ original = last.root ∧
      effectiveBefore (tables.history k) asset.id original.resultVersion =
        earlier.getLast?.map Entry.head := by
  have hclass := h.classes k
  have hheadMem := hamended.head_mem
  rw [hclass.effective_eq] at hheadMem
  obtain ⟨last, hlast, rfl⟩ := List.mem_map.mp hheadMem
  -- The head made the Asset's version, so no head of the class is above it.
  have hmax : ∀ entry ∈ entries k, entry.head.resultVersion ≤ asset.version := by
    intro entry hentry
    exact h.version_le (hclass.mem_rows hentry entry.head_mem_rows)
  obtain ⟨earlier, later, hsplit⟩ := List.append_of_mem hlast
  have hascending := hclass.ascending.heads
  rw [hsplit, List.map_append, List.map_cons] at hascending
  obtain ⟨-, hlater, hearlier⟩ := List.pairwise_append.mp hascending
  have hnil : later = [] := by
    cases later with
    | nil => rfl
    | cons next rest =>
        have hlt := (List.pairwise_cons.mp hlater).1 next.head (by simp)
        have hle := hmax next (by simp [hsplit])
        have heq := hamended.head_version
        omega
  subst hnil
  have horiginalMem := hamended.original_mem
  rw [hclass.rows] at horiginalMem
  have hheadRow : last.head ∈ rowsOf (entries k) :=
    mem_rowsOf.mpr ⟨last, hlast, last.head_mem_rows⟩
  -- The head belongs to the root that was named, and so does its entry.
  have hroot : original.id = last.root.id := by
    have hoverlaid := hclass.overlay.overlaid last hlast
    have hheadRoot := hoverlaid.rootId_eq last.head last.head_mem_rows
    rcases hamended.head_root with hid | hroot
    · have heq := hclass.overlay.eq_of_id horiginalMem hheadRow
        (hamended.original_id.trans hid.symm)
      rw [heq, hoverlaid.eq_root last.head_mem_rows (heq ▸ hamended.original_role)]
    · rw [HistoryRow.rootId, hroot, Option.getD_some] at hheadRoot
      exact hamended.original_id.trans hheadRoot
  have horiginal : original = last.root :=
    hclass.overlay.eq_of_id horiginalMem (mem_rowsOf.mpr ⟨last, hlast, last.root_mem_rows⟩) hroot
  refine ⟨earlier, last, hsplit, rfl, horiginal, ?_⟩
  rw [horiginal]
  exact (hsplit ▸ hclass).effectiveBefore_root

/-- What held before a version is what the entries before it left. -/
theorem standingBefore_eq (h : AssetHistory creation facts tables asset entries) {k : HistoryClass}
    {earlier : List (Entry (HistoryRow (Fact k)))} {version : ℕ}
    (hbefore : effectiveBefore (tables.history k) asset.id version =
      earlier.getLast?.map Entry.head) :
    standingBefore tables k asset.id version =
      standing HistoryRow.toFact (facts.baseline k) earlier := by
  rw [standingBefore, hbefore, h.initial, standing]
  cases earlier.getLast? <;> rfl

/-- An accepted correction amends the last entry of its class. -/
theorem amended (h : AssetHistory creation facts tables asset entries) {ctx : Context}
    {k : HistoryClass}
    {args : CorrectionArgs k} {original head reversal corrected : HistoryRow (Fact k)}
    (hamended : Amended ctx k args tables asset original head reversal corrected after) :
    ∃ updated earlier last, updated.id = asset.id ∧ entries k = earlier ++ [last] ∧
      effectiveBefore (tables.history k) asset.id original.resultVersion =
        earlier.getLast?.map Entry.head ∧
      AssetHistory creation facts after updated
        (Function.update entries k (earlier ++ [last.amend (reversal, corrected)])) := by
  obtain ⟨earlier, last, hentries, rfl, rfl, hbefore⟩ := h.correction_target hamended
  obtain ⟨actor, metadata, hreversal, hcorrected⟩ := hamended.rows_eq
  obtain ⟨_, _, projected, hprojected, rfl⟩ := hamended.after_eq
  obtain ⟨hid, hframe⟩ := setProjection_frame hprojected
  have hearlier : k = .transition → earlier ≠ [] := by
    rintro hk rfl
    have hsome := hamended.replaceable hk
    rw [hbefore] at hsome
    simp at hsome
  have hrows := hamended.rows_asset
  have hversion : [reversal, corrected].map HistoryRow.resultVersion =
      List.range' (asset.version + 1) 2 := by
    simp [hreversal, hcorrected, reversalRow, correctedRow, List.range']
  have hsource : corrected.fromFact = standing HistoryRow.toFact (facts.baseline k) earlier := by
    rw [hcorrected, ← h.standingBefore_eq hbefore]
    rfl
  refine ⟨projected.atVersion (asset.version + 2), earlier, last, hid, hentries, hbefore,
    h.record_self hid hrows rfl hversion ?_ ?_ ?_ ?_⟩
  · have hclass := h.classes k
    rw [hentries] at hclass
    refine hclass.amendLast (reversal, corrected) ?_ ?_ ?_ ?_ ?_ ?_ ?_ ?_ hsource
    · rw [show asset.id = projected.id from hid.symm] at hrows ⊢
      exact tables.rowsFor_record_self (projected.atVersion (asset.version + 2)) hrows
    · simp [hreversal, hcorrected, reversalRow, correctedRow]
    · simp [hreversal, hcorrected, reversalRow, correctedRow, hamended.original_id]
    · simp [hreversal, hcorrected, reversalRow, correctedRow]
    · simpa using hrows
    · intro other hother
      have hmem := (List.mem_filter.mp hother).1
      exact ⟨hamended.reversal_fresh other hmem,
        hamended.corrected_fresh other (List.mem_append_left _ hmem)⟩
    · exact hamended.corrected_fresh reversal (by simp)
    · simp [hreversal, hcorrected, reversalRow, correctedRow, hamended.head_version]
  · rw [AssetRow.projection_atVersion, setProjection_projection hprojected, standingProjection,
      List.getLast?_concat]
    simp
  · intro other hother
    rw [AssetRow.projection_atVersion, hframe other hother, AssetRow.projection_updatedBy]
  · cases k with
    | transition =>
        obtain ⟨rest, hbegins⟩ := h.creation
        rw [hentries] at hbegins
        obtain ⟨first, more, rfl⟩ := List.exists_cons_of_ne_nil (hearlier rfl)
        simp only [List.cons_append, List.cons.injEq] at hbegins
        simp only [Function.update_self]
        exact ⟨_, by rw [List.cons_append, hbegins.1]⟩
    | movement | custody | ownership | assignment => simpa using h.creation

/-- A call that locked a row under this Asset's id locked its row. -/
theorem eq_of_found (h : AssetHistory creation facts tables asset entries) {org id : Uuid}
    {locked : AssetRow} (hfound : tables.asset? org id = some locked) (hsame : locked.id = asset.id) :
    locked = asset := by
  have hfind := (asset?_eq_some.mp hfound).2
  rw [← asset?_id hfound, hsame, h.found] at hfind
  exact (Option.some.inj hfind).symm

/-- An operation on any Asset: on this one it adds an entry, on another it changes nothing here. -/
theorem of_recorded (h : AssetHistory creation facts tables asset entries) {ctx : Context}
    {k : HistoryClass} {assetId : Uuid} {expected : Option ℕ} {locked : AssetRow}
    {row : HistoryRow (Fact k)}
    (hrecorded : Recorded ctx k assetId expected tables locked row after) :
    (locked = asset ∧ ∃ updated, updated.id = asset.id ∧
        AssetHistory creation facts after updated
          (Function.update entries k (entries k ++ [Entry.plain row]))) ∨
      AssetHistory creation facts after asset entries := by
  by_cases hsame : locked.id = asset.id
  · obtain ⟨org, hfound⟩ := hrecorded.found
    obtain rfl := h.eq_of_found hfound hsame
    exact .inl ⟨rfl, h.recorded hrecorded⟩
  · obtain ⟨projected, hprojected, rfl⟩ := hrecorded.after_eq
    have hkey := (setProjection_frame hprojected).1
    refine .inr (h.record_other ?_ ?_)
    · simp [hkey, hrecorded.row_asset]
    · simpa [hkey] using Ne.symm hsame

/-- A correction on any Asset: on this one it amends the last entry of its class. -/
theorem of_amended (h : AssetHistory creation facts tables asset entries) {ctx : Context}
    {k : HistoryClass} {args : CorrectionArgs k} {locked : AssetRow}
    {original head reversal corrected : HistoryRow (Fact k)}
    (hamended : Amended ctx k args tables locked original head reversal corrected after) :
    (locked = asset ∧ ∃ updated earlier last, updated.id = asset.id ∧
        entries k = earlier ++ [last] ∧
        effectiveBefore (tables.history k) asset.id original.resultVersion =
          earlier.getLast?.map Entry.head ∧
        AssetHistory creation facts after updated
          (Function.update entries k (earlier ++ [last.amend (reversal, corrected)]))) ∨
      AssetHistory creation facts after asset entries := by
  by_cases hsame : locked.id = asset.id
  · obtain ⟨org, hfound⟩ := hamended.found
    obtain rfl := h.eq_of_found hfound hsame
    exact .inl ⟨rfl, h.amended hamended⟩
  · obtain ⟨actor, now, projected, hprojected, rfl⟩ := hamended.after_eq
    have hkey := (setProjection_frame hprojected).1
    refine .inr (h.record_other ?_ ?_)
    · simpa [hkey] using hamended.rows_asset
    · simpa [hkey] using Ne.symm hsame

/-- An accepted call keeps the histories of every Asset, and every class but its own as it was. -/
theorem perform (h : AssetHistory creation facts tables asset entries)
    {request : Context × Call} (hperform : FleetOps.perform request tables = .ok after) :
    ∃ updated fresh, updated.id = asset.id ∧ AssetHistory creation facts after updated fresh ∧
      ∀ j, j ≠ request.2.historyClass → fresh j = entries j := by
  obtain ⟨ctx, call⟩ := request
  rcases perform_cases hperform with ⟨-, locked, row, hrecorded⟩ | ⟨k, args, rfl, locked, original,
    head, reversal, corrected, hamended⟩
  · rcases h.of_recorded hrecorded with ⟨-, updated, hid, hafter⟩ | hafter
    · exact ⟨updated, _, hid, hafter, fun j hj => Function.update_of_ne hj ..⟩
    · exact ⟨asset, entries, rfl, hafter, fun _ _ => rfl⟩
  · rcases h.of_amended hamended with ⟨-, updated, earlier, last, hid, -, -, hafter⟩ | hafter
    · exact ⟨updated, _, hid, hafter, fun j hj => Function.update_of_ne hj ..⟩
    · exact ⟨asset, entries, rfl, hafter, fun _ _ => rfl⟩

end AssetHistory

end FleetOps
