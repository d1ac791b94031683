import FleetOps.Assets.WellFormed
import FleetOps.Foundations.Dictionary
import FleetOps.Foundations.Fallible
import FleetOps.Service
import Mathlib.Data.List.Sort

/-!
# Effective events of raw rows

A read of an Asset's history fetches its raw rows and selects the effective ones
itself: `effectiveEvents` starts from the ordinary rows, groups the correction
rows by root and generation, and replaces each root by its corrected row, one
generation after the other.  It raises where a group is not a pair on top of
the authority below it.

Where the anomaly query reports nothing the groups are the generations of the
lineages (`Lineage`), so that no check fails and what remains of each root is its
last head, which is what the effective view shows.
-/

namespace FleetOps

section

variable {φ : Type}

/-- The rows of a history by what they are filed under, a root's id. -/
abbrev Roots (φ : Type) := List (Uuid × HistoryRow φ)

/-- The correction rows of one root and generation. -/
abbrev PairGroup (φ : Type) := (Uuid × ℕ) × List (HistoryRow φ)

/-- One row of the first loop: an ordinary row is checked, a correction is put in its group. -/
def collectPair (roots : Roots φ) (pairs : List (PairGroup φ)) (row : HistoryRow φ) :
    Service (List (PairGroup φ)) :=
  if row.role = .none then do
    Service.ensure (row.root = none ∧ row.generation = 0) .assetConflict "Malformed ordinary history"
    pure pairs
  else
    match row.root with
    | none => Service.fail .assetConflict "Malformed correction root"
    | some rootId => do
        let root ← Service.fetch (roots.lookup rootId) .assetConflict "Malformed correction root"
        Service.ensure (root.assetId = row.assetId) .assetConflict "Malformed correction root"
        pure (Dictionary.push (rootId, row.generation) row pairs)

/-- One group of the second loop: a whole pair on top of its root's authority replaces it. -/
def amendRoot (roots : Roots φ) : PairGroup φ → Service (Roots φ)
  | ((rootId, generation), [first, second]) => do
      Service.ensure (first.role = .reversal ∧ second.role = .corrected ∨
        first.role = .corrected ∧ second.role = .reversal) .assetConflict "Incomplete correction pair"
      let previous ← Service.fetch (roots.lookup rootId) .keyError "root"
      Service.ensure (generation = previous.generation + 1) .assetConflict
        "Noncontiguous correction generations"
      Service.ensure (first.pairId = second.pairId ∧ first.pairId.isSome ∧
          first.reason = second.reason ∧ first.actorId = second.actorId ∧
          first.correctionOccurredAt = second.correctionOccurredAt ∧
          first.correctionOccurredAt.isSome) .assetConflict
        "Inconsistent correction pair metadata"
      let reversal := if first.role = .reversal then first else second
      let corrected := if first.role = .corrected then first else second
      Service.ensure (reversal.resultVersion = previous.resultVersion + 1 ∧
          corrected.resultVersion = reversal.resultVersion + 1) .assetConflict
        "Invalid correction version provenance"
      pure (Dictionary.put Prod.fst (rootId, corrected) roots)
  | _ => Service.fail .assetConflict "Incomplete correction pair"

/-- `effective_events`; the sorts are stable. -/
def effectiveEvents (rows : List (HistoryRow φ)) : Service (List (HistoryRow φ)) := do
  let ordinary := (rows.filter (·.role = .none)).map fun row => (row.id, row)
  let roots := Dictionary.ofRows Prod.fst ordinary
  let pairs ← rows.foldlM (collectPair roots) []
  let roots ← (pairs.insertionSort fun a b => a.1.2 ≤ b.1.2).foldlM amendRoot roots
  pure ((roots.map Prod.snd).insertionSort fun a b => a.resultVersion ≤ b.resultVersion)

end

/-! ## Heads -/

section

variable {φ : Type} {posixSpace : Char → Bool} {rows : List (HistoryRow φ)}

/-- The number of generations of a root. -/
def lastGeneration (rows : List (HistoryRow φ)) (r : HistoryRow φ) : ℕ :=
  (replacements rows r.assetId (some r.id)).length

/-- What the corrections of a root leave in force. -/
def lastHead (rows : List (HistoryRow φ)) (r : HistoryRow φ) : HistoryRow φ :=
  headAt rows r (lastGeneration rows r)

/-- The authority at a generation of a root. -/
structure HeadOf (rows : List (HistoryRow φ)) (r : HistoryRow φ) (g : ℕ) (p : HistoryRow φ) :
    Prop where
  mem : p ∈ rows
  asset : p.assetId = r.assetId
  rootId : p.rootId = r.id
  generation : p.generation = g
  role : p.role ≠ .reversal

/-- The rows of an Asset form lineages. -/
structure Lineages (rows : List (HistoryRow φ)) (asset : Uuid) : Prop where
  keys : HistoryKeys rows
  ordinary : ∀ r ∈ rows, r.assetId = asset → r.role = .none → r.root = none ∧ r.generation = 0
  named : ∀ c ∈ rows, c.assetId = asset → c.role ≠ .none → c.pairId.isSome ∧
    c.correctionOccurredAt.isSome ∧ ∃ r ∈ rows, c.root = some r.id ∧ r.assetId = asset ∧
      r.role = .none
  lineage : ∀ r ∈ rows, r.assetId = asset → r.role = .none →
    Lineage rows r (lastGeneration rows r) (headAt rows r)

variable {asset : Uuid} {r : HistoryRow φ}

theorem Unreported.lineages [DecidableEq φ] (h : Unreported posixSpace rows asset)
    (hkeys : HistoryKeys rows) (hreasons : ∀ row ∈ rows, reasonLength row.reason) :
    Lineages rows asset := by
  have hrows : ∀ row ∈ rows, row.assetId = asset → WellFormedRow posixSpace rows row :=
    fun row hrow hasset => (malformedRow_iff hkeys (hreasons row hrow)).mp (h.columns row hrow hasset)
  refine ⟨hkeys, fun r hr hasset hrole => ?_, fun c hc hasset hrole => ?_,
    fun r hr hasset hrole => ?_⟩
  · have hcolumns := (hrows r hr hasset).ordinary hrole
    exact ⟨hcolumns.1, hcolumns.2.2.1⟩
  · have hmetadata := (hrows c hc hasset).metadata hrole
    obtain ⟨r, hr, hroot, hsame, hordinary⟩ := (hrows c hc hasset).named hrole
    exact ⟨hmetadata.1, hmetadata.2.2.1, r, hr, hroot, hsame.trans hasset, hordinary⟩
  · obtain ⟨n, hlineage⟩ := h.lineage hkeys hrows hr hasset
    have hlast : lastGeneration rows r = n := by
      simpa [lastGeneration] using (hlineage.perm hkeys).length_eq
    rw [hlast]
    exact hlineage

theorem Lineages.headOf (h : Lineages rows asset) (hr : r ∈ rows) (hasset : r.assetId = asset)
    (hrole : r.role = .none) {g : ℕ} (hg : g ≤ lastGeneration rows r) :
    HeadOf rows r g (headAt rows r g) := by
  cases g with
  | zero =>
      obtain ⟨hroot, hgeneration⟩ := h.ordinary r hr hasset hrole
      exact ⟨hr, rfl, by simp [headAt, HistoryRow.rootId, hroot], hgeneration,
        by simp [headAt, hrole]⟩
  | succ g =>
      obtain ⟨rev, hgeneration⟩ := (h.lineage r hr hasset hrole).next g hg
      obtain ⟨hmem, hcorrects⟩ := hgeneration.corrected
      exact ⟨hmem, hcorrects.asset, by simp [HistoryRow.rootId, hcorrects.root],
        hcorrects.generation, by simp [hcorrects.role]⟩

/-- A row of the generation after `g` of an ordinary row, with that generation's reversal. -/
structure OfGeneration (rows : List (HistoryRow φ)) (asset : Uuid) (c r : HistoryRow φ) (g : ℕ)
    (rev : HistoryRow φ) : Prop where
  ordinary : r ∈ rows ∧ r.assetId = asset ∧ r.role = .none
  root : c.root = some r.id
  lt : g < lastGeneration rows r
  number : c.generation = g + 1
  generation : Generation rows r (g + 1) (headAt rows r g) rev (headAt rows r (g + 1))
  either : c = rev ∨ c = headAt rows r (g + 1)

/-- A correction row is of a generation of an ordinary row of its Asset. -/
theorem Lineages.correction (h : Lineages rows asset) {c : HistoryRow φ} (hc : c ∈ rows)
    (hasset : c.assetId = asset) (hrole : c.role ≠ .none) :
    ∃ r g rev, OfGeneration rows asset c r g rev := by
  obtain ⟨-, -, r, hr, hroot, hsame, hordinary⟩ := h.named c hc hasset hrole
  obtain ⟨g, rev, hg, hgen, hgeneration, hone⟩ :=
    (h.lineage r hr hsame hordinary).mem hc hrole hroot (hasset.trans hsame.symm)
  exact ⟨r, g, rev, ⟨hr, hsame, hordinary⟩, hroot, hg, hgen, hgeneration, hone⟩

/-- A head is superseded exactly below the last one. -/
theorem Lineages.superseded_headOf (h : Lineages rows asset) (hr : r ∈ rows)
    (hasset : r.assetId = asset) (hrole : r.role = .none) {g : ℕ} {p : HistoryRow φ}
    (hp : HeadOf rows r g p) (hg : g ≤ lastGeneration rows r) :
    superseded rows p = false ↔ g = lastGeneration rows r := by
  have hlineage := h.lineage r hr hasset hrole
  have hsuperseded : superseded rows p = true ↔
      ∃ c ∈ rows, c.Corrects r .corrected c.generation ∧ g < c.generation := by
    simp only [superseded, List.any_eq_true, Bool.and_eq_true, beq_iff_eq, decide_eq_true_eq,
      hp.asset, hp.rootId, hp.generation]
    refine exists_congr fun c => and_congr_right fun _ => ?_
    constructor
    · rintro ⟨⟨⟨hsame, hroot⟩, hcorrected⟩, hlt⟩
      exact ⟨⟨hcorrected, hroot, hsame, rfl⟩, hlt⟩
    · rintro ⟨hcorrects, hlt⟩
      exact ⟨⟨⟨hcorrects.asset, hcorrects.root⟩, hcorrects.role⟩, hlt⟩
  rw [← Bool.not_eq_true, hsuperseded]
  constructor
  · intro hnone
    by_contra hne
    obtain ⟨m, hm⟩ : ∃ m, lastGeneration rows r = m + 1 :=
      ⟨lastGeneration rows r - 1, by omega⟩
    obtain ⟨rev, hgeneration⟩ := hlineage.next m (by omega)
    obtain ⟨hmem, hcorrects⟩ := hgeneration.corrected
    refine hnone ⟨_, hmem, ?_, ?_⟩
    · rw [hcorrects.generation]
      exact hcorrects
    · rw [hcorrects.generation]
      omega
  · rintro rfl ⟨c, hc, hcorrects, hlt⟩
    have := hlineage.all c hc (by simp [hcorrects.role]) hcorrects.root hcorrects.asset
    omega

/-- The view shows of every root its last head, and nothing else. -/
theorem Lineages.mem_effective (h : Lineages rows asset) {x : HistoryRow φ} :
    x ∈ effective rows ∧ x.assetId = asset ↔
      ∃ r ∈ rows, r.assetId = asset ∧ r.role = .none ∧ x = lastHead rows r := by
  have hmem : x ∈ effective rows ↔
      x ∈ rows ∧ x.role ≠ .reversal ∧ superseded rows x = false := by
    simp [effective]
  rw [hmem]
  constructor
  · rintro ⟨⟨hx, hrole, hsuperseded⟩, hasset⟩
    by_cases hordinary : x.role = .none
    · have hp := h.headOf hx hasset hordinary (Nat.zero_le _)
      have hlast := (h.superseded_headOf hx hasset hordinary hp (Nat.zero_le _)).mp hsuperseded
      exact ⟨x, hx, hasset, hordinary, by rw [lastHead, ← hlast]; rfl⟩
    · obtain ⟨r, g, rev, hof⟩ := h.correction hx hasset hordinary
      obtain ⟨hr, hsame, hnone⟩ := hof.ordinary
      have hhead : x = headAt rows r (g + 1) := by
        refine hof.either.resolve_left ?_
        rintro rfl
        exact hrole hof.generation.reversal.2.role
      have hp := h.headOf hr hsame hnone (g := g + 1) hof.lt
      rw [← hhead] at hp
      have hlast := (h.superseded_headOf hr hsame hnone hp hof.lt).mp hsuperseded
      exact ⟨r, hr, hsame, hnone, by rw [lastHead, ← hlast, hhead]⟩
  · rintro ⟨r, hr, hasset, hrole, rfl⟩
    have hp := h.headOf hr hasset hrole (Nat.le_refl _)
    exact ⟨⟨hp.mem, hp.role, (h.superseded_headOf hr hasset hrole hp (Nat.le_refl _)).mpr rfl⟩,
      hp.asset.trans hasset⟩

/-! ## The loops -/

/-- The rows of one Asset, in any order. -/
structure Selects (rows : List (HistoryRow φ)) (asset : Uuid) (selected : List (HistoryRow φ)) :
    Prop where
  nodup : selected.Nodup
  mem : ∀ h, h ∈ selected ↔ h ∈ rows ∧ h.assetId = asset

/-- The roots once each is corrected up to a level. -/
def rootsAt (rows selected : List (HistoryRow φ)) (level : HistoryRow φ → ℕ) : Roots φ :=
  (selected.filter (·.role = .none)).map fun r => (r.id, headAt rows r (level r))

/-- The group that a correction belongs to. -/
def pairKey (row : HistoryRow φ) : Uuid × ℕ := (row.rootId, row.generation)

section

variable {selected : List (HistoryRow φ)} {level : HistoryRow φ → ℕ}

theorem Selects.mem_ordinary (hselects : Selects rows asset selected) :
    r ∈ selected.filter (·.role = .none) ↔ r ∈ rows ∧ r.assetId = asset ∧ r.role = .none := by
  rw [List.mem_filter, hselects.mem, decide_eq_true_eq, and_assoc]

theorem Selects.nodup_ids (hselects : Selects rows asset selected) (hkeys : HistoryKeys rows) :
    ((selected.filter (·.role = .none)).map HistoryRow.id).Nodup := by
  refine List.Nodup.map_on (fun a ha b hb hid => ?_) (hselects.nodup.filter _)
  exact hkeys.eq_of_id (hselects.mem_ordinary.mp ha).1 (hselects.mem_ordinary.mp hb).1 hid

theorem lookup_rootsAt (hselects : Selects rows asset selected) (h : Lineages rows asset)
    (hr : r ∈ rows ∧ r.assetId = asset ∧ r.role = .none) :
    (rootsAt rows selected level).lookup r.id = some (headAt rows r (level r)) :=
  Dictionary.lookup_map (hselects.nodup_ids h.keys) _ (hselects.mem_ordinary.mpr hr)

/-- The first loop groups the correction rows. -/
theorem foldlM_collectPair (hselects : Selects rows asset selected) (h : Lineages rows asset) :
    selected.foldlM (collectPair (rootsAt rows selected fun _ => 0)) [] =
      .ok (Dictionary.group pairKey (selected.filter (·.role ≠ .none))) := by
  have hstep : ∀ done row rest pairs, selected = done ++ row :: rest →
      pairs = Dictionary.group pairKey (done.filter (·.role ≠ .none)) →
      ∃ after, collectPair (rootsAt rows selected fun _ => 0) pairs row = .ok after ∧
        after = Dictionary.group pairKey ((done ++ [row]).filter (·.role ≠ .none)) := by
    intro done row rest pairs hitems hpairs
    have hrow : row ∈ rows ∧ row.assetId = asset :=
      (hselects.mem row).mp (hitems ▸ List.mem_append_right _ (List.mem_cons_self ..))
    by_cases hrole : row.role = .none
    · refine ⟨pairs, ?_, ?_⟩
      · rw [collectPair, if_pos hrole]
        simp only [bind_eq_ok, Service.ensure_eq_ok]
        exact ⟨(), h.ordinary row hrow.1 hrow.2 hrole, rfl⟩
      · rw [List.filter_append, hpairs]
        simp [hrole]
    · obtain ⟨r, g, rev, hof⟩ := h.correction hrow.1 hrow.2 hrole
      have hr := hof.ordinary
      have hroot := hof.root
      refine ⟨Dictionary.push (r.id, row.generation) row pairs, ?_, ?_⟩
      · rw [collectPair, if_neg hrole, hroot]
        simp only [bind_eq_ok, Service.fetch_eq_ok, Service.ensure_eq_ok,
          lookup_rootsAt hselects h hr]
        exact ⟨_, rfl, (), hr.2.1.trans hrow.2.symm, rfl⟩
      · have hkey : pairKey row = (r.id, row.generation) := by
          simp [pairKey, HistoryRow.rootId, hroot]
        rw [List.filter_append, List.filter_cons_of_pos (by simpa using hrole), List.filter_nil,
          ← hkey, hpairs, Dictionary.group_concat]
  obtain ⟨final, hrun, hfinal⟩ := Fallible.foldlM_ok_of_invariant
    (fun done pairs => pairs = Dictionary.group pairKey (done.filter (·.role ≠ .none))) selected []
    rfl hstep
  rw [hrun, hfinal]

/-- The group of the generation after `g` of an ordinary row: its pair, in either order. -/
structure GroupOf (rows : List (HistoryRow φ)) (asset : Uuid) (item : PairGroup φ)
    (r : HistoryRow φ) (g : ℕ) (rev : HistoryRow φ) : Prop where
  ordinary : r ∈ rows ∧ r.assetId = asset ∧ r.role = .none
  key : item.1 = (r.id, g + 1)
  lt : g < lastGeneration rows r
  generation : Generation rows r (g + 1) (headAt rows r g) rev (headAt rows r (g + 1))
  pair : item.2 = [rev, headAt rows r (g + 1)] ∨ item.2 = [headAt rows r (g + 1), rev]

/-- A group is the pair of one generation. -/
theorem group_cases (hselects : Selects rows asset selected) (h : Lineages rows asset)
    {item : PairGroup φ}
    (hitem : item ∈ Dictionary.group pairKey (selected.filter (·.role ≠ .none))) :
    ∃ r g rev, GroupOf rows asset item r g rev := by
  have hgrouped : Dictionary.Grouped pairKey (selected.filter (·.role ≠ .none)) _ :=
    Dictionary.grouped_group _
  have hkey := (hgrouped.keys item.1).mp (List.mem_map_of_mem hitem)
  obtain ⟨c, hc, hkey⟩ := List.mem_map.mp hkey
  rw [List.mem_filter, hselects.mem, decide_eq_true_eq] at hc
  obtain ⟨⟨hrow, hasset⟩, hrole⟩ := hc
  obtain ⟨r, g, rev, hof⟩ := h.correction hrow hasset hrole
  have hr := hof.ordinary
  have hgeneration := hof.generation
  have hitemKey : item.1 = (r.id, g + 1) := by
    rw [← hkey, pairKey, HistoryRow.rootId, hof.root, hof.number]
    rfl
  refine ⟨r, g, rev, hr, hitemKey, hof.lt, hgeneration, ?_⟩
  obtain ⟨hrev, hreverses⟩ := hgeneration.reversal
  obtain ⟨hcor, hcorrects⟩ := hgeneration.corrected
  rw [hgrouped.members item hitem, hitemKey]
  refine eq_pair_of_nodup ((hselects.nodup.filter _).filter _) ?_ fun x => ?_
  · intro heq
    rw [heq] at hreverses
    exact absurd (hreverses.role.symm.trans hcorrects.role) (by decide)
  rw [List.mem_filter, List.mem_filter, hselects.mem, decide_eq_true_eq, decide_eq_true_eq]
  constructor
  · rintro ⟨⟨⟨hx, hxasset⟩, hxrole⟩, hxkey⟩
    obtain ⟨s, g', rev', hxof⟩ := h.correction hx hxasset hxrole
    rw [pairKey, HistoryRow.rootId, hxof.root, hxof.number, Option.getD_some,
      Prod.mk.injEq] at hxkey
    obtain rfl := h.keys.eq_of_id hxof.ordinary.1 hr.1 hxkey.1
    obtain rfl : g' = g := by omega
    rcases hxof.either with rfl | rfl
    · exact .inl ((hgeneration.unique _ hx).1 hxof.generation.reversal.2)
    · exact .inr rfl
  · rintro (rfl | rfl)
    · exact ⟨⟨⟨hrev, hreverses.asset.trans hr.2.1⟩, by simp [hreverses.role]⟩, by
        simp [pairKey, HistoryRow.rootId, hreverses.root, hreverses.generation]⟩
    · exact ⟨⟨⟨hcor, hcorrects.asset.trans hr.2.1⟩, by simp [hcorrects.role]⟩, by
        simp [pairKey, HistoryRow.rootId, hcorrects.root, hcorrects.generation]⟩

/-- The groups by ascending generation. -/
def sortedGroups (selected : List (HistoryRow φ)) : List (PairGroup φ) :=
  (Dictionary.group pairKey (selected.filter (·.role ≠ .none))).insertionSort
    fun a b => a.1.2 ≤ b.1.2

/-- In that order every root's generations are 1, 2, … -/
theorem generations_sortedGroups (hselects : Selects rows asset selected) (h : Lineages rows asset)
    (hr : r ∈ rows ∧ r.assetId = asset ∧ r.role = .none) :
    (((sortedGroups selected).filter (·.1.1 = r.id)).map (·.1.2)) =
      List.range' 1 (lastGeneration rows r) := by
  have hgrouped : Dictionary.Grouped pairKey (selected.filter (·.role ≠ .none)) _ :=
    Dictionary.grouped_group _
  have hperm : (sortedGroups selected).Perm _ := List.perm_insertionSort _ _
  have hkeys : ((sortedGroups selected).map Prod.fst).Nodup :=
    (hperm.map Prod.fst).nodup_iff.mpr hgrouped.nodup
  have hnodup : (((sortedGroups selected).filter (·.1.1 = r.id)).map (·.1.2)).Nodup := by
    refine List.Nodup.map_on ?_ (hkeys.of_map.filter _)
    intro a ha b hb hsame
    rw [List.mem_filter, decide_eq_true_eq] at ha hb
    exact List.inj_on_of_nodup_map hkeys ha.1 hb.1
      (Prod.ext (ha.2.trans hb.2.symm) hsame)
  refine List.Perm.eq_of_pairwise' ?_ List.pairwise_le_range'
    ((List.perm_ext_iff_of_nodup hnodup List.nodup_range').mpr fun g => ?_)
  · have hsorted : (sortedGroups selected).Pairwise fun a b => a.1.2 ≤ b.1.2 :=
      List.pairwise_insertionSort _ _
    exact List.pairwise_map.mpr (hsorted.filter _)
  · rw [List.mem_range'_1]
    constructor
    · intro hg
      obtain ⟨item, hitem, rfl⟩ := List.mem_map.mp hg
      rw [List.mem_filter, decide_eq_true_eq] at hitem
      obtain ⟨s, g, rev, hof⟩ := group_cases hselects h (hperm.mem_iff.mp hitem.1)
      have hg := hof.lt
      rw [hof.key] at hitem ⊢
      obtain rfl := h.keys.eq_of_id hof.ordinary.1 hr.1 hitem.2
      omega
    · rintro ⟨hpos, hlt⟩
      obtain ⟨g, rfl⟩ := Nat.exists_eq_add_of_le' hpos
      obtain ⟨rev, hgeneration⟩ := (h.lineage r hr.1 hr.2.1 hr.2.2).next g (by omega)
      obtain ⟨hcor, hcorrects⟩ := hgeneration.corrected
      have hkey : (r.id, g + 1) ∈ (sortedGroups selected).map Prod.fst := by
        have hcorKey : pairKey (headAt rows r (g + 1)) = (r.id, g + 1) := by
          simp [pairKey, HistoryRow.rootId, hcorrects.root, hcorrects.generation]
        rw [(hperm.map Prod.fst).mem_iff, hgrouped.keys, ← hcorKey]
        refine List.mem_map_of_mem (List.mem_filter.mpr ⟨(hselects.mem _).mpr ?_, ?_⟩)
        · exact ⟨hcor, hcorrects.asset.trans hr.2.1⟩
        · simp [hcorrects.role]
      obtain ⟨item, hitem, hfst⟩ := List.mem_map.mp hkey
      refine List.mem_map.mpr ⟨item, List.mem_filter.mpr ⟨hitem, ?_⟩, ?_⟩
      · simp [hfst]
      · simp [hfst]

/-- The number of groups of a root that a prefix of the loop has seen. -/
def seen (done : List (PairGroup φ)) (r : HistoryRow φ) : ℕ :=
  (done.filter (·.1.1 = r.id)).length

/-- One pass of the second loop finds a whole pair on top of its root's authority. -/
theorem amendRoot_step (hselects : Selects rows asset selected) (h : Lineages rows asset)
    {done rest : List (PairGroup φ)} {item : PairGroup φ}
    (hitems : sortedGroups selected = done ++ item :: rest) :
    amendRoot (rootsAt rows selected (seen done)) item =
      .ok (rootsAt rows selected (seen (done ++ [item]))) := by
  have hmem : item ∈ Dictionary.group pairKey (selected.filter (·.role ≠ .none)) := by
    have hsorted : item ∈ sortedGroups selected :=
      hitems ▸ List.mem_append_right _ (List.mem_cons_self ..)
    exact (List.perm_insertionSort _ _).mem_iff.mp hsorted
  obtain ⟨r, g, rev, hof⟩ := group_cases hselects h hmem
  have hr := hof.ordinary
  have hkey := hof.key
  have hgeneration := hof.generation
  have hseen : seen done r = g := by
    have hgenerations := generations_sortedGroups hselects h hr
    rw [hitems, List.filter_append, List.filter_cons_of_pos (by simp [hkey]), List.map_append,
      List.map_cons, hkey] at hgenerations
    have hget := congrArg (·[seen done r]?) hgenerations
    simp only [seen, List.getElem?_append, List.length_map, Nat.lt_irrefl, if_false, Nat.sub_self,
      List.getElem?_cons_zero] at hget
    obtain ⟨hlt, hvalue⟩ := List.getElem?_eq_some_iff.mp hget.symm
    rw [List.getElem_range'] at hvalue
    rw [seen]
    omega
  have hlookup : (rootsAt rows selected (seen done)).lookup r.id = _ := lookup_rootsAt hselects h hr
  rw [hseen] at hlookup
  obtain ⟨hrev, hreverses⟩ := hgeneration.reversal
  obtain ⟨hcor, hcorrects⟩ := hgeneration.corrected
  obtain ⟨hpairId, hactor, hreason, htime⟩ := hgeneration.shared
  obtain ⟨hpairSome, htimeSome, -⟩ := h.named rev hrev (hreverses.asset.trans hr.2.1)
    (by simp [hreverses.role])
  have hprevious := (h.headOf hr.1 hr.2.1 hr.2.2 (Nat.le_of_lt hof.lt)).generation
  have hput : Dictionary.put Prod.fst (r.id, headAt rows r (g + 1))
      (rootsAt rows selected (seen done)) = rootsAt rows selected (seen (done ++ [item])) := by
    rw [rootsAt, Dictionary.put_map (hselects.nodup_ids h.keys) _ (hselects.mem_ordinary.mpr hr),
      rootsAt]
    refine List.map_congr_left fun s hs => ?_
    by_cases hid : s.id = r.id
    · obtain rfl := h.keys.eq_of_id (hselects.mem_ordinary.mp hs).1 hr.1 hid
      have hnext : seen (done ++ [item]) s = g + 1 := by
        simp [seen, hkey, ← hseen]
      rw [if_pos rfl, hnext]
    · have hsame : seen (done ++ [item]) s = seen done s := by
        have hne : ¬item.1.1 = s.id := by
          rw [hkey]
          exact fun heq => hid heq.symm
        simp [seen, hne]
      rw [if_neg hid, hsame]
  have hpair := hof.pair
  obtain ⟨key, pair⟩ := item
  subst hkey
  rcases hpair with rfl | rfl
  · rw [amendRoot]
    simp only [bind_eq_ok, Service.fetch_eq_ok, Service.ensure_eq_ok, hlookup, hreverses.role,
      hcorrects.role, if_true]
    refine ⟨(), .inl ⟨trivial, trivial⟩, _, rfl, (), by rw [hprevious], (), ?_, (), ?_, ?_⟩
    · exact ⟨hpairId.symm, hpairSome, hreason.symm, hactor.symm, htime.symm, htimeSome⟩
    · exact hgeneration.versions
    · exact congrArg Except.ok hput
  · rw [amendRoot]
    simp only [bind_eq_ok, Service.fetch_eq_ok, Service.ensure_eq_ok, hlookup, hreverses.role,
      hcorrects.role, if_true]
    refine ⟨(), .inr ⟨trivial, trivial⟩, _, rfl, (), by rw [hprevious], (), ?_, (), ?_, ?_⟩
    · exact ⟨hpairId, hpairId ▸ hpairSome, hreason, hactor, htime, htime ▸ htimeSome⟩
    · exact hgeneration.versions
    · exact congrArg Except.ok hput

/-- What the loops leave is every root's last head. -/
theorem effectiveEvents_eq (hselects : Selects rows asset selected) (h : Lineages rows asset) :
    effectiveEvents selected =
      .ok (((selected.filter (·.role = .none)).map (lastHead rows)).insertionSort
        fun a b => a.resultVersion ≤ b.resultVersion) := by
  have hroots : Dictionary.ofRows Prod.fst
      ((selected.filter (·.role = .none)).map fun row => (row.id, row)) =
        rootsAt rows selected fun _ => 0 := by
    refine Dictionary.ofRows_of_nodup ?_
    rw [List.map_map]
    exact hselects.nodup_ids h.keys
  obtain ⟨final, hrun, rfl⟩ := Fallible.foldlM_ok_of_invariant
    (fun done roots => roots = rootsAt rows selected (seen done)) (sortedGroups selected)
    (rootsAt rows selected fun _ => 0) rfl fun done item rest before hitems hbefore =>
      ⟨_, hbefore ▸ amendRoot_step hselects h hitems, rfl⟩
  have hlast : (rootsAt rows selected (seen (sortedGroups selected))).map Prod.snd =
      (selected.filter (·.role = .none)).map (lastHead rows) := by
    rw [rootsAt, List.map_map]
    refine List.map_congr_left fun r hr => ?_
    have hgenerations := congrArg List.length
      (generations_sortedGroups hselects h (hselects.mem_ordinary.mp hr))
    rw [List.length_map, List.length_range'] at hgenerations
    show headAt rows r (seen (sortedGroups selected) r) = lastHead rows r
    rw [seen, hgenerations, lastHead]
  rw [effectiveEvents, hroots, Fallible.bind_ok _ (foldlM_collectPair hselects h), ← sortedGroups,
    Fallible.bind_ok _ hrun, hlast]
  rfl

/-- They are the rows of the view, by version. -/
theorem effectiveEvents_ordered (hselects : Selects rows asset selected) (h : Lineages rows asset) :
    ∃ events, effectiveEvents selected = .ok events ∧
      events.Perm ((effective rows).filter (·.assetId = asset)) ∧
      events.Pairwise fun a b => a.resultVersion < b.resultVersion := by
  have hheads : ∀ r ∈ selected.filter (·.role = .none),
      HeadOf rows r (lastGeneration rows r) (lastHead rows r) := fun r hr => by
    obtain ⟨hmem, hasset, hrole⟩ := hselects.mem_ordinary.mp hr
    exact h.headOf hmem hasset hrole (Nat.le_refl _)
  have hperm : (((selected.filter (·.role = .none)).map (lastHead rows)).insertionSort
      fun a b => a.resultVersion ≤ b.resultVersion).Perm
        ((effective rows).filter (·.assetId = asset)) := by
    refine (List.perm_insertionSort _ _).trans ((List.perm_ext_iff_of_nodup ?_ ?_).mpr fun x => ?_)
    · refine List.Nodup.map_on (fun a ha b hb hsame => ?_) (hselects.nodup.filter _)
      refine h.keys.eq_of_id (hselects.mem_ordinary.mp ha).1 (hselects.mem_ordinary.mp hb).1 ?_
      rw [← (hheads a ha).rootId, ← (hheads b hb).rootId, hsame]
    · exact (h.keys.ids.of_map.filter _).filter _
    · rw [List.mem_filter, decide_eq_true_eq, h.mem_effective, List.mem_map]
      constructor
      · rintro ⟨r, hr, rfl⟩
        obtain ⟨hmem, hasset, hrole⟩ := hselects.mem_ordinary.mp hr
        exact ⟨r, hmem, hasset, hrole, rfl⟩
      · rintro ⟨r, hmem, hasset, hrole, rfl⟩
        exact ⟨r, hselects.mem_ordinary.mpr ⟨hmem, hasset, hrole⟩, rfl⟩
  refine ⟨_, effectiveEvents_eq hselects h, hperm, ?_⟩
  -- One version is one row, so that ascending versions are strictly ascending.
  have hnodup := hperm.nodup_iff.mpr ((h.keys.ids.of_map.filter _).filter _)
  refine ((List.pairwise_insertionSort _ _).and hnodup).imp_of_mem fun ha hb hle => ?_
  refine lt_of_le_of_ne hle.1 fun hversion => hle.2 ?_
  have hmem := fun {x} (hx : x ∈ _) => List.mem_filter.mp (hperm.mem_iff.mp hx)
  have hrow := fun {x} (hx : x ∈ effective rows) => (List.mem_filter.mp hx).1
  have ha' := hmem ha
  have hb' := hmem hb
  rw [decide_eq_true_eq] at ha' hb'
  exact (h.keys.versions _ (hrow ha'.1) _ (hrow hb'.1) (hb'.2.trans ha'.2.symm) hversion.symm).symm

end

end

/-! ## Python against SQL -/

/-- What `effective_events` returns of an Asset's raw rows, in any order, is the view's rows of
the Asset by version. -/
theorem effectiveEventsAgree {posixSpace : Char → Bool} {tables : AssetTables} {k : HistoryClass}
    {asset : Uuid} (hkeys : HistoryKeys (tables.history k))
    (hchecks : ∀ row ∈ tables.history k, historyChecks posixSpace k row)
    (hgood : asset ∉ malformedSql posixSpace tables k) {rows : List (HistoryRow (Fact k))}
    (hrows : rows.Perm (tables.rowsFor k asset)) :
    ∃ events, effectiveEvents rows = .ok events ∧
      events.Perm ((effective (tables.history k)).filter (·.assetId = asset)) ∧
      events.Pairwise fun a b => a.resultVersion < b.resultVersion := by
  have hselects : Selects (tables.history k) asset rows := by
    refine ⟨hrows.nodup_iff.mpr (hkeys.ids.of_map.filter _), fun h => ?_⟩
    rw [hrows.mem_iff, AssetTables.rowsFor, List.mem_filter, decide_eq_true_eq]
  exact effectiveEvents_ordered hselects ((not_mem_malformedSql.mp hgood).1.lineages hkeys
    fun row hrow => reasonLength_of_historyChecks (hchecks row hrow))

theorem effectiveEventsAgree_sample :
    ∃ events, effectiveEvents sampleMovements.reverse = .ok events ∧
      events.Perm ((effective (correctedTables.history .movement)).filter (·.assetId = 8)) ∧
      events.Pairwise fun a b => a.resultVersion < b.resultVersion := by
  have hkeys : HistoryKeys (correctedTables.history .movement) := sampleMovements_keys
  have hgood : 8 ∉ malformedSql sampleContext.posixSpace correctedTables .movement := by decide
  exact effectiveEventsAgree hkeys (by decide) hgood (List.reverse_perm _)

end FleetOps
