import FleetOps.Assets.Authority

/-!
# Well formed correction histories

`malformed_sql` is a union of five anomaly queries.  `WellFormed` says what they
are to exclude: of every ordinary row the corrections count generations from 1,
each a reversal that repeats what it cancels and a replacement, one version
after the other (`Lineage`), and every replacement starts from the fact in force
before its root.

`wellFormedHistories` proves the two equivalent for any rows that satisfy the keys
and unique indexes of their table.
-/

namespace FleetOps

open Keys

section

variable {φ : Type}

/-! ## Generations -/

/-- A correction row of a root, in this role and generation. -/
structure HistoryRow.Corrects (h r : HistoryRow φ) (role : CorrectionRole) (g : ℕ) : Prop where
  role : h.role = role
  root : h.root = some r.id
  asset : h.assetId = r.assetId
  generation : h.generation = g

/-- One generation of a root: `rev` cancels the authority `p`, `cor` replaces it. -/
structure Generation (rows : List (HistoryRow φ)) (r : HistoryRow φ) (g : ℕ)
    (p rev cor : HistoryRow φ) : Prop where
  reversal : rev ∈ rows ∧ rev.Corrects r .reversal g
  corrected : cor ∈ rows ∧ cor.Corrects r .corrected g
  /-- There is one row of each kind. -/
  unique : ∀ h ∈ rows, (h.Corrects r .reversal g → h = rev) ∧ (h.Corrects r .corrected g → h = cor)
  shared : cor.pairId = rev.pairId ∧ cor.actorId = rev.actorId ∧ cor.reason = rev.reason ∧
    cor.correctionOccurredAt = rev.correctionOccurredAt
  versions : rev.resultVersion = p.resultVersion + 1 ∧ cor.resultVersion = rev.resultVersion + 1
  repeats : rev.fromFact = p.fromFact ∧ rev.toFact = p.toFact ∧ rev.occurredAt = p.occurredAt

/-- The generations of a root are 1 to `n`; `head g` is the authority after `g` of them. -/
structure Lineage (rows : List (HistoryRow φ)) (r : HistoryRow φ) (n : ℕ)
    (head : ℕ → HistoryRow φ) : Prop where
  root : head 0 = r
  next : ∀ g, g < n → ∃ rev, Generation rows r (g + 1) (head g) rev (head (g + 1))
  all : ∀ h ∈ rows, h.role ≠ .none → h.root = some r.id → h.assetId = r.assetId →
    1 ≤ h.generation ∧ h.generation ≤ n

/-- The columns of an ordinary row and of a correction row. -/
structure WellFormedRow (posixSpace : Char → Bool) (rows : List (HistoryRow φ))
    (h : HistoryRow φ) : Prop where
  ordinary : h.role = .none → h.root = none ∧ h.pairId = none ∧ h.generation = 0 ∧
    h.correctionOccurredAt = none
  named : h.role ≠ .none → ∃ r ∈ rows, h.root = some r.id ∧ r.assetId = h.assetId ∧ r.role = .none
  metadata : h.role ≠ .none → h.pairId.isSome ∧ 1 ≤ h.generation ∧ h.correctionOccurredAt.isSome ∧
    hasNonSpace posixSpace h.reason ∧ h.reason = normalizeCorrectionReason h.reason

end

/-- The fact in force just before a root: the latest effective one, or else the baseline. -/
def factBefore (tables : AssetTables) (k : HistoryClass) (r : HistoryRow (Fact k)) :
    Option (Fact k) :=
  match effectiveBefore (tables.history k) r.assetId r.resultVersion with
  | some p => p.toFact
  | none => (tables.initialFacts? r.assetId).bind fun facts => facts.baseline k

/-- The rows of an Asset in one history form whole generations. -/
structure WellFormed (posixSpace : Char → Bool) (tables : AssetTables) (k : HistoryClass)
    (asset : Uuid) : Prop where
  rows : ∀ h ∈ tables.history k, h.assetId = asset → WellFormedRow posixSpace (tables.history k) h
  roots : ∀ r ∈ tables.history k, r.assetId = asset → r.role = .none →
    ∃ n head, Lineage (tables.history k) r n head
  sources : ∀ c ∈ tables.history k, c.assetId = asset → c.role = .corrected →
    ∀ r ∈ tables.history k, r.assetId = asset → c.root = some r.id →
      c.fromFact = factBefore tables k r

/-! ## Each query -/

section

variable {φ : Type} {posixSpace : Char → Bool} {rows : List (HistoryRow φ)}

theorem HistoryKeys.eq_of_id (hkeys : HistoryKeys rows) {r s : HistoryRow φ} (hr : r ∈ rows)
    (hs : s ∈ rows) (hid : r.id = s.id) : r = s :=
  hkeys.ids.eq hr hs hid

/-- A lookup of a root by Asset and id. -/
theorem HistoryKeys.find?_root (hkeys : HistoryKeys rows) {h r : HistoryRow φ} (hr : r ∈ rows)
    (hasset : r.assetId = h.assetId) (hroot : h.root = some r.id) :
    rows.find? (fun r => r.assetId == h.assetId && some r.id == h.root) = some r := by
  refine hkeys.ids.find?_of_imp hr ?_ fun other _ hother => ?_
  · simp [hasset, hroot]
  · simp only [hroot, Bool.and_eq_true, beq_iff_eq, Option.some.injEq] at hother
    exact hother.2

theorem length_le_of_normalized {reason : String} (h : reason = normalizeCorrectionReason reason)
    (hlength : reasonLength reason) : reason.length ≤ 4000 := by
  rw [reasonLength, btrim_of_normalized h.symm, Bool.and_eq_true, decide_eq_true_eq,
    decide_eq_true_eq] at hlength
  exact hlength.2

/-- The query of single rows. -/
theorem malformedRow_iff (hkeys : HistoryKeys rows) {h : HistoryRow φ}
    (hreason : reasonLength h.reason) :
    malformedRow posixSpace rows h = false ↔ WellFormedRow posixSpace rows h := by
  by_cases hrole : h.role = .none
  · have hordinary : malformedRow posixSpace rows h = false ↔ h.root = none ∧ h.pairId = none ∧
        h.generation = 0 ∧ h.correctionOccurredAt = none := by
      simp [malformedRow, hrole, and_assoc]
    rw [hordinary]
    constructor
    · intro hcolumns
      exact ⟨fun _ => hcolumns, fun hne => absurd hrole hne, fun hne => absurd hrole hne⟩
    · intro hrow
      exact hrow.ordinary hrole
  · have hnamed : (rows.find? fun r => r.assetId == h.assetId && some r.id == h.root).all
        (·.role != .none) = false ↔
          ∃ r ∈ rows, h.root = some r.id ∧ r.assetId = h.assetId ∧ r.role = .none := by
      constructor
      · intro hall
        cases hfind : rows.find? fun r => r.assetId == h.assetId && some r.id == h.root with
        | none => simp [hfind] at hall
        | some r =>
            have hmatch := List.find?_some hfind
            simp only [Bool.and_eq_true, beq_iff_eq] at hmatch
            exact ⟨r, List.mem_of_find?_eq_some hfind, hmatch.2.symm, hmatch.1,
              by simpa [hfind] using hall⟩
      · rintro ⟨r, hr, hroot, hasset, hnone⟩
        simp [hkeys.find?_root hr hasset hroot, hnone]
    have hcolumns : malformedRow posixSpace rows h = false ↔ h.root.isSome ∧
        (∃ r ∈ rows, h.root = some r.id ∧ r.assetId = h.assetId ∧ r.role = .none) ∧
        h.pairId.isSome ∧ 1 ≤ h.generation ∧ h.correctionOccurredAt.isSome ∧
        hasNonSpace posixSpace h.reason ∧ h.reason.length ≤ 4000 ∧
        h.reason = normalizeCorrectionReason h.reason := by
      rw [← hnamed]
      simp only [malformedRow, hrole, if_false, Bool.or_eq_false_iff, Option.isNone_eq_false_iff,
        decide_eq_false_iff_not, Bool.not_eq_false', bne_eq_false_iff_eq, not_lt, and_assoc]
    rw [hcolumns]
    constructor
    · rintro ⟨-, hroot, hpair, hgeneration, htime, hspace, -, hnormal⟩
      exact ⟨fun hnone => absurd hnone hrole, fun _ => hroot,
        fun _ => ⟨hpair, hgeneration, htime, hspace, hnormal⟩⟩
    · intro hrow
      obtain ⟨r, hr, hroot, hnamed⟩ := hrow.named hrole
      obtain ⟨hpair, hgeneration, htime, hspace, hnormal⟩ := hrow.metadata hrole
      exact ⟨hroot ▸ rfl, ⟨r, hr, hroot, hnamed⟩, hpair, hgeneration, htime, hspace,
        length_le_of_normalized hnormal hreason, hnormal⟩

/-- The two rows that share a pair id. -/
structure Twins (rows : List (HistoryRow φ)) (pair : Option Uuid)
    (rev cor : HistoryRow φ) : Prop where
  reversal : rev ∈ rows ∧ rev.role = .reversal ∧ rev.pairId = pair
  corrected : cor ∈ rows ∧ cor.role = .corrected ∧ cor.pairId = pair
  only : ∀ h ∈ rows, h.role ≠ .none → h.pairId = pair → h = rev ∨ h = cor
  asset : cor.assetId = rev.assetId
  root : ∀ x ∈ rev.root, ∀ y ∈ cor.root, y = x
  generation : cor.generation = rev.generation
  shared : cor.actorId = rev.actorId ∧ cor.reason = rev.reason
  time : ∀ x ∈ rev.correctionOccurredAt, ∀ y ∈ cor.correctionOccurredAt, y = x
  version : cor.resultVersion = rev.resultVersion + 1

/-- The correction rows of a pair id. -/
def pairRows (rows : List (HistoryRow φ)) (pair : Option Uuid) : List (HistoryRow φ) :=
  rows.filter fun h => h.role != .none && h.pairId == pair

theorem mem_pairRows {pair : Option Uuid} {h : HistoryRow φ} :
    h ∈ pairRows rows pair ↔ h ∈ rows ∧ h.role ≠ .none ∧ h.pairId = pair := by
  simp [pairRows]

@[simp] theorem countDistinct_pair {α : Type} [DecidableEq α] (x y : α) :
    countDistinct [x, y] = 1 ↔ y = x := by
  unfold countDistinct
  by_cases heq : x = y
  · subst heq
    simp
  · rw [List.dedup_eq_self.mpr (by simpa using heq)]
    simpa using fun h : y = x => heq h.symm

theorem countDistinct_filterMap_pair {α : Type} [DecidableEq α] {f : HistoryRow φ → Option α}
    {a b : HistoryRow φ} (h : countDistinct ([a, b].filterMap f) = 1) :
    ∀ x ∈ f a, ∀ y ∈ f b, y = x := by
  intro x hx y hy
  have hboth : [a, b].filterMap f = [x, y] := by
    rw [List.filterMap_cons_some hx, List.filterMap_cons_some hy, List.filterMap_nil]
  rw [hboth] at h
  exact (countDistinct_pair x y).mp h

/-- A list of two members is one of their two arrangements. -/
theorem eq_pair_of_nodup {α : Type} {l : List α} {a b : α} (hnodup : l.Nodup) (hne : a ≠ b)
    (hmem : ∀ x, x ∈ l ↔ x = a ∨ x = b) : l = [a, b] ∨ l = [b, a] := by
  have hperm : l.Perm [a, b] :=
    (List.perm_ext_iff_of_nodup hnodup (by simpa using hne)).mpr fun x => by simp [hmem]
  obtain ⟨x, y, rfl⟩ := List.length_eq_two.mp hperm.length_eq
  rcases (hmem x).mp (by simp) with rfl | rfl
  · rcases (hmem y).mp (by simp) with rfl | rfl
    · simp at hnodup
    · exact .inl rfl
  · rcases (hmem y).mp (by simp) with rfl | rfl
    · exact .inr rfl
    · simp at hnodup

/-- The query of pairs. -/
theorem twins_of_not_malformedPair {pair : Option Uuid} {h : HistoryRow φ} (hrow : h ∈ rows)
    (hrole : h.role ≠ .none) (hpair : h.pairId = pair) (hgood : malformedPair rows pair = false) :
    ∃ rev cor, Twins rows pair rev cor := by
  have hmem : h ∈ pairRows rows pair := mem_pairRows.mpr ⟨hrow, hrole, hpair⟩
  have hne : (pairRows rows pair).isEmpty = false := by
    cases hgroup : pairRows rows pair with
    | nil => rw [hgroup] at hmem; exact absurd hmem List.not_mem_nil
    | cons head rest => rfl
  unfold malformedPair at hgood
  rw [← pairRows] at hgood
  simp only [hne, Bool.not_false, Bool.true_and, Bool.or_eq_false_iff, bne_eq_false_iff_eq] at hgood
  obtain ⟨⟨⟨⟨⟨⟨⟨⟨⟨htwo, hasset⟩, hroot⟩, hgeneration⟩, hreversals⟩, hcorrected⟩, hreason⟩, hactor⟩,
    htime⟩, hversion⟩ := hgood
  obtain ⟨a, b, hgroup⟩ := List.length_eq_two.mp htwo
  have hrows : ∀ other, other ∈ rows → other.role ≠ .none → other.pairId = pair →
      other = a ∨ other = b := by
    intro other hother hcorrection hsame
    have hin := mem_pairRows.mpr ⟨hother, hcorrection, hsame⟩
    rw [hgroup] at hin
    simpa using hin
  have ha := mem_pairRows.mp (hgroup ▸ List.mem_cons_self .. : a ∈ pairRows rows pair)
  have hb := mem_pairRows.mp
    (hgroup ▸ List.mem_cons_of_mem _ (List.mem_cons_self ..) : b ∈ pairRows rows pair)
  rw [hgroup] at hasset hroot hgeneration hreversals hcorrected hreason hactor htime hversion
  simp only [List.map_cons, List.map_nil, countDistinct_pair] at hasset hgeneration hreason hactor
  have hroots := countDistinct_filterMap_pair hroot
  have htimes := countDistinct_filterMap_pair htime
  cases harole : a.role with
  | none => exact absurd harole ha.2.1
  | reversal =>
      cases hbrole : b.role with
      | none => exact absurd hbrole hb.2.1
      | reversal => simp [harole, hbrole] at hreversals
      | corrected =>
          simp [harole, hbrole] at hversion
          exact ⟨a, b, ⟨ha.1, harole, ha.2.2⟩, ⟨hb.1, hbrole, hb.2.2⟩, hrows, hasset, hroots,
            hgeneration, ⟨hactor, hreason⟩, htimes, hversion⟩
  | corrected =>
      cases hbrole : b.role with
      | none => exact absurd hbrole hb.2.1
      | corrected => simp [harole, hbrole] at hreversals
      | reversal =>
          simp [harole, hbrole] at hversion
          exact ⟨b, a, ⟨hb.1, hbrole, hb.2.2⟩, ⟨ha.1, harole, ha.2.2⟩,
            fun other hother hcorrection hsame => (hrows other hother hcorrection hsame).symm,
            hasset.symm, fun x hx y hy => (hroots y hy x hx).symm, hgeneration.symm,
            ⟨hactor.symm, hreason.symm⟩, fun x hx y hy => (htimes y hy x hx).symm, hversion⟩

/-- The converse: a complete pair is no anomaly. -/
theorem malformedPair_of_rows (hkeys : HistoryKeys rows) {pair : Uuid} {rev cor : HistoryRow φ}
    (hrev : rev ∈ rows ∧ rev.role = .reversal ∧ rev.pairId = some pair)
    (hcor : cor ∈ rows ∧ cor.role = .corrected ∧ cor.pairId = some pair)
    (hasset : cor.assetId = rev.assetId) (hroot : rev.root.isSome ∧ cor.root = rev.root)
    (hgeneration : cor.generation = rev.generation) (hreason : cor.reason = rev.reason)
    (hactor : cor.actorId = rev.actorId)
    (htime : rev.correctionOccurredAt.isSome ∧ cor.correctionOccurredAt = rev.correctionOccurredAt)
    (hversion : cor.resultVersion = rev.resultVersion + 1) :
    malformedPair rows (some pair) = false := by
  have hne : rev ≠ cor := by
    rintro rfl
    exact absurd (hrev.2.1.symm.trans hcor.2.1) (by decide)
  -- The unique index leaves no third row of the pair.
  have hmem : ∀ h, h ∈ pairRows rows (some pair) ↔ h = rev ∨ h = cor := by
    intro h
    rw [mem_pairRows]
    constructor
    · rintro ⟨hrow, hrole, hpair⟩
      cases hkind : h.role with
      | none => exact absurd hkind hrole
      | reversal =>
          refine .inl (hkeys.pairs rev hrev.1 h hrow ?_ ?_ ?_ ?_) <;> simp_all
      | corrected =>
          refine .inr (hkeys.pairs cor hcor.1 h hrow ?_ ?_ ?_ ?_) <;> simp_all
    · rintro (rfl | rfl)
      · exact ⟨hrev.1, by simp [hrev.2.1], hrev.2.2⟩
      · exact ⟨hcor.1, by simp [hcor.2.1], hcor.2.2⟩
  have hnodup : (pairRows rows (some pair)).Nodup := (hkeys.ids.of_map).filter _
  obtain ⟨root, hsome⟩ := Option.isSome_iff_exists.mp hroot.1
  obtain ⟨time, hoccurred⟩ := Option.isSome_iff_exists.mp htime.1
  rw [malformedPair, ← pairRows]
  rcases eq_pair_of_nodup hnodup hne hmem with hgroup | hgroup
  · simp [hgroup, hasset, hroot.2, hsome, hgeneration, hreason, hactor, htime.2, hoccurred, hversion,
      hrev.2.1, hcor.2.1]
  · simp [hgroup, hasset, hroot.2, hsome, hgeneration, hreason, hactor, htime.2, hoccurred, hversion,
      hrev.2.1, hcor.2.1]

/-! ### Generations -/

/-- The rows that replace a root. -/
def replacements (rows : List (HistoryRow φ)) (asset : Uuid) (root : Option Uuid) :
    List (HistoryRow φ) :=
  rows.filter fun h => h.role == .corrected && h.assetId == asset && h.root == root

theorem mem_replacements {asset : Uuid} {root : Option Uuid} {h : HistoryRow φ} :
    h ∈ replacements rows asset root ↔
      h ∈ rows ∧ h.role = .corrected ∧ h.assetId = asset ∧ h.root = root := by
  simp [replacements, and_assoc]

/-- Positive numbers that are as many, and as many distinct ones, as the greatest are all up to
it. -/
theorem perm_range'_of_count {values : List ℕ} (hpos : ∀ g ∈ values, 1 ≤ g)
    (hlength : some values.length = values.max?)
    (hdistinct : some (countDistinct values) = values.max?) :
    values.Perm (List.range' 1 values.length) := by
  have hnodup : values.Nodup := by
    have hall : values.dedup.length = values.length :=
      Option.some.inj (hdistinct.trans hlength.symm)
    rw [← List.dedup_eq_self]
    exact (List.dedup_sublist values).eq_of_length hall
  have hle := (List.max?_eq_some_iff.mp hlength.symm).2
  refine (List.subperm_of_subset hnodup fun g hg => ?_).perm_of_length_le (by simp)
  rw [List.mem_range'_1]
  exact ⟨hpos g hg, by have := hle g hg; omega⟩

/-- The converse. -/
theorem count_of_perm_range' {values : List ℕ} {n : ℕ} (hperm : values.Perm (List.range' 1 n))
    (hn : 0 < n) :
    values.max? = some n ∧ values.length = n ∧ countDistinct values = n := by
  have hlength : values.length = n := by simpa using hperm.length_eq
  have hnodup : values.Nodup := hperm.nodup_iff.mpr List.nodup_range'
  refine ⟨List.max?_eq_some_iff.mpr ⟨hperm.mem_iff.mpr ?_, fun g hg => ?_⟩, hlength, ?_⟩
  · rw [List.mem_range'_1]
    omega
  · have := List.mem_range'_1.mp (hperm.mem_iff.mp hg)
    omega
  · rw [countDistinct, List.dedup_eq_self.mpr hnodup, hlength]

/-- The query of generations. -/
theorem malformedGenerations_iff {asset : Uuid} {root : Option Uuid}
    (hpos : ∀ h ∈ replacements rows asset root, 1 ≤ h.generation) :
    malformedGenerations rows asset root = false ↔
      ∃ n, ((replacements rows asset root).map HistoryRow.generation).Perm (List.range' 1 n) := by
  have hvalues : ∀ g ∈ (replacements rows asset root).map HistoryRow.generation, 1 ≤ g := by
    intro g hg
    obtain ⟨h, hh, rfl⟩ := List.mem_map.mp hg
    exact hpos h hh
  rw [malformedGenerations, ← replacements]
  generalize (replacements rows asset root).map HistoryRow.generation = values at hvalues
  constructor
  · intro hgood
    cases values with
    | nil => exact ⟨0, .refl _⟩
    | cons g rest =>
        simp only [List.isEmpty_cons, Bool.not_false, Bool.true_and, Bool.or_eq_false_iff,
          bne_eq_false_iff_eq] at hgood
        exact ⟨_, perm_range'_of_count hvalues hgood.1 hgood.2⟩
  · rintro ⟨n, hperm⟩
    cases n with
    | zero => rw [List.range'_zero] at hperm; rw [hperm.eq_nil]; rfl
    | succ n =>
        obtain ⟨hmax, hlength, hdistinct⟩ := count_of_perm_range' hperm (Nat.succ_pos n)
        simp [hmax, hlength, hdistinct]

/-! ### Lineages -/

/-- The queries of one history's own columns do not name an Asset. -/
structure Unreported [DecidableEq φ] (posixSpace : Char → Bool) (rows : List (HistoryRow φ))
    (asset : Uuid) : Prop where
  columns : ∀ h ∈ rows, h.assetId = asset → malformedRow posixSpace rows h = false
  pairs : ∀ h ∈ rows, h.assetId = asset → h.pairId.isSome → malformedPair rows h.pairId = false
  generations : ∀ h ∈ rows, h.assetId = asset → h.role = .corrected →
    malformedGenerations rows h.assetId h.root = false
  reversals : ∀ h ∈ rows, h.assetId = asset → malformedReversal rows h = false

/-- The authority after `g` corrections of a root. -/
def headAt (rows : List (HistoryRow φ)) (r : HistoryRow φ) : ℕ → HistoryRow φ
  | 0 => r
  | g + 1 => ((replacements rows r.assetId (some r.id)).find? fun h => h.generation == g + 1).getD r

theorem headAt_succ {r : HistoryRow φ} {n g : ℕ} (hg : g < n)
    (hperm : ((replacements rows r.assetId (some r.id)).map HistoryRow.generation).Perm
      (List.range' 1 n)) :
    headAt rows r (g + 1) ∈ rows ∧ (headAt rows r (g + 1)).Corrects r .corrected (g + 1) := by
  have hmem : g + 1 ∈ (replacements rows r.assetId (some r.id)).map HistoryRow.generation := by
    rw [hperm.mem_iff, List.mem_range'_1]
    omega
  obtain ⟨c, hc, hgeneration⟩ := List.mem_map.mp hmem
  cases hfind : (replacements rows r.assetId (some r.id)).find? fun h => h.generation == g + 1 with
  | none => exact absurd (beq_iff_eq.mpr hgeneration) (List.find?_eq_none.mp hfind c hc)
  | some found =>
      obtain ⟨hrow, hrole, hasset, hroot⟩ := mem_replacements.mp (List.mem_of_find?_eq_some hfind)
      have hfound := List.find?_some hfind
      rw [headAt, hfind, Option.getD_some]
      exact ⟨hrow, hrole, hroot, hasset, beq_iff_eq.mp hfound⟩

theorem eq_of_forall_mem {α : Type} {a b : Option α} (ha : a.isSome) (hb : b.isSome)
    (h : ∀ x ∈ a, ∀ y ∈ b, y = x) : b = a := by
  obtain ⟨x, rfl⟩ := Option.isSome_iff_exists.mp ha
  obtain ⟨y, rfl⟩ := Option.isSome_iff_exists.mp hb
  exact congrArg some (h x rfl y rfl)

section

variable {asset : Uuid} {r : HistoryRow φ}

/-- A correction is one of the two rows of its generation. -/
theorem Lineage.mem {n : ℕ} {head : ℕ → HistoryRow φ} (h : Lineage rows r n head)
    {c : HistoryRow φ} (hc : c ∈ rows) (hrole : c.role ≠ .none) (hroot : c.root = some r.id)
    (hasset : c.assetId = r.assetId) :
    ∃ g rev, g < n ∧ c.generation = g + 1 ∧ Generation rows r (g + 1) (head g) rev (head (g + 1)) ∧
      (c = rev ∨ c = head (g + 1)) := by
  obtain ⟨hpos, hle⟩ := h.all c hc hrole hroot hasset
  obtain ⟨g, hg⟩ := Nat.exists_eq_add_of_le' hpos
  obtain ⟨rev, hgeneration⟩ := h.next g (by omega)
  refine ⟨g, rev, by omega, hg, hgeneration, ?_⟩
  cases hkind : c.role with
  | none => exact absurd hkind hrole
  | reversal => exact .inl ((hgeneration.unique c hc).1 ⟨hkind, hroot, hasset, hg⟩)
  | corrected => exact .inr ((hgeneration.unique c hc).2 ⟨hkind, hroot, hasset, hg⟩)

/-- The replacements of a lineage count its generations. -/
theorem Lineage.perm {n : ℕ} {head : ℕ → HistoryRow φ} (h : Lineage rows r n head)
    (hkeys : HistoryKeys rows) :
    ((replacements rows r.assetId (some r.id)).map HistoryRow.generation).Perm
      (List.range' 1 n) := by
  have hnodup : ((replacements rows r.assetId (some r.id)).map HistoryRow.generation).Nodup := by
    refine List.Nodup.map_on ?_ ((hkeys.ids.of_map).filter _)
    intro a ha b hb hsame
    obtain ⟨harow, harole, -, haroot⟩ := mem_replacements.mp ha
    obtain ⟨hbrow, hbrole, -, hbroot⟩ := mem_replacements.mp hb
    refine hkeys.generations b hbrow a harow ?_ ?_ ?_ ?_ hsame <;>
      simp [harole, hbrole, haroot, hbroot]
  refine (List.perm_ext_iff_of_nodup hnodup List.nodup_range').mpr fun g => ?_
  rw [List.mem_range'_1]
  constructor
  · intro hg
    obtain ⟨c, hc, rfl⟩ := List.mem_map.mp hg
    obtain ⟨hrow, hrole, hasset, hroot⟩ := mem_replacements.mp hc
    have := h.all c hrow (by simp [hrole]) hroot hasset
    omega
  · rintro ⟨hpos, hlt⟩
    obtain ⟨g, rfl⟩ := Nat.exists_eq_add_of_le' hpos
    obtain ⟨rev, hgeneration⟩ := h.next g (by omega)
    obtain ⟨hcor, hcorrects⟩ := hgeneration.corrected
    rw [← hcorrects.generation]
    exact List.mem_map_of_mem
      (mem_replacements.mpr ⟨hcor, hcorrects.role, hcorrects.asset, hcorrects.root⟩)

/-- A reversal cancels the authority of the generation below it. -/
theorem Lineage.head_of_cancels {n g : ℕ} {head : ℕ → HistoryRow φ} (h : Lineage rows r n head)
    (hkeys : HistoryKeys rows) (hr : r ∈ rows) (hg : g < n) {rev p : HistoryRow φ}
    (hrev : rev.Corrects r .reversal (g + 1)) (hp : p ∈ rows) (hcancels : cancels rev p = true) :
    p = head g := by
  simp only [cancels, hrev.generation, hrev.root, hrev.asset, Bool.and_eq_true, Bool.or_eq_true,
    beq_iff_eq, decide_eq_true_eq, Option.some.injEq] at hcancels
  obtain ⟨hasset, ⟨hfirst, hid⟩ | ⟨⟨⟨⟨hlater, -⟩, hroot⟩, hgeneration⟩, hrole⟩⟩ := hcancels
  · have hzero : g = 0 := by omega
    rw [hzero, h.root]
    exact hkeys.eq_of_id hp hr hid
  · obtain ⟨g, rfl⟩ : ∃ m, g = m + 1 := ⟨g - 1, by omega⟩
    obtain ⟨below, hbelow⟩ := h.next g (by omega)
    exact (hbelow.unique p hp).2 ⟨hrole, hroot, hasset, by omega⟩

variable [DecidableEq φ]

/-- A correction that no query reports comes with its other half. -/
theorem Unreported.twins (h : Unreported posixSpace rows asset)
    (hrows : ∀ h ∈ rows, h.assetId = asset → WellFormedRow posixSpace rows h) {c : HistoryRow φ}
    (hc : c ∈ rows) (hasset : c.assetId = asset) (hrole : c.role ≠ .none) :
    ∃ rev cor, Twins rows c.pairId rev cor ∧ (c = rev ∨ c = cor) ∧ rev.assetId = asset ∧
      cor.root = rev.root ∧ cor.correctionOccurredAt = rev.correctionOccurredAt := by
  have hsome := ((hrows c hc hasset).metadata hrole).1
  obtain ⟨rev, cor, htwins⟩ := twins_of_not_malformedPair hc hrole rfl (h.pairs c hc hasset hsome)
  have hone := htwins.only c hc hrole rfl
  have hrev : rev.assetId = asset := by
    rcases hone with rfl | rfl
    · exact hasset
    · exact htwins.asset.symm.trans hasset
  have hrevRow := hrows rev htwins.reversal.1 hrev
  have hcorRow := hrows cor htwins.corrected.1 (htwins.asset.trans hrev)
  have hrevRole : rev.role ≠ .none := by simp [htwins.reversal.2.1]
  have hcorRole : cor.role ≠ .none := by simp [htwins.corrected.2.1]
  obtain ⟨x, -, hx, -⟩ := hrevRow.named hrevRole
  obtain ⟨y, -, hy, -⟩ := hcorRow.named hcorRole
  refine ⟨rev, cor, htwins, hone, hrev, eq_of_forall_mem ?_ ?_ htwins.root,
    eq_of_forall_mem ?_ ?_ htwins.time⟩
  · exact hx ▸ rfl
  · exact hy ▸ rfl
  · exact (hrevRow.metadata hrevRole).2.2.1
  · exact (hcorRow.metadata hcorRole).2.2.1

/-- Every generation up to the last is whole. -/
theorem Unreported.generation (h : Unreported posixSpace rows asset) (hkeys : HistoryKeys rows)
    (hrows : ∀ h ∈ rows, h.assetId = asset → WellFormedRow posixSpace rows h)
    (hr : r ∈ rows) (hasset : r.assetId = asset) {n g : ℕ} (hg : g < n)
    (hperm : ((replacements rows r.assetId (some r.id)).map HistoryRow.generation).Perm
      (List.range' 1 n)) :
    ∃ rev, Generation rows r (g + 1) (headAt rows r g) rev (headAt rows r (g + 1)) := by
  obtain ⟨hcor, hcorrects⟩ := headAt_succ hg hperm
  generalize headAt rows r (g + 1) = cor at hcor hcorrects
  have hcorRole : cor.role ≠ .none := by simp [hcorrects.role]
  obtain ⟨rev, other, htwins, hone, hrevAsset, hroot, htime⟩ :=
    h.twins hrows hcor (hcorrects.asset.trans hasset) hcorRole
  have hother : cor = other := by
    refine hone.resolve_left ?_
    rintro rfl
    exact absurd (hcorrects.role.symm.trans htwins.reversal.2.1) (by decide)
  subst hother
  have hrev : rev.Corrects r .reversal (g + 1) :=
    ⟨htwins.reversal.2.1, hroot.symm.trans hcorrects.root, hrevAsset.trans hasset.symm,
      htwins.generation.symm.trans hcorrects.generation⟩
  have hcancels : cancels rev (headAt rows r g) = true ∧ headAt rows r g ∈ rows := by
    cases g with
    | zero => exact ⟨by simp [cancels, headAt, hrev.root, hrev.asset, hrev.generation], hr⟩
    | succ g =>
        obtain ⟨hrow, hprevious⟩ := headAt_succ (Nat.lt_of_succ_lt hg) hperm
        refine ⟨?_, hrow⟩
        simp [cancels, hrev.root, hrev.asset, hrev.generation, hprevious.role, hprevious.root,
          hprevious.asset, hprevious.generation]
  have hrepeats := h.reversals rev htwins.reversal.1 hrevAsset
  simp only [malformedReversal, hrev.role, beq_self_eq_true, Bool.true_and] at hrepeats
  have hprevious := List.any_eq_false.mp hrepeats _ hcancels.2
  simp only [hcancels.1, Bool.true_and, Bool.or_eq_true, bne_iff_ne, decide_eq_true_eq, not_or,
    not_not, Prod.mk.injEq] at hprevious
  refine ⟨rev, ⟨htwins.reversal.1, hrev⟩, ⟨hcor, hcorrects⟩, fun c hc =>
    ⟨fun hc' => ?_, fun hc' => ?_⟩,
    ⟨htwins.corrected.2.2.trans htwins.reversal.2.2.symm, htwins.shared.1, htwins.shared.2, htime⟩,
    ⟨hprevious.1, htwins.version⟩, hprevious.2⟩
  · refine hkeys.generations rev htwins.reversal.1 c hc ?_ ?_ ?_ ?_ ?_ <;>
      simp [hrev.role, hrev.root, hrev.generation, hc'.role, hc'.root, hc'.generation]
  · refine hkeys.generations cor hcor c hc ?_ ?_ ?_ ?_ ?_ <;>
      simp [hcorrects.role, hcorrects.root, hcorrects.generation, hc'.role, hc'.root, hc'.generation]

/-- The corrections of a root that no query reports form its generations. -/
theorem Unreported.lineage (h : Unreported posixSpace rows asset) (hkeys : HistoryKeys rows)
    (hrows : ∀ h ∈ rows, h.assetId = asset → WellFormedRow posixSpace rows h)
    (hr : r ∈ rows) (hasset : r.assetId = asset) :
    ∃ n, Lineage rows r n (headAt rows r) := by
  have hreplaces : ∀ c ∈ replacements rows r.assetId (some r.id), c ∈ rows ∧ c.assetId = asset ∧
      c.role = .corrected := by
    intro c hc
    obtain ⟨hrow, hrole, hsame, -⟩ := mem_replacements.mp hc
    exact ⟨hrow, hsame.trans hasset, hrole⟩
  have hgood : malformedGenerations rows r.assetId (some r.id) = false := by
    cases hlist : replacements rows r.assetId (some r.id) with
    | nil => rw [malformedGenerations, ← replacements, hlist]; rfl
    | cons c rest =>
        have hc : c ∈ replacements rows r.assetId (some r.id) := hlist ▸ List.mem_cons_self ..
        obtain ⟨hrow, hrole, hsame, hroot⟩ := mem_replacements.mp hc
        have hgeneration := h.generations c hrow (hsame.trans hasset) hrole
        rwa [hsame, hroot] at hgeneration
  obtain ⟨n, hperm⟩ := (malformedGenerations_iff fun c hc => by
    obtain ⟨hrow, hsame, hrole⟩ := hreplaces c hc
    exact ((hrows c hrow hsame).metadata (by simp [hrole])).2.1).mp hgood
  refine ⟨n, rfl, fun g hg => h.generation hkeys hrows hr hasset hg hperm, ?_⟩
  intro c hc hrole hroot hsame
  refine ⟨((hrows c hc (hsame.trans hasset)).metadata hrole).2.1, ?_⟩
  -- A reversal counts with the replacement that it is paired with.
  obtain ⟨rev, cor, htwins, hone, hrevAsset, hpairRoot, -⟩ :=
    h.twins hrows hc (hsame.trans hasset) hrole
  have hmem : cor.generation ∈
      (replacements rows r.assetId (some r.id)).map HistoryRow.generation := by
    refine List.mem_map_of_mem (mem_replacements.mpr ⟨htwins.corrected.1, htwins.corrected.2.1,
      (htwins.asset.trans hrevAsset).trans hasset.symm, ?_⟩)
    rcases hone with rfl | rfl
    · exact hpairRoot.trans hroot
    · exact hroot
  rw [hperm.mem_iff, List.mem_range'_1] at hmem
  rcases hone with rfl | rfl
  · have := htwins.generation
    omega
  · omega

/-- Rows that form lineages are reported by no query. -/
theorem unreported_of_lineages (hkeys : HistoryKeys rows)
    (hreasons : ∀ h ∈ rows, reasonLength h.reason)
    (hrows : ∀ h ∈ rows, h.assetId = asset → WellFormedRow posixSpace rows h)
    (hroots : ∀ r ∈ rows, r.assetId = asset → r.role = .none → ∃ n head, Lineage rows r n head) :
    Unreported posixSpace rows asset where
  columns := fun h hh hasset => (malformedRow_iff hkeys (hreasons h hh)).mpr (hrows h hh hasset)
  pairs := by
    intro h hh hasset hpair
    have hrow := hrows h hh hasset
    have hrole : h.role ≠ .none := by
      intro hnone
      rw [(hrow.ordinary hnone).2.1] at hpair
      exact absurd hpair (by simp)
    obtain ⟨r, hr, hroot, hnamed, hordinary⟩ := hrow.named hrole
    obtain ⟨n, head, hlineage⟩ := hroots r hr (hnamed.trans hasset) hordinary
    obtain ⟨g, rev, hg, -, hgeneration, hone⟩ := hlineage.mem hh hrole hroot hnamed.symm
    obtain ⟨hrev, hreverses⟩ := hgeneration.reversal
    obtain ⟨hcor, hcorrects⟩ := hgeneration.corrected
    obtain ⟨hpairs, hactor, hreason, htime⟩ := hgeneration.shared
    obtain ⟨pair, hsome⟩ := Option.isSome_iff_exists.mp hpair
    have hrevPair : rev.pairId = some pair := by
      rcases hone with rfl | rfl
      · exact hsome
      · exact hpairs.symm.trans hsome
    have hmetadata := (hrows rev hrev ((hreverses.asset.trans hnamed).trans hasset)).metadata
      (by simp [hreverses.role])
    rw [hsome]
    exact malformedPair_of_rows hkeys ⟨hrev, hreverses.role, hrevPair⟩
      ⟨hcor, hcorrects.role, hpairs.trans hrevPair⟩ (hcorrects.asset.trans hreverses.asset.symm)
      ⟨by simp [hreverses.root], hcorrects.root.trans hreverses.root.symm⟩
      (hcorrects.generation.trans hreverses.generation.symm) hreason hactor
      ⟨hmetadata.2.2.1, htime⟩ hgeneration.versions.2
  generations := by
    intro h hh hasset hrole
    have hcorrection : h.role ≠ .none := by simp [hrole]
    obtain ⟨r, hr, hroot, hnamed, hordinary⟩ := (hrows h hh hasset).named hcorrection
    obtain ⟨n, head, hlineage⟩ := hroots r hr (hnamed.trans hasset) hordinary
    rw [hroot, ← hnamed, malformedGenerations_iff]
    · exact ⟨n, hlineage.perm hkeys⟩
    · intro c hc
      obtain ⟨hrow, hkind, hsame, hbelow⟩ := mem_replacements.mp hc
      exact (hlineage.all c hrow (by simp [hkind]) hbelow hsame).1
  reversals := by
    intro h hh hasset
    by_cases hrole : h.role = .reversal
    · have hcorrection : h.role ≠ .none := by simp [hrole]
      obtain ⟨r, hr, hroot, hnamed, hordinary⟩ := (hrows h hh hasset).named hcorrection
      obtain ⟨n, head, hlineage⟩ := hroots r hr (hnamed.trans hasset) hordinary
      obtain ⟨g, rev, hg, hgen, hgeneration, hone⟩ :=
        hlineage.mem hh hcorrection hroot hnamed.symm
      have hrev : h = rev := by
        refine hone.resolve_right ?_
        rintro rfl
        exact absurd (hgeneration.corrected.2.role.symm.trans hrole) (by decide)
      simp only [malformedReversal, hrole, beq_self_eq_true, Bool.true_and, List.any_eq_false]
      intro p hp hbad
      rw [Bool.and_eq_true] at hbad
      have hhead := hlineage.head_of_cancels hkeys hr hg ⟨hrole, hroot, hnamed.symm, hgen⟩ hp hbad.1
      have hversion := hgeneration.versions.1
      obtain ⟨hfrom, hto, hoccurred⟩ := hgeneration.repeats
      rw [← hrev, ← hhead] at hversion hfrom hto hoccurred
      simp [hversion, hfrom, hto, hoccurred] at hbad
    · simp [malformedReversal, hrole]

end

end

/-! ## The characterisation -/

section

variable {posixSpace : Char → Bool} {tables : AssetTables} {k : HistoryClass} {asset : Uuid}

theorem not_mem_malformedSql : asset ∉ malformedSql posixSpace tables k ↔
    Unreported posixSpace (tables.history k) asset ∧
      ∀ c ∈ tables.history k, c.assetId = asset → incoherentSource tables k c = false := by
  have hrows : asset ∉ malformedSql posixSpace tables k ↔ ∀ c ∈ tables.history k,
      c.assetId = asset → malformedRow posixSpace (tables.history k) c = false ∧
        (c.pairId.isSome → malformedPair (tables.history k) c.pairId = false) ∧
        (c.role = .corrected →
          malformedGenerations (tables.history k) c.assetId c.root = false) ∧
        malformedReversal (tables.history k) c = false ∧ incoherentSource tables k c = false := by
    simp only [malformedSql, List.mem_map, List.mem_filter, not_exists, not_and]
    refine forall_congr' fun c => ?_
    by_cases hc : c ∈ tables.history k
    · by_cases hasset : c.assetId = asset
      · simp [hc, hasset, and_assoc]
      · simp [hasset]
    · simp [hc]
  rw [hrows]
  constructor
  · intro h
    exact ⟨⟨fun c hc hasset => (h c hc hasset).1, fun c hc hasset => (h c hc hasset).2.1,
      fun c hc hasset => (h c hc hasset).2.2.1, fun c hc hasset => (h c hc hasset).2.2.2.1⟩,
      fun c hc hasset => (h c hc hasset).2.2.2.2⟩
  · rintro ⟨h, hsources⟩ c hc hasset
    exact ⟨h.columns c hc hasset, h.pairs c hc hasset, h.generations c hc hasset,
      h.reversals c hc hasset, hsources c hc hasset⟩

/-- The query of sources. -/
theorem incoherentSource_iff {c : HistoryRow (Fact k)} : incoherentSource tables k c = false ↔
    (c.role = .corrected → ∀ r ∈ tables.history k, r.assetId = c.assetId → c.root = some r.id →
      c.fromFact = factBefore tables k r) := by
  by_cases hrole : c.role = .corrected
  · simp only [incoherentSource, hrole, beq_self_eq_true, Bool.true_and, List.any_eq_false,
      Bool.and_eq_true, beq_iff_eq, decide_eq_true_eq, not_and, not_not, forall_true_left]
    refine forall₂_congr fun r _ => ?_
    constructor
    · intro h hasset hroot
      rw [factBefore, hasset]
      exact h ⟨hasset, hroot.symm⟩
    · rintro h ⟨hasset, hroot⟩
      have hfact := h hasset hroot.symm
      rw [factBefore, hasset] at hfact
      exact hfact
  · simp [incoherentSource, hrole]

theorem reasonLength_of_historyChecks {row : HistoryRow (Fact k)}
    (h : historyChecks posixSpace k row) : reasonLength row.reason := by
  simp only [historyChecks, Bool.and_eq_true] at h
  have hclass := h.1.2
  cases k <;> simp only [classChecks, Bool.and_eq_true] at hclass
  case transition => exact hclass.1
  case assignment => exact hclass.1.1
  all_goals exact hclass.1

/-- An Asset is reported exactly when its rows are not well formed. -/
theorem not_mem_malformedSql_iff (hkeys : HistoryKeys (tables.history k))
    (hchecks : ∀ row ∈ tables.history k, historyChecks posixSpace k row) :
    asset ∉ malformedSql posixSpace tables k ↔ WellFormed posixSpace tables k asset := by
  have hreasons : ∀ row ∈ tables.history k, reasonLength row.reason :=
    fun row hrow => reasonLength_of_historyChecks (hchecks row hrow)
  rw [not_mem_malformedSql]
  constructor
  · rintro ⟨h, hsources⟩
    have hrows : ∀ row ∈ tables.history k, row.assetId = asset →
        WellFormedRow posixSpace (tables.history k) row :=
      fun row hrow hasset =>
        (malformedRow_iff hkeys (hreasons row hrow)).mp (h.columns row hrow hasset)
    refine ⟨hrows, fun r hr hasset _ => ?_, fun c hc hasset hrole r hr hr' => ?_⟩
    · obtain ⟨n, hlineage⟩ := h.lineage hkeys hrows hr hasset
      exact ⟨n, _, hlineage⟩
    · exact incoherentSource_iff.mp (hsources c hc hasset) hrole r hr (hr'.trans hasset.symm)
  · intro h
    refine ⟨unreported_of_lineages hkeys hreasons h.rows h.roots, fun c hc hasset => ?_⟩
    refine incoherentSource_iff.mpr fun hrole r hr hsame hroot => ?_
    exact h.sources c hc hasset hrole r hr (hsame.trans hasset) hroot

/-- `malformed_sql` returns nothing exactly when all histories are well formed. -/
theorem wellFormedHistories (hkeys : HistoryKeys (tables.history k))
    (hchecks : ∀ row ∈ tables.history k, historyChecks posixSpace k row) :
    malformedSql posixSpace tables k = [] ↔ ∀ asset, WellFormed posixSpace tables k asset := by
  rw [List.eq_nil_iff_forall_not_mem]
  exact forall_congr' fun asset => not_mem_malformedSql_iff hkeys hchecks

end

/-- A move of the radio, and the pair that corrects it. -/
def sampleMovements : List (HistoryRow Uuid) :=
  let root : HistoryRow Uuid :=
    { id := 11, assetId := 8, resultVersion := 2, fromFact := some 3, toFact := some 4
      reason := "Shelved", actorId := 1, occurredAt := .at 42, recordedAt := .at 43 }
  let reversal : HistoryRow Uuid :=
    { root with id := 13, resultVersion := 3, reason := "Wrong shelf", root := some 11
                role := .reversal, pairId := some 12, generation := 1
                correctionOccurredAt := some (.at 44) }
  [root, reversal,
    { reversal with id := 14, resultVersion := 4, toFact := some 3, role := .corrected }]

/-- The radio after the correction. -/
def correctedTables : AssetTables :=
  { sampleTables with
    history := fun
      | .movement => sampleMovements
      | k => sampleTables.history k }

theorem sampleMovements_keys : HistoryKeys sampleMovements where
  ids := by unfold Distinct; decide
  versions := by decide
  pairs := by decide
  generations := by decide

theorem wellFormedHistories_sample :
    WellFormed sampleContext.posixSpace correctedTables .movement 8 := by
  have hkeys : HistoryKeys (correctedTables.history .movement) := sampleMovements_keys
  exact (wellFormedHistories hkeys (by decide)).mp (by decide) 8

end FleetOps
