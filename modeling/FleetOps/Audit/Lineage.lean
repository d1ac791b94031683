import FleetOps.Assets.History
import FleetOps.Audit.Readers
import Mathlib.Data.List.ReduceOption

/-!
# What the readers name

`Audited` is an entry as the readers see it: a record and pairs of a reversal and
a replacement, each one generation above what it follows.  A reversal of such an
entry names the row that it cancels (`cancelsHistoryId_eq`, `cancelsEntryId_eq`).

`NamesCancelled` puts that together with what the rows themselves say: the row
that a reversal names was in force, by the effective view, when the reversal was
recorded.
-/

namespace FleetOps

open Amendment

/-- An ordinary row, or an audited entry with one more pair on its head. -/
inductive Audited : Entry AuditColumns → Prop
  | plain {row : AuditColumns} (role : row.role = .none) (generation : row.generation = 0) :
      Audited (.plain row)
  | amend {entry : Entry AuditColumns} {pair : AuditColumns × AuditColumns}
      (audited : Audited entry)
      (roles : pair.1.role = .reversal ∧ pair.2.role = .corrected)
      (roots : pair.1.root = some entry.root.id ∧ pair.2.root = some entry.root.id)
      (generations : pair.1.generation = entry.head.generation + 1 ∧
        pair.2.generation = entry.head.generation + 1) : Audited (entry.amend pair)

theorem Overlaid.audited {φ : Type} {entry : Entry (HistoryRow φ)} (h : Overlaid entry) :
    Audited (entry.map HistoryRow.audit) := by
  induction h with
  | plain role root generation => exact .plain role generation
  | amend _ roles roots generations ih =>
      rw [Entry.map_amend]
      refine .amend ih roles roots ?_
      rw [Entry.head_map]
      exact generations

/-- The row that a reversal cancels is one generation below it: the record itself, or its
replacement of that generation. -/
structure Succeeds (reversal row : AuditColumns) : Prop where
  generation : reversal.generation = row.generation + 1
  record : reversal.generation = 1 → row.role = .none ∧ reversal.root = some row.id
  replacement : 1 < reversal.generation → row.role = .corrected ∧ row.root = reversal.root

namespace Audited

variable {entry : Entry AuditColumns}

/-- The head is the newest generation, and the record itself only at generation 0. -/
theorem head (h : Audited entry) :
    (entry.head.generation = 0 → entry.head = entry.root ∧ entry.head.role = .none) ∧
      (0 < entry.head.generation →
        entry.head.role = .corrected ∧ entry.head.root = some entry.root.id) := by
  cases h with
  | plain role generation =>
      rw [Entry.head_plain]
      exact ⟨fun _ => ⟨rfl, role⟩, fun hpos => absurd hpos (by omega)⟩
  | amend _ roles roots generations =>
      rw [Entry.head_amend, Entry.root_amend]
      exact ⟨fun hzero => absurd hzero (by omega), fun _ => ⟨roles.2, roots.2⟩⟩

theorem root (h : Audited entry) : entry.root.role = .none ∧ entry.root.generation = 0 := by
  induction h with
  | plain role generation => exact ⟨role, generation⟩
  | amend _ _ _ _ ih => exact ih

/-- A reversal follows the row that was in force before it. -/
theorem links (h : Audited entry) : ∀ link ∈ entry.links,
    link.1.role = .reversal ∧ link.1.root = some entry.root.id ∧ Succeeds link.1 link.2 := by
  induction h with
  | plain role generation => simp
  | amend hentry roles roots generations ih =>
      rename_i entry pair
      intro link hlink
      rw [Entry.links_amend, List.mem_append] at hlink
      rcases hlink with hold | hnew
      · exact ih link hold
      · rw [List.mem_singleton.mp hnew]
        have hgeneration := generations.1
        refine ⟨roles.1, roots.1, generations.1, fun hone => ?_, fun hmore => ?_⟩ <;>
          dsimp only at *
        · obtain ⟨hroot, hrole⟩ := hentry.head.1 (by omega)
          exact ⟨hrole, by rw [roots.1, hroot]⟩
        · obtain ⟨hrole, hroot⟩ := hentry.head.2 (by omega)
          exact ⟨hrole, hroot.trans roots.1.symm⟩

theorem pairs (h : Audited entry) :
    ∀ pair ∈ entry.amendments, pair.1.role = .reversal ∧ pair.2.role = .corrected := by
  induction h with
  | plain role generation => simp [Entry.plain]
  | amend _ roles _ _ ih =>
      intro pair hpair
      rw [Entry.amendments_amend, List.mem_append] at hpair
      rcases hpair with hold | hnew
      · exact ih pair hold
      · exact List.mem_singleton.mp hnew ▸ roles

/-- The newest row in force, and what is under the record. -/
theorem rows (h : Audited entry) : ∀ row ∈ entry.rows,
    row.generation ≤ entry.head.generation ∧
      (row.role ≠ .none → row.root = some entry.root.id) := by
  induction h with
  | plain role generation =>
      intro row hrow
      rw [Entry.rows_plain, List.mem_singleton] at hrow
      exact ⟨hrow ▸ le_rfl, fun hne => absurd (hrow ▸ role) hne⟩
  | amend hentry roles roots generations ih =>
      intro row hrow
      rw [Entry.head_amend, Entry.root_amend]
      rw [Entry.rows_amend, List.mem_append] at hrow
      rcases hrow with hold | hnew
      · obtain ⟨hle, hroot⟩ := ih row hold
        exact ⟨by omega, hroot⟩
      · simp only [List.mem_cons, List.not_mem_nil, or_false] at hnew
        rcases hnew with rfl | rfl
        · exact ⟨by omega, fun _ => roots.1⟩
        · exact ⟨le_rfl, fun _ => roots.2⟩

/-- A replacement is the only one of its generation. -/
theorem replacement_unique (h : Audited entry) : ∀ row ∈ entry.rows, ∀ other ∈ entry.rows,
    row.role = .corrected → other.role = .corrected → row.generation = other.generation →
      row = other := by
  induction h with
  | plain role generation =>
      intro row hrow other _ hrole
      rw [Entry.rows_plain, List.mem_singleton] at hrow
      exact absurd ((hrow ▸ role : row.role = .none).symm.trans hrole) (by decide)
  | amend hentry roles roots generations ih =>
      rename_i entry pair
      -- An older row is below the new generation, and the new reversal is no replacement.
      have hnewest : ∀ row ∈ (entry.amend pair).rows, row.role = .corrected →
          row ∈ entry.rows ∧ row.generation < pair.2.generation ∨ row = pair.2 := by
        intro row hrow hrole
        rw [Entry.rows_amend, List.mem_append] at hrow
        rcases hrow with hold | hnew
        · exact .inl ⟨hold, by have := (hentry.rows row hold).1; omega⟩
        · simp only [List.mem_cons, List.not_mem_nil, or_false] at hnew
          rcases hnew with rfl | rfl
          · exact absurd (roles.1.symm.trans hrole) (by decide)
          · exact .inr rfl
      intro row hrow other hother hrole hrole' hsame
      rcases hnewest row hrow hrole with ⟨hold, hlt⟩ | rfl
      · rcases hnewest other hother hrole' with ⟨hold', -⟩ | rfl
        · exact ih row hold other hold' hrole hrole' hsame
        · omega
      · rcases hnewest other hother hrole' with ⟨-, hlt⟩ | rfl
        · omega
        · rfl

/-- The last amendment of an entry, and the entry before it. -/
theorem of_amend {pair : AuditColumns × AuditColumns} (h : Audited (entry.amend pair)) :
    Audited entry ∧ (pair.1.role = .reversal ∧ pair.2.role = .corrected) ∧
      (pair.1.root = some entry.root.id ∧ pair.2.root = some entry.root.id) ∧
      (pair.1.generation = entry.head.generation + 1 ∧
        pair.2.generation = entry.head.generation + 1) := by
  generalize hwhole : entry.amend pair = whole at h
  cases h with
  | plain role generation =>
      have hlengths := congrArg (fun e => e.amendments.length) hwhole
      simp [Entry.plain, Entry.amend] at hlengths
  | amend hentry roles roots generations =>
      rename_i before last
      have hroots := congrArg Entry.root hwhole
      have hlists := congrArg Entry.amendments hwhole
      rw [Entry.amendments_amend, Entry.amendments_amend] at hlists
      obtain ⟨hamendments, hlast⟩ := List.append_inj' hlists rfl
      have hsame : entry = before := by
        cases before
        cases entry
        simp only [Entry.root_amend] at hroots hamendments
        rw [hroots, hamendments]
      obtain rfl := List.singleton_inj.mp hlast
      subst hsame
      exact ⟨hentry, roles, roots, generations⟩

/-- An entry was audited before any of its amendments. -/
theorem cut {root : AuditColumns} {front back : List (AuditColumns × AuditColumns)}
    (h : Audited ⟨root, front ++ back⟩) : Audited ⟨root, front⟩ := by
  induction back using List.reverseRecOn with
  | nil => simpa using h
  | append_singleton back pair ih =>
      have hwhole : (⟨root, front ++ (back ++ [pair])⟩ : Entry AuditColumns) =
          Entry.amend ⟨root, front ++ back⟩ pair := by
        simp [Entry.amend]
      rw [hwhole] at h
      exact ih h.of_amend.1

/-- No two rows are of one generation in one role. -/
theorem nodup (h : Audited entry) : entry.rows.Nodup := by
  induction h with
  | plain role generation => exact List.nodup_singleton _
  | amend hentry roles roots generations ih =>
      rename_i entry pair
      have hdistinct : pair.1 ≠ pair.2 := fun heq =>
        absurd (roles.1.symm.trans ((congrArg AuditColumns.role heq).trans roles.2)) (by decide)
      rw [Entry.rows_amend, List.nodup_append]
      refine ⟨ih, by simpa using hdistinct, fun row hrow other hother heq => ?_⟩
      have hle := (hentry.rows row hrow).1
      simp only [List.mem_cons, List.not_mem_nil, or_false] at hother
      rcases hother with rfl | rfl
      · rw [heq] at hle
        omega
      · rw [heq] at hle
        omega

end Audited

/-! ## Names -/

section

variable {rows : List AuditColumns} {reversal row : AuditColumns}

/-- Of each record there is one replacement of each generation. -/
def ReplacedOnce (rows : List AuditColumns) : Prop :=
  ∀ row ∈ rows, ∀ other ∈ rows, row.role = .corrected → other.role = .corrected →
    row.root = other.root → row.generation = other.generation → row.id = other.id

theorem ReplacedOnce.of_subset {fewer : List AuditColumns} (h : ReplacedOnce rows)
    (hsubset : fewer ⊆ rows) : ReplacedOnce fewer :=
  fun row hrow other hother => h row (hsubset hrow) other (hsubset hother)

/-- A row of several audited entries is of the one of its record. -/
theorem replacedOnce_of_audited {entries : List (Entry AuditColumns)}
    (haudited : ∀ entry ∈ entries, Audited entry)
    (hroots : (entries.map fun entry => entry.root.id).Nodup) : ReplacedOnce (rowsOf entries) := by
  intro row hrow other hother hrole hrole' hroot hgeneration
  obtain ⟨entry, hentry, hmem⟩ := mem_rowsOf.mp hrow
  obtain ⟨entry', hentry', hmem'⟩ := mem_rowsOf.mp hother
  have hrecord := ((haudited entry hentry).rows row hmem).2 (by simp [hrole])
  have hrecord' := ((haudited entry' hentry').rows other hmem').2 (by simp [hrole'])
  have hid : entry.root.id = entry'.root.id :=
    Option.some.inj (hrecord.symm.trans (hroot.trans hrecord'))
  obtain rfl := List.inj_on_of_nodup_map hroots hentry hentry' hid
  rw [(haudited entry hentry).replacement_unique row hmem other hmem' hrole hrole' hgeneration]

/-- `audit_rows` names the row that a reversal succeeds. -/
theorem cancelsHistoryId_eq (honce : ReplacedOnce rows) (hrole : reversal.role = .reversal)
    (hsucceeds : Succeeds reversal row) (hmem : 1 < reversal.generation → row ∈ rows) :
    cancelsHistoryId (correctedIds rows) reversal = some row.id := by
  have hgeneration := hsucceeds.generation
  unfold cancelsHistoryId
  rw [hrole, hgeneration]
  cases hbelow : row.generation with
  | zero => exact (hsucceeds.record (by omega)).2
  | succ g =>
      have hmore : 1 < reversal.generation := by omega
      obtain ⟨hcorrected, hroot⟩ := hsucceeds.replacement hmore
      have hrow := hmem hmore
      show (correctedIds rows).lookup (reversal.root, g + 1) = some row.id
      rw [← hbelow, ← hroot]
      apply Dictionary.lookup_ofRows
      · refine List.mem_map.mpr ⟨row, List.mem_filter.mpr ⟨hrow, ?_⟩, rfl⟩
        simpa using hcorrected
      · intro id hid
        obtain ⟨other, hother, heq⟩ := List.mem_map.mp hid
        obtain ⟨hotherMem, hotherRole⟩ := List.mem_filter.mp hother
        simp only [Prod.mk.injEq] at heq
        obtain ⟨⟨hsameRoot, hsameGeneration⟩, rfl⟩ := heq
        exact honce other hotherMem row hrow (by simpa using hotherRole) hcorrected hsameRoot
          hsameGeneration

theorem cancelsHistoryId_of_ne {corrected : List ((Option Uuid × ℕ) × Uuid)}
    (hrole : row.role ≠ .reversal) : cancelsHistoryId corrected row = none := by
  unfold cancelsHistoryId
  cases hcase : row.role with
  | reversal => exact absurd hcase hrole
  | none => rfl
  | corrected => rfl

/-- An entry of a kind shows the row. -/
structure HistoryEntry.Shows (entry : HistoryEntry) (kind : HistoryKind) (row : AuditColumns) :
    Prop where
  kind : entry.kind = kind
  id : entry.id = row.id
  role : entry.facts.correctionRole = some row.role
  generation : entry.facts.correctionGeneration = row.generation
  root : entry.facts.root = row.root

/-- The entries of a kind show these rows. -/
structure Shown (kind : HistoryKind) (rows : List AuditColumns) (entries : List HistoryEntry) :
    Prop where
  shows : ∀ row ∈ rows, ∃ entry ∈ entries, entry.Shows kind row
  shown : ∀ entry ∈ entries, entry.kind = kind → ∃ row ∈ rows, entry.Shows kind row

/-- `asset_history` names it too. -/
theorem cancelsEntryId_eq {kind : HistoryKind} {entries : List HistoryEntry} {entry : HistoryEntry}
    (hshown : Shown kind rows entries) (honce : ReplacedOnce rows)
    (hentry : entry.Shows kind reversal) (hrole : reversal.role = .reversal)
    (hsucceeds : Succeeds reversal row) (hmem : 1 < reversal.generation → row ∈ rows) :
    cancelsEntryId (historyCorrections entries) entry = some row.id := by
  have hgeneration := hsucceeds.generation
  unfold cancelsEntryId
  rw [hentry.role, hentry.generation, hentry.root, hentry.kind, hrole, hgeneration]
  cases hbelow : row.generation with
  | zero => exact (hsucceeds.record (by omega)).2
  | succ g =>
      have hmore : 1 < reversal.generation := by omega
      obtain ⟨hcorrected, hroot⟩ := hsucceeds.replacement hmore
      have hrow := hmem hmore
      show (historyCorrections entries).lookup (kind, reversal.root, g + 1) = some row.id
      rw [← hbelow, ← hroot]
      apply Dictionary.lookup_ofRows
      · obtain ⟨shown, hshownMem, hshows⟩ := hshown.shows row hrow
        refine List.mem_map.mpr ⟨shown, List.mem_filter.mpr ⟨hshownMem, ?_⟩, ?_⟩
        · simpa [hcorrected] using hshows.role
        · rw [hshows.kind, hshows.root, hshows.generation, hshows.id]
      · intro id hid
        obtain ⟨other, hother, heq⟩ := List.mem_map.mp hid
        obtain ⟨hotherMem, hotherRole⟩ := List.mem_filter.mp hother
        simp only [Prod.mk.injEq] at heq
        obtain ⟨⟨hkind, hsameRoot, hsameGeneration⟩, rfl⟩ := heq
        obtain ⟨row', hrow', hshows⟩ := hshown.shown other hotherMem hkind
        have hcorrected' : row'.role = .corrected := by
          rw [hshows.role] at hotherRole
          simpa using hotherRole
        rw [hshows.id]
        exact honce row' hrow' row hrow hcorrected' hcorrected (hshows.root.symm.trans hsameRoot)
          (hshows.generation.symm.trans hsameGeneration)

theorem cancelsEntryId_of_ne {corrections : List ((HistoryKind × Option Uuid × ℕ) × Uuid)}
    {entry : HistoryEntry} (hrole : entry.facts.correctionRole ≠ some .reversal) :
    cancelsEntryId corrections entry = none := by
  unfold cancelsEntryId
  cases hcase : entry.facts.correctionRole with
  | none => rfl
  | some role =>
      cases role with
      | reversal => exact absurd hcase hrole
      | none => rfl
      | corrected => rfl

end

/-! ## One history -/

section

variable {ρ κ : Type} {view : List ρ → List ρ} {key : ρ → κ} {audit : ρ → AuditColumns}
  {rows : List ρ} {cancels : ρ → Option Uuid}

/-- A reader of these rows names what reversals succeed, and nothing for the others. -/
structure NamesSucceeded (audit : ρ → AuditColumns) (rows : List ρ) (cancels : ρ → Option Uuid) :
    Prop where
  names : ∀ reversal ∈ rows, (audit reversal).role = .reversal →
    ∀ row ∈ rows, Succeeds (audit reversal) (audit row) → cancels reversal = some (audit row).id
  others : ∀ row ∈ rows, (audit row).role ≠ .reversal → cancels row = none

/-- What the reversals of one history are said to cancel is what they cancel. -/
structure NamesCancelled (view : List ρ → List ρ) (key : ρ → κ) (audit : ρ → AuditColumns)
    (rows : List ρ) (cancels : ρ → Option Uuid) : Prop where
  /-- Reversals are one-to-one with the rows that are no longer in force. -/
  exact : CancelsExactly view key (fun row => (audit row).role = .reversal) rows
  /-- A reversal names the row of its record that was in force just before it. -/
  names : ∀ reversal ∈ rows, (audit reversal).role = .reversal →
    ∃ row, Cancels view key rows reversal row ∧ cancels reversal = some (audit row).id ∧
      Succeeds (audit reversal) (audit row)
  /-- No other row names one. -/
  others : ∀ row ∈ rows, (audit row).role ≠ .reversal → cancels row = none

/-- On the rows of audited entries what a reversal succeeds is what it cancels. -/
theorem NamesSucceeded.namesCancelled {entries : List (Entry ρ)}
    (hreader : NamesSucceeded audit (rowsOf entries) cancels)
    (hlineal : Amendment.Lineal view key (fun row => (audit row).role = .reversal) entries)
    (haudited : ∀ entry ∈ entries, Audited (entry.map audit)) :
    NamesCancelled view key audit (rowsOf entries) cancels := by
  refine ⟨hlineal.exact, fun reversal hreversal hrole => ?_, hreader.others⟩
  obtain ⟨row, hcancels, -⟩ := hlineal.exact.cancels reversal hreversal hrole
  obtain ⟨hrow, -, -⟩ := hlineal.exact.superseded reversal row hrole hcancels
  obtain ⟨entry, hentry, hlink⟩ :=
    List.mem_flatMap.mp ((hlineal.cancels_iff hreversal hrole).mp hcancels)
  have hlinks : (audit reversal, audit row) ∈ (entry.map audit).links := by
    rw [Entry.links_map]
    exact List.mem_map_of_mem hlink
  have hsucceeds := ((haudited entry hentry).links _ hlinks).2.2
  exact ⟨row, hcancels, hreader.names reversal hreversal hrole row hrow hsucceeds, hsucceeds⟩

/-- Two readers of the same rows agree. -/
theorem NamesSucceeded.agrees {other : ρ → Option Uuid} (hreader : NamesSucceeded audit rows other)
    (h : NamesCancelled view key audit rows cancels) : ∀ row ∈ rows, other row = cancels row := by
  intro row hrow
  by_cases hrole : (audit row).role = .reversal
  · obtain ⟨cancelled, hcancels, hname, hsucceeds⟩ := h.names row hrow hrole
    obtain ⟨hmem, -, -⟩ := h.exact.superseded row cancelled hrole hcancels
    rw [hname, hreader.names row hrow hrole cancelled hmem hsucceeds]
  · rw [hreader.others row hrow hrole, h.others row hrow hrole]

/-- `audit_rows` is such a reader, of rows whose replacements are listed. -/
theorem namesSucceeded_auditRows {listed : List AuditColumns} (honce : ReplacedOnce listed)
    (hlisted : ∀ row ∈ rows, (audit row).role = .corrected → audit row ∈ listed) :
    NamesSucceeded audit rows fun row => cancelsHistoryId (correctedIds listed) (audit row) where
  names _ _ hrole row hrow hsucceeds := cancelsHistoryId_eq honce hrole hsucceeds fun hmore =>
    hlisted row hrow (hsucceeds.replacement hmore).1
  others _ _ hrole := cancelsHistoryId_of_ne hrole

/-- So is `asset_history`, of rows whose replacements its entries show. -/
theorem namesSucceeded_assetHistory {kind : HistoryKind} {listed : List AuditColumns}
    {entries : List HistoryEntry} (hshown : Shown kind listed entries) (honce : ReplacedOnce listed)
    (hlisted : ∀ row ∈ rows, (audit row).role = .corrected → audit row ∈ listed)
    (hreversals : ∀ row ∈ rows, (audit row).role = .reversal →
      ∃ entry : HistoryEntry, entry.Shows kind (audit row) ∧
        cancels row = cancelsEntryId (historyCorrections entries) entry)
    (hothers : ∀ row ∈ rows, (audit row).role ≠ .reversal → cancels row = none) :
    NamesSucceeded audit rows cancels := by
  refine ⟨fun reversal hreversal hrole row hrow hsucceeds => ?_, hothers⟩
  obtain ⟨entry, hshows, hcancels⟩ := hreversals reversal hreversal hrole
  rw [hcancels]
  exact cancelsEntryId_eq hshown honce hshows hrole hsucceeds fun hmore =>
    hlisted row hrow (hsucceeds.replacement hmore).1

end

/-! ## The history of a class -/

section

variable {φ : Type} {asset : Uuid} {entries : List (Entry (HistoryRow φ))}

theorem Overlaid.of_audited {entry : Entry (HistoryRow φ)}
    (h : Audited (entry.map HistoryRow.audit)) (hroot : entry.root.root = none) :
    Overlaid entry := by
  induction entry using Entry.induction_on with
  | plain row =>
      rw [Entry.map_plain] at h
      exact .plain h.root.1 hroot h.root.2
  | amend entry pair ih =>
      rw [Entry.map_amend] at h
      obtain ⟨hentry, hroles, hroots, hgenerations⟩ := h.of_amend
      rw [Entry.head_map] at hgenerations
      exact .amend (ih hentry hroot) hroles hroots hgenerations

theorem Overlaid.root_root {entry : Entry (HistoryRow φ)} (h : Overlaid entry) :
    entry.root.root = none := by
  induction h with
  | plain role root generation => exact root
  | amend _ _ _ _ ih => exact ih

/-- An entry was overlaid before any of its corrections. -/
theorem Overlaid.cut {root : HistoryRow φ} {front back : List (HistoryRow φ × HistoryRow φ)}
    (h : Overlaid ⟨root, front ++ back⟩) : Overlaid ⟨root, front⟩ := by
  have haudited := h.audited
  unfold Entry.map at haudited
  rw [List.map_append] at haudited
  exact .of_audited haudited.cut h.root_root

theorem Entries.nodup_roots (h : Entries asset entries) :
    (entries.map fun entry => entry.root.id).Nodup := by
  have hsublist := (roots_sublist entries).map HistoryRow.id
  rw [List.map_map] at hsublist
  exact h.ids.sublist hsublist

theorem Entries.replacedOnce (h : Entries asset entries) :
    ReplacedOnce ((rowsOf entries).map HistoryRow.audit) := by
  rw [← rowsOf_map]
  apply replacedOnce_of_audited
  · intro audited haudited
    obtain ⟨entry, hentry, rfl⟩ := List.mem_map.mp haudited
    exact (h.overlaid entry hentry).audited
  · rw [List.map_map]
    exact h.nodup_roots

/-- What stood before a correction were entries. -/
theorem Entries.stood (h : Entries asset entries) {cancel : HistoryRow φ}
    {earlier : List (Entry (HistoryRow φ))} {entry : Entry (HistoryRow φ)}
    (hstood : Stood entries cancel earlier entry) : Entries asset (earlier ++ [entry]) := by
  obtain ⟨after, hrows⟩ := hstood.rowsOf
  obtain ⟨replace, back, later, rfl⟩ := hstood
  constructor
  case overlaid =>
    intro other hother
    rcases List.mem_append.mp hother with hold | hlast
    · exact h.overlaid other (List.mem_append_left _ hold)
    · obtain rfl := List.mem_singleton.mp hlast
      exact Overlaid.cut (h.overlaid _ (List.mem_append_right _ (List.mem_cons_self ..)))
  case asset => exact fun row hrow => h.asset row (hrows ▸ List.mem_append_left _ hrow)
  case ids =>
    have hids := h.ids
    rw [hrows, List.map_append, List.nodup_append] at hids
    exact hids.1

/-- The effective view shows the heads now and whenever a correction was recorded. -/
theorem Entries.lineal (h : Entries asset entries) :
    Amendment.Lineal effective HistoryRow.rootId (fun row => row.audit.role = .reversal) entries where
  nodup := .of_map _ h.ids
  root entry hentry hreversal :=
    absurd ((h.overlaid entry hentry).root_role.symm.trans hreversal) (by decide)
  pairs entry hentry pair hpair := by
    have hroles := (h.overlaid entry hentry).audited.pairs _ (List.mem_map_of_mem hpair)
    exact ⟨hroles.1, fun hreversal => absurd (hroles.2.symm.trans hreversal) (by decide)⟩
  lineage entry hentry row hrow := by
    have hoverlaid := h.overlaid entry hentry
    rw [hoverlaid.rootId_eq row hrow, hoverlaid.rootId_eq entry.root entry.root_mem_rows]
  apart := by
    have hroots := h.nodup_roots
    rw [List.map_congr_left fun entry hentry => ?_]
    · exact hroots
    · exact (h.overlaid entry hentry).rootId_eq entry.root entry.root_mem_rows
  now := h.effective_rowsOf
  stood cancel earlier entry hstood := (h.stood hstood).effective_rowsOf

end

/-! ## The history of a record -/

section

variable {φ : Type} {root : Uuid} {corrections : List (RecordCorrection φ)}

/-- The record itself, which is no correction, and its corrections. -/
def recordRows (root : Uuid) (corrections : List (RecordCorrection φ)) :
    List (Option (RecordCorrection φ)) :=
  none :: (corrections.filter (·.rootId = root)).map some

def recordAudit (root : Uuid) : Option (RecordCorrection φ) → AuditColumns
  | none => ⟨root, none, .none, 0⟩
  | some correction => correction.audit

/-- What is in force of the record: the newest replacement, or the record itself. -/
def recordView (root : Uuid) (rows : List (Option (RecordCorrection φ))) :
    List (Option (RecordCorrection φ)) :=
  [Tenant.latestCorrection rows.reduceOption root]

/-- The corrections of the record are pairs, one generation after another. -/
def PairedGenerations (root : Uuid) (corrections : List (RecordCorrection φ)) : Prop :=
  ∃ entry : Entry (Option (RecordCorrection φ)), entry.rows = recordRows root corrections ∧
    Audited (entry.map (recordAudit root))

theorem recordAudit_role_ne {row : Option (RecordCorrection φ)}
    (h : (recordAudit root row).role ≠ .none) : ∃ correction, row = some correction := by
  cases row with
  | none => exact absurd rfl h
  | some correction => exact ⟨correction, rfl⟩

/-- The head of an audited entry of the record is in force. -/
theorem recordView_rows {entry : Entry (Option (RecordCorrection φ))}
    (haudited : Audited (entry.map (recordAudit root))) (hroot : entry.root = none) :
    recordView root entry.rows = [entry.head] := by
  unfold recordView
  refine congrArg (fun row => [row]) ?_
  induction entry using Entry.induction_on with
  | plain row =>
      obtain rfl : row = none := hroot
      rfl
  | amend entry pair _ =>
      rw [Entry.map_amend] at haudited
      obtain ⟨hentry, hroles, hroots, hgenerations⟩ := haudited.of_amend
      rw [Entry.root_amend] at hroot
      rw [Entry.root_map, hroot] at hroots
      dsimp only at hroles hroots hgenerations
      have hrole : (recordAudit root pair.2).role ≠ .none := by simp [hroles.2]
      obtain ⟨corrected, hcorrected⟩ := recordAudit_role_ne hrole
      rw [hcorrected] at hroles hroots hgenerations
      have hown : corrected.rootId = root := Option.some.inj hroots.2
      rw [Entry.head_amend, hcorrected, Entry.rows_amend, Tenant.latestCorrection]
      refine Query.latestBy_eq_of_forall_lt ?_ fun other hother hne => ?_
      · refine List.mem_filter.mpr ⟨List.reduceOption_mem_iff.mpr ?_, ?_⟩
        · simp [hcorrected]
        · exact decide_eq_true ⟨hown, hroles.2⟩
      · obtain ⟨hmem, hother⟩ := List.mem_filter.mp hother
        have hrole : other.role = .corrected := (of_decide_eq_true hother).2
        -- The new replacement is above every older one, and the reversal is none.
        rcases List.mem_append.mp (List.reduceOption_mem_iff.mp hmem) with hold | hnew
        · have hrow : recordAudit root (some other) ∈ (entry.map (recordAudit root)).rows := by
            rw [Entry.rows_map]
            exact List.mem_map_of_mem hold
          have hle : other.generation ≤ _ := (hentry.rows _ hrow).1
          have habove : corrected.generation = _ := hgenerations.2
          omega
        · simp only [List.mem_cons, List.not_mem_nil, or_false] at hnew
          rcases hnew with hreversal | hself
          · rw [← hreversal] at hroles
            exact absurd (hroles.1.symm.trans hrole) (by decide)
          · rw [hcorrected] at hself
            exact absurd (Option.some.inj hself) hne

/-- The corrections of a record are of one entry, of which the view shows the head. -/
theorem lineal_record {entry : Entry (Option (RecordCorrection φ))}
    (hrows : entry.rows = recordRows root corrections)
    (haudited : Audited (entry.map (recordAudit root))) :
    Amendment.Lineal (recordView root) (fun _ => ())
      (fun row => (recordAudit root row).role = .reversal) [entry] := by
  have hroot : entry.root = none := (List.cons.inj hrows).1
  constructor
  case nodup =>
    have hnodup := haudited.nodup
    rw [Entry.rows_map] at hnodup
    rw [rowsOf_cons, rowsOf_nil, List.append_nil]
    exact .of_map _ hnodup
  case root =>
    intro other hother
    rw [List.mem_singleton.mp hother, hroot]
    simp [recordAudit]
  case pairs =>
    intro other hother pair hpair
    rw [List.mem_singleton.mp hother] at hpair
    have hroles := haudited.pairs _ (List.mem_map_of_mem hpair)
    exact ⟨hroles.1, fun hreversal => absurd (hroles.2.symm.trans hreversal) (by decide)⟩
  case lineage => exact fun _ _ _ _ => rfl
  case apart => exact List.nodup_singleton _
  case now =>
    rw [rowsOf_cons, rowsOf_nil, List.append_nil]
    exact recordView_rows haudited hroot
  case stood =>
    rintro cancel earlier stood ⟨replace, back, later, hsplit⟩
    rcases List.append_eq_singleton_iff.mp hsplit.symm with ⟨rfl, hlast⟩ | ⟨-, hnone⟩
    · obtain ⟨hentry, -⟩ := List.cons.inj hlast
      rw [← hentry] at haudited hroot
      unfold Entry.map at haudited
      rw [List.map_append] at haudited
      have hview : recordView root stood.rows = [stood.head] := recordView_rows haudited.cut hroot
      simpa using hview
    · exact absurd hnone (List.cons_ne_nil _ _)

theorem latestCorrection_recordRows (root : Uuid) (corrections : List (RecordCorrection φ)) :
    Tenant.latestCorrection (recordRows root corrections).reduceOption root =
      Tenant.latestCorrection corrections root := by
  have hreduce : (recordRows root corrections).reduceOption =
      corrections.filter (·.rootId = root) := by
    simp [recordRows, List.reduceOption]
  rw [hreduce, Tenant.latestCorrection, Tenant.latestCorrection, List.filter_filter]
  refine congrArg _ (List.filter_congr fun c _ => ?_)
  by_cases hroot : c.rootId = root <;> simp [hroot]

theorem pairedGenerations_nil (root : Uuid) :
    PairedGenerations root ([] : List (RecordCorrection φ)) :=
  ⟨Entry.plain none, rfl, .plain rfl rfl⟩

/-- A pair of the next generation. -/
theorem PairedGenerations.concat {reversal corrected : RecordCorrection φ}
    (h : PairedGenerations root corrections)
    (hroles : reversal.role = .reversal ∧ corrected.role = .corrected)
    (hroots : reversal.rootId = corrected.rootId)
    (hgenerations :
      reversal.generation = Tenant.generation corrections corrected.rootId + 1 ∧
        corrected.generation = Tenant.generation corrections corrected.rootId + 1) :
    PairedGenerations root (corrections ++ [reversal, corrected]) := by
  obtain ⟨entry, hrows, haudited⟩ := h
  by_cases hown : corrected.rootId = root
  · have hroot : entry.root = none := (List.cons.inj hrows).1
    refine ⟨entry.amend (some reversal, some corrected), ?_, ?_⟩
    · rw [Entry.rows_amend, hrows]
      simp [recordRows, List.filter_append, hroots, hown]
    · have hhead : (recordAudit root entry.head).generation =
          Tenant.generation corrections corrected.rootId := by
        have hview := recordView_rows haudited hroot
        rw [recordView, hrows, latestCorrection_recordRows] at hview
        rw [Tenant.generation, hown, (List.cons.inj hview).1]
        cases entry.head <;> rfl
      rw [Entry.map_amend]
      refine .amend haudited hroles ?_ ?_
      · rw [Entry.root_map, hroot]
        exact ⟨by rw [← hown, ← hroots]; rfl, by rw [← hown]; rfl⟩
      · rw [Entry.head_map, hhead]
        exact hgenerations
  · refine ⟨entry, hrows.trans ?_, haudited⟩
    simp [recordRows, List.filter_append, hroots, hown]

/-- Every record has one replacement of each generation. -/
theorem replacedOnce_corrections (h : ∀ root, PairedGenerations root corrections) :
    ReplacedOnce (corrections.map RecordCorrection.audit) := by
  intro row hrow other hother hrole hrole' hsame hgeneration
  obtain ⟨c, hc, rfl⟩ := List.mem_map.mp hrow
  obtain ⟨c', hc', rfl⟩ := List.mem_map.mp hother
  obtain ⟨entry, hrows, haudited⟩ := h c.rootId
  have hown : ∀ d ∈ corrections, d.rootId = c.rootId →
      d.audit ∈ (entry.map (recordAudit c.rootId)).rows := by
    intro d hd hroot
    rw [Entry.rows_map, hrows]
    refine List.mem_map.mpr ⟨some d, List.mem_cons_of_mem _ ?_, rfl⟩
    exact List.mem_map_of_mem (List.mem_filter.mpr ⟨hd, by simpa using hroot⟩)
  rw [haudited.replacement_unique _ (hown c hc rfl) _
    (hown c' hc' (Option.some.inj hsame).symm) hrole hrole' hgeneration]

end

end FleetOps
