import FleetOps.Assets.Effective
import FleetOps.Foundations.Amendment

/-!
# The overlay structure of a history

A well formed history is a list of entries: an ordinary row with the correction
pairs that were appended to it.  `Overlaid` builds such an entry one pair at a
time.  The main result, `effective_rowsOf`, is that the effective view of the
rows of such entries is the list of their heads, so that reading the view is
reading the newest generation of every root.
-/

namespace FleetOps

open Amendment

variable {φ : Type}

/-- An ordinary row, or an overlaid entry with one more correction pair on its head. -/
inductive Overlaid : Entry (HistoryRow φ) → Prop
  | plain {row : HistoryRow φ} (role : row.role = .none) (root : row.root = none)
      (generation : row.generation = 0) : Overlaid (.plain row)
  | amend {entry : Entry (HistoryRow φ)} {pair : HistoryRow φ × HistoryRow φ}
      (entry_overlaid : Overlaid entry)
      (roles : pair.1.role = .reversal ∧ pair.2.role = .corrected)
      (roots : pair.1.root = some entry.root.id ∧ pair.2.root = some entry.root.id)
      (generations : pair.1.generation = entry.head.generation + 1 ∧
        pair.2.generation = entry.head.generation + 1) : Overlaid (entry.amend pair)

namespace Overlaid

variable {entry : Entry (HistoryRow φ)}

theorem root_role (h : Overlaid entry) : entry.root.role = .none := by
  induction h with
  | plain role root generation => exact role
  | amend _ _ _ _ ih => exact ih

/-- Every row of an entry belongs to its root. -/
theorem rootId_eq (h : Overlaid entry) : ∀ row ∈ entry.rows, row.rootId = entry.root.id := by
  induction h with
  | plain role root generation =>
      intro row hrow
      rw [Entry.rows_plain, List.mem_singleton] at hrow
      simp [hrow, HistoryRow.rootId, root]
  | amend _ roles roots generations ih =>
      intro row hrow
      rw [Entry.rows_amend, List.mem_append] at hrow
      rcases hrow with hold | hnew
      · exact ih row hold
      · simp only [List.mem_cons, List.not_mem_nil, or_false] at hnew
        rcases hnew with rfl | rfl
        · simp [HistoryRow.rootId, roots.1]
        · simp [HistoryRow.rootId, roots.2]

/-- The head is the newest generation. -/
theorem generation_le (h : Overlaid entry) :
    ∀ row ∈ entry.rows, row.generation ≤ entry.head.generation := by
  induction h with
  | plain role root generation =>
      intro row hrow
      rw [Entry.rows_plain, List.mem_singleton] at hrow
      rw [hrow, Entry.head_plain]
  | amend _ roles roots generations ih =>
      intro row hrow
      rw [Entry.head_amend, generations.2]
      rw [Entry.rows_amend, List.mem_append] at hrow
      rcases hrow with hold | hnew
      · exact (ih row hold).trans (Nat.le_succ _)
      · simp only [List.mem_cons, List.not_mem_nil, or_false] at hnew
        rcases hnew with rfl | rfl
        · exact generations.1.le
        · exact generations.2.le

/-- A head above generation zero is a replacement under the entry's root. -/
theorem head_of_pos (h : Overlaid entry) (hpos : 0 < entry.head.generation) :
    entry.head.role = .corrected ∧ entry.head.root = some entry.root.id := by
  cases h with
  | plain role root generation =>
      rw [Entry.head_plain, generation] at hpos
      exact absurd hpos (Nat.lt_irrefl 0)
  | amend _ roles roots generations =>
      rw [Entry.head_amend, Entry.root_amend]
      exact ⟨roles.2, roots.2⟩

/-- Only the head is of the newest generation and not a reversal. -/
theorem filter_head (h : Overlaid entry) :
    (entry.rows.filter fun row => row.role != .reversal &&
      !decide (row.generation < entry.head.generation)) = [entry.head] := by
  cases h with
  | plain role root generation => simp [role]
  | amend hentry roles roots generations =>
      rename_i entry pair
      rw [Entry.rows_amend, Entry.head_amend, List.filter_append]
      have hold : (entry.rows.filter fun row => row.role != .reversal &&
          !decide (row.generation < pair.2.generation)) = [] := by
        refine List.filter_eq_nil_iff.mpr fun row hrow => ?_
        have hle := hentry.generation_le row hrow
        have hlt : row.generation < pair.2.generation := by
          rw [generations.2]
          omega
        simp [hlt]
      rw [hold, List.nil_append]
      simp [roles.1, roles.2]

/-- An ordinary row of an entry is its root. -/
theorem eq_root (h : Overlaid entry) {row : HistoryRow φ} (hrow : row ∈ entry.rows)
    (hrole : row.role = .none) : row = entry.root := by
  induction h with
  | plain role root generation => simpa using hrow
  | amend _ roles roots generations ih =>
      rw [Entry.rows_amend, List.mem_append] at hrow
      rcases hrow with hold | hnew
      · exact ih hold
      · simp only [List.mem_cons, List.not_mem_nil, or_false] at hnew
        rcases hnew with rfl | rfl
        · exact absurd (hrole.symm.trans roles.1) (by decide)
        · exact absurd (hrole.symm.trans roles.2) (by decide)

/-- A row of an entry is its root, a cancellation, or a replacement under the root. -/
theorem mem_cases (h : Overlaid entry) {row : HistoryRow φ} (hrow : row ∈ entry.rows) :
    row = entry.root ∨ row.role = .reversal ∨
      (row.root = some entry.root.id ∧ ∃ pair ∈ entry.amendments, row = pair.2) := by
  induction h with
  | plain role root generation => exact .inl (by simpa using hrow)
  | amend _ roles roots generations ih =>
      rename_i entry pair _
      rw [Entry.rows_amend, List.mem_append] at hrow
      rcases hrow with hold | hnew
      · rcases ih hold with hroot | hreversal | ⟨hroot, other, hother, hpair⟩
        · exact .inl hroot
        · exact .inr (.inl hreversal)
        · exact .inr (.inr ⟨hroot, other, by simp [hother], hpair⟩)
      · simp only [List.mem_cons, List.not_mem_nil, or_false] at hnew
        rcases hnew with rfl | rfl
        · exact .inr (.inl roles.1)
        · exact .inr (.inr ⟨roots.2, pair, by simp, rfl⟩)

end Overlaid

/-- Entries of one Asset with distinct roots. -/
structure Entries (asset : Uuid) (entries : List (Entry (HistoryRow φ))) : Prop where
  overlaid : ∀ entry ∈ entries, Overlaid entry
  asset : ∀ row ∈ rowsOf entries, row.assetId = asset
  ids : ((rowsOf entries).map HistoryRow.id).Nodup

namespace Entries

variable {asset : Uuid} {entries : List (Entry (HistoryRow φ))}

/-- A row's id identifies it. -/
theorem eq_of_id (h : Entries asset entries) {first second : HistoryRow φ}
    (hfirst : first ∈ rowsOf entries) (hsecond : second ∈ rowsOf entries)
    (hid : first.id = second.id) : first = second :=
  List.inj_on_of_nodup_map h.ids hfirst hsecond hid

/-- A root identifies its entry. -/
theorem eq_of_root (h : Entries asset entries) {first second : Entry (HistoryRow φ)}
    (hfirst : first ∈ entries) (hsecond : second ∈ entries)
    (hroot : first.root.id = second.root.id) : first = second := by
  induction entries with
  | nil => simp at hfirst
  | cons entry rest ih =>
      have hids := h.ids
      rw [rowsOf_cons, List.map_append] at hids
      obtain ⟨-, hrest, hdisjoint⟩ := List.nodup_append.mp hids
      have hroots : ∀ other ∈ rest, other.root.id ≠ entry.root.id := by
        intro other hother heq
        refine hdisjoint _ (List.mem_map_of_mem entry.root_mem_rows) _
          (List.mem_map_of_mem (mem_rowsOf.mpr ⟨other, hother, other.root_mem_rows⟩)) heq.symm
      have htail : Entries asset rest :=
        ⟨fun other hother => h.overlaid other (List.mem_cons_of_mem _ hother),
          fun row hrow => h.asset row (by simp [hrow]), hrest⟩
      rcases List.mem_cons.mp hfirst with hfirstHead | hfirstRest
      · rcases List.mem_cons.mp hsecond with hsecondHead | hsecondRest
        · exact hfirstHead.trans hsecondHead.symm
        · exact absurd (hroot.symm.trans (by rw [hfirstHead])) (hroots second hsecondRest)
      · rcases List.mem_cons.mp hsecond with hsecondHead | hsecondRest
        · exact absurd (hroot.trans (by rw [hsecondHead])) (hroots first hfirstRest)
        · exact ih htail hfirstRest hsecondRest

/-- A row is superseded exactly when it is not of its entry's newest generation. -/
theorem superseded_eq (h : Entries asset entries) {entry : Entry (HistoryRow φ)}
    (hentry : entry ∈ entries) {row : HistoryRow φ} (hrow : row ∈ entry.rows) :
    superseded (rowsOf entries) row = decide (row.generation < entry.head.generation) := by
  have hoverlaid := h.overlaid entry hentry
  have hroot := hoverlaid.rootId_eq row hrow
  rw [Bool.eq_iff_iff, superseded, List.any_eq_true, decide_eq_true_eq]
  simp only [Bool.and_eq_true, beq_iff_eq, decide_eq_true_eq, hroot]
  constructor
  · rintro ⟨c, hc, ⟨⟨-, hcroot⟩, -⟩, hlt⟩
    obtain ⟨other, hother, hcrow⟩ := mem_rowsOf.mp hc
    have hcrootId := (h.overlaid other hother).rootId_eq c hcrow
    rw [HistoryRow.rootId, hcroot, Option.getD_some] at hcrootId
    obtain rfl := h.eq_of_root hentry hother hcrootId
    exact hlt.trans_le (hoverlaid.generation_le c hcrow)
  · intro hlt
    obtain ⟨hcorrected, hheadRoot⟩ := hoverlaid.head_of_pos (by omega)
    refine ⟨entry.head, mem_rowsOf.mpr ⟨entry, hentry, entry.head_mem_rows⟩, ⟨⟨?_, hheadRoot⟩,
      hcorrected⟩, hlt⟩
    rw [h.asset _ (mem_rowsOf.mpr ⟨entry, hentry, entry.head_mem_rows⟩),
      h.asset row (mem_rowsOf.mpr ⟨entry, hentry, hrow⟩)]

/-- The effective view of a well formed history is its entries' heads. -/
theorem effective_rowsOf (h : Entries asset entries) :
    effective (rowsOf entries) = entries.map Entry.head := by
  refine filter_rowsOf fun entry hentry => ?_
  rw [← (h.overlaid entry hentry).filter_head]
  exact List.filter_congr fun row hrow => by rw [h.superseded_eq hentry hrow]

end Entries

end FleetOps
