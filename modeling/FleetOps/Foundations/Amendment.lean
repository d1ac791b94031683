import Mathlib.Data.List.Induction
import Mathlib.Data.List.Range
import Mathlib.Order.Nat
import Mathlib.Tactic.Common

/-!
# Append-only histories with amendments

A history records assertions.  An assertion is never edited: it is *amended* by
appending a cancellation, which repeats what it cancels, and a replacement.
An `Entry` is an assertion with its amendments, oldest first; its `head` is the
row now in force.  The rows of a history are the rows of its entries in order
(`rowsOf`), and its standing facts are the heads.

Three properties of a history, over any row type:

* `Follows`: every assertion, amended or not, is a legal step from what the
  previous entry's head left, so the heads are too (`Follows.heads`); in a
  `Chained` history a step starts from the fact that is in force;
* `Numbered`: an entry's rows carry consecutive numbers;
* `Ascending`: numbers rise along the whole history.

Each is kept by the two ways a history grows: a new entry at the end, or an
amendment of the last entry.
-/

namespace Amendment

variable {ρ φ : Type*}

/-- An assertion and its amendments, each a cancellation and a replacement. -/
structure Entry (ρ : Type*) where
  root : ρ
  amendments : List (ρ × ρ)

namespace Entry

/-- An assertion that was not amended. -/
def plain (row : ρ) : Entry ρ := ⟨row, []⟩

/-- Amend an entry once more. -/
def amend (entry : Entry ρ) (pair : ρ × ρ) : Entry ρ :=
  ⟨entry.root, entry.amendments ++ [pair]⟩

/-- The row in force: the last replacement, or the assertion itself. -/
def head (entry : Entry ρ) : ρ := (entry.amendments.getLast?.map Prod.snd).getD entry.root

/-- Everything the entry has recorded, in order. -/
def rows (entry : Entry ρ) : List ρ :=
  entry.root :: entry.amendments.flatMap fun pair => [pair.1, pair.2]

@[simp] theorem head_plain (row : ρ) : (plain row).head = row := rfl

@[simp] theorem rows_plain (row : ρ) : (plain row).rows = [row] := rfl

@[simp] theorem root_plain (row : ρ) : (plain row).root = row := rfl

@[simp] theorem root_amend (entry : Entry ρ) (pair : ρ × ρ) :
    (entry.amend pair).root = entry.root := rfl

@[simp] theorem amendments_amend (entry : Entry ρ) (pair : ρ × ρ) :
    (entry.amend pair).amendments = entry.amendments ++ [pair] := rfl

@[simp] theorem head_amend (entry : Entry ρ) (pair : ρ × ρ) :
    (entry.amend pair).head = pair.2 := by
  simp [head, amend]

@[simp] theorem rows_amend (entry : Entry ρ) (pair : ρ × ρ) :
    (entry.amend pair).rows = entry.rows ++ [pair.1, pair.2] := by
  simp [rows, amend]

theorem root_mem_rows (entry : Entry ρ) : entry.root ∈ entry.rows := List.mem_cons_self ..

theorem head_mem_rows (entry : Entry ρ) : entry.head ∈ entry.rows := by
  obtain ⟨root, amendments⟩ := entry
  cases amendments using List.reverseRecOn with
  | nil => exact List.mem_cons_self ..
  | append_singleton amendments pair =>
      have hhead := head_amend ⟨root, amendments⟩ pair
      have hrows := rows_amend ⟨root, amendments⟩ pair
      simp only [amend] at hhead hrows
      rw [hhead, hrows]
      simp

/-- The row in force is the last one recorded. -/
theorem getLast?_rows (entry : Entry ρ) : entry.rows.getLast? = some entry.head := by
  obtain ⟨root, amendments⟩ := entry
  cases amendments using List.reverseRecOn with
  | nil => rfl
  | append_singleton amendments pair =>
      have hhead := head_amend ⟨root, amendments⟩ pair
      have hrows := rows_amend ⟨root, amendments⟩ pair
      simp only [amend] at hhead hrows
      rw [hhead, hrows]
      simp

/-- The rows of an entry carry consecutive numbers. -/
def Numbered (number : ρ → ℕ) (entry : Entry ρ) : Prop :=
  entry.rows.map number = List.range' (number entry.root) (2 * entry.amendments.length + 1)

variable {number : ρ → ℕ}

theorem numbered_plain (row : ρ) : Numbered number (plain row) := rfl

theorem Numbered.head {entry : Entry ρ} (h : Numbered number entry) :
    number entry.head = number entry.root + 2 * entry.amendments.length := by
  obtain ⟨root, amendments⟩ := entry
  cases amendments using List.reverseRecOn with
  | nil => rfl
  | append_singleton amendments pair =>
      have hrows := rows_amend ⟨root, amendments⟩ pair
      have hhead := head_amend ⟨root, amendments⟩ pair
      simp only [amend] at hrows hhead
      have hlast := congrArg List.getLast? h
      rw [hrows, List.getLast?_map] at hlast
      simp only [List.getLast?_append, List.getLast?_cons_cons, List.getLast?_singleton,
        Option.some_or, Option.map_some, List.getLast?_range', List.length_append,
        List.length_singleton] at hlast
      rw [if_neg (by omega), Option.some.injEq] at hlast
      rw [hhead, hlast]
      simp only [List.length_append, List.length_singleton]
      omega

theorem Numbered.amend {entry : Entry ρ} (h : Numbered number entry) {pair : ρ × ρ}
    (hcancel : number pair.1 = number entry.head + 1)
    (hreplace : number pair.2 = number entry.head + 2) : Numbered number (entry.amend pair) := by
  have hsplit : 2 * (entry.amend pair).amendments.length + 1 =
      (2 * entry.amendments.length + 1) + 2 := by
    simp only [amendments_amend, List.length_append, List.length_singleton]
    omega
  have hfirst : number pair.1 = number entry.root + (2 * entry.amendments.length + 1) := by
    rw [hcancel, h.head]
    omega
  have hsecond : number pair.2 = number entry.root + (2 * entry.amendments.length + 1) + 1 := by
    rw [hreplace, h.head]
    omega
  unfold Numbered
  rw [hsplit, ← List.range'_append_1, rows_amend, List.map_append, root_amend, h]
  simp only [List.map_cons, List.map_nil, hfirst, hsecond, List.range'_succ, List.range'_zero]

theorem Numbered.root_le {entry : Entry ρ} (h : Numbered number entry) {row : ρ}
    (hrow : row ∈ entry.rows) : number entry.root ≤ number row := by
  have hmem : number row ∈ entry.rows.map number := List.mem_map_of_mem hrow
  rw [h, List.mem_range'_1] at hmem
  exact hmem.1

theorem Numbered.le_head {entry : Entry ρ} (h : Numbered number entry) {row : ρ}
    (hrow : row ∈ entry.rows) : number row ≤ number entry.head := by
  have hmem : number row ∈ entry.rows.map number := List.mem_map_of_mem hrow
  rw [h, List.mem_range'_1] at hmem
  rw [h.head]
  omega

end Entry

/-! ## Histories -/

/-- The rows of a history, in the order they were recorded. -/
def rowsOf (entries : List (Entry ρ)) : List ρ := entries.flatMap Entry.rows

@[simp] theorem rowsOf_nil : rowsOf ([] : List (Entry ρ)) = [] := rfl

@[simp] theorem rowsOf_cons (entry : Entry ρ) (rest : List (Entry ρ)) :
    rowsOf (entry :: rest) = entry.rows ++ rowsOf rest := rfl

@[simp] theorem rowsOf_append (first second : List (Entry ρ)) :
    rowsOf (first ++ second) = rowsOf first ++ rowsOf second := by
  simp [rowsOf]

theorem mem_rowsOf {entries : List (Entry ρ)} {row : ρ} :
    row ∈ rowsOf entries ↔ ∃ entry ∈ entries, row ∈ entry.rows := by
  simp [rowsOf]

@[simp] theorem rowsOf_eq_nil {entries : List (Entry ρ)} : rowsOf entries = [] ↔ entries = [] := by
  cases entries with
  | nil => simp
  | cons entry rest => simp [Entry.rows]

/-- The last row of a history is the last head. -/
theorem getLast?_rowsOf (entries : List (Entry ρ)) :
    (rowsOf entries).getLast? = entries.getLast?.map Entry.head := by
  cases entries using List.reverseRecOn with
  | nil => rfl
  | append_singleton earlier last =>
      rw [rowsOf_append, List.getLast?_append, rowsOf_cons, rowsOf_nil, List.append_nil,
        last.getLast?_rows, List.getLast?_concat]
      rfl

/-- A test that picks the head of every entry picks the heads of the history. -/
theorem filter_rowsOf {keep : ρ → Bool} {entries : List (Entry ρ)}
    (h : ∀ entry ∈ entries, entry.rows.filter keep = [entry.head]) :
    (rowsOf entries).filter keep = entries.map Entry.head := by
  induction entries with
  | nil => rfl
  | cons entry rest ih =>
      rw [rowsOf_cons, List.filter_append, h entry (List.mem_cons_self ..), List.map_cons,
        ih fun other hother => h other (List.mem_cons_of_mem _ hother)]
      rfl

/-- The fact a history leaves in force: the last head's, or `prior` where nothing is recorded. -/
def standing (target : ρ → φ) (prior : φ) (entries : List (Entry ρ)) : φ :=
  (entries.getLast?.map fun entry => target entry.head).getD prior

@[simp] theorem standing_nil (target : ρ → φ) (prior : φ) : standing target prior [] = prior := rfl

@[simp] theorem standing_concat (target : ρ → φ) (prior : φ) (entries : List (Entry ρ))
    (entry : Entry ρ) : standing target prior (entries ++ [entry]) = target entry.head := by
  simp [standing]

/-- Every row of an entry that asserts something, its root and its replacements, is a step from
what was in force before the entry. -/
def Follows (step : φ → ρ → Prop) (target : ρ → φ) : φ → List (Entry ρ) → Prop
  | _, [] => True
  | prior, entry :: rest =>
      (step prior entry.root ∧ ∀ pair ∈ entry.amendments, step prior pair.2) ∧
        Follows step target (target entry.head) rest

/-- Every entry, and every replacement in it, starts from the fact in force before it. -/
abbrev Chained (source target : ρ → φ) : φ → List (Entry ρ) → Prop :=
  Follows (fun fact row => source row = fact) target

variable {step : φ → ρ → Prop} {source target : ρ → φ} {number : ρ → ℕ}

theorem follows_append {prior : φ} {first second : List (Entry ρ)} :
    Follows step target prior (first ++ second) ↔
      Follows step target prior first ∧
        Follows step target (standing target prior first) second := by
  induction first generalizing prior with
  | nil => simp [Follows]
  | cons entry rest ih =>
      have hstanding : standing target prior (entry :: rest) =
          standing target (target entry.head) rest := by
        cases rest using List.reverseRecOn with
        | nil => rfl
        | append_singleton rest last =>
            rw [← List.cons_append, standing_concat, standing_concat]
      rw [List.cons_append, Follows, Follows, ih, hstanding]
      exact and_assoc.symm

theorem Follows.mono {other : φ → ρ → Prop} (himp : ∀ fact row, step fact row → other fact row)
    {prior : φ} {entries : List (Entry ρ)} (h : Follows step target prior entries) :
    Follows other target prior entries := by
  induction entries generalizing prior with
  | nil => trivial
  | cons entry rest ih =>
      exact ⟨⟨himp _ _ h.1.1, fun pair hpair => himp _ _ (h.1.2 pair hpair)⟩, ih h.2⟩

theorem Follows.concat {prior : φ} {entries : List (Entry ρ)}
    (h : Follows step target prior entries) {row : ρ}
    (hstep : step (standing target prior entries) row) :
    Follows step target prior (entries ++ [Entry.plain row]) :=
  follows_append.mpr ⟨h, ⟨hstep, by simp [Entry.plain]⟩, trivial⟩

theorem Follows.amendLast {prior : φ} {entries : List (Entry ρ)} {entry : Entry ρ}
    (h : Follows step target prior (entries ++ [entry])) {pair : ρ × ρ}
    (hstep : step (standing target prior entries) pair.2) :
    Follows step target prior (entries ++ [entry.amend pair]) := by
  obtain ⟨hfirst, ⟨hroot, hpairs⟩, -⟩ := follows_append.mp h
  refine follows_append.mpr ⟨hfirst, ⟨hroot, ?_⟩, trivial⟩
  intro other hother
  rw [Entry.amendments_amend] at hother
  rcases List.mem_append.mp hother with hmem | hmem
  · exact hpairs other hmem
  · exact (List.mem_singleton.mp hmem) ▸ hstep

/-- What an entry asserts is a step from what the entries before it left. -/
theorem Follows.root {prior : φ} {earlier later : List (Entry ρ)} {entry : Entry ρ}
    (h : Follows step target prior (earlier ++ entry :: later)) :
    step (standing target prior earlier) entry.root :=
  (follows_append.mp h).2.1.1

theorem Follows.replacement {prior : φ} {earlier later : List (Entry ρ)} {entry : Entry ρ}
    (h : Follows step target prior (earlier ++ entry :: later)) {pair : ρ × ρ}
    (hpair : pair ∈ entry.amendments) : step (standing target prior earlier) pair.2 :=
  (follows_append.mp h).2.1.2 pair hpair

/-- The row in force in an entry is itself a step from what was in force before it. -/
theorem Follows.head {prior : φ} {entry : Entry ρ} {rest : List (Entry ρ)}
    (h : Follows step target prior (entry :: rest)) : step prior entry.head := by
  obtain ⟨⟨hroot, hpairs⟩, -⟩ := h
  obtain ⟨root, amendments⟩ := entry
  cases amendments using List.reverseRecOn with
  | nil => exact hroot
  | append_singleton amendments pair =>
      have hhead := Entry.head_amend ⟨root, amendments⟩ pair
      simp only [Entry.amend] at hhead
      rw [hhead]
      exact hpairs pair (by simp)

/-- The heads of a history step from one to the next, starting from `prior`. -/
theorem Follows.heads {prior : φ} {entries : List (Entry ρ)}
    (h : Follows step target prior entries) :
    (∀ first ∈ (entries.map Entry.head).head?, step prior first) ∧
      (entries.map Entry.head).IsChain fun earlier later => step (target earlier) later := by
  induction entries generalizing prior with
  | nil => simp
  | cons entry rest ih =>
      obtain ⟨hfirst, hchain⟩ := ih h.2
      refine ⟨?_, ?_⟩
      · intro first hmem
        simp only [List.map_cons, List.head?_cons, Option.mem_def, Option.some.injEq] at hmem
        exact hmem ▸ h.head
      · cases rest with
        | nil => simp
        | cons next more =>
            simp only [List.map_cons, List.isChain_cons_cons] at hchain ⊢
            exact ⟨hfirst next.head (by simp), hchain⟩

/-- Numbers rise along the whole history. -/
def Ascending (number : ρ → ℕ) (entries : List (Entry ρ)) : Prop :=
  (rowsOf entries).Pairwise fun a b => number a < number b

theorem Ascending.append_rows {entries : List (Entry ρ)} {fresh : List ρ}
    (h : Ascending number entries) (hfresh : fresh.Pairwise fun a b => number a < number b)
    (habove : ∀ old ∈ rowsOf entries, ∀ new ∈ fresh, number old < number new) :
    (rowsOf entries ++ fresh).Pairwise fun a b => number a < number b :=
  List.pairwise_append.mpr ⟨h, hfresh, habove⟩

theorem rowsOf_amendLast (entries : List (Entry ρ)) (entry : Entry ρ) (pair : ρ × ρ) :
    rowsOf (entries ++ [entry.amend pair]) =
      rowsOf (entries ++ [entry]) ++ [pair.1, pair.2] := by
  simp

/-- The heads of an ascending history rise too. -/
theorem Ascending.heads {entries : List (Entry ρ)} (h : Ascending number entries) :
    (entries.map Entry.head).Pairwise fun a b => number a < number b := by
  induction entries with
  | nil => simp
  | cons entry rest ih =>
      unfold Ascending at h
      rw [rowsOf_cons] at h
      obtain ⟨-, hrest, hcross⟩ := List.pairwise_append.mp h
      refine List.pairwise_cons.mpr ⟨?_, ih hrest⟩
      intro head hhead
      obtain ⟨other, hother, rfl⟩ := List.mem_map.mp hhead
      exact hcross _ entry.head_mem_rows _ (mem_rowsOf.mpr ⟨other, hother, other.head_mem_rows⟩)

end Amendment
