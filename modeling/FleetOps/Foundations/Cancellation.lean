import FleetOps.Foundations.Amendment
import Mathlib.Data.List.Nodup
import Mathlib.Data.List.Perm.Basic

/-!
# What a cancellation cancels

An entry's amendments do not store which row they cancel: it is the one that was
in force when the cancellation was recorded.  `links` lists each cancellation of
an entry with that row, and `Stood` is how a history stood just before one.

`Cancels` says the same of raw rows, through a view that shows the rows in force.
For a history whose view shows the heads (`Lineal`), both agree
(`Lineal.cancels_iff`), and cancelling is one-to-one between the cancellations and
the rows that are no longer in force (`Lineal.exact`).
-/

namespace Amendment

variable {ρ κ : Type*}

namespace Entry

/-- Cancellations with what they cancel, from the row in force on. -/
def linksFrom : ρ → List (ρ × ρ) → List (ρ × ρ)
  | _, [] => []
  | inForce, pair :: rest => (pair.1, inForce) :: linksFrom pair.2 rest

/-- Each cancellation of an entry with the row that was in force before it. -/
def links (entry : Entry ρ) : List (ρ × ρ) := linksFrom entry.root entry.amendments

/-- An entry is an assertion, amended any number of times. -/
@[elab_as_elim]
theorem induction_on {motive : Entry ρ → Prop} (entry : Entry ρ)
    (plain : ∀ row, motive (Entry.plain row))
    (amend : ∀ entry pair, motive entry → motive (entry.amend pair)) : motive entry := by
  obtain ⟨root, amendments⟩ := entry
  induction amendments using List.reverseRecOn with
  | nil => exact plain root
  | append_singleton amendments pair ih => exact amend ⟨root, amendments⟩ pair ih

@[simp] theorem links_plain (row : ρ) : (plain row).links = [] := rfl

theorem linksFrom_concat (inForce : ρ) (amendments : List (ρ × ρ)) (pair : ρ × ρ) :
    linksFrom inForce (amendments ++ [pair]) = linksFrom inForce amendments ++
      [(pair.1, (amendments.getLast?.map Prod.snd).getD inForce)] := by
  induction amendments generalizing inForce with
  | nil => rfl
  | cons first rest ih =>
      rw [List.cons_append, linksFrom, linksFrom, ih, List.cons_append]
      cases rest using List.reverseRecOn with
      | nil => rfl
      | append_singleton rest last =>
          rw [← @List.cons_append _ first, List.getLast?_concat, List.getLast?_concat]
          rfl

@[simp] theorem links_amend (entry : Entry ρ) (pair : ρ × ρ) :
    (entry.amend pair).links = entry.links ++ [(pair.1, entry.head)] :=
  linksFrom_concat entry.root entry.amendments pair

theorem map_fst_links (entry : Entry ρ) :
    entry.links.map Prod.fst = entry.amendments.map Prod.fst := by
  induction entry using Entry.induction_on with
  | plain row => rfl
  | amend entry pair ih =>
      rw [links_amend, amendments_amend, List.map_append, List.map_append, ih]
      rfl

/-- What was cancelled and what is in force are the assertion and its replacements. -/
theorem map_snd_links (entry : Entry ρ) :
    entry.links.map Prod.snd ++ [entry.head] = entry.root :: entry.amendments.map Prod.snd := by
  induction entry using Entry.induction_on with
  | plain row => rfl
  | amend entry pair ih =>
      rw [links_amend, amendments_amend, head_amend, root_amend, List.map_append, List.map_append,
        List.map_singleton, ih]
      rfl

theorem cancellations_sublist (entry : Entry ρ) :
    (entry.amendments.map Prod.fst).Sublist entry.rows := by
  induction entry using Entry.induction_on with
  | plain row => exact List.nil_sublist _
  | amend entry pair ih =>
      rw [amendments_amend, rows_amend, List.map_append]
      exact ih.append (List.Sublist.cons_cons _ (List.nil_sublist _))

theorem assertions_sublist (entry : Entry ρ) :
    (entry.root :: entry.amendments.map Prod.snd).Sublist entry.rows := by
  induction entry using Entry.induction_on with
  | plain row => exact List.Sublist.refl _
  | amend entry pair ih =>
      rw [root_amend, amendments_amend, rows_amend, List.map_append, ← List.cons_append]
      exact ih.append (List.Sublist.cons _ (List.Sublist.refl _))

/-- A row of an entry is one of its cancellations, or one of its assertions. -/
theorem mem_rows_cases {entry : Entry ρ} {row : ρ} (hrow : row ∈ entry.rows) :
    row ∈ entry.amendments.map Prod.fst ∨ row ∈ entry.root :: entry.amendments.map Prod.snd := by
  induction entry using Entry.induction_on with
  | plain asserted => exact .inr hrow
  | amend entry pair ih =>
      rw [rows_amend, List.mem_append] at hrow
      rw [amendments_amend, root_amend, List.map_append, List.map_append]
      rcases hrow with hold | hnew
      · rcases ih hold with hcancel | hassert
        · exact .inl (List.mem_append_left _ hcancel)
        · refine .inr ?_
          rw [← List.cons_append]
          exact List.mem_append_left _ hassert
      · simp only [List.mem_cons, List.not_mem_nil, or_false] at hnew
        rcases hnew with rfl | rfl
        · exact .inl (by simp)
        · exact .inr (by simp)

/-- The same entry, of other rows. -/
def map {σ : Type*} (f : ρ → σ) (entry : Entry ρ) : Entry σ :=
  ⟨f entry.root, entry.amendments.map (Prod.map f f)⟩

section

variable {σ : Type*} (f : ρ → σ)

@[simp] theorem root_map (entry : Entry ρ) : (entry.map f).root = f entry.root := rfl

@[simp] theorem map_plain (row : ρ) : (plain row).map f = plain (f row) := rfl

@[simp] theorem map_amend (entry : Entry ρ) (pair : ρ × ρ) :
    (entry.amend pair).map f = (entry.map f).amend (f pair.1, f pair.2) := by
  simp [map, amend, Prod.map]

theorem rows_map (entry : Entry ρ) : (entry.map f).rows = entry.rows.map f := by
  induction entry using Entry.induction_on with
  | plain row => rfl
  | amend entry pair ih => rw [map_amend, rows_amend, rows_amend, ih, List.map_append]; rfl

theorem head_map (entry : Entry ρ) : (entry.map f).head = f entry.head := by
  induction entry using Entry.induction_on with
  | plain row => rfl
  | amend entry pair ih => rw [map_amend, head_amend, head_amend]

theorem links_map (entry : Entry ρ) : (entry.map f).links = entry.links.map (Prod.map f f) := by
  induction entry using Entry.induction_on with
  | plain row => rfl
  | amend entry pair ih =>
      rw [map_amend, links_amend, links_amend, ih, List.map_append, head_map]
      rfl

end

end Entry

theorem sublist_flatMap {α β : Type*} {f g : α → List β} {items : List α}
    (h : ∀ item ∈ items, (f item).Sublist (g item)) :
    (items.flatMap f).Sublist (items.flatMap g) := by
  induction items with
  | nil => exact List.Sublist.refl _
  | cons item rest ih =>
      exact (h item (List.mem_cons_self ..)).append
        (ih fun other hother => h other (List.mem_cons_of_mem _ hother))

theorem roots_sublist (entries : List (Entry ρ)) :
    (entries.map Entry.root).Sublist (rowsOf entries) := by
  rw [← List.flatMap_singleton' (entries.map Entry.root), List.flatMap_map]
  exact sublist_flatMap fun entry _ => List.singleton_sublist.mpr entry.root_mem_rows

/-- The links of a history. -/
def linksOf (entries : List (Entry ρ)) : List (ρ × ρ) := entries.flatMap Entry.links

theorem rowsOf_map {σ : Type*} (f : ρ → σ) (entries : List (Entry ρ)) :
    rowsOf (entries.map (Entry.map f)) = (rowsOf entries).map f := by
  unfold rowsOf
  rw [List.flatMap_map, List.map_flatMap]
  exact List.flatMap_congr fun entry _ => entry.rows_map f

/-- Just before a cancellation was recorded, the history was `earlier` and `entry`. -/
def Stood (entries : List (Entry ρ)) (cancel : ρ) (earlier : List (Entry ρ)) (entry : Entry ρ) :
    Prop :=
  ∃ replace back later,
    entries = earlier ++ ⟨entry.root, entry.amendments ++ (cancel, replace) :: back⟩ :: later

section

variable {entries earlier : List (Entry ρ)} {entry : Entry ρ} {cancel row : ρ}

theorem Stood.rowsOf (h : Stood entries cancel earlier entry) :
    ∃ after, rowsOf entries = rowsOf (earlier ++ [entry]) ++ cancel :: after := by
  obtain ⟨replace, back, later, rfl⟩ := h
  simp [Entry.rows]

/-- The link of an entry is read off its amendments up to it. -/
theorem Entry.mem_links : (cancel, row) ∈ entry.links ↔
    ∃ front replace back, entry.amendments = front ++ (cancel, replace) :: back ∧
      (⟨entry.root, front⟩ : Entry ρ).head = row := by
  induction entry using Entry.induction_on with
  | plain asserted => simp [Entry.plain, links, linksFrom]
  | amend entry pair ih =>
      rw [links_amend, List.mem_append, ih, List.mem_singleton]
      simp only [root_amend, amendments_amend]
      constructor
      · rintro (⟨front, replace, back, hsplit, hhead⟩ | heq)
        · exact ⟨front, replace, back ++ [pair], by simp [hsplit], hhead⟩
        · obtain ⟨rfl, rfl⟩ := Prod.mk.inj heq
          exact ⟨entry.amendments, pair.2, [], rfl, rfl⟩
      · rintro ⟨front, replace, back, hsplit, hhead⟩
        rcases List.eq_nil_or_concat back with rfl | ⟨rest, last, rfl⟩
        · obtain ⟨rfl, hpair⟩ := List.append_inj' hsplit rfl
          obtain rfl := List.singleton_inj.mp hpair
          exact .inr (by rw [← hhead])
        · rw [List.concat_eq_append, ← List.cons_append, ← List.append_assoc] at hsplit
          obtain ⟨hfront, -⟩ := List.append_inj' hsplit rfl
          exact .inl ⟨front, replace, rest, hfront, hhead⟩

theorem mem_linksOf : (cancel, row) ∈ linksOf entries ↔
    ∃ earlier entry, Stood entries cancel earlier entry ∧ entry.head = row := by
  unfold linksOf Stood
  rw [List.mem_flatMap]
  constructor
  · rintro ⟨whole, hmem, hlink⟩
    obtain ⟨front, replace, back, hsplit, hhead⟩ := Entry.mem_links.mp hlink
    obtain ⟨earlier, later, rfl⟩ := List.append_of_mem hmem
    exact ⟨earlier, ⟨whole.root, front⟩, ⟨replace, back, later, by rw [← hsplit]⟩, hhead⟩
  · rintro ⟨earlier, entry, ⟨replace, back, later, rfl⟩, hhead⟩
    refine ⟨⟨entry.root, entry.amendments ++ (cancel, replace) :: back⟩, ?_, ?_⟩
    · exact List.mem_append_right _ (List.mem_cons_self ..)
    · exact Entry.mem_links.mpr ⟨entry.amendments, replace, back, rfl, hhead⟩

end

/-! ## Raw rows -/

/-- Of what the view showed when the cancellation was recorded, the row is that of its lineage. -/
def Cancels (view : List ρ → List ρ) (key : ρ → κ) (rows : List ρ) (cancel row : ρ) : Prop :=
  ∃ before after, rows = before ++ cancel :: after ∧ row ∈ view before ∧ key row = key cancel

/-- Cancelling is one-to-one between the cancellations and the other rows that are not in force. -/
structure CancelsExactly (view : List ρ → List ρ) (key : ρ → κ) (cancellation : ρ → Prop)
    (rows : List ρ) : Prop where
  cancels : ∀ cancel ∈ rows, cancellation cancel → ∃! row, Cancels view key rows cancel row
  superseded : ∀ cancel row, cancellation cancel → Cancels view key rows cancel row →
    row ∈ rows ∧ ¬cancellation row ∧ row ∉ view rows
  cancelled : ∀ row ∈ rows, ¬cancellation row → row ∉ view rows →
    ∃! cancel, cancel ∈ rows ∧ cancellation cancel ∧ Cancels view key rows cancel row

/-- The rows of these entries, of which the view shows the heads now and whenever a cancellation was
recorded. -/
structure Lineal (view : List ρ → List ρ) (key : ρ → κ) (cancellation : ρ → Prop)
    (entries : List (Entry ρ)) : Prop where
  nodup : (rowsOf entries).Nodup
  root : ∀ entry ∈ entries, ¬cancellation entry.root
  pairs : ∀ entry ∈ entries, ∀ pair ∈ entry.amendments,
    cancellation pair.1 ∧ ¬cancellation pair.2
  lineage : ∀ entry ∈ entries, ∀ row ∈ entry.rows, key row = key entry.root
  apart : (entries.map fun entry => key entry.root).Nodup
  now : view (rowsOf entries) = entries.map Entry.head
  stood : ∀ cancel earlier entry, Stood entries cancel earlier entry →
    view (rowsOf (earlier ++ [entry])) = (earlier ++ [entry]).map Entry.head

namespace Lineal

variable {view : List ρ → List ρ} {key : ρ → κ} {cancellation : ρ → Prop}
  {entries : List (Entry ρ)} {cancel row : ρ}

/-- A cancellation cancels one row. -/
theorem nodup_cancellations (h : Lineal view key cancellation entries) :
    ((linksOf entries).map Prod.fst).Nodup := by
  refine List.Nodup.sublist ?_ h.nodup
  unfold linksOf rowsOf
  rw [List.map_flatMap]
  refine sublist_flatMap fun entry _ => ?_
  rw [entry.map_fst_links]
  exact entry.cancellations_sublist

/-- What was cancelled and what is in force are apart. -/
theorem nodup_assertions (h : Lineal view key cancellation entries) :
    ((linksOf entries).map Prod.snd ++ entries.map Entry.head).Nodup := by
  have hperm : ((linksOf entries).map Prod.snd ++ entries.map Entry.head).Perm
      (entries.flatMap fun entry => entry.links.map Prod.snd ++ [entry.head]) := by
    unfold linksOf
    rw [List.map_flatMap, ← List.flatMap_singleton' (entries.map Entry.head), List.flatMap_map]
    exact List.flatMap_append_perm ..
  refine hperm.nodup_iff.mpr (List.Nodup.sublist (sublist_flatMap fun entry _ => ?_) h.nodup)
  rw [entry.map_snd_links]
  exact entry.assertions_sublist

/-- An entry of the history as it stood is one of the history now, with fewer amendments. -/
theorem entry_of_stood (h : Lineal view key cancellation entries) {earlier : List (Entry ρ)}
    {entry : Entry ρ} (hstood : Stood entries cancel earlier entry) :
    cancellation cancel ∧ key cancel = key entry.root ∧ key entry.head = key entry.root ∧
      ∀ other ∈ earlier, key other.head ≠ key entry.root := by
  obtain ⟨replace, back, later, rfl⟩ := hstood
  have hmem : (⟨entry.root, entry.amendments ++ (cancel, replace) :: back⟩ : Entry ρ) ∈
      earlier ++ ⟨entry.root, entry.amendments ++ (cancel, replace) :: back⟩ :: later :=
    List.mem_append_right _ (List.mem_cons_self ..)
  have hlineage := h.lineage _ hmem
  have hrows : (⟨entry.root, entry.amendments ++ (cancel, replace) :: back⟩ : Entry ρ).rows =
      entry.rows ++ cancel :: replace :: back.flatMap fun pair => [pair.1, pair.2] := by
    simp [Entry.rows]
  refine ⟨?_, ?_, ?_, fun other hother heq => ?_⟩
  · exact (h.pairs _ hmem (cancel, replace) (by simp)).1
  · exact hlineage cancel (by simp [hrows])
  · exact hlineage entry.head (hrows ▸ List.mem_append_left _ entry.head_mem_rows)
  · have hhead := h.lineage other (by simp [hother]) other.head other.head_mem_rows
    have hapart := h.apart
    rw [List.map_append, List.nodup_append] at hapart
    exact hapart.2.2 _ (List.mem_map_of_mem hother) _ (List.mem_cons_self ..) (hhead.symm.trans heq)

theorem stood_of_cancellation (h : Lineal view key cancellation entries)
    (hmem : cancel ∈ rowsOf entries) (hcancel : cancellation cancel) :
    ∃ earlier entry, Stood entries cancel earlier entry := by
  obtain ⟨entry, hentry, hrow⟩ := mem_rowsOf.mp hmem
  rcases Entry.mem_rows_cases hrow with hcancels | hasserts
  · rw [← entry.map_fst_links, List.mem_map] at hcancels
    obtain ⟨⟨_, row⟩, hlink, rfl⟩ := hcancels
    obtain ⟨earlier, stood, hstood, -⟩ :=
      mem_linksOf.mp (List.mem_flatMap.mpr ⟨entry, hentry, hlink⟩)
    exact ⟨earlier, stood, hstood⟩
  · rcases List.mem_cons.mp hasserts with rfl | hreplace
    · exact absurd hcancel (h.root entry hentry)
    · obtain ⟨pair, hpair, rfl⟩ := List.mem_map.mp hreplace
      exact absurd hcancel (h.pairs entry hentry pair hpair).2

/-- The raw rows say what the links say. -/
theorem cancels_iff (h : Lineal view key cancellation entries) (hmem : cancel ∈ rowsOf entries)
    (hcancel : cancellation cancel) :
    Cancels view key (rowsOf entries) cancel row ↔ (cancel, row) ∈ linksOf entries := by
  rw [mem_linksOf]
  constructor
  · rintro ⟨before, after, hsplit, hview, hkey⟩
    obtain ⟨earlier, entry, hstood⟩ := h.stood_of_cancellation hmem hcancel
    obtain ⟨-, hcancelKey, hheadKey, hothers⟩ := h.entry_of_stood hstood
    obtain ⟨rest, hrows⟩ := hstood.rowsOf
    have hnodup := h.nodup
    rw [hrows] at hsplit hnodup
    -- Rows are distinct, so the cancellation splits them in one way only.
    have hfresh : cancel ∉ rowsOf (earlier ++ [entry]) := fun hold =>
      (List.nodup_append.mp hnodup).2.2 cancel hold cancel (List.mem_cons_self ..) rfl
    have hlast : cancel ∉ rest := by
      have htail := (List.nodup_append.mp hnodup).2.1
      exact (List.nodup_cons.mp htail).1
    obtain ⟨rfl, -, -⟩ := (List.append_cons_inj_of_notMem hfresh hlast).mp hsplit
    rw [h.stood cancel earlier entry hstood] at hview
    refine ⟨earlier, entry, hstood, ?_⟩
    rw [List.map_append, List.mem_append] at hview
    rcases hview with hearlier | hlast
    · obtain ⟨other, hother, rfl⟩ := List.mem_map.mp hearlier
      exact absurd (hkey.trans hcancelKey) (hothers other hother)
    · exact (List.mem_singleton.mp hlast).symm
  · rintro ⟨earlier, entry, hstood, rfl⟩
    obtain ⟨-, hcancelKey, hheadKey, -⟩ := h.entry_of_stood hstood
    obtain ⟨rest, hrows⟩ := hstood.rowsOf
    refine ⟨_, rest, hrows, ?_, hheadKey.trans hcancelKey.symm⟩
    rw [h.stood cancel earlier entry hstood]
    simp

/-- Cancelling is one-to-one. -/
theorem exact (h : Lineal view key cancellation entries) :
    CancelsExactly view key cancellation (rowsOf entries) := by
  have hcancelMem : ∀ {cancel row}, (cancel, row) ∈ linksOf entries →
      cancel ∈ rowsOf entries ∧ cancellation cancel := by
    intro cancel row hlink
    obtain ⟨earlier, entry, hstood, -⟩ := mem_linksOf.mp hlink
    obtain ⟨rest, hrows⟩ := hstood.rowsOf
    exact ⟨by simp [hrows], (h.entry_of_stood hstood).1⟩
  constructor
  case cancels =>
    intro cancel hmem hcancel
    obtain ⟨earlier, entry, hstood⟩ := h.stood_of_cancellation hmem hcancel
    have hlink := mem_linksOf.mpr ⟨earlier, entry, hstood, rfl⟩
    refine ⟨entry.head, (h.cancels_iff hmem hcancel).mpr hlink, fun row hrow => ?_⟩
    have hother := (h.cancels_iff hmem hcancel).mp hrow
    exact congrArg Prod.snd (List.inj_on_of_nodup_map h.nodup_cancellations hother hlink rfl)
  case superseded =>
    rintro cancel row hcancel ⟨before, after, hsplit, hview, hkey⟩
    have hmem : cancel ∈ rowsOf entries := by simp [hsplit]
    have hlink := (h.cancels_iff hmem hcancel).mp ⟨before, after, hsplit, hview, hkey⟩
    obtain ⟨entry, hentry, hown⟩ := List.mem_flatMap.mp hlink
    have hasserted : row ∈ entry.root :: entry.amendments.map Prod.snd := by
      rw [← entry.map_snd_links]
      exact List.mem_append_left _ (List.mem_map_of_mem hown)
    refine ⟨mem_rowsOf.mpr ⟨entry, hentry, entry.assertions_sublist.subset hasserted⟩, ?_, ?_⟩
    · rcases List.mem_cons.mp hasserted with rfl | hreplace
      · exact h.root entry hentry
      · obtain ⟨pair, hpair, rfl⟩ := List.mem_map.mp hreplace
        exact (h.pairs entry hentry pair hpair).2
    · rw [h.now]
      intro hhead
      exact (List.nodup_append.mp h.nodup_assertions).2.2 _ (List.mem_map_of_mem hlink) _ hhead rfl
  case cancelled =>
    intro row hrow hasserted hsuperseded
    rw [h.now] at hsuperseded
    obtain ⟨entry, hentry, hown⟩ := mem_rowsOf.mp hrow
    have hlink : ∃ cancel, (cancel, row) ∈ linksOf entries := by
      rcases Entry.mem_rows_cases hown with hcancels | hasserts
      · obtain ⟨pair, hpair, rfl⟩ := List.mem_map.mp hcancels
        exact absurd (h.pairs entry hentry pair hpair).1 hasserted
      · rw [← entry.map_snd_links, List.mem_append] at hasserts
        rcases hasserts with hcancelled | hhead
        · obtain ⟨⟨cancel, _⟩, hlink, rfl⟩ := List.mem_map.mp hcancelled
          exact ⟨cancel, List.mem_flatMap.mpr ⟨entry, hentry, hlink⟩⟩
        · rw [List.mem_singleton.mp hhead] at hsuperseded
          exact absurd (List.mem_map_of_mem hentry) hsuperseded
    obtain ⟨cancel, hlink⟩ := hlink
    obtain ⟨hmem, hcancel⟩ := hcancelMem hlink
    refine ⟨cancel, ⟨hmem, hcancel, (h.cancels_iff hmem hcancel).mpr hlink⟩, ?_⟩
    rintro other ⟨hother, hcancelOther, hcancels⟩
    have hlinkOther := (h.cancels_iff hother hcancelOther).mp hcancels
    have hnodup := (List.nodup_append.mp h.nodup_assertions).1
    exact congrArg Prod.fst (List.inj_on_of_nodup_map hnodup hlinkOther hlink rfl)

end Lineal

end Amendment
