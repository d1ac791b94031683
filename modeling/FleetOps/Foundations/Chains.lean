import FleetOps.Foundations.Keys
import FleetOps.Foundations.Pointers
import Mathlib.Data.List.Chain
import Mathlib.Data.List.Induction

/-!
# Chains of rows

A row has a key and may name a predecessor by its key.  `Linked chain` is a
chain in order: its first row names no predecessor, every other one the row
before it.  Rows form a `SingleChain` if some order of them is linked, and
otherwise have a `Defect` that one can point at (`singleChain_iff`).

`successor` is the pointer from a row to the row that names it.  The walk from
the root of a chain along it is the chain (`Linked.trail`).
-/

namespace Chains

open Keys Pointers Relation

variable {ρ κ : Type*} (key : ρ → κ) (prior : ρ → Option κ)

/-- A chain in order. -/
structure Linked (chain : List ρ) : Prop where
  first : ∀ row ∈ chain.head?, prior row = none
  links : chain.IsChain fun row next => prior next = some (key row)

/-- Rows that form a chain in some order. -/
def SingleChain (rows : List ρ) : Prop := ∃ chain, chain.Perm rows ∧ Linked key prior chain

/-- A row of `rows` names another. -/
def Names (rows : List ρ) (row next : ρ) : Prop := next ∈ rows ∧ prior next = some (key row)

/-- What is wrong with rows that form no chain. -/
inductive Defect (rows : List ρ) : Prop
  | rootless (nonempty : rows ≠ []) (named : ∀ row ∈ rows, prior row ≠ none)
  | roots {row other : ρ} (hrow : row ∈ rows) (hother : other ∈ rows) (different : row ≠ other)
      (root : prior row = none) (another : prior other = none)
  | branch {row other : ρ} {p : κ} (hrow : row ∈ rows) (hother : other ∈ rows)
      (different : row ≠ other) (named : prior row = some p) (again : prior other = some p)
  | dangling {row : ρ} {p : κ} (hrow : row ∈ rows) (named : prior row = some p)
      (missing : ∀ other ∈ rows, key other ≠ p)
  | cycle {row : ρ} (hrow : row ∈ rows) (back : TransGen (Names key prior rows) row row)

variable {key prior} {rows chain : List ρ} {row target : ρ}

/-! ## Linked rows -/

/-- A row that names a predecessor stands after it. -/
theorem Linked.before (h : Linked key prior chain) (htarget : target ∈ chain) {p : κ}
    (hp : prior target = some p) :
    ∃ walked row rest, chain = walked ++ row :: target :: rest ∧ key row = p := by
  obtain ⟨walked, rest, rfl⟩ := List.append_of_mem htarget
  cases walked using List.reverseRecOn with
  | nil => exact absurd (h.first target rfl) (by simp [hp])
  | append_singleton walked row =>
      refine ⟨walked, row, rest, by simp, ?_⟩
      have hlinks := h.links
      rw [List.append_assoc, List.singleton_append, List.isChain_append] at hlinks
      have hlink := (List.isChain_cons_cons.mp hlinks.2.1).1
      exact (Option.some.inj (hp.symm.trans hlink)).symm

/-- What names a row of a chain comes next in it. -/
theorem Linked.next (h : Linked key prior chain) (hkeys : Distinct key chain) {walked rest : List ρ}
    (hsplit : chain = walked ++ row :: rest) (htarget : target ∈ chain)
    (hnames : prior target = some (key row)) : rest.head? = some target := by
  obtain ⟨before, found, after, hchain, hkey⟩ := h.before htarget hnames
  have hnodup : chain.Nodup := List.Nodup.of_map _ hkeys
  have hrow : row ∈ chain := by simp [hsplit]
  obtain rfl := hkeys.eq hrow (show found ∈ chain by simp [hchain]) hkey.symm
  have hnot : row ∉ before := by
    rw [hchain] at hnodup
    intro hmem
    exact (List.nodup_append.mp hnodup).2.2 row hmem row (List.mem_cons_self ..) rfl
  have hnot' : row ∉ after.cons target := by
    rw [hchain] at hnodup
    exact (List.nodup_cons.mp (List.nodup_append.mp hnodup).2.1).1
  have hsame := (List.append_cons_inj_of_notMem hnot hnot').mp (hchain.symm.trans hsplit)
  rw [← hsame.2.2]
  rfl

/-! ## Growth -/

theorem linked_singleton (hroot : prior row = none) : Linked key prior [row] := by
  refine ⟨fun first hfirst => ?_, List.isChain_singleton _⟩
  rwa [Option.mem_some_iff.mp hfirst] at hroot

theorem singleChain_nil : SingleChain key prior [] :=
  ⟨[], .refl _, ⟨fun _ hmem => absurd hmem (by simp), List.isChain_nil⟩⟩

theorem singleChain_singleton (hroot : prior row = none) : SingleChain key prior [row] :=
  ⟨[row], .refl _, linked_singleton hroot⟩

/-- A chain is extended at its end. -/
theorem Linked.concat {front : List ρ} {leaf : ρ} (h : Linked key prior (front ++ [leaf]))
    (hnames : prior row = some (key leaf)) : Linked key prior (front ++ [leaf] ++ [row]) := by
  refine ⟨fun first hfirst => h.first first ?_, ?_⟩
  · rw [List.append_assoc] at hfirst
    cases front <;> simpa using hfirst
  · rw [List.isChain_append]
    refine ⟨h.links, List.isChain_singleton _, fun last hlast next hnext => ?_⟩
    rw [List.getLast?_concat, Option.mem_some_iff] at hlast
    rw [List.head?_cons, Option.mem_some_iff] at hnext
    rw [← hlast, ← hnext]
    exact hnames

/-- A row that no row of a chain names is its last. -/
theorem Linked.last_of_unnamed (h : Linked key prior chain) (hrow : row ∈ chain)
    (hunnamed : ∀ other ∈ chain, prior other ≠ some (key row)) :
    ∃ front, chain = front ++ [row] := by
  obtain ⟨front, rest, rfl⟩ := List.append_of_mem hrow
  cases rest with
  | nil => exact ⟨front, rfl⟩
  | cons next rest =>
      have hlinks := h.links
      rw [List.isChain_append] at hlinks
      have hnames := (List.isChain_cons_cons.mp hlinks.2.1).1
      exact absurd hnames (hunnamed next (by simp))

/-- A row that names the unnamed row of a chain extends the chain. -/
theorem SingleChain.concat {leaf : ρ} (h : SingleChain key prior rows) (hleaf : leaf ∈ rows)
    (hunnamed : ∀ other ∈ rows, prior other ≠ some (key leaf))
    (hnames : prior row = some (key leaf)) : SingleChain key prior (rows ++ [row]) := by
  obtain ⟨chain, hperm, hlinked⟩ := h
  obtain ⟨front, rfl⟩ := hlinked.last_of_unnamed (hperm.mem_iff.mpr hleaf)
    fun other hother => hunnamed other (hperm.mem_iff.mp hother)
  exact ⟨_, hperm.append_right [row], hlinked.concat hnames⟩

/-- Only the key and the pointer of a row are read. -/
theorem SingleChain.of_forall₂ {σ : Type*} {key' : σ → κ} {prior' : σ → Option κ} {others : List σ}
    (h : SingleChain key prior rows)
    (hsame : List.Forall₂ (fun row other => key' other = key row ∧ prior' other = prior row)
      rows others) : SingleChain key' prior' others := by
  obtain ⟨chain, hperm, hlinked⟩ := h
  obtain ⟨chain', hsame, hperm'⟩ := List.perm_comp_forall₂ hperm hsame
  refine ⟨chain', hperm', ?_⟩
  obtain ⟨hfirst, hlinks⟩ := hlinked
  clear hperm hperm'
  refine ⟨fun first hmem => ?_, ?_⟩
  · cases hsame with
    | nil => exact absurd hmem (by simp)
    | cons hhead _ =>
        rw [List.head?_cons, Option.mem_some_iff] at hmem
        rw [← hmem, hhead.2]
        exact hfirst _ rfl
  · clear hfirst
    induction hsame with
    | nil => exact List.isChain_nil
    | cons hhead hrest ih =>
        cases hrest with
        | nil => exact List.isChain_singleton _
        | cons hnext hrest =>
            rw [List.isChain_cons_cons] at hlinks ⊢
            refine ⟨?_, ih hlinks.2⟩
            rw [hnext.2, hhead.1]
            exact hlinks.1

/-- Roots alone are a chain of one row at most. -/
theorem SingleChain.eq_of_roots {other : ρ} (h : SingleChain key prior rows)
    (hroots : ∀ row ∈ rows, prior row = none) (hrow : row ∈ rows) (hother : other ∈ rows) :
    row = other := by
  obtain ⟨chain, hperm, hlinked⟩ := h
  cases chain with
  | nil => exact absurd (hperm.mem_iff.mpr hrow) List.not_mem_nil
  | cons first rest =>
      cases rest with
      | nil =>
          rw [List.mem_singleton.mp (hperm.mem_iff.mpr hrow),
            List.mem_singleton.mp (hperm.mem_iff.mpr hother)]
      | cons second rest =>
          have hnames := (List.isChain_cons_cons.mp hlinked.links).1
          have hsecond := hroots second (hperm.mem_iff.mp (by simp))
          exact absurd (hsecond.symm.trans hnames) (by simp)

/-- In a chain exactly the last row is named by none. -/
theorem Linked.unnamed_iff {front : List ρ} {leaf : ρ} (h : Linked key prior (front ++ [leaf]))
    (hkeys : Distinct key (front ++ [leaf])) (hrow : row ∈ front ++ [leaf]) :
    (∀ other ∈ front ++ [leaf], prior other ≠ some (key row)) ↔ row = leaf := by
  constructor
  · intro hunnamed
    obtain ⟨before, hsplit⟩ := h.last_of_unnamed hrow hunnamed
    exact (List.singleton_injective (List.append_inj_right' hsplit rfl)).symm
  · intro heq other hother hnames
    subst heq
    have hnext : ([] : List ρ).head? = some other := h.next hkeys rfl hother hnames
    exact absurd hnext (by simp)

/-! ## Walks -/

section

variable [DecidableEq κ] (key prior)

/-- The row that names a row. -/
def successor (rows : List ρ) (row : ρ) : Option ρ := rows.find? fun s => prior s = some (key row)

/-- The row that a row names. -/
def predecessor (rows : List ρ) (row : ρ) : Option ρ :=
  (prior row).bind fun p => rows.find? fun r => key r = p

end

variable [DecidableEq κ]

theorem names_of_successor (h : successor key prior rows row = some target) :
    Names key prior rows row target :=
  ⟨List.mem_of_find?_eq_some h, by simpa using List.find?_some h⟩

theorem successor_closed : ∀ r ∈ rows, ∀ s ∈ successor key prior rows r, s ∈ rows :=
  fun _ _ _ hs => (names_of_successor hs).1

theorem predecessor_eq_some (h : predecessor key prior rows row = some target) :
    target ∈ rows ∧ prior row = some (key target) := by
  simp only [predecessor, Option.bind_eq_some_iff] at h
  obtain ⟨p, hp, hfind⟩ := h
  have hkey : key target = p := by simpa using List.find?_some hfind
  exact ⟨List.mem_of_find?_eq_some hfind, hkey ▸ hp⟩

theorem predecessor_closed : ∀ r ∈ rows, ∀ s ∈ predecessor key prior rows r, s ∈ rows :=
  fun _ _ _ hs => (predecessor_eq_some hs).1

/-- The walk along successors from any row of a chain is the rest of the chain. -/
theorem Linked.trail_from (h : Linked key prior chain) (hkeys : Distinct key chain)
    (hsubset : chain ⊆ rows)
    (hclosed : ∀ s ∈ rows, ∀ r ∈ chain, prior s = some (key r) → s ∈ chain) {walked rest : List ρ}
    (hsplit : chain = walked ++ row :: rest) :
    Trail (successor key prior rows) row (row :: rest) := by
  have hrow : row ∈ chain := by simp [hsplit]
  induction rest generalizing walked row with
  | nil =>
      refine .last ?_
      cases hnext : successor key prior rows row with
      | none => rfl
      | some target =>
          obtain ⟨htarget, hnames⟩ := names_of_successor hnext
          have hhead := h.next hkeys hsplit (hclosed target htarget row hrow hnames) hnames
          exact absurd hhead (by simp)
  | cons second rest ih =>
      have hsplit' : chain = (walked ++ [row]) ++ second :: rest := by simp [hsplit]
      have hsecond : second ∈ chain := by simp [hsplit]
      refine .step ?_ (ih hsplit' hsecond)
      have hlink : prior second = some (key row) := by
        have hlinks := h.links
        rw [hsplit, List.isChain_append] at hlinks
        exact (List.isChain_cons_cons.mp hlinks.2.1).1
      cases hnext : successor key prior rows row with
      | none =>
          have hnone := List.find?_eq_none.mp hnext second (hsubset hsecond)
          simp [hlink] at hnone
      | some target =>
          obtain ⟨htarget, hnames⟩ := names_of_successor hnext
          have hhead := h.next hkeys hsplit (hclosed target htarget row hrow hnames) hnames
          simpa using hhead.symm

/-- The walk from the root of a chain is the chain. -/
theorem Linked.trail {rest : List ρ} (h : Linked key prior (row :: rest))
    (hkeys : Distinct key (row :: rest)) (hsubset : (row :: rest) ⊆ rows)
    (hclosed : ∀ s ∈ rows, ∀ r ∈ row :: rest, prior s = some (key r) → s ∈ row :: rest) :
    Trail (successor key prior rows) row (row :: rest) := by
  have hsplit : row :: rest = [] ++ row :: rest := rfl
  exact h.trail_from hkeys hsubset hclosed hsplit

/-- The walk along successors from a root is a chain. -/
theorem linked_of_trail (hroot : prior row = none)
    (htrail : Trail (successor key prior rows) row chain) : Linked key prior chain := by
  refine ⟨fun first hfirst => ?_, ?_⟩
  · rw [htrail.head, Option.mem_some_iff] at hfirst
    exact hfirst ▸ hroot
  · exact htrail.isChain.imp fun _ _ hlink => (names_of_successor hlink).2

/-! ## Defects -/

/-- A chain has no defect. -/
theorem SingleChain.not_defect (h : SingleChain key prior rows) (hkeys : Distinct key rows) :
    ¬Defect key prior rows := by
  obtain ⟨chain, hperm, hlinked⟩ := h
  have hchainKeys : Distinct key chain := (hperm.map key).nodup_iff.mpr hkeys
  intro hdefect
  cases chain with
  | nil =>
      obtain rfl := hperm.nil_eq
      cases hdefect with
      | rootless nonempty _ => exact nonempty rfl
      | roots hrow | branch hrow | dangling hrow | cycle hrow => exact absurd hrow List.not_mem_nil
  | cons root rest =>
      have hroot : prior root = none := hlinked.first root rfl
      have hunique : ∀ r ∈ rows, prior r = none → r = root := by
        intro r hr hnone
        obtain ⟨walked, after, hsplit⟩ := List.append_of_mem (hperm.mem_iff.mpr hr)
        cases walked with
        | nil => exact (List.cons.inj hsplit).1.symm
        | cons first walked =>
            have hlinks := hlinked.links
            rw [hsplit] at hlinks
            obtain ⟨before, last, hlast⟩ := (List.eq_nil_or_concat (first :: walked)).resolve_left
              (by simp)
            rw [hlast, List.concat_eq_append, List.append_assoc, List.singleton_append,
              List.isChain_append] at hlinks
            have hlink := (List.isChain_cons_cons.mp hlinks.2.1).1
            rw [hnone] at hlink
            exact absurd hlink (by simp)
      have hclosed : ∀ s ∈ rows, ∀ r ∈ root :: rest, prior s = some (key r) → s ∈ root :: rest :=
        fun s hs _ _ _ => hperm.mem_iff.mpr hs
      have htrail := hlinked.trail hchainKeys hperm.subset hclosed
      cases hdefect with
      | rootless _ named =>
          exact named root (hperm.mem_iff.mp (List.mem_cons_self ..)) hroot
      | roots hrow hother different hnone hanother =>
          exact different ((hunique _ hrow hnone).trans (hunique _ hother hanother).symm)
      | branch hrow hother different hnamed hagain =>
          obtain ⟨walked, before, after, hsplit, rfl⟩ :=
            hlinked.before (hperm.mem_iff.mpr hrow) hnamed
          have hfirst := hlinked.next hchainKeys hsplit (hperm.mem_iff.mpr hrow) hnamed
          have hsecond := hlinked.next hchainKeys hsplit (hperm.mem_iff.mpr hother) hagain
          exact different (Option.some.inj (hfirst.symm.trans hsecond))
      | dangling hrow hnamed hmissing =>
          obtain ⟨walked, before, after, hsplit, hkey⟩ :=
            hlinked.before (hperm.mem_iff.mpr hrow) hnamed
          exact hmissing before (hperm.mem_iff.mp (by simp [hsplit])) hkey
      | @cycle met hrow hback =>
          have hreach := htrail.mem_iff.mp (hperm.mem_iff.mpr hrow)
          refine htrail.acyclic ⟨met, hreach, ?_⟩
          -- What a row of the chain is named by is its successor.
          refine TransGen.mono (fun r s hnames => ?_) _ _ hback
          obtain ⟨hs, hprior⟩ := hnames
          obtain ⟨walked, before, after, hsplit, hkey⟩ :=
            hlinked.before (hperm.mem_iff.mpr hs) hprior
          have hfrom := hlinked.trail_from hchainKeys hperm.subset hclosed hsplit
          cases hfrom with
          | @step _ second _ hnext htail =>
              have htarget : s = second := by simpa using htail.head
              rw [Links, successor, ← hkey, htarget]
              exact hnext

/-- Rows without a defect form a chain. -/
theorem singleChain_of_not_defect (hkeys : Distinct key rows) (h : ¬Defect key prior rows) :
    SingleChain key prior rows := by
  by_cases hempty : rows = []
  · subst hempty
    exact ⟨[], .refl _, ⟨fun _ hmem => absurd hmem (by simp), List.isChain_nil⟩⟩
  obtain ⟨root, hroot, hnone⟩ : ∃ root ∈ rows, prior root = none := by
    by_contra hnamed
    refine h (.rootless hempty fun r hr hnone => hnamed ⟨r, hr, hnone⟩)
  have hloop : ¬Loops (successor key prior rows) root := by
    rintro ⟨met, hreach, hback⟩
    refine h (.cycle (mem_of_reaches successor_closed hroot hreach) ?_)
    exact TransGen.mono (fun _ _ hlink => names_of_successor hlink) _ _ hback
  obtain ⟨chain, htrail⟩ := (exists_trail_iff successor_closed hroot).mpr hloop
  refine ⟨chain, ?_, linked_of_trail hnone htrail⟩
  refine (List.perm_ext_iff_of_nodup htrail.nodup (List.Nodup.of_map _ hkeys)).mpr fun r => ?_
  refine ⟨fun hr => htrail.subset successor_closed hroot hr, fun hr => ?_⟩
  -- The way up from `r` ends at a root, and so at this one.
  have hlink : ∀ s t, predecessor key prior rows s = some t → s ∈ rows →
      successor key prior rows t = some s := by
    intro s t hst hs
    have hprior := (predecessor_eq_some hst).2
    cases hnext : successor key prior rows t with
    | none =>
        have hnot := List.find?_eq_none.mp hnext s hs
        simp [hprior] at hnot
    | some other =>
        obtain ⟨hother, hagain⟩ := names_of_successor hnext
        by_contra hne
        exact h (.branch hs hother (fun heq => hne (congrArg some heq.symm)) hprior hagain)
  have hup : ¬Loops (predecessor key prior rows) r := by
    rintro ⟨met, hreach, hback⟩
    have hmet := mem_of_reaches predecessor_closed hr hreach
    refine h (.cycle hmet (transGen_swap.mp ?_))
    have hrestricted : TransGen (fun s t => s ∈ rows ∧ Links (predecessor key prior rows) s t)
        met met := by
      have hmem : ∀ t, TransGen (Links (predecessor key prior rows)) met t → t ∈ rows ∧
          TransGen (fun s t => s ∈ rows ∧ Links (predecessor key prior rows) s t) met t := by
        intro t ht
        induction ht with
        | single hstep => exact ⟨predecessor_closed _ hmet _ hstep, .single ⟨hmet, hstep⟩⟩
        | tail _ hstep ih =>
            exact ⟨predecessor_closed _ ih.1 _ hstep, ih.2.tail ⟨ih.1, hstep⟩⟩
      exact (hmem met hback).2
    refine TransGen.mono (fun s t hst => ?_) _ _ hrestricted
    exact ⟨hst.1, (predecessor_eq_some hst.2).2⟩
  obtain ⟨way, hway⟩ := (exists_trail_iff predecessor_closed hr).mpr hup
  obtain ⟨last, hlast⟩ := Option.isSome_iff_exists.mp
    (List.getLast?_isSome.mpr hway.ne_nil)
  have hlastMem := hway.subset predecessor_closed hr (List.mem_of_getLast? hlast)
  have hlastRoot : last = root := by
    have hend := hway.last_next hlast
    cases hprior : prior last with
    | none =>
        by_contra hne
        exact h (.roots hlastMem hroot hne hprior hnone)
    | some p =>
        refine absurd (Defect.dangling hlastMem hprior fun other hother hkey => ?_) h
        have hfound := List.find?_eq_none.mp
          (show rows.find? (fun r => decide (key r = p)) = none by
            simpa [predecessor, hprior] using hend) other hother
        simp [hkey] at hfound
  rw [htrail.mem_iff, ← hlastRoot]
  have hreach := hway.mem_iff.mp (List.mem_of_getLast? hlast)
  clear hlast hlastRoot hlastMem hway hup
  induction hreach with
  | refl => exact .refl
  | tail hmid hstep ih =>
      exact .head (hlink _ _ hstep (mem_of_reaches predecessor_closed hr hmid)) ih

/-- Rows form a chain exactly if they have no defect. -/
theorem singleChain_iff (hkeys : Distinct key rows) :
    SingleChain key prior rows ↔ ¬Defect key prior rows :=
  ⟨fun h => h.not_defect hkeys, singleChain_of_not_defect hkeys⟩

end Chains
