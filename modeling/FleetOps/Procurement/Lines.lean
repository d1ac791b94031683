import FleetOps.Foundations.Chains
import FleetOps.Receiving.Tables
import FleetOps.Service
import Mathlib.Data.List.Sort

/-!
# The lines of a purchase order

An issued line is not edited: its successor points back at it.  `listLines`
returns every version of an order's lines, by line number and from root to leaf,
and raises where the pointers do not make one chain of every line number.  It
reads rows that nothing is known of but that their ids differ.
-/

namespace FleetOps

open Chains Keys Pointers

/-! ## The query -/

/-- A row of `line_query`. -/
structure LineVersion extends PurchaseOrderLine where
  active : Bool
  superseded : Bool
  deriving DecidableEq

/-- `line_query`, on the rows of one tenant. -/
def lineQuery (lines : List PurchaseOrderLine) : List LineVersion :=
  lines.map fun line =>
    let superseded := lines.any fun successor =>
      successor.poId = line.poId ∧ successor.supersedesLineId = some line.id
    { toPurchaseOrderLine := line, active := !superseded, superseded }

/-- `get_order`. -/
def getOrder (orders : List PurchaseOrder) (poId : Uuid) : Service PurchaseOrder :=
  Service.fetch (orders.find? (·.id = poId)) .procurementNotFound "Purchase order not found"

/-! ## The listing -/

/-- `successors` and `roots` in `list_lines`. -/
structure LineIndex where
  successors : List (Uuid × LineVersion) := []
  roots : List (ℕ × LineVersion) := []

/-- One row of the first loop. -/
def indexLine (index : LineIndex) (row : LineVersion) : Service LineIndex :=
  match row.supersedesLineId with
  | none => do
      Service.ensure (index.roots.lookup row.lineNumber = none) .procurementConflict
        "Inconsistent procurement lineage"
      pure { index with roots := index.roots ++ [(row.lineNumber, row)] }
  | some prior => do
      Service.ensure (index.successors.lookup prior = none) .procurementConflict
        "Inconsistent procurement lineage"
      pure { index with successors := index.successors ++ [(prior, row)] }

/-- `ordered` and `seen`. -/
structure LineWalk where
  ordered : List LineVersion := []
  seen : List Uuid := []

/-- `seen.add(row["id"])` and `ordered.append(row)`. -/
def LineWalk.visit (walk : LineWalk) (row : LineVersion) : LineWalk :=
  ⟨walk.ordered ++ [row], row.id :: walk.seen⟩

theorem unseen_lt {successors : List (Uuid × LineVersion)} {seen : List Uuid} {id : Uuid}
    {next : LineVersion} (hid : id ∉ seen) (hnext : successors.lookup id = some next) :
    (successors.filter fun entry => entry.1 ∉ id :: seen).length <
      (successors.filter fun entry => entry.1 ∉ seen).length := by
  have hsplit : (successors.filter fun entry => entry.1 ∉ id :: seen) =
      (successors.filter fun entry => entry.1 ∉ seen).filter fun entry => entry.1 ≠ id := by
    rw [List.filter_filter]
    refine List.filter_congr fun entry _ => ?_
    simp
  have hmem : (id, next) ∈ successors := by
    obtain ⟨before, after, rfl, -⟩ := List.lookup_eq_some_iff.mp hnext
    simp
  rw [hsplit]
  refine List.length_filter_lt_length_iff_exists.mpr ⟨(id, next), ?_, by simp⟩
  exact List.mem_filter.mpr ⟨hmem, by simpa using hid⟩

/-- `while row is not None`, from a row. -/
def followLines (index : LineIndex) (number : ℕ) (row : LineVersion) (walk : LineWalk) :
    Service LineWalk :=
  if _hstop : row.id ∈ walk.seen ∨ row.lineNumber ≠ number then
    Service.fail .procurementConflict "Inconsistent procurement lineage"
  else
    match _hnext : index.successors.lookup row.id with
    | none => .ok (walk.visit row)
    | some next => followLines index number next (walk.visit row)
termination_by (index.successors.filter fun entry => entry.1 ∉ walk.seen).length
decreasing_by exact unseen_lt (not_or.mp _hstop).1 _hnext

/-- One turn of the second loop. -/
def walkLineage (index : LineIndex) (walk : LineWalk) (number : ℕ) : Service LineWalk := do
  let row ← Service.fetch (index.roots.lookup number) .keyError "roots"
  followLines index number row walk

/-- `list_lines`. -/
def listLines (orders : List PurchaseOrder) (lines : List PurchaseOrderLine) (poId : Uuid) :
    Service (List LineVersion) := do
  let _ ← getOrder orders poId
  let rows := (lineQuery lines).filter (·.poId = poId)
  let index ← rows.foldlM indexLine {}
  let numbers := (index.roots.map Prod.fst).insertionSort (· ≤ ·)
  let walk ← numbers.foldlM (walkLineage index) {}
  Service.ensure (walk.ordered.length = rows.length) .procurementConflict
    "Inconsistent procurement lineage"
  pure walk.ordered

/-! ## The index -/

/-- The entries of a dictionary that is filled from rows. -/
def keyed {κ : Type} (f : LineVersion → Option κ) (rows : List LineVersion) :
    List (κ × LineVersion) :=
  rows.filterMap fun row => (f row).map fun k => (k, row)

/-- A successor's key in `successors`. -/
abbrev LineVersion.prior (row : LineVersion) : Option Uuid := row.supersedesLineId

/-- A root's key in `roots`. -/
def rootNumber (row : LineVersion) : Option ℕ :=
  if row.supersedesLineId = none then some row.lineNumber else none

/-- The index of rows whose keys do not collide. -/
def lineIndex (rows : List LineVersion) : LineIndex where
  successors := keyed LineVersion.prior rows
  roots := keyed rootNumber rows

theorem map_fst_keyed {κ : Type} {f : LineVersion → Option κ} {rows : List LineVersion} :
    (keyed f rows).map Prod.fst = rows.filterMap f := by
  rw [keyed, List.map_filterMap]
  refine List.filterMap_congr fun row _ => ?_
  cases f row <;> rfl

section

variable {κ : Type} [DecidableEq κ] {f : LineVersion → Option κ} {rows : List LineVersion}

theorem lookup_keyed (k : κ) :
    (keyed f rows).lookup k = rows.find? fun row => f row = some k := by
  induction rows with
  | nil => rfl
  | cons row rest ih =>
      unfold keyed at ih ⊢
      cases hf : f row with
      | none =>
          rw [List.filterMap_cons_none (by simp [hf]), ih, List.find?_cons_of_neg (by simp [hf])]
      | some other =>
          rw [List.filterMap_cons_some (by simp [hf]; rfl), List.lookup_cons]
          by_cases hk : k = other
          · simp [hk, hf]
          · rw [beq_eq_false_iff_ne.mpr hk, List.find?_cons_of_neg (by simp [hf, Ne.symm hk])]
            exact ih

/-- No two rows have one key. -/
def Unkeyed (f : LineVersion → Option κ) (rows : List LineVersion) : Prop :=
  rows.Pairwise fun row other => ∀ k ∈ f row, f other ≠ some k

theorem unkeyed_concat {row : LineVersion} : Unkeyed f (rows ++ [row]) ↔
    Unkeyed f rows ∧ ∀ k ∈ f row, (keyed f rows).lookup k = none := by
  rw [Unkeyed, List.pairwise_append]
  simp only [List.pairwise_singleton, List.mem_singleton, forall_eq, true_and, lookup_keyed,
    List.find?_eq_none, decide_eq_true_eq]
  refine and_congr_right fun _ => ⟨fun h k hk other hother hsame => ?_, fun h other hother k hk => ?_⟩
  · exact h other hother k hsame hk
  · exact fun hrow => h k hrow other hother hk

end

/-- The first loop builds the index, unless two keys collide. -/
theorem foldlM_indexLine {rows : List LineVersion} {index : LineIndex} :
    rows.foldlM indexLine {} = .ok index ↔
      Unkeyed LineVersion.prior rows ∧ Unkeyed rootNumber rows ∧
        index = lineIndex rows := by
  induction rows using List.reverseRecOn generalizing index with
  | nil =>
      rw [List.foldlM_nil, pure_eq_ok]
      simp [lineIndex, keyed, Unkeyed, eq_comm]
  | append_singleton rows row ih =>
      simp only [List.foldlM_append, List.foldlM_cons, List.foldlM_nil, bind_pure, bind_eq_ok, ih,
        unkeyed_concat]
      constructor
      · rintro ⟨_, ⟨hsuccessors, hroots, rfl⟩, hrow⟩
        cases hprior : row.supersedesLineId with
        | none =>
            simp only [indexLine, hprior, bind_eq_ok, Service.ensure_eq_ok, exists_unit,
              pure_eq_ok] at hrow
            obtain ⟨hfree, rfl⟩ := hrow
            refine ⟨⟨hsuccessors, by simp [hprior]⟩, ⟨hroots, ?_⟩, ?_⟩
            · intro k hk
              simp only [rootNumber, hprior, if_true, Option.mem_def, Option.some.injEq] at hk
              exact hk ▸ hfree
            · simp [lineIndex, keyed, rootNumber, hprior]
        | some prior =>
            simp only [indexLine, hprior, bind_eq_ok, Service.ensure_eq_ok, exists_unit,
              pure_eq_ok] at hrow
            obtain ⟨hfree, rfl⟩ := hrow
            refine ⟨⟨hsuccessors, ?_⟩, ⟨hroots, by simp [rootNumber, hprior]⟩, ?_⟩
            · intro k hk
              obtain rfl := Option.some.inj (hprior.symm.trans hk)
              exact hfree
            · simp [lineIndex, keyed, rootNumber, hprior]
      · rintro ⟨⟨hsuccessors, hfreeSuccessor⟩, ⟨hroots, hfreeRoot⟩, rfl⟩
        refine ⟨_, ⟨hsuccessors, hroots, rfl⟩, ?_⟩
        cases hprior : row.supersedesLineId with
        | none =>
            simp only [indexLine, hprior, bind_eq_ok, Service.ensure_eq_ok, exists_unit,
              pure_eq_ok]
            refine ⟨hfreeRoot _ (by simp [rootNumber, hprior]), ?_⟩
            simp [lineIndex, keyed, rootNumber, hprior]
        | some prior =>
            simp only [indexLine, hprior, bind_eq_ok, Service.ensure_eq_ok, exists_unit,
              pure_eq_ok]
            refine ⟨hfreeSuccessor _ (by simp [hprior]), ?_⟩
            simp [lineIndex, keyed, rootNumber, hprior]

/-! ## The walk -/

/-- A walk over rows that it has just seen. -/
def LineWalk.over (ordered : List LineVersion) : LineWalk :=
  ⟨ordered, (ordered.map (·.id)).reverse⟩

/-- One lineage, from its root: the rows that the loop appends. -/
structure Lineal (index : LineIndex) (number : ℕ) (row : LineVersion)
    (lineage : List LineVersion) : Prop where
  trail : Trail (fun row => index.successors.lookup row.id) row lineage
  number : ∀ r ∈ lineage, r.lineNumber = number

theorem visit_over {ordered : List LineVersion} {row : LineVersion} :
    (LineWalk.over ordered).visit row = .over (ordered ++ [row]) := by
  simp [LineWalk.visit, LineWalk.over]

theorem nodup_visit {ordered : List LineVersion} {row : LineVersion}
    (hordered : (ordered.map (·.id)).Nodup) (hrow : row.id ∉ (LineWalk.over ordered).seen) :
    ((ordered ++ [row]).map (·.id)).Nodup := by
  rw [List.map_append, List.map_singleton, List.nodup_append]
  refine ⟨hordered, List.nodup_singleton _, ?_⟩
  intro id hid id' hid' hsame
  rw [List.mem_singleton.mp hid'] at hsame
  exact hrow (by simpa [LineWalk.over, hsame] using hid)

theorem followLines_eq_ok {index : LineIndex} {number : ℕ} {row : LineVersion}
    {ordered : List LineVersion} {walk : LineWalk} (hordered : (ordered.map (·.id)).Nodup) :
    followLines index number row (.over ordered) = .ok walk ↔
      ∃ trail, Lineal index number row trail ∧ ((ordered ++ trail).map (·.id)).Nodup ∧
        walk = .over (ordered ++ trail) := by
  generalize hstart : LineWalk.over ordered = start
  fun_induction followLines index number row start generalizing ordered with
  | case1 row start hstop =>
      simp only [Service.fail_ne_ok, false_iff]
      rintro ⟨trail, hlineal, hnodup, -⟩
      subst hstart
      have hrow := hlineal.trail.mem_self
      rcases hstop with hseen | hnumber
      · rw [List.map_append, List.nodup_append] at hnodup
        refine hnodup.2.2 row.id ?_ row.id (List.mem_map_of_mem hrow) rfl
        simpa [LineWalk.over] using hseen
      · exact hnumber (hlineal.number row hrow)
  | case2 row start hstop hnext =>
      subst hstart
      obtain ⟨hunseen, hnumber⟩ := not_or.mp hstop
      rw [visit_over]
      constructor
      · intro hwalk
        refine ⟨[row], ⟨.last hnext, by simpa using hnumber⟩, nodup_visit hordered hunseen, ?_⟩
        exact (Except.ok.inj hwalk).symm
      · rintro ⟨trail, hlineal, -, rfl⟩
        rw [hlineal.trail.unique (.last hnext)]
  | case3 row start hstop next hnext ih =>
      subst hstart
      obtain ⟨hunseen, hnumber⟩ := not_or.mp hstop
      rw [ih (nodup_visit hordered hunseen) visit_over.symm]
      constructor
      · rintro ⟨trail, hlineal, hnodup, rfl⟩
        refine ⟨row :: trail, ⟨.step hnext hlineal.trail, ?_⟩, by simpa using hnodup, by simp⟩
        rintro r (_ | ⟨_, hr⟩)
        · simpa using hnumber
        · exact hlineal.number r hr
      · rintro ⟨trail, hlineal, hnodup, rfl⟩
        obtain ⟨htrail, hnumbers⟩ := hlineal
        cases htrail with
        | last hend => exact absurd (hend.symm.trans hnext) (by simp)
        | @step _ second rest hsecond hrest =>
            obtain rfl := Option.some.inj (hnext.symm.trans hsecond)
            refine ⟨rest, ⟨hrest, fun r hr => hnumbers r (List.mem_cons_of_mem _ hr)⟩, ?_, ?_⟩
            · simpa using hnodup
            · simp

/-- The lineages that the second loop appends, one for every number. -/
def LineagesOf (index : LineIndex) (numbers : List ℕ) (lineages : List (List LineVersion)) : Prop :=
  List.Forall₂ (fun number lineage => ∃ row, index.roots.lookup number = some row ∧
    Lineal index number row lineage) numbers lineages

theorem foldlM_walkLineage {index : LineIndex} {numbers : List ℕ} {ordered : List LineVersion}
    {walk : LineWalk} (hordered : (ordered.map (·.id)).Nodup) :
    numbers.foldlM (walkLineage index) (.over ordered) = .ok walk ↔
      ∃ lineages, LineagesOf index numbers lineages ∧
        ((ordered ++ lineages.flatten).map (·.id)).Nodup ∧
          walk = .over (ordered ++ lineages.flatten) := by
  induction numbers generalizing ordered with
  | nil =>
      simp only [List.foldlM_nil, pure_eq_ok, LineagesOf, List.forall₂_nil_left_iff]
      constructor
      · rintro rfl
        exact ⟨[], rfl, by simpa using hordered, by simp⟩
      · rintro ⟨_, rfl, -, rfl⟩
        simp
  | cons number numbers ih =>
      simp only [List.foldlM_cons, walkLineage, bind_eq_ok, Service.fetch_eq_ok]
      constructor
      · rintro ⟨middle, ⟨row, hrow, hfollow⟩, hrest⟩
        obtain ⟨lineage, hlineal, hnodup, rfl⟩ := (followLines_eq_ok hordered).mp hfollow
        obtain ⟨lineages, hlineages, hall, rfl⟩ := (ih hnodup).mp hrest
        refine ⟨lineage :: lineages, .cons ⟨row, hrow, hlineal⟩ hlineages, ?_, ?_⟩
        · simpa using hall
        · simp
      · rintro ⟨lineages, hlineages, hall, rfl⟩
        obtain ⟨lineage, rest, ⟨row, hrow, hlineal⟩, hrest, rfl⟩ :=
          List.forall₂_cons_left_iff.mp hlineages
        rw [List.flatten_cons, ← List.append_assoc] at hall
        have hnodup : ((ordered ++ lineage).map (·.id)).Nodup := by
          rw [List.map_append] at hall
          exact (List.nodup_append.mp hall).1
        refine ⟨_, ⟨row, hrow, (followLines_eq_ok hordered).mpr ⟨lineage, hlineal, hnodup, rfl⟩⟩, ?_⟩
        exact (ih hnodup).mpr ⟨rest, hrest, hall, by simp⟩

/-! ## What is listed -/

/-- A chain of one line number's versions. -/
abbrev LineChain (rows : List LineVersion) : Prop :=
  SingleChain (fun row : LineVersion => row.id) LineVersion.prior rows

/-- Versions from root to leaf. -/
abbrev RootToLeaf (chain : List LineVersion) : Prop :=
  Linked (fun row : LineVersion => row.id) LineVersion.prior chain

/-- The versions of one line number. -/
def versionsOf (rows : List LineVersion) (number : ℕ) : List LineVersion :=
  rows.filter (·.lineNumber = number)

section

variable {rows ordered : List LineVersion} {orders : List PurchaseOrder}
  {lines : List PurchaseOrderLine} {poId : Uuid}

theorem mem_versionsOf {row : LineVersion} {number : ℕ} :
    row ∈ versionsOf rows number ↔ row ∈ rows ∧ row.lineNumber = number := by
  simp [versionsOf]

theorem rootNumber_eq_some {row : LineVersion} {number : ℕ} :
    rootNumber row = some number ↔ row.prior = none ∧ row.lineNumber = number := by
  unfold rootNumber
  split <;> simp_all

/-- The pointers that the second loop follows. -/
theorem nextVersion_eq : (fun row : LineVersion => (lineIndex rows).successors.lookup row.id) =
    successor (fun row : LineVersion => row.id) LineVersion.prior rows := by
  funext row
  exact lookup_keyed row.id

theorem unkeyed_iff {κ : Type} {f : LineVersion → Option κ} (hrows : rows.Nodup) :
    Unkeyed f rows ↔ ∀ row ∈ rows, ∀ other ∈ rows, ∀ k, f row = some k → f other = some k →
      row = other := by
  constructor
  · intro h row hrow other hother k hk hk'
    by_contra hne
    have hsymm : Std.Symm fun row other : LineVersion => ∀ k ∈ f row, f other ≠ some k :=
      ⟨fun _ _ hdiffer k hk hk' => hdiffer k hk' hk⟩
    exact h.forall hrow hother hne k hk hk'
  · intro h
    exact hrows.pairwise_of_forall_ne fun row hrow other hother hne k hk hk' =>
      hne (h row hrow other hother k hk hk')

theorem mem_numbers {number : ℕ} :
    number ∈ ((lineIndex rows).roots.map Prod.fst).insertionSort (· ≤ ·) ↔
      ∃ row ∈ rows, row.prior = none ∧ row.lineNumber = number := by
  have hmap : (lineIndex rows).roots.map Prod.fst = rows.filterMap rootNumber := map_fst_keyed
  rw [List.mem_insertionSort, hmap]
  simp [List.mem_filterMap, rootNumber]

theorem nodup_numbers (hroots : Unkeyed rootNumber rows) :
    (((lineIndex rows).roots.map Prod.fst).insertionSort (· ≤ ·)).Nodup := by
  have hmap : (lineIndex rows).roots.map Prod.fst = rows.filterMap rootNumber := map_fst_keyed
  rw [(List.perm_insertionSort ..).nodup_iff, hmap, List.Nodup, List.pairwise_filterMap]
  refine hroots.imp fun hdiffer k hk k' hk' hsame => ?_
  exact hdiffer k hk (hsame ▸ hk')

/-- Lineages are grouped by their numbers, from root to leaf. -/
theorem LineagesOf.grouped {numbers : List ℕ} {lineages : List (List LineVersion)}
    (h : LineagesOf (lineIndex rows) numbers lineages) (hnumbers : numbers.Nodup)
    (hsorted : numbers.Pairwise (· ≤ ·)) :
    (∀ row ∈ lineages.flatten, row ∈ rows ∧ row.lineNumber ∈ numbers) ∧
      lineages.flatten.Pairwise (fun row later => row.lineNumber ≤ later.lineNumber) ∧
        ∀ number, RootToLeaf (versionsOf lineages.flatten number) := by
  induction h with
  | nil =>
      refine ⟨fun row hrow => absurd hrow (by simp), by simp, fun number => ⟨?_, ?_⟩⟩
      · intro row hrow
        exact absurd hrow (by simp [versionsOf])
      · exact List.isChain_nil
  | @cons number lineage numbers lineages hhead hrest ih =>
      obtain ⟨root, hlookup, htrail, hnumber⟩ := hhead
      obtain ⟨hfresh, hnodup⟩ := List.nodup_cons.mp hnumbers
      obtain ⟨hleast, hsorted⟩ := List.pairwise_cons.mp hsorted
      obtain ⟨hmem, hpairwise, hgroups⟩ := ih hnodup hsorted
      rw [lineIndex, lookup_keyed] at hlookup
      have hroot := List.mem_of_find?_eq_some hlookup
      have hfirst : root.prior = none := by
        have hkey := List.find?_some hlookup
        rw [decide_eq_true_eq, rootNumber_eq_some] at hkey
        exact hkey.1
      rw [nextVersion_eq] at htrail
      refine ⟨fun row hrow => ?_, ?_, fun other => ?_⟩
      · rw [List.flatten_cons, List.mem_append] at hrow
        rcases hrow with hrow | hrow
        · exact ⟨htrail.subset successor_closed hroot hrow,
            hnumber row hrow ▸ List.mem_cons_self ..⟩
        · exact ⟨(hmem row hrow).1, List.mem_cons_of_mem _ (hmem row hrow).2⟩
      · rw [List.flatten_cons, List.pairwise_append]
        refine ⟨?_, hpairwise, fun row hrow later hlater => ?_⟩
        · refine htrail.nodup.pairwise_of_forall_ne fun row hrow later hlater _ => ?_
          rw [hnumber row hrow, hnumber later hlater]
        · rw [hnumber row hrow]
          exact hleast _ (hmem later hlater).2
      · rw [versionsOf, List.flatten_cons, List.filter_append]
        by_cases hother : number = other
        · -- The other lineages have other numbers.
          have hnone : lineages.flatten.filter (·.lineNumber = other) = [] := by
            refine List.filter_eq_nil_iff.mpr fun row hrow hsame => ?_
            have hin := (hmem row hrow).2
            rw [of_decide_eq_true hsame, ← hother] at hin
            exact hfresh hin
          have hall : lineage.filter (·.lineNumber = other) = lineage :=
            List.filter_eq_self.mpr fun row hrow => decide_eq_true (hother ▸ hnumber row hrow)
          rw [hnone, hall, List.append_nil]
          exact linked_of_trail hfirst htrail
        · have hnone : lineage.filter (·.lineNumber = other) = [] := by
            refine List.filter_eq_nil_iff.mpr fun row hrow hsame => hother ?_
            rw [← hnumber row hrow, of_decide_eq_true hsame]
          rw [hnone, List.nil_append]
          exact hgroups other

theorem listLines_eq_ok (horder : ∃ order ∈ orders, order.id = poId) :
    listLines orders lines poId = .ok ordered ↔
      let rows := (lineQuery lines).filter (·.poId = poId)
      Unkeyed LineVersion.prior rows ∧ Unkeyed rootNumber rows ∧ ∃ lineages,
        LineagesOf (lineIndex rows)
          (((lineIndex rows).roots.map Prod.fst).insertionSort (· ≤ ·)) lineages ∧
        (lineages.flatten.map (·.id)).Nodup ∧ ordered = lineages.flatten ∧
          lineages.flatten.length = rows.length := by
  obtain ⟨order, horder, hid⟩ := horder
  have hfound : ∃ found, getOrder orders poId = .ok found := by
    simp only [getOrder, Service.fetch_eq_ok]
    exact Option.isSome_iff_exists.mp (List.find?_isSome.mpr ⟨order, horder, by simpa using hid⟩)
  obtain ⟨found, hfound⟩ := hfound
  have hover : ({} : LineWalk) = .over [] := rfl
  have hnothing : (([] : List LineVersion).map (·.id)).Nodup := List.nodup_nil
  simp only [listLines, hfound, bind_eq_ok, Except.ok.injEq, exists_eq_left', foldlM_indexLine,
    hover, foldlM_walkLineage hnothing, Service.ensure_eq_ok, exists_unit,
    pure_eq_ok, List.nil_append]
  constructor
  · rintro ⟨_, ⟨hsuccessors, hroots, rfl⟩, _, ⟨lineages, hlineages, hnodup, rfl⟩, hlength, rfl⟩
    exact ⟨hsuccessors, hroots, lineages, hlineages, hnodup, rfl, hlength⟩
  · rintro ⟨hsuccessors, hroots, lineages, hlineages, hnodup, rfl, hlength⟩
    exact ⟨_, ⟨hsuccessors, hroots, rfl⟩, _, ⟨lineages, hlineages, hnodup, rfl⟩, hlength, rfl⟩

/-! ## Chains of every line number -/

/-- A chain for every line number. -/
structure ChainsOf (rows : List LineVersion) (chain : ℕ → List LineVersion) : Prop where
  ids : Distinct (fun row : LineVersion => row.id) rows
  perm : ∀ number, (chain number).Perm (versionsOf rows number)
  linked : ∀ number, RootToLeaf (chain number)

namespace ChainsOf

variable {chain : ℕ → List LineVersion} (h : ChainsOf rows chain)

include h

theorem mem_iff {number : ℕ} {row : LineVersion} :
    row ∈ chain number ↔ row ∈ rows ∧ row.lineNumber = number :=
  (h.perm number).mem_iff.trans mem_versionsOf

theorem mem_own {row : LineVersion} (hrow : row ∈ rows) : row ∈ chain row.lineNumber :=
  h.mem_iff.mpr ⟨hrow, rfl⟩

theorem nodup : rows.Nodup := List.Nodup.of_map _ h.ids

theorem keys (number : ℕ) : Distinct (fun row : LineVersion => row.id) (chain number) :=
  ((h.perm number).map _).nodup_iff.mpr (h.ids.filter _)

theorem sound (number : ℕ) : ¬Defect (fun row : LineVersion => row.id) LineVersion.prior
    (versionsOf rows number) :=
  SingleChain.not_defect ⟨_, h.perm number, h.linked number⟩ (h.ids.filter _)

/-- What names a row has its number. -/
theorem closed (number : ℕ) : ∀ later ∈ rows, ∀ row ∈ chain number,
    later.prior = some row.id → later ∈ chain number := by
  intro later hlater row hrow hnames
  obtain ⟨walked, before, rest, hsplit, hid⟩ :=
    (h.linked later.lineNumber).before (h.mem_own hlater) hnames
  have hbefore : before ∈ rows ∧ before.lineNumber = later.lineNumber :=
    h.mem_iff.mp (by simp [hsplit])
  obtain rfl := h.ids.eq hbefore.1 (h.mem_iff.mp hrow).1 hid
  exact h.mem_iff.mpr ⟨hlater, hbefore.2.symm.trans (h.mem_iff.mp hrow).2⟩

/-- No two rows name one row. -/
theorem unkeyed_prior : Unkeyed LineVersion.prior rows := by
  refine (unkeyed_iff h.nodup).mpr fun row hrow other hother k hk hk' => ?_
  obtain ⟨walked, before, rest, hsplit, rfl⟩ :=
    (h.linked row.lineNumber).before (h.mem_own hrow) hk
  have hin := h.closed row.lineNumber other hother before (by simp [hsplit]) hk'
  by_contra hne
  exact h.sound row.lineNumber (.branch (mem_versionsOf.mpr ⟨hrow, rfl⟩)
    (mem_versionsOf.mpr (h.mem_iff.mp hin)) hne hk hk')

/-- No two roots have one number. -/
theorem unkeyed_root : Unkeyed rootNumber rows := by
  refine (unkeyed_iff h.nodup).mpr fun row hrow other hother k hk hk' => ?_
  obtain ⟨hnone, rfl⟩ := rootNumber_eq_some.mp hk
  obtain ⟨hnone', hsame⟩ := rootNumber_eq_some.mp hk'
  by_contra hne
  exact h.sound row.lineNumber (.roots (mem_versionsOf.mpr ⟨hrow, rfl⟩)
    (mem_versionsOf.mpr ⟨hother, hsame⟩) hne hnone hnone')

/-- The index finds a root under its number. -/
theorem lookup_root {root : LineVersion} (hroot : root ∈ rows) (hnone : root.prior = none) :
    (lineIndex rows).roots.lookup root.lineNumber = some root := by
  have hkey : rootNumber root = some root.lineNumber := rootNumber_eq_some.mpr ⟨hnone, rfl⟩
  rw [lineIndex, lookup_keyed]
  cases hfind : rows.find? fun row => rootNumber row = some root.lineNumber with
  | none =>
      have hnot := List.find?_eq_none.mp hfind root hroot
      simp [hkey] at hnot
  | some found =>
      have hfound := List.find?_some hfind
      rw [decide_eq_true_eq] at hfound
      rw [(unkeyed_iff h.nodup).mp h.unkeyed_root found (List.mem_of_find?_eq_some hfind) root
        hroot _ hfound hkey]

/-- A chain begins with its root. -/
theorem begins {root : LineVersion} (hroot : root ∈ rows) (hnone : root.prior = none) :
    ∃ rest, chain root.lineNumber = root :: rest := by
  obtain ⟨walked, rest, hsplit⟩ := List.append_of_mem (h.mem_own hroot)
  cases walked using List.reverseRecOn with
  | nil => exact ⟨rest, hsplit⟩
  | append_singleton walked before =>
      have hlinks := (h.linked root.lineNumber).links
      rw [hsplit, List.append_assoc, List.singleton_append, List.isChain_append] at hlinks
      have hnames := (List.isChain_cons_cons.mp hlinks.2.1).1
      exact absurd (hnone.symm.trans hnames) (by simp)

/-- The second loop walks along the chains. -/
theorem lineages : LineagesOf (lineIndex rows)
    (((lineIndex rows).roots.map Prod.fst).insertionSort (· ≤ ·))
    ((((lineIndex rows).roots.map Prod.fst).insertionSort (· ≤ ·)).map chain) := by
  refine List.forall₂_map_right_iff.mpr (List.forall₂_same.mpr fun number hin => ?_)
  obtain ⟨root, hroot, hnone, rfl⟩ := mem_numbers.mp hin
  obtain ⟨rest, hbegins⟩ := h.begins hroot hnone
  refine ⟨root, h.lookup_root hroot hnone, ?_, fun row hrow => (h.mem_iff.mp hrow).2⟩
  have htrail := (h.linked root.lineNumber).trail_from (h.keys _)
    (fun row hrow => (h.mem_iff.mp hrow).1) (h.closed root.lineNumber)
    (hbegins.trans (List.nil_append _).symm)
  rw [← hbegins] at htrail
  rwa [nextVersion_eq]

/-- The chains together are the rows. -/
theorem flatten : ((((lineIndex rows).roots.map Prod.fst).insertionSort (· ≤ ·)).map
    chain).flatten.Perm rows := by
  rw [← List.flatMap_def]
  refine (List.perm_ext_iff_of_nodup (List.nodup_flatMap.mpr ⟨fun number _ => ?_, ?_⟩)
    h.nodup).mpr fun row => ?_
  · exact List.Nodup.of_map _ (h.keys number)
  · refine (nodup_numbers h.unkeyed_root).imp fun hne row hrow hrow' => hne ?_
    exact (h.mem_iff.mp hrow).2.symm.trans (h.mem_iff.mp hrow').2
  · rw [List.mem_flatMap]
    constructor
    · rintro ⟨number, -, hrow⟩
      exact (h.mem_iff.mp hrow).1
    · intro hrow
      have hin := h.mem_own hrow
      obtain ⟨first, rest, hsplit⟩ := List.exists_cons_of_ne_nil (List.ne_nil_of_mem hin)
      have hfirst := h.mem_iff.mp (show first ∈ chain row.lineNumber by simp [hsplit])
      have hnone := (h.linked row.lineNumber).first first (by simp [hsplit])
      exact ⟨row.lineNumber, mem_numbers.mpr ⟨first, hfirst.1, hnone, hfirst.2⟩, hin⟩

end ChainsOf

/-- An order's rows are listed if each line number has a chain. -/
theorem listLines_of_chains (horder : ∃ order ∈ orders, order.id = poId)
    (hids : Distinct (fun row : LineVersion => row.id) ((lineQuery lines).filter (·.poId = poId)))
    (hchains : ∀ number,
      LineChain (versionsOf ((lineQuery lines).filter (·.poId = poId)) number)) :
    ∃ ordered, listLines orders lines poId = .ok ordered := by
  choose chain hperm hlinked using hchains
  have h : ChainsOf ((lineQuery lines).filter (·.poId = poId)) chain := ⟨hids, hperm, hlinked⟩
  refine ⟨_, (listLines_eq_ok horder).mpr ⟨h.unkeyed_prior, h.unkeyed_root, _, h.lineages, ?_, rfl,
    h.flatten.length_eq⟩⟩
  exact (h.flatten.map _).nodup_iff.mpr hids

/-- Rows that are listed have chains. -/
theorem listed_grouped (horder : ∃ order ∈ orders, order.id = poId)
    (h : listLines orders lines poId = .ok ordered) :
    ordered.Perm ((lineQuery lines).filter (·.poId = poId)) ∧
      ordered.Pairwise (fun row later => row.lineNumber ≤ later.lineNumber) ∧
        ∀ number, RootToLeaf (versionsOf ordered number) := by
  obtain ⟨-, hroots, lineages, hlineages, hnodup, rfl, hlength⟩ := (listLines_eq_ok horder).mp h
  obtain ⟨hmem, hsorted, hgroups⟩ :=
    hlineages.grouped (nodup_numbers hroots) (List.pairwise_insertionSort _ _)
  refine ⟨?_, hsorted, hgroups⟩
  have hsubperm := List.subperm_of_subset (List.Nodup.of_map _ hnodup) fun row hrow =>
    (hmem row hrow).1
  exact hsubperm.perm_of_length_le hlength.ge

end

/-- `list_lines` either returns every version of an order's lines, by ascending line number and
from root to leaf, or raises; and it raises exactly if the versions of some line number form no
chain, which is to say that they have a defect. -/
theorem lineListing (orders : List PurchaseOrder) (lines : List PurchaseOrderLine) (poId : Uuid)
    (horder : ∃ order ∈ orders, order.id = poId)
    (hids : Distinct PurchaseOrderLine.id (lines.filter (·.poId = poId))) :
    let rows := (lineQuery lines).filter (·.poId = poId)
    (∀ ordered, listLines orders lines poId = .ok ordered →
      ordered.Perm rows ∧
        ordered.Pairwise (fun row later => row.lineNumber ≤ later.lineNumber) ∧
          ∀ number, RootToLeaf (versionsOf ordered number)) ∧
    ((∃ failure, listLines orders lines poId = .error failure) ↔
      ∃ number, ¬LineChain (versionsOf rows number)) ∧
    ∀ number, ¬LineChain (versionsOf rows number) ↔
      Defect (fun row : LineVersion => row.id) LineVersion.prior (versionsOf rows number) := by
  intro rows
  have hrows : Distinct (fun row : LineVersion => row.id) rows := by
    have hsame : rows.map (·.id) = (lines.filter (·.poId = poId)).map PurchaseOrderLine.id := by
      simp only [rows, lineQuery, List.filter_map, List.map_map]
      rfl
    rw [Distinct, hsame]
    exact hids
  refine ⟨fun ordered h => listed_grouped horder h, ⟨?_, ?_⟩, fun number => ?_⟩
  · rintro ⟨failure, hfailure⟩
    by_contra hall
    push Not at hall
    obtain ⟨ordered, hordered⟩ := listLines_of_chains horder hrows hall
    rw [hfailure] at hordered
    exact absurd hordered (by simp)
  · rintro ⟨number, hbroken⟩
    cases hresult : listLines orders lines poId with
    | error failure => exact ⟨failure, rfl⟩
    | ok ordered =>
        obtain ⟨hperm, -, hgroups⟩ := listed_grouped horder hresult
        exact absurd ⟨_, hperm.filter _, hgroups number⟩ hbroken
  · have hgroup : Distinct (fun row : LineVersion => row.id) (versionsOf rows number) :=
      hrows.filter _
    have hiff : LineChain (versionsOf rows number) ↔
        ¬Defect (fun row : LineVersion => row.id) LineVersion.prior (versionsOf rows number) :=
      singleChain_iff hgroup
    rw [hiff, not_not]

/-- A line with a successor, and beside it two versions of another line that name each other. -/
def sampleLines : List PurchaseOrderLine :=
  let fields : PurchaseOrderFields :=
    { itemId := 5, quantity := 1, uom := .ea, unitPrice := 2, expectedDate := none }
  [⟨11, 7, 1, fields, none, .at 0⟩, ⟨12, 7, 1, fields, some 11, .at 1⟩,
    ⟨13, 7, 2, fields, some 14, .at 2⟩, ⟨14, 7, 2, fields, some 13, .at 3⟩]

/-- The detached cycle is reported. -/
theorem lineListing_sample :
    ∃ failure, listLines [⟨7, .issued⟩] sampleLines 7 = .error failure := by
  have hids : Distinct PurchaseOrderLine.id (sampleLines.filter (·.poId = 7)) := by
    unfold Distinct
    decide
  obtain ⟨-, hraises, hdefects⟩ := lineListing [⟨7, .issued⟩] sampleLines 7
    ⟨⟨7, .issued⟩, List.mem_singleton_self _, rfl⟩ hids
  exact hraises.mpr ⟨2, (hdefects 2).mpr (.rootless (by decide) (by decide))⟩

end FleetOps
