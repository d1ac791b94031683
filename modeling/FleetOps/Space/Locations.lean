import FleetOps.Foundations.Keys
import FleetOps.Foundations.Machine
import FleetOps.Foundations.Pointers
import FleetOps.Service
import Mathlib.Data.List.Pairwise
import Mathlib.Data.List.Sort

/-!
# Locations

A location lies in a facility and may have a parent there.  One statement may
insert several locations that name each other; the cycle guard runs after it, on
the completed table.  `locationPath` reads the ancestors of a location from any
table, damaged as it may be.

Both are the same recursive query.  `ancestry` is that query: a working table of
rows, each with the ids that were visited before it, is replaced by the rows
that its rows join with until none is left.  The visited ids make it terminate
on every table.
-/

namespace FleetOps

open Keys Pointers Relation

/-! ## Tables -/

/-- `locations.kind`. -/
inductive LocationKind
  | site | room | rack | bin | station | dock | vehicle | other
  deriving DecidableEq, Repr

/-- A row of `locations`. -/
structure Location where
  id : Uuid
  facilityId : Uuid
  parentLocationId : Option Uuid
  code : String
  name : String
  kind : LocationKind
  active : Bool
  createdByActorId : Uuid
  createdAt : Timestamp
  deriving DecidableEq, Repr

/-- What a statement on locations reads besides them. -/
structure SpaceContext where
  session : Session
  facilities : List Uuid
  actors : List Uuid
  /-- Primary keys of other tenants' rows. -/
  foreignIds : List Uuid := []

/-! ## The recursive query -/

/-- A row of `ancestry`; the guard's query has no `depth`. -/
structure AncestryRow where
  location : Location
  depth : ℕ
  visited : List Uuid
  isCycle : Bool

/-- The first row. -/
def AncestryRow.first (location : Location) : AncestryRow := ⟨location, 0, [location.id], false⟩

/-- The row of a parent. -/
def AncestryRow.next (row : AncestryRow) (parent : Location) : AncestryRow :=
  ⟨parent, row.depth + 1, row.visited ++ [parent.id], parent.id ∈ row.visited⟩

/-- The recursive term, which joins a row with the parents in a facility. -/
def ancestryStep (table : List Location) (facility : AncestryRow → Uuid)
    (working : List AncestryRow) : List AncestryRow :=
  (working.filter (!·.isCycle)).flatMap fun row =>
    (table.filter fun parent => some parent.id = row.location.parentLocationId ∧
      parent.facilityId = facility row).map row.next

/-- How far a row can be from the end of the query. -/
def AncestryRow.weight (table : List Location) (row : AncestryRow) : ℕ :=
  if row.isCycle then 1 else 2 + (table.filter (·.id ∉ row.visited)).length

theorem weight_next_lt {table : List Location} {row : AncestryRow} (hrow : row.isCycle = false)
    {parent : Location} (hparent : parent ∈ table) :
    (row.next parent).weight table < row.weight table := by
  by_cases hvisited : parent.id ∈ row.visited
  · simp only [AncestryRow.weight, AncestryRow.next, hrow, hvisited, decide_true, if_true,
      Bool.false_eq_true, if_false]
    omega
  · have hsplit : (table.filter (·.id ∉ row.visited ++ [parent.id])) =
        (table.filter (·.id ∉ row.visited)).filter (·.id ≠ parent.id) := by
      rw [List.filter_filter]
      refine List.filter_congr fun location _ => ?_
      simp [and_comm]
    have hlt : (table.filter (·.id ∉ row.visited ++ [parent.id])).length <
        (table.filter (·.id ∉ row.visited)).length := by
      rw [hsplit]
      refine List.length_filter_lt_length_iff_exists.mpr ⟨parent, ?_, by simp⟩
      exact List.mem_filter.mpr ⟨hparent, by simpa using hvisited⟩
    simp only [AncestryRow.weight, AncestryRow.next, hrow, hvisited, decide_false,
      Bool.false_eq_true, if_false]
    omega

/-- Each round of the query is nearer to its end. -/
theorem weight_step_lt {table : List Location} {facility : AncestryRow → Uuid}
    {working : List AncestryRow} (hworking : working ≠ []) :
    ((ancestryStep table facility working).map (·.weight table)).foldr max 0 <
      (working.map (·.weight table)).foldr max 0 := by
  have hle : ∀ rows : List AncestryRow, ∀ row ∈ rows,
      row.weight table ≤ (rows.map (·.weight table)).foldr max 0 := by
    intro rows row hrow
    induction rows with
    | nil => exact absurd hrow List.not_mem_nil
    | cons head rest ih =>
        rw [List.map_cons, List.foldr_cons]
        rcases List.mem_cons.mp hrow with rfl | hrest
        · exact Nat.le_max_left ..
        · exact (ih hrest).trans (Nat.le_max_right ..)
  have hall : ∀ (rows : List AncestryRow) (bound : ℕ), 0 < bound →
      (∀ row ∈ rows, row.weight table < bound) → (rows.map (·.weight table)).foldr max 0 < bound := by
    intro rows bound hbound hrows
    induction rows with
    | nil => exact hbound
    | cons row rest ih =>
        have hrow := hrows row (List.mem_cons_self ..)
        have hrest := ih fun other hother => hrows other (List.mem_cons_of_mem _ hother)
        simpa using ⟨hrow, hrest⟩
  refine hall _ _ ?_ fun row hrow => ?_
  · obtain ⟨row, hrow⟩ := List.exists_mem_of_ne_nil _ hworking
    have hpositive : 0 < row.weight table := by
      unfold AncestryRow.weight
      split <;> omega
    exact hpositive.trans_le (hle working row hrow)
  · obtain ⟨source, hsource, hjoin⟩ := List.mem_flatMap.mp hrow
    obtain ⟨hworking, hcycle⟩ := List.mem_filter.mp hsource
    obtain ⟨parent, hparent, rfl⟩ := List.mem_map.mp hjoin
    have hlt := weight_next_lt (by simpa using hcycle) (List.mem_of_mem_filter hparent)
    exact hlt.trans_le (hle working source hworking)

/-- `WITH RECURSIVE ancestry`, from its first rows. -/
def ancestry (table : List Location) (facility : AncestryRow → Uuid)
    (working : List AncestryRow) : List AncestryRow :=
  if _hworking : working = [] then []
  else working ++ ancestry table facility (ancestryStep table facility working)
termination_by (working.map (·.weight table)).foldr max 0
decreasing_by exact weight_step_lt _hworking

/-! ## Writing locations -/

/-- `enforce_location_acyclic`, for a new row that has a parent. -/
def enforceLocationAcyclic (table : List Location) (new : Location) : Sql Unit :=
  let first := (table.filter fun l => l.id = new.id ∧ l.facilityId = new.facilityId).map
    AncestryRow.first
  require (¬(ancestry table (fun _ => new.facilityId) first).any (·.isCycle)) .checkViolation
    "Location hierarchy cycle is not permitted"

/-- The trigger on a new row, `WHEN (NEW.parent_location_id IS NOT NULL)`. -/
def guardLocation (table : List Location) (new : Location) : Sql Unit :=
  if new.parentLocationId.isSome then enforceLocationAcyclic table new else .ok ()

/-- The `CHECK` constraints of a location. -/
def locationChecks (location : Location) : Bool :=
  location.parentLocationId.all (· ≠ location.id) &&
    decide (1 ≤ (btrim location.code).length) && decide ((btrim location.code).length ≤ 200) &&
    decide (1 ≤ (btrim location.name).length) && decide ((btrim location.name).length ≤ 200)

/-- What the triggers check of one new row, on the completed table. -/
def admitLocation (ctx : SpaceContext) (table : List Location) (row : Location) : Sql Unit := do
  require (row.facilityId ∈ ctx.facilities ∧ row.createdByActorId ∈ ctx.actors)
    .foreignKeyViolation "location reference"
  require (row.parentLocationId.all fun parent =>
      table.any fun p => p.id = parent ∧ p.facilityId = row.facilityId)
    .foreignKeyViolation "fk_locations_parent"
  guardLocation table row
  enforceAuthenticatedCreator ctx.session row.createdByActorId

/-- `INSERT INTO locations`, of any number of rows. -/
def insertLocations (ctx : SpaceContext) (rows : List Location) (table : List Location) :
    Sql (List Location) := do
  let completed := table ++ rows
  require (rows.all locationChecks) .checkViolation "location check"
  require ((completed.map (·.id)).Nodup ∧ ∀ row ∈ rows, row.id ∉ ctx.foreignIds)
    .uniqueViolation "locations_pkey"
  require (completed.map fun l => (l.facilityId, l.code)).Nodup .uniqueViolation
    "uq_locations_facility_code"
  let _ ← rows.mapM (admitLocation ctx completed)
  pure completed

namespace Service

/-- `_space_constraints`. -/
def spaceTranslation : SqlState → Option (FailureKind × String)
  | .uniqueViolation => some (.spaceConflict, "Duplicate location code in facility")
  | .foreignKeyViolation | .checkViolation | .notNullViolation =>
      some (.spaceInvalid, "Invalid space value or relationship")
  | .noDataFound | .serializationFailure | .raiseException | .insufficientPrivilege
  | .numericValueOutOfRange => none

/-- `create_location`, with the id that it draws. -/
def createLocation (ctx : SpaceContext) (row : Location) (table : List Location) :
    Service (Location × List Location) := do
  let table ← translating spaceTranslation (execute (insertLocations ctx [row] table))
  pure (row, table)

end Service

/-! ## Reading a path -/

/-- `location_path`. -/
def locationPath (table : List Location) (id : Uuid) : Service (List Location) := do
  let first := (table.filter (·.id = id)).map AncestryRow.first
  let rows := (ancestry table (·.location.facilityId) first).insertionSort fun row other =>
    other.depth ≤ row.depth
  let root ← Service.fetch rows.head? .spaceNotFound "Location not found"
  Service.ensure (¬rows.any (·.isCycle) ∧ root.location.parentLocationId = none)
    .spaceHierarchyInvalid "Location ancestry is cyclic or incomplete"
  pure (rows.map (·.location))

/-! ## Parents -/

/-- The parent of a location, in its facility. -/
def parentOf (table : List Location) (location : Location) : Option Location :=
  table.find? fun parent => some parent.id = location.parentLocationId ∧
    parent.facilityId = location.facilityId

/-- A location is its own ancestor. -/
def HasCycle (table : List Location) : Prop :=
  ∃ location ∈ table, TransGen (Links (parentOf table)) location location

/-- Every named parent is there. -/
def ParentsExist (table rows : List Location) : Prop :=
  ∀ row ∈ rows, ∀ parent ∈ row.parentLocationId, ∃ p ∈ table,
    p.id = parent ∧ p.facilityId = row.facilityId

/-- The ancestors of a location, itself first, up to a location without parent. -/
structure Ancestors (table : List Location) (location : Location) (chain : List Location) :
    Prop where
  trail : Trail (parentOf table) location chain
  complete : ∀ root ∈ chain.getLast?, root.parentLocationId = none

section

variable {table : List Location} {location parent : Location}

theorem parentOf_eq_some (h : parentOf table location = some parent) :
    parent ∈ table ∧ location.parentLocationId = some parent.id ∧
      parent.facilityId = location.facilityId := by
  have hfound := List.find?_some h
  rw [decide_eq_true_eq] at hfound
  exact ⟨List.mem_of_find?_eq_some h, hfound.1.symm, hfound.2⟩

theorem parentOf_closed : ∀ l ∈ table, ∀ p ∈ parentOf table l, p ∈ table :=
  fun _ _ _ hp => (parentOf_eq_some hp).1

/-- Ids are distinct, so the query joins a row with its parent alone. -/
theorem filter_parents (hids : Distinct Location.id table) :
    (table.filter fun p => some p.id = location.parentLocationId ∧
      p.facilityId = location.facilityId) = (parentOf table location).toList := by
  cases hparent : parentOf table location with
  | none =>
      refine List.filter_eq_nil_iff.mpr fun p hp => ?_
      exact List.find?_eq_none.mp hparent p hp
  | some parent =>
      obtain ⟨hmem, hid, hfacility⟩ := parentOf_eq_some hparent
      have hnodup : (table.filter fun p => some p.id = location.parentLocationId ∧
          p.facilityId = location.facilityId).Nodup := (List.Nodup.of_map _ hids).filter _
      refine List.perm_singleton.mp ((List.perm_ext_iff_of_nodup hnodup
        (List.nodup_singleton _)).mpr fun p => ?_)
      rw [List.mem_filter, List.mem_singleton, decide_eq_true_eq]
      constructor
      · rintro ⟨hp, hsame, -⟩
        rw [hid, Option.some.injEq] at hsame
        exact hids.eq hp hmem hsame
      · rintro rfl
        exact ⟨hmem, hid.symm, hfacility⟩

/-! ## The query on a table -/

variable {facility : AncestryRow → Uuid}

/-- The query looks for parents in the facility of the row. -/
structure Local (facility : AncestryRow → Uuid) (row : AncestryRow) : Prop where
  own : facility row = row.location.facilityId
  next : ∀ (source : AncestryRow) (parent : Location), parent.facilityId = facility source →
    facility (source.next parent) = parent.facilityId

theorem ancestryStep_eq (hids : Distinct Location.id table) {row : AncestryRow}
    (hcycle : row.isCycle = false) (hlocal : Local facility row) :
    ancestryStep table facility [row] = ((parentOf table row.location).map row.next).toList := by
  simp only [ancestryStep, hcycle, Bool.not_false, List.filter_cons_of_pos, List.filter_nil,
    List.flatMap_cons, List.flatMap_nil, List.append_nil, hlocal.own, filter_parents hids]
  cases parentOf table row.location <;> rfl

theorem ancestry_nil : ancestry table facility [] = [] := by
  rw [ancestry]
  rfl

theorem ancestry_of_root (hids : Distinct Location.id table) {row : AncestryRow}
    (hcycle : row.isCycle = false) (hlocal : Local facility row)
    (hparent : parentOf table row.location = none) : ancestry table facility [row] = [row] := by
  rw [ancestry, dif_neg (List.cons_ne_nil row []), ancestryStep_eq hids hcycle hlocal, hparent]
  simp [ancestry_nil]

theorem ancestry_of_parent (hids : Distinct Location.id table) {row : AncestryRow}
    (hcycle : row.isCycle = false) (hlocal : Local facility row)
    (hparent : parentOf table row.location = some parent) :
    ancestry table facility [row] = row :: ancestry table facility [row.next parent] := by
  rw [ancestry, dif_neg (List.cons_ne_nil row []), ancestryStep_eq hids hcycle hlocal, hparent]
  rfl

theorem Local.step {row : AncestryRow} (h : Local facility row)
    (hparent : parentOf table row.location = some parent) : Local facility (row.next parent) := by
  obtain ⟨-, -, hfacility⟩ := parentOf_eq_some hparent
  exact ⟨h.next row parent (hfacility.trans h.own.symm), h.next⟩

/-- Where the walk along parents ends, the query is that walk. -/
theorem ancestry_of_trail (hids : Distinct Location.id table) {row : AncestryRow}
    (hcycle : row.isCycle = false) (hlocal : Local facility row) (hmem : row.location ∈ table)
    {chain : List Location} (htrail : Trail (parentOf table) row.location chain)
    (hfresh : ∀ l ∈ chain.tail, l.id ∉ row.visited) :
    ((ancestry table facility [row]).map (·.location) = chain) ∧
      (∀ r ∈ ancestry table facility [row], r.isCycle = false ∧ row.depth ≤ r.depth) ∧
        (ancestry table facility [row]).Pairwise fun r later => r.depth < later.depth := by
  generalize hlocation : row.location = start at htrail
  induction htrail generalizing row with
  | last hend =>
      rw [ancestry_of_root hids hcycle hlocal (hlocation ▸ hend)]
      simp [hlocation, hcycle]
  | @step start parent rest hnext htrail ih =>
      have hparent : parentOf table row.location = some parent := hlocation ▸ hnext
      obtain ⟨hin, -, -⟩ := parentOf_eq_some hparent
      rw [ancestry_of_parent hids hcycle hlocal hparent]
      have hunvisited : parent.id ∉ row.visited := hfresh parent htrail.mem_self
      have hrest : ∀ l ∈ rest.tail, l.id ∉ (row.next parent).visited := by
        intro l hl hvisited
        rcases List.mem_append.mp hvisited with hold | hself
        · exact hfresh l (List.mem_of_mem_tail hl) hold
        · -- The parent is met once.
          have hsame := hids.eq (htrail.subset parentOf_closed hin (List.mem_of_mem_tail hl)) hin
            (List.mem_singleton.mp hself)
          obtain ⟨first, more, rfl⟩ := List.exists_cons_of_ne_nil htrail.ne_nil
          have hfirst : first = parent := Option.some.inj htrail.head
          rw [List.tail_cons, hsame, ← hfirst] at hl
          exact (List.nodup_cons.mp htrail.nodup).1 hl
      obtain ⟨hmap, hrows, hpairwise⟩ := ih (by simpa [AncestryRow.next] using hunvisited)
        (hlocal.step hparent) hin hrest rfl
      refine ⟨by rw [List.map_cons, hmap, hlocation], ?_, ?_⟩
      · intro r hr
        rcases List.mem_cons.mp hr with rfl | hr
        · exact ⟨hcycle, Nat.le_refl _⟩
        · exact ⟨(hrows r hr).1, (Nat.le_succ _).trans (hrows r hr).2⟩
      · refine List.pairwise_cons.mpr ⟨fun r hr => ?_, hpairwise⟩
        exact Nat.lt_of_succ_le (hrows r hr).2

/-- Where the query marks no cycle, the walk along parents ends. -/
theorem trail_of_ancestry (hids : Distinct Location.id table) {working : List AncestryRow}
    {row : AncestryRow} (hworking : working = [row]) (hlocal : Local facility row)
    (hclear : ∀ r ∈ ancestry table facility working, r.isCycle = false) :
    ∃ chain, Trail (parentOf table) row.location chain := by
  fun_induction ancestry table facility working generalizing row with
  | case1 => exact absurd hworking.symm (List.cons_ne_nil row [])
  | case2 working hne ih =>
      subst hworking
      have hcycle := hclear row (by simp)
      cases hparent : parentOf table row.location with
      | none => exact ⟨_, .last hparent⟩
      | some parent =>
          have hstep : ancestryStep table facility [row] = [row.next parent] := by
            rw [ancestryStep_eq hids hcycle hlocal, hparent]
            rfl
          obtain ⟨chain, htrail⟩ := ih hstep (hlocal.step hparent) fun r hr =>
            hclear r (List.mem_append_right _ hr)
          exact ⟨_, .step hparent htrail⟩

/-! ## The guard -/

theorem local_guard {new : Location} (hfacility : location.facilityId = new.facilityId) :
    Local (fun _ => new.facilityId) (.first location) :=
  ⟨hfacility.symm, fun _ _ h => h.symm⟩

theorem local_path : Local (·.location.facilityId) (.first location) := ⟨rfl, fun _ _ _ => rfl⟩

/-- The query from a location is the walk from it. -/
theorem ancestry_of_first (hids : Distinct Location.id table) (hmem : location ∈ table)
    (hlocal : Local facility (.first location)) {chain : List Location}
    (htrail : Trail (parentOf table) location chain) :
    ((ancestry table facility [.first location]).map (·.location) = chain) ∧
      (∀ r ∈ ancestry table facility [.first location], r.isCycle = false ∧ 0 ≤ r.depth) ∧
        (ancestry table facility [.first location]).Pairwise fun r later =>
          r.depth < later.depth := by
  refine ancestry_of_trail hids rfl hlocal hmem htrail fun l hl hvisited => ?_
  have hin : l ∈ table := htrail.subset parentOf_closed hmem (List.mem_of_mem_tail hl)
  have hsame : l = location := hids.eq hin hmem (List.mem_singleton.mp hvisited)
  obtain ⟨first, rest, rfl⟩ := List.exists_cons_of_ne_nil htrail.ne_nil
  have hfirst : first = location := Option.some.inj htrail.head
  rw [List.tail_cons, hsame, ← hfirst] at hl
  exact (List.nodup_cons.mp htrail.nodup).1 hl

/-- The query that starts at a location marks a cycle exactly if the walk meets a loop. -/
theorem ancestry_clear_iff (hids : Distinct Location.id table) (hmem : location ∈ table)
    (hlocal : Local facility (.first location)) :
    (∀ r ∈ ancestry table facility [.first location], r.isCycle = false) ↔
      ¬Loops (parentOf table) location := by
  rw [← exists_trail_iff parentOf_closed hmem]
  constructor
  · exact fun hclear => trail_of_ancestry hids rfl hlocal hclear
  · rintro ⟨chain, htrail⟩ r hr
    exact ((ancestry_of_first hids hmem hlocal htrail).2.1 r hr).1

theorem guardLocation_eq_ok (hids : Distinct Location.id table) (hmem : location ∈ table) :
    guardLocation table location = .ok () ↔
      (location.parentLocationId.isSome → ¬Loops (parentOf table) location) := by
  have hfirst : (table.filter fun l => l.id = location.id ∧ l.facilityId = location.facilityId) =
      [location] := by
    refine List.perm_singleton.mp ((List.perm_ext_iff_of_nodup
      ((List.Nodup.of_map _ hids).filter _) (List.nodup_singleton _)).mpr fun l => ?_)
    rw [List.mem_filter, List.mem_singleton, decide_eq_true_eq]
    constructor
    · rintro ⟨hl, hid, -⟩
      exact hids.eq hl hmem hid
    · rintro rfl
      exact ⟨hmem, rfl, rfl⟩
  unfold guardLocation
  by_cases hparent : location.parentLocationId.isSome
  · rw [if_pos hparent, enforceLocationAcyclic, require_eq_ok, hfirst, List.map_singleton,
      ← ancestry_clear_iff hids hmem (local_guard rfl)]
    simp [hparent]
  · simp [hparent]

/-- An old row keeps its parent, which is old. -/
theorem parentOf_append {rows : List Location} (hcomplete : ParentsExist table table)
    (hmem : location ∈ table) : parentOf (table ++ rows) location = parentOf table location := by
  unfold parentOf
  rw [List.find?_append]
  cases hparent : location.parentLocationId with
  | none =>
      have hnone : ∀ rows : List Location, rows.find? (fun r => some r.id = none ∧
          r.facilityId = location.facilityId) = none :=
        fun rows => List.find?_eq_none.mpr (by simp)
      rw [hnone, hnone]
      rfl
  | some p =>
      obtain ⟨q, hq, rfl, hfacility⟩ := hcomplete location hmem p hparent
      have hsome : (table.find? fun r => some r.id = some q.id ∧
          r.facilityId = location.facilityId).isSome :=
        List.find?_isSome.mpr ⟨q, hq, by simp [hfacility]⟩
      rw [Option.or_of_isSome hsome]

/-- A new table is free of cycles if the old one is and no new row's walk meets a loop. -/
theorem hasCycle_append {rows : List Location} (hforest : ¬HasCycle table)
    (hcomplete : ParentsExist table table) :
    HasCycle (table ++ rows) ↔
      ∃ row ∈ rows, row.parentLocationId.isSome ∧ Loops (parentOf (table ++ rows)) row := by
  have hold : ∀ l ∈ table, parentOf (table ++ rows) l = parentOf table l :=
    fun l hl => parentOf_append hcomplete hl
  constructor
  · rintro ⟨l, hl, hback⟩
    have hsome : l.parentLocationId.isSome := by
      obtain ⟨p, hp, -⟩ := TransGen.head'_iff.mp hback
      rw [(parentOf_eq_some hp).2.1]
      rfl
    rcases List.mem_append.mp hl with hl | hl
    · refine absurd ⟨l, hl, ?_⟩ hforest
      have hstay : ∀ p, TransGen (Links (parentOf (table ++ rows))) l p →
          p ∈ table ∧ TransGen (Links (parentOf table)) l p := by
        intro p hp
        induction hp with
        | single hstep =>
            rw [Links, hold l hl] at hstep
            exact ⟨(parentOf_eq_some hstep).1, .single hstep⟩
        | tail _ hstep ih =>
            rw [Links, hold _ ih.1] at hstep
            exact ⟨(parentOf_eq_some hstep).1, ih.2.tail hstep⟩
      exact (hstay l hback).2
    · exact ⟨l, hl, hsome, l, .refl, hback⟩
  · rintro ⟨row, hrow, -, met, hreach, hback⟩
    exact ⟨met, mem_of_reaches parentOf_closed (List.mem_append_right _ hrow) hreach, hback⟩

/-! ## Statements -/

/-- The state of the table: no cycle, and no parent missing. -/
structure Forest (table : List Location) : Prop where
  ids : Distinct Location.id table
  complete : ParentsExist table table
  acyclic : ¬HasCycle table

theorem mapM_eq_ok {ε α : Type} {f : α → Except ε Unit} {rows : List α} :
    (∃ units, rows.mapM f = .ok units) ↔ ∀ row ∈ rows, f row = .ok () := by
  induction rows with
  | nil => simp [pure_eq_ok]
  | cons row rest ih =>
      simp only [List.mapM_cons, bind_eq_ok, pure_eq_ok, List.forall_mem_cons, ← ih]
      constructor
      · rintro ⟨_, ⟨⟩, hrow, units, hrest, -⟩
        exact ⟨hrow, units, hrest⟩
      · rintro ⟨hrow, units, hrest⟩
        exact ⟨_, (), hrow, units, hrest, rfl⟩

theorem admitLocation_eq_ok {ctx : SpaceContext} :
    admitLocation ctx table location = .ok () ↔
      (location.facilityId ∈ ctx.facilities ∧ location.createdByActorId ∈ ctx.actors) ∧
        ParentsExist table [location] ∧ guardLocation table location = .ok () ∧
          enforceAuthenticatedCreator ctx.session location.createdByActorId = .ok () := by
  simp only [admitLocation, bind_eq_ok, require_eq_ok, exists_unit]
  refine and_congr_right fun _ => and_congr ?_ Iff.rfl
  cases hparent : location.parentLocationId <;> simp [ParentsExist, hparent]

theorem insertLocations_eq_ok {ctx : SpaceContext} {rows after : List Location} :
    insertLocations ctx rows table = .ok after ↔
      (∀ row ∈ rows, locationChecks row) ∧
      (((table ++ rows).map (·.id)).Nodup ∧ ∀ row ∈ rows, row.id ∉ ctx.foreignIds) ∧
      ((table ++ rows).map fun l => (l.facilityId, l.code)).Nodup ∧
      (∀ row ∈ rows, admitLocation ctx (table ++ rows) row = .ok ()) ∧ after = table ++ rows := by
  simp only [insertLocations, bind_eq_ok, require_eq_ok, exists_unit, pure_eq_ok,
    List.all_eq_true, ← mapM_eq_ok]
  constructor
  · rintro ⟨hchecks, hids, hcodes, units, hunits, rfl⟩
    exact ⟨hchecks, hids, hcodes, ⟨units, hunits⟩, rfl⟩
  · rintro ⟨hchecks, hids, hcodes, ⟨units, hunits⟩, rfl⟩
    exact ⟨hchecks, hids, hcodes, units, hunits, rfl⟩

/-- An accepted statement keeps the forest. -/
theorem Forest.insertLocations {ctx : SpaceContext} {rows after : List Location}
    (h : Forest table) (hinsert : FleetOps.insertLocations ctx rows table = .ok after) :
    Forest after := by
  obtain ⟨-, ⟨hids, -⟩, -, hadmits, rfl⟩ := insertLocations_eq_ok.mp hinsert
  refine ⟨hids, fun row hrow p hp => ?_, fun hcycle => ?_⟩
  · rcases List.mem_append.mp hrow with hold | hnew
    · obtain ⟨q, hq, hnamed⟩ := h.complete row hold p hp
      exact ⟨q, List.mem_append_left _ hq, hnamed⟩
    · exact (admitLocation_eq_ok.mp (hadmits row hnew)).2.1 row (List.mem_singleton_self _) p hp
  · obtain ⟨row, hrow, hsome, hloops⟩ := (hasCycle_append h.acyclic h.complete).mp hcycle
    have hguard := (admitLocation_eq_ok.mp (hadmits row hrow)).2.2.1
    exact (guardLocation_eq_ok hids (List.mem_append_right _ hrow)).mp hguard hsome hloops

/-! ## Paths -/

/-- Rows whose depths rise are reversed by `ORDER BY depth DESC`. -/
theorem insertionSort_depth {rows : List AncestryRow}
    (hrows : rows.Pairwise fun row later => row.depth < later.depth) :
    rows.insertionSort (fun row other => other.depth ≤ row.depth) = rows.reverse := by
  have htotal : Std.Total fun row other : AncestryRow => other.depth ≤ row.depth :=
    ⟨fun row other => Nat.le_total other.depth row.depth⟩
  have htrans : IsTrans AncestryRow fun row other => other.depth ≤ row.depth :=
    ⟨fun _ _ _ hfirst hsecond => hsecond.trans hfirst⟩
  refine List.Perm.eq_of_pairwise (fun row other hrow hother hle hge => ?_)
    (List.pairwise_insertionSort _ rows) (List.pairwise_reverse.mpr (hrows.imp Nat.le_of_lt))
    ((List.perm_insertionSort _ rows).trans (List.reverse_perm rows).symm)
  have hrow : row ∈ rows := (List.mem_insertionSort _).mp hrow
  have hother : other ∈ rows := List.mem_reverse.mp hother
  by_contra hne
  have hsymm : Std.Symm fun row other : AncestryRow => row.depth ≠ other.depth :=
    ⟨fun _ _ => Ne.symm⟩
  have hdepths : rows.Pairwise fun row other => row.depth ≠ other.depth :=
    hrows.imp fun hlt => Nat.ne_of_lt hlt
  exact hdepths.forall hrow hother hne (Nat.le_antisymm hge hle)

/-- The path of a location is its ancestors from the root, where they end at one. -/
theorem locationPath_eq_ok (hids : Distinct Location.id table) {id : Uuid} {path : List Location} :
    locationPath table id = .ok path ↔
      ∃ location ∈ table, location.id = id ∧ Ancestors table location path.reverse := by
  by_cases hfound : ∃ location ∈ table, location.id = id
  · obtain ⟨location, hmem, rfl⟩ := hfound
    have hfirst : table.filter (·.id = location.id) = [location] := by
      refine List.perm_singleton.mp ((List.perm_ext_iff_of_nodup
        ((List.Nodup.of_map _ hids).filter _) (List.nodup_singleton _)).mpr fun l => ?_)
      rw [List.mem_filter, List.mem_singleton, decide_eq_true_eq]
      constructor
      · rintro ⟨hl, hid⟩
        exact hids.eq hl hmem hid
      · rintro rfl
        exact ⟨hmem, rfl⟩
    have hsame : (∃ l ∈ table, l.id = location.id ∧ Ancestors table l path.reverse) ↔
        Ancestors table location path.reverse := by
      constructor
      · rintro ⟨l, hl, hid, hancestors⟩
        exact hids.eq hl hmem hid ▸ hancestors
      · exact fun hancestors => ⟨location, hmem, rfl, hancestors⟩
    rw [hsame]
    simp only [locationPath, hfirst, List.map_singleton, bind_eq_ok, Service.fetch_eq_ok,
      Service.ensure_eq_ok, exists_unit, pure_eq_ok]
    have hlocal : Local (·.location.facilityId) (.first location) := local_path
    have hclear := ancestry_clear_iff hids hmem hlocal
    constructor
    · rintro ⟨root, hroot, ⟨hany, hcomplete⟩, rfl⟩
      have hnone : ∀ r ∈ ancestry table (·.location.facilityId) [.first location],
          r.isCycle = false := by
        intro r hr
        by_contra hcycle
        have hmarked : r.isCycle = true := by simpa using hcycle
        exact hany (List.any_eq_true.mpr ⟨r, (List.mem_insertionSort _).mpr hr, hmarked⟩)
      obtain ⟨chain, htrail⟩ := (exists_trail_iff parentOf_closed hmem).mpr (hclear.mp hnone)
      obtain ⟨hmap, -, hdepths⟩ := ancestry_of_first hids hmem local_path htrail
      rw [insertionSort_depth hdepths] at hroot ⊢
      rw [List.map_reverse, List.reverse_reverse, hmap]
      refine ⟨htrail, fun last hlast => ?_⟩
      rw [← hmap, List.getLast?_map, ← List.head?_reverse, hroot] at hlast
      simp only [Option.map_some, Option.mem_def, Option.some.injEq] at hlast
      exact hlast ▸ hcomplete
    · intro hancestors
      obtain ⟨htrail, hcomplete⟩ := hancestors
      obtain ⟨hmap, hrows, hdepths⟩ := ancestry_of_first hids hmem local_path htrail
      rw [insertionSort_depth hdepths]
      obtain ⟨root, hroot⟩ : ∃ root,
          (ancestry table (·.location.facilityId) [.first location]).reverse.head? = some root := by
        refine Option.isSome_iff_exists.mp ?_
        rw [List.head?_reverse, List.getLast?_isSome]
        intro hnil
        rw [hnil] at hmap
        exact htrail.ne_nil hmap.symm
      refine ⟨root, hroot, ⟨fun hany => ?_, hcomplete root.location ?_⟩, ?_⟩
      · obtain ⟨r, hr, hcycle⟩ := List.any_eq_true.mp hany
        rw [(hrows r (List.mem_reverse.mp hr)).1] at hcycle
        exact absurd hcycle (by decide)
      · rw [← hmap, List.getLast?_map, ← List.head?_reverse, hroot]
        rfl
      · rw [List.map_reverse, hmap, List.reverse_reverse]
  · have hfirst : table.filter (·.id = id) = [] :=
      List.filter_eq_nil_iff.mpr fun l hl hid => hfound ⟨l, hl, of_decide_eq_true hid⟩
    have hsort : ([] : List AncestryRow).insertionSort (fun row other => other.depth ≤ row.depth) =
        [] := rfl
    simp only [locationPath, hfirst, List.map_nil, ancestry_nil, hsort, bind_eq_ok,
      Service.fetch_eq_ok]
    constructor
    · rintro ⟨_, hroot, -⟩
      exact absurd hroot (by simp)
    · rintro ⟨l, hl, hid, -⟩
      exact absurd ⟨l, hl, hid⟩ hfound

end

/-! ## Runs -/

/-- One statement on locations. -/
structure LocationStatement where
  ctx : SpaceContext
  rows : List Location

/-- The statement's effect, if it is accepted. -/
def LocationStatement.exec (statement : LocationStatement) (table : List Location) :
    Sql (List Location) :=
  insertLocations statement.ctx statement.rows table

/-! ## Created locations -/

section

variable {table : List Location} {location row : Location}

/-- In a forest every location's ancestors end at a location without parent. -/
theorem Forest.ancestors (h : Forest table) (hmem : location ∈ table) :
    ∃ chain, Ancestors table location chain := by
  have hloops : ¬Loops (parentOf table) location := by
    rintro ⟨met, hreach, hback⟩
    exact h.acyclic ⟨met, mem_of_reaches parentOf_closed hmem hreach, hback⟩
  obtain ⟨chain, htrail⟩ := (exists_trail_iff parentOf_closed hmem).mpr hloops
  refine ⟨chain, htrail, fun root hroot => ?_⟩
  have hin : root ∈ table := htrail.subset parentOf_closed hmem (List.mem_of_getLast? hroot)
  cases hparent : root.parentLocationId with
  | none => rfl
  | some p =>
      -- The parent that it names is there, so the walk goes on.
      obtain ⟨q, hq, rfl, hfacility⟩ := h.complete root hin p hparent
      have hnone := List.find?_eq_none.mp (htrail.last_next hroot) q hq
      simp [hparent, hfacility] at hnone

/-- A location keeps its ancestors when rows are added. -/
theorem Ancestors.append {rows chain : List Location} (h : Ancestors table location chain)
    (hcomplete : ParentsExist table table) (hmem : location ∈ table) :
    Ancestors (table ++ rows) location chain := by
  obtain ⟨htrail, hroot⟩ := h
  refine ⟨?_, hroot⟩
  clear hroot
  induction htrail with
  | last hend => exact .last ((parentOf_append hcomplete hmem).trans hend)
  | step hnext _ ih =>
      exact .step ((parentOf_append hcomplete hmem).trans hnext) (ih (parentOf_eq_some hnext).1)

/-- The ancestors of a location that is added alone are its parent's, below itself. -/
theorem Forest.ancestors_new (h : Forest table)
    (hparents : ParentsExist (table ++ [row]) [row]) (hself : row.parentLocationId ≠ some row.id) :
    ∃ chain, Ancestors (table ++ [row]) row (row :: chain) ∧
      (row.parentLocationId = none ∧ chain = [] ∨ ∃ parent ∈ table,
        row.parentLocationId = some parent.id ∧ Ancestors table parent chain) := by
  cases hnext : parentOf (table ++ [row]) row with
  | none =>
      have hroot : row.parentLocationId = none := by
        by_contra hsome
        obtain ⟨p, hp⟩ := Option.ne_none_iff_exists'.mp hsome
        obtain ⟨q, hq, rfl, hfacility⟩ := hparents row (List.mem_singleton_self _) p hp
        have hnone := List.find?_eq_none.mp hnext q hq
        simp [hp, hfacility] at hnone
      refine ⟨[], ⟨.last hnext, fun root hmem => ?_⟩, .inl ⟨hroot, rfl⟩⟩
      obtain rfl : row = root := by simpa using hmem
      exact hroot
  | some parent =>
      obtain ⟨hmem, hid, -⟩ := parentOf_eq_some hnext
      have hold : parent ∈ table := by
        refine (List.mem_append.mp hmem).resolve_right fun hnew => hself ?_
        rw [hid, List.mem_singleton.mp hnew]
      obtain ⟨chain, hchain⟩ := h.ancestors hold
      have hafter : Ancestors (table ++ [row]) parent chain := hchain.append h.complete hold
      obtain ⟨htrail, hroot⟩ := hafter
      refine ⟨chain, ⟨.step hnext htrail, fun root hlast => hroot root ?_⟩,
        .inr ⟨parent, hold, hid, hchain⟩⟩
      obtain ⟨first, rest, rfl⟩ := List.exists_cons_of_ne_nil htrail.ne_nil
      rwa [List.getLast?_cons_cons] at hlast

/-- A location that is added alone closes no cycle. -/
theorem Forest.guard_new (h : Forest table) (hids : Distinct Location.id (table ++ [row]))
    (hparents : ParentsExist (table ++ [row]) [row]) (hself : row.parentLocationId ≠ some row.id) :
    guardLocation (table ++ [row]) row = .ok () := by
  obtain ⟨chain, hchain, -⟩ := h.ancestors_new hparents hself
  exact (guardLocation_eq_ok hids (by simp)).mpr fun _ => hchain.trail.acyclic

end

/-- `create_location` inserts one row. -/
theorem createLocation_eq_ok {ctx : SpaceContext} {row created : Location}
    {table after : List Location} :
    Service.createLocation ctx row table = .ok (created, after) ↔
      created = row ∧ LocationStatement.exec ⟨ctx, [row]⟩ table = .ok after := by
  simp only [Service.createLocation, bind_eq_ok, Service.translating_eq_ok,
    Service.execute_eq_ok, pure_eq_ok, Prod.mk.injEq]
  constructor
  · rintro ⟨_, hinsert, rfl, rfl⟩
    exact ⟨rfl, hinsert⟩
  · rintro ⟨rfl, hinsert⟩
    exact ⟨after, hinsert, rfl, rfl⟩

theorem Forest.run (statements : List LocationStatement) {table : List Location}
    (h : Forest table) : Forest (Machine.run LocationStatement.exec statements table) :=
  Machine.run_invariant LocationStatement.exec Forest (fun _ => True)
    (fun _ _ _ _ hexec hforest => hforest.insertLocations hexec) statements table
    (fun _ _ => trivial) h

theorem Forest.empty : Forest [] :=
  ⟨List.nodup_nil, fun _ hrow => absurd hrow List.not_mem_nil,
    fun ⟨_, hmem, _⟩ => List.not_mem_nil hmem⟩

/-- `create_location` is refused by constraints and keys only, never by the cycle guard. -/
theorem Forest.createLocation_accepted {ctx : SpaceContext} {row : Location}
    {table : List Location} (h : Forest table) :
    (∃ result, Service.createLocation ctx row table = .ok result) ↔
      locationChecks row ∧
      (((table ++ [row]).map (·.id)).Nodup ∧ row.id ∉ ctx.foreignIds) ∧
      ((table ++ [row]).map fun l => (l.facilityId, l.code)).Nodup ∧
      (row.facilityId ∈ ctx.facilities ∧ row.createdByActorId ∈ ctx.actors) ∧
      ParentsExist (table ++ [row]) [row] ∧
      enforceAuthenticatedCreator ctx.session row.createdByActorId = .ok () := by
  constructor
  · rintro ⟨⟨created, after⟩, hcreate⟩
    obtain ⟨rfl, hexec⟩ := createLocation_eq_ok.mp hcreate
    obtain ⟨hchecks, ⟨hids, hforeign⟩, hcodes, hadmits, -⟩ := insertLocations_eq_ok.mp hexec
    have hself := List.mem_singleton_self created
    obtain ⟨hreferences, hparents, -, hcreator⟩ := admitLocation_eq_ok.mp (hadmits _ hself)
    exact ⟨hchecks _ hself, ⟨hids, hforeign _ hself⟩, hcodes, hreferences, hparents, hcreator⟩
  · rintro ⟨hchecks, ⟨hids, hforeign⟩, hcodes, hreferences, hparents, hcreator⟩
    have hself : row.parentLocationId ≠ some row.id := by
      intro hparent
      simp [locationChecks, hparent] at hchecks
    have hguard := h.guard_new hids hparents hself
    refine ⟨(row, table ++ [row]), createLocation_eq_ok.mpr ⟨rfl, insertLocations_eq_ok.mpr ?_⟩⟩
    simp only [List.mem_singleton, forall_eq]
    exact ⟨hchecks, ⟨hids, hforeign⟩, hcodes,
      admitLocation_eq_ok.mpr ⟨hreferences, hparents, hguard, hcreator⟩, trivial⟩

/-- `create_location` leaves every path as it was; the path of the new location is its parent's with
the location at its end. -/
theorem Forest.createLocation {ctx : SpaceContext} {row created : Location}
    {table after : List Location} (h : Forest table)
    (hcreate : Service.createLocation ctx row table = .ok (created, after)) :
    created = row ∧ Forest after ∧
      (∀ id path, locationPath table id = .ok path → locationPath after id = .ok path) ∧
      ∃ path, locationPath after row.id = .ok (path ++ [row]) ∧
        (row.parentLocationId = none ∧ path = [] ∨ ∃ parent ∈ row.parentLocationId,
          locationPath table parent = .ok path) := by
  obtain ⟨rfl, hexec⟩ := createLocation_eq_ok.mp hcreate
  have hforest : Forest after := h.insertLocations hexec
  obtain ⟨hchecks, -, -, hadmits, rfl⟩ := insertLocations_eq_ok.mp hexec
  have hself : created.parentLocationId ≠ some created.id := by
    intro hparent
    have hcheck := hchecks created (List.mem_singleton_self _)
    simp [locationChecks, hparent] at hcheck
  have hadmitted := admitLocation_eq_ok.mp (hadmits created (List.mem_singleton_self _))
  refine ⟨rfl, hforest, fun id path hpath => ?_, ?_⟩
  · obtain ⟨location, hmem, hid, hancestors⟩ := (locationPath_eq_ok h.ids).mp hpath
    exact (locationPath_eq_ok hforest.ids).mpr
      ⟨location, List.mem_append_left _ hmem, hid, hancestors.append h.complete hmem⟩
  · obtain ⟨chain, hchain, hfrom⟩ := h.ancestors_new hadmitted.2.1 hself
    refine ⟨chain.reverse, (locationPath_eq_ok hforest.ids).mpr
      ⟨created, by simp, rfl, by simpa using hchain⟩, ?_⟩
    rcases hfrom with ⟨hroot, rfl⟩ | ⟨parent, hmem, hparent, hancestors⟩
    · exact .inl ⟨hroot, rfl⟩
    · refine .inr ⟨parent.id, hparent, (locationPath_eq_ok h.ids).mpr
        ⟨parent, hmem, rfl, by simpa using hancestors⟩⟩

/-- The guard refuses exactly the statements that close a cycle. -/
theorem Forest.guard_refuses_iff {table rows : List Location} (h : Forest table)
    (hids : Distinct Location.id (table ++ rows)) :
    (∃ row ∈ rows, guardLocation (table ++ rows) row ≠ .ok ()) ↔ HasCycle (table ++ rows) := by
  rw [hasCycle_append h.acyclic h.complete]
  refine exists_congr fun row => and_congr_right fun hrow => ?_
  rw [Ne, guardLocation_eq_ok hids (List.mem_append_right _ hrow)]
  simp

/-- Locations stay a forest, the guard refuses exactly what would close a cycle, and a path is read
from any table exactly where the ancestors end at a location without parent. -/
theorem locationForest :
    (∀ statements, Forest (Machine.run LocationStatement.exec statements [])) ∧
    (∀ statements rows, let table := Machine.run LocationStatement.exec statements []
      Distinct Location.id (table ++ rows) → ParentsExist (table ++ rows) rows →
        ((∃ row ∈ rows, guardLocation (table ++ rows) row ≠ .ok ()) ↔
          HasCycle (table ++ rows))) ∧
    (∀ table, Distinct Location.id table → ∀ id path,
      locationPath table id = .ok path ↔
        ∃ location ∈ table, location.id = id ∧ Ancestors table location path.reverse) := by
  have hforest := fun statements => Forest.empty.run statements
  exact ⟨hforest, fun statements _ hids _ => (hforest statements).guard_refuses_iff hids,
    fun _ hids _ _ => locationPath_eq_ok hids⟩

/-- A location of a facility with one parent at most. -/
def sampleLocation (id : Uuid) (parent : Option Uuid) : Location :=
  ⟨id, 1, parent, "L", "Location", .rack, true, 2, .at 0⟩

/-- A rack is read below its site, and a statement whose two rows name each other is refused. -/
theorem locationForest_sample :
    let site := sampleLocation 3 none
    let rack := sampleLocation 4 (some 3)
    let ring := [sampleLocation 5 (some 6), sampleLocation 6 (some 5)]
    locationPath [rack, site] 4 = .ok [site, rack] ∧
      ∃ row ∈ ring, guardLocation ring row ≠ .ok () := by
  intro site rack ring
  obtain ⟨-, hguard, hpath⟩ := locationForest
  constructor
  · refine (hpath [rack, site] (by unfold Distinct; decide) 4 [site, rack]).mpr ?_
    have hroot : parentOf [rack, site] site = none := by decide
    have hrack : parentOf [rack, site] rack = some site := by decide
    refine ⟨rack, List.mem_cons_self .., rfl, .step hrack (.last hroot), ?_⟩
    intro root hlast
    obtain rfl : site = root := Option.some.inj hlast
    rfl
  · have hparents : ParentsExist ([] ++ ring) ring := by
      unfold ParentsExist
      decide
    refine (hguard [] ring (by unfold Distinct; decide) hparents).mpr ?_
    have hnext : parentOf ring (sampleLocation 5 (some 6)) = some (sampleLocation 6 (some 5)) := by
      decide
    have hback : parentOf ring (sampleLocation 6 (some 5)) = some (sampleLocation 5 (some 6)) := by
      decide
    exact ⟨sampleLocation 5 (some 6), List.mem_cons_self .., .tail (.single hnext) hback⟩

end FleetOps
