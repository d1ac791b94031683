import FleetOps.Procurement.Lineage

/-!
# Recorded expectations

In every state that authoring reaches, each line number of each order has one
lineage whose last version alone is active, and `list_lines` gives exactly these;
what is issued stays as it was issued.
-/

namespace FleetOps

open Chains Keys Relation

namespace Procurement

variable {before after tables : Procurement}

/-! ## What is issued stays -/

/-- The issued orders of `before` and their lines are rows of `after`. -/
structure Frozen (before after : Procurement) : Prop where
  orders : ∀ order ∈ before.orders, order.status = .issued → order ∈ after.orders
  lines : ∀ line ∈ before.lines, HasOrder before.orders line.poId .issued → line ∈ after.lines

theorem Frozen.refl (tables : Procurement) : Frozen tables tables :=
  ⟨fun _ horder _ => horder, fun _ hline _ => hline⟩

theorem Frozen.trans {middle : Procurement} (h : Frozen before middle) (h' : Frozen middle after) :
    Frozen before after where
  orders order horder hissued := h'.orders order (h.orders order horder hissued) hissued
  lines line hline hown := by
    refine h'.lines line (h.lines line hline hown) ?_
    obtain ⟨order, horder, hid, hissued⟩ := hown
    exact ⟨order, h.orders order horder hissued, hid, hissued⟩

/-- A row that an edit does not cover stays in the list. -/
theorem mem_of_forall₂ {α : Type} {rel : α → α → Prop} {rows edited : List α} {row : α}
    (hedits : List.Forall₂ rel rows edited) (hrow : row ∈ rows)
    (hsame : ∀ new, rel row new → new = row) : row ∈ edited := by
  induction hedits with
  | nil => exact hrow
  | @cons old new olds news hedit _ ih =>
      rcases List.mem_cons.mp hrow with rfl | hrow
      · rw [hsame new hedit]
        exact List.mem_cons_self ..
      · exact List.mem_cons_of_mem _ (ih hrow)

theorem Authored.frozen_alters (h : before.Authored) (halters : Alters before after) :
    Frozen before after := by
  have hdraft : ∀ {poId : Uuid}, HasOrder before.orders poId .issued →
      ¬HasOrder before.orders poId .draft :=
    fun hissued hdraft => absurd (h.status_eq hissued hdraft) (by decide)
  cases halters with
  | orderAdded draft fresh =>
      exact ⟨fun order horder _ => List.mem_append_left _ horder, fun line hline _ => hline⟩
  | ordersEdited edits =>
      refine ⟨fun order horder hissued => ?_, fun line hline _ => hline⟩
      refine mem_of_forall₂ edits horder fun new hedit => ?_
      rcases hedit with heq | hedit
      · exact heq
      · exact absurd (hissued.symm.trans hedit.draft) (by decide)
  | ordersRemoved drafts unused =>
      refine ⟨fun order horder hissued => ?_, fun line hline _ => hline⟩
      refine List.mem_filter.mpr ⟨horder, ?_⟩
      by_contra hremoved
      have hstatus := drafts order horder (by simpa using hremoved)
      exact absurd (hissued.symm.trans hstatus) (by decide)
  | rootAdded draft root fresh first =>
      exact ⟨fun order horder _ => horder, fun line hline _ => List.mem_append_left _ hline⟩
  | successorAdded issued hprior names poId number fresh unnamed =>
      exact ⟨fun order horder _ => horder, fun line hline _ => List.mem_append_left _ hline⟩
  | linesEdited edits =>
      refine ⟨fun order horder _ => horder, fun line hline hown => ?_⟩
      refine mem_of_forall₂ edits hline fun new hedit => ?_
      rcases hedit with heq | ⟨hedit, -⟩
      · exact heq
      · exact absurd hedit (hdraft hown)
  | linesRemoved drafts =>
      refine ⟨fun order horder _ => horder, fun line hline hown => ?_⟩
      refine List.mem_filter.mpr ⟨hline, ?_⟩
      by_contra hremoved
      exact hdraft hown (drafts line hline (by simpa using hremoved))

theorem Authored.frozen_alterations (h : before.Authored) (hmany : ReflTransGen Alters before after) :
    Frozen before after := by
  induction hmany with
  | refl => exact .refl _
  | tail hmany halters ih => exact ih.trans ((h.alterations hmany).frozen_alters halters)

theorem Authored.frozen_run (h : before.Authored)
    (requests : List (ProcurementContext × ProcurementCall)) :
    Frozen before (Machine.run step requests before) :=
  (Machine.run_invariant step (fun tables => tables.Authored ∧ Frozen before tables)
    (fun _ => True) (fun _ _ _ _ hstep hinv =>
      ⟨hinv.1.alterations (step_alters hstep),
        hinv.2.trans (hinv.1.frozen_alterations (step_alters hstep))⟩)
    requests before (fun _ _ => trivial) ⟨h, .refl _⟩).2

/-! ## What no statement changes -/

theorem Authored.same_of_edits (h : before.Authored) {lines : List LineRow}
    (hedits : List.Forall₂ (fun old new => new = old ∨
      HasOrder before.orders old.poId .draft ∧ SameLine old new) before.lines lines)
    {old new : LineRow} (hold : old ∈ before.lines) (hnew : new ∈ lines) (hid : new.id = old.id) :
    SameLine old new := by
  obtain ⟨i, hi, rfl⟩ := List.getElem_of_mem hnew
  have hbound : i < before.lines.length := hedits.length_eq ▸ hi
  have hedit := (List.forall₂_iff_get.mp hedits).2 i hbound hi
  simp only [List.get_eq_getElem] at hedit
  have hsame : SameLine before.lines[i] lines[i] := by
    rcases hedit with heq | ⟨-, hedit⟩
    · rw [heq]
      exact ⟨rfl, rfl, rfl, rfl, rfl, rfl, rfl⟩
    · exact hedit
  rwa [h.lineIds.eq hold (List.getElem_mem _) (hid.symm.trans hsame.id)]

/-- A line that a request leaves in place keeps its identity, its pointer and its unit. -/
theorem Authored.same_step (h : before.Authored) {request : ProcurementContext × ProcurementCall}
    (hstep : step request before = .ok after) {old new : LineRow} (hold : old ∈ before.lines)
    (hnew : new ∈ after.lines) (hid : new.id = old.id) : SameLine old new := by
  have hsame : ∀ {line : LineRow}, line ∈ after.lines → old ∈ after.lines → line.id = old.id →
      SameLine old line := by
    intro line hline hold hid
    obtain rfl := (h.alterations (step_alters hstep)).lineIds.eq hline hold hid
    exact ⟨rfl, rfl, rfl, rfl, rfl, rfl, rfl⟩
  obtain rfl | ⟨statement, hrun⟩ := step_statement hstep
  · exact hsame hnew hold hid
  · cases statement with
    | insertOrders rows =>
        have hlines : after.lines = before.lines := by
          simp only [ProcurementContext.execute, ProcurementContext.insertOrders, bind_eq_ok,
            exists_unit, pure_eq_ok] at hrun
          obtain ⟨_, hrun, -, rfl⟩ := hrun
          refine Fallible.foldlM_rel (fun s t : Procurement => t.lines = s.lines) (fun _ => rfl)
            (fun h h' => h'.trans h) hrun fun row _ s t hbody => ?_
          simp only [ProcurementContext.insertOrder, bind_eq_ok, require_eq_ok, exists_unit,
            pure_eq_ok] at hbody
          obtain ⟨-, -, -, -, rfl⟩ := hbody
          rfl
        exact hsame hnew (hlines ▸ hold) hid
    | updateOrders filter set =>
        simp only [ProcurementContext.execute, ProcurementContext.updateOrders, bind_eq_ok,
          pure_eq_ok] at hrun
        obtain ⟨_, -, rfl⟩ := hrun
        exact hsame hnew hold hid
    | deleteOrders filter =>
        simp only [ProcurementContext.execute, ProcurementContext.deleteOrders, bind_eq_ok,
          require_eq_ok, exists_unit, pure_eq_ok] at hrun
        obtain ⟨-, -, rfl⟩ := hrun
        exact hsame hnew hold hid
    | insertLines rows =>
        obtain ⟨more, hmore⟩ := ProcurementContext.insertLines_grows hrun
        exact hsame hnew (hmore ▸ List.mem_append_left _ hold) hid
    | updateLines filter set =>
        obtain ⟨lines, hedits, rfl⟩ := ProcurementContext.updateLines_edits hrun
        exact h.same_of_edits hedits hold hnew hid
    | deleteLines filter =>
        obtain ⟨-, rfl⟩ := ProcurementContext.deleteLines_drafts hrun
        obtain rfl := h.lineIds.eq (List.mem_filter.mp hnew).1 hold hid
        exact ⟨rfl, rfl, rfl, rfl, rfl, rfl, rfl⟩

/-! ## The active version -/

/-- What names a line stands in its own lineage. -/
theorem Authored.mem_versions_of_names (h : tables.Authored) {line other : LineRow}
    (hline : line ∈ tables.lines) (hother : other ∈ tables.lines)
    (hnames : other.supersedesLineId = some line.id) :
    other ∈ tables.versions line.poId line.lineNumber := by
  obtain ⟨chain, hperm, hlinked⟩ := h.lineages other.poId other.lineNumber
  have hmem := hperm.mem_iff.mpr (mem_versions.mpr ⟨hother, rfl, rfl⟩)
  obtain ⟨front, row, rest, hsplit, hid⟩ := hlinked.before hmem hnames
  have hrow := mem_versions.mp (hperm.mem_iff.mp (show row ∈ chain by simp [hsplit]))
  obtain rfl := h.lineIds.eq hrow.1 hline hid
  exact mem_versions.mpr ⟨hother, hrow.2.1.symm, hrow.2.2.symm⟩

/-- A line is active if no version of its number names it. -/
theorem Authored.superseded_iff (h : tables.Authored) {line : LineRow}
    (hline : line ∈ tables.lines) : tables.superseded line = false ↔
      ∀ other ∈ tables.versions line.poId line.lineNumber,
        other.supersedesLineId ≠ some line.id := by
  rw [superseded, List.any_eq_false]
  constructor
  · intro hnone other hother hnames
    have hother := mem_versions.mp hother
    exact hnone other hother.1 (by simpa using ⟨hother.2.1, hnames⟩)
  · intro hnone other hother hsame
    simp only [Bool.decide_and, Bool.and_eq_true, decide_eq_true_eq] at hsame
    exact hnone other (h.mem_versions_of_names hline hother hsame.2) hsame.2

/-- A lineage in order, its last version the active one. -/
structure Succession (tables : Procurement) (poId : Uuid) (number : ℕ) (front : List LineRow)
    (leaf : LineRow) : Prop where
  perm : (front ++ [leaf]).Perm (tables.versions poId number)
  linked : Linked (fun row : LineRow => row.id) (fun row : LineRow => row.supersedesLineId)
    (front ++ [leaf])
  active : ∀ line ∈ tables.versions poId number, tables.superseded line = false ↔ line = leaf

theorem Authored.succession (h : tables.Authored) {poId : Uuid} {number : ℕ}
    (hrows : tables.versions poId number ≠ []) :
    ∃ front leaf, Succession tables poId number front leaf := by
  obtain ⟨chain, hperm, hlinked⟩ := h.lineages poId number
  have hne : chain ≠ [] := by
    rintro rfl
    exact hrows hperm.nil_eq.symm
  obtain ⟨front, leaf, rfl⟩ := (List.eq_nil_or_concat' chain).resolve_left hne
  refine ⟨front, leaf, hperm, hlinked, fun line hline => ?_⟩
  obtain ⟨hmem, rfl, rfl⟩ := mem_versions.mp hline
  have hkeys : Distinct (fun row : LineRow => row.id) (front ++ [leaf]) :=
    (hperm.map _).nodup_iff.mpr (h.lineIds.filter _)
  rw [h.superseded_iff hmem, ← hlinked.unnamed_iff hkeys (hperm.mem_iff.mpr hline)]
  exact ⟨fun hall other hother => hall other (hperm.mem_iff.mp hother),
    fun hall other hother => hall other (hperm.mem_iff.mpr hother)⟩

/-! ## The listing -/

/-- The line query's row of a line. -/
def versionOf (tables : Procurement) (line : LineRow) : LineVersion where
  toPurchaseOrderLine := line.toPurchaseOrderLine
  active := !tables.superseded line
  superseded := tables.superseded line

theorem lineQuery_lineList : lineQuery tables.lineList = tables.lines.map tables.versionOf := by
  unfold lineQuery lineList versionOf superseded
  rw [List.map_map]
  refine List.map_congr_left fun line _ => ?_
  simp only [Function.comp_apply, List.any_map]
  rfl

theorem filter_lineQuery (poId : Uuid) (number : ℕ) :
    versionsOf ((lineQuery tables.lineList).filter (·.poId = poId)) number =
      (tables.versions poId number).map tables.versionOf := by
  rw [lineQuery_lineList, versionsOf, List.filter_map, List.filter_map, List.filter_filter, versions]
  congr 1
  refine List.filter_congr fun line _ => ?_
  simp only [Function.comp_apply, Bool.decide_and]
  exact Bool.and_comm _ _

theorem Authored.lineChain (h : tables.Authored) (poId : Uuid) (number : ℕ) :
    LineChain (versionsOf ((lineQuery tables.lineList).filter (·.poId = poId)) number) := by
  rw [filter_lineQuery]
  refine (h.lineages poId number).of_forall₂ ?_
  rw [List.forall₂_map_right_iff, List.forall₂_same]
  exact fun line _ => ⟨rfl, rfl⟩

theorem Authored.distinct_rows (h : tables.Authored) (poId : Uuid) :
    Distinct (fun row : LineVersion => row.id)
      ((lineQuery tables.lineList).filter (·.poId = poId)) := by
  refine Distinct.filter ?_ _
  rw [lineQuery_lineList, Distinct, List.map_map]
  exact h.lineIds

/-- In a listing, the last version of a number is the active one. -/
theorem Authored.active_iff_last (h : tables.Authored) {poId : Uuid} {number : ℕ}
    {listed : List LineVersion} (hlinked : RootToLeaf listed)
    (hperm : listed.Perm ((tables.versions poId number).map tables.versionOf)) {row : LineVersion}
    (hrow : row ∈ listed) : row.active = true ↔ listed.getLast? = some row := by
  obtain ⟨line, hline, rfl⟩ := List.mem_map.mp (hperm.mem_iff.mp hrow)
  obtain ⟨hmem, rfl, rfl⟩ := mem_versions.mp hline
  have hkeys : Distinct (fun row : LineVersion => row.id) listed := by
    refine (hperm.map _).nodup_iff.mpr ?_
    rw [List.map_map]
    exact h.lineIds.filter _
  obtain ⟨front, last, rfl⟩ :=
    (List.eq_nil_or_concat' listed).resolve_left (List.ne_nil_of_mem hrow)
  rw [List.getLast?_concat, Option.some.injEq, eq_comm (a := last), ← hlinked.unnamed_iff hkeys hrow]
  show (!tables.superseded line) = true ↔ _
  rw [Bool.not_eq_true', h.superseded_iff hmem]
  constructor
  · intro hall other hother
    obtain ⟨source, hsource, rfl⟩ := List.mem_map.mp (hperm.mem_iff.mp hother)
    exact hall source hsource
  · intro hall other hother
    exact hall (tables.versionOf other) (hperm.mem_iff.mpr (List.mem_map_of_mem hother))

end Procurement

open Procurement

/-- In every state that authoring reaches, by the services and by direct statements over any rows:
the versions of a line number of an order form one chain from a root to a leaf, the leaf is the only
active one, and every pointer stays within the chain.  An issued order and its lines are rows of
every later state; and no request that leaves a line in place changes its unit of measure, or
anything that it is identified by. -/
theorem procurementLineage (requests : List (ProcurementContext × ProcurementCall)) :
    let tables := Machine.run Procurement.step requests {}
    (∀ poId number, tables.versions poId number ≠ [] →
      ∃ front leaf, Succession tables poId number front leaf) ∧
    (∀ later, Frozen tables (Machine.run Procurement.step later tables)) ∧
    ∀ commit ∈ Machine.commits Procurement.step requests {},
      ∀ old ∈ commit.before.lines, ∀ new ∈ commit.after.lines, new.id = old.id →
        SameLine old new := by
  have hauthored := authored_run requests authored_empty
  refine ⟨fun poId number hrows => hauthored.succession hrows,
    fun later => hauthored.frozen_run later, fun commit hcommit old hold new hnew hid => ?_⟩
  obtain ⟨hbefore, -, hstep⟩ := Machine.commits_forall Procurement.step Authored (fun _ => True)
    (fun _ _ _ _ hstep hbefore => hbefore.alterations (step_alters hstep)) requests {}
    (fun _ _ => trivial) authored_empty commit hcommit
  exact hbefore.same_step hstep hold hnew hid

/-- In every state that authoring reaches `list_lines` returns every version of an order that
exists: by line number, from root to leaf, and the last of each number is its only active version.
It never reports an inconsistent lineage. -/
theorem expectationListing (requests : List (ProcurementContext × ProcurementCall)) (poId : Uuid) :
    let tables := Machine.run Procurement.step requests {}
    ((∃ order ∈ tables.orders, order.id = poId) →
      ∃ ordered, listLines tables.orderList tables.lineList poId = .ok ordered ∧
        ordered.Perm ((tables.lines.filter (·.poId = poId)).map tables.versionOf) ∧
        ordered.Pairwise (fun row later => row.lineNumber ≤ later.lineNumber) ∧
        ∀ number, RootToLeaf (versionsOf ordered number) ∧
          ∀ row ∈ versionsOf ordered number,
            row.active = true ↔ (versionsOf ordered number).getLast? = some row) ∧
    ((∀ order ∈ tables.orders, order.id ≠ poId) →
      listLines tables.orderList tables.lineList poId =
        Service.fail .procurementNotFound "Purchase order not found") := by
  intro tables
  have h : tables.Authored := authored_run requests authored_empty
  refine ⟨fun horder => ?_, fun hnone => ?_⟩
  · obtain ⟨order, horder, hid⟩ := horder
    have hlisted : ∃ order ∈ tables.orderList, order.id = poId :=
      ⟨order.toPurchaseOrder, List.mem_map_of_mem horder, hid⟩
    obtain ⟨ordered, hordered⟩ := listLines_of_chains hlisted (h.distinct_rows poId)
      (h.lineChain poId)
    obtain ⟨hperm, hsorted, hgroups⟩ := listed_grouped hlisted hordered
    have hrows : (lineQuery tables.lineList).filter (·.poId = poId) =
        (tables.lines.filter (·.poId = poId)).map tables.versionOf := by
      rw [lineQuery_lineList, List.filter_map]
      rfl
    refine ⟨ordered, hordered, hrows ▸ hperm, hsorted, fun number => ⟨hgroups number, ?_⟩⟩
    have hgroup : (versionsOf ordered number).Perm
        ((tables.versions poId number).map tables.versionOf) := by
      rw [← filter_lineQuery]
      exact hperm.filter _
    exact fun row hrow => h.active_iff_last (hgroups number) hgroup hrow
  · have hfind : tables.orderList.find? (·.id = poId) = none := by
      refine List.find?_eq_none.mpr fun order horder hid => ?_
      obtain ⟨row, hrow, rfl⟩ := List.mem_map.mp horder
      exact hnone row hrow (of_decide_eq_true hid)
    rw [listLines, getOrder, hfind]
    rfl

end FleetOps
