import FleetOps.Foundations.Fallible
import FleetOps.Procurement.Machine

/-!
# Lineages over whole runs

What a statement does to the tables is a sequence of alterations (`Alters`), of one kind each:
rows are added under the guards of the triggers, edited without their identity, or
removed from a draft.  Every alteration keeps the tables `Authored`, in which each line
number of each order has one chain of versions; and none of them touches an issued
order.
-/

namespace FleetOps

open Chains Keys Relation

/-! ## Alterations -/

/-- What an update of an order may change. -/
structure OrderEdit (old new : OrderRow) : Prop where
  draft : old.status = .draft
  id : new.id = old.id
  status : new.status = .draft ∨ new.status = .issued
  creator : new.createdByActorId = old.createdByActorId
  created : new.createdAt = old.createdAt

/-- What no update of a line changes. -/
structure SameLine (old new : LineRow) : Prop where
  id : new.id = old.id
  poId : new.poId = old.poId
  number : new.lineNumber = old.lineNumber
  prior : new.supersedesLineId = old.supersedesLineId
  uom : new.fields.uom = old.fields.uom
  creator : new.createdByActorId = old.createdByActorId
  created : new.createdAt = old.createdAt

namespace Procurement

/-- An order of the tables with a status. -/
def HasOrder (orders : List OrderRow) (poId : Uuid) (status : PurchaseOrderStatus) : Prop :=
  ∃ order ∈ orders, order.id = poId ∧ order.status = status

/-- What one row, or one statement over rows that are there, does. -/
inductive Alters (before : Procurement) : Procurement → Prop
  | orderAdded {row : OrderRow} (draft : row.status = .draft)
      (fresh : ∀ other ∈ before.orders, other.id ≠ row.id) :
      Alters before { before with orders := before.orders ++ [row] }
  | ordersEdited {orders : List OrderRow}
      (edits : List.Forall₂ (fun old new => new = old ∨ OrderEdit old new) before.orders orders) :
      Alters before { before with orders }
  | ordersRemoved {removed : OrderRow → Bool}
      (drafts : ∀ order ∈ before.orders, removed order = true → order.status = .draft)
      (unused : ∀ order ∈ before.orders, removed order = true →
        ∀ line ∈ before.lines, line.poId ≠ order.id) :
      Alters before { before with orders := before.orders.filter fun order => !removed order }
  | rootAdded {row : LineRow} (draft : HasOrder before.orders row.poId .draft)
      (root : row.supersedesLineId = none) (fresh : ∀ other ∈ before.lines, other.id ≠ row.id)
      (first : ∀ other ∈ before.lines, other.supersedesLineId = none → other.poId = row.poId →
        other.lineNumber ≠ row.lineNumber) :
      Alters before { before with lines := before.lines ++ [row] }
  | successorAdded {row prior : LineRow} (issued : HasOrder before.orders row.poId .issued)
      (hprior : prior ∈ before.lines) (names : row.supersedesLineId = some prior.id)
      (poId : prior.poId = row.poId) (number : prior.lineNumber = row.lineNumber)
      (fresh : ∀ other ∈ before.lines, other.id ≠ row.id)
      (unnamed : ∀ other ∈ before.lines, other.supersedesLineId ≠ some prior.id) :
      Alters before { before with lines := before.lines ++ [row] }
  | linesEdited {lines : List LineRow}
      (edits : List.Forall₂ (fun old new => new = old ∨
        HasOrder before.orders old.poId .draft ∧ SameLine old new) before.lines lines) :
      Alters before { before with lines }
  | linesRemoved {removed : LineRow → Bool}
      (drafts : ∀ line ∈ before.lines, removed line = true →
        HasOrder before.orders line.poId .draft) :
      Alters before { before with lines := before.lines.filter fun line => !removed line }

end Procurement

namespace ProcurementContext

open Procurement

variable {ctx : ProcurementContext} {before after : Procurement}

theorem insertOrder_alters {new : OrderRow} (h : ctx.insertOrder before new = .ok after) :
    Alters before after := by
  simp only [insertOrder, bind_eq_ok, require_eq_ok, exists_unit, pure_eq_ok] at h
  obtain ⟨⟨hdraft, -, -⟩, -, -, ⟨-, hfresh⟩, rfl⟩ := h
  exact .orderAdded hdraft fun other hother => by simpa using List.all_eq_true.mp hfresh other hother

theorem insertOrders_alters {rows : List OrderRow} (h : ctx.insertOrders rows before = .ok after) :
    ReflTransGen Alters before after := by
  simp only [insertOrders, bind_eq_ok, exists_unit, pure_eq_ok] at h
  obtain ⟨_, hrun, -, rfl⟩ := h
  exact Fallible.foldlM_rel (ReflTransGen Alters) (fun _ => .refl) (fun h h' => h.trans h') hrun
    fun row _ _ _ hbody => .single (insertOrder_alters hbody)

theorem updateOrder_edit {old new row : OrderRow} (h : ctx.updateOrder old new = .ok row) :
    OrderEdit old row := by
  simp only [updateOrder, enforceOrderUpdate, bind_eq_ok, require_eq_ok, exists_unit, pure_eq_ok,
    Prod.exists] at h
  obtain ⟨stamped, ⟨⟨hdraft, -⟩, ⟨hid, hcreator, hcreated, -⟩, hstatus, hstamped⟩, updater, updatedAt,
    -, -, -, rfl⟩ := h
  have hkept : stamped.id = new.id ∧ stamped.status = new.status ∧
      stamped.createdByActorId = new.createdByActorId ∧ stamped.createdAt = new.createdAt := by
    split at hstamped
    · simp only [bind_eq_ok, pure_eq_ok] at hstamped
      obtain ⟨_, -, rfl⟩ := hstamped
      exact ⟨rfl, rfl, rfl, rfl⟩
    · rw [pure_eq_ok] at hstamped
      subst hstamped
      exact ⟨rfl, rfl, rfl, rfl⟩
  obtain ⟨hid', hstatus', hcreator', hcreated'⟩ := hkept
  exact ⟨hdraft, hid'.trans hid, hstatus'.symm ▸ hstatus, hcreator'.trans hcreator,
    hcreated'.trans hcreated⟩

theorem updateOrders_alters {filter : OrderRow → Bool} {set : OrderRow → OrderRow}
    (h : ctx.updateOrders filter set before = .ok after) : Alters before after := by
  simp only [updateOrders, bind_eq_ok, pure_eq_ok] at h
  obtain ⟨orders, hrun, rfl⟩ := h
  refine .ordersEdited ((Fallible.forall₂_of_mapM hrun).imp fun old new hbody => ?_)
  split at hbody
  · exact .inr (updateOrder_edit hbody)
  · exact .inl (pure_eq_ok.mp hbody).symm

theorem deleteOrders_alters {filter : OrderRow → Bool}
    (h : ctx.deleteOrders filter before = .ok after) : Alters before after := by
  simp only [deleteOrders, bind_eq_ok, require_eq_ok, exists_unit, pure_eq_ok] at h
  obtain ⟨hdrafts, hunused, rfl⟩ := h
  refine .ordersRemoved (fun order horder hremoved => ?_) fun order horder hremoved line hline => ?_
  · exact (hdrafts order (List.mem_filter.mpr ⟨horder, hremoved⟩)).1
  · have hnone := (hunused order (List.mem_filter.mpr ⟨horder, hremoved⟩)).2
    simpa using List.all_eq_true.mp hnone line hline

theorem hasOrder_of_lineOrder {poId : Uuid} {order : OrderRow}
    (h : lineOrder before poId = .ok order) : HasOrder before.orders poId order.status := by
  rw [lineOrder, demand_eq_ok] at h
  obtain ⟨horder, hid⟩ := key_of_find? h
  exact ⟨order, horder, hid, rfl⟩

/-- A line that is inserted keeps its identity, and is a root of a draft or a successor. -/
theorem insertLine_alters {new : LineRow} (h : ctx.insertLine before new = .ok after) :
    Alters before after := by
  simp only [insertLine, bind_eq_ok, require_eq_ok, exists_unit, pure_eq_ok, demand_eq_ok] at h
  obtain ⟨-, order, horder, hprior, uom, -, -, -, hunique, rfl⟩ := h
  have horder := hasOrder_of_lineOrder horder
  simp only [lineUnique, Bool.and_eq_true, List.all_eq_true, decide_eq_true_eq] at hunique
  have hunique := hunique.2
  unfold enforcePredecessor at hprior
  split at hprior
  next hroot =>
    rw [require_eq_ok] at hprior
    refine .rootAdded (hprior.1 ▸ horder) hroot (fun other hother => (hunique other hother).1.1) ?_
    intro other hother hother' hpo hnumber
    exact (hunique other hother).1.2 ⟨hroot, hother', hpo, hnumber⟩
  next prior hnames =>
    simp only [bind_eq_ok, require_eq_ok, exists_unit, List.any_eq_true, List.all_eq_true,
      decide_eq_true_eq] at hprior
    obtain ⟨hissued, ⟨-, target, htarget, hpo, hnumber, rfl⟩, hunnamed⟩ := hprior
    exact .successorAdded (hissued ▸ horder) htarget hnames hpo hnumber
      (fun other hother => (hunique other hother).1.1) hunnamed

theorem insertLines_alters {rows : List LineRow} (h : ctx.insertLines rows before = .ok after) :
    ReflTransGen Alters before after := by
  simp only [insertLines, bind_eq_ok, exists_unit, pure_eq_ok] at h
  obtain ⟨_, hrun, -, rfl⟩ := h
  exact Fallible.foldlM_rel (ReflTransGen Alters) (fun _ => .refl) (fun h h' => h.trans h') hrun
    fun row _ _ _ hbody => .single (insertLine_alters hbody)

theorem insertLines_grows {rows : List LineRow} (h : ctx.insertLines rows before = .ok after) :
    ∃ more, after.lines = before.lines ++ more := by
  simp only [insertLines, bind_eq_ok, exists_unit, pure_eq_ok] at h
  obtain ⟨_, hrun, -, rfl⟩ := h
  refine Fallible.foldlM_rel (fun s t : Procurement => ∃ more, t.lines = s.lines ++ more)
    (fun _ => ⟨[], by simp⟩) ?_ hrun ?_
  · intro a b c hab hbc
    obtain ⟨more, hab⟩ := hab
    obtain ⟨rest, hbc⟩ := hbc
    exact ⟨more ++ rest, by rw [hbc, hab, List.append_assoc]⟩
  · intro row _ s t hbody
    simp only [insertLine, bind_eq_ok, require_eq_ok, exists_unit, pure_eq_ok] at hbody
    obtain ⟨-, _, -, -, _, -, -, -, -, rfl⟩ := hbody
    exact ⟨_, rfl⟩

theorem updateLine_edit {old new row : LineRow} (h : ctx.updateLine before old new = .ok row) :
    HasOrder before.orders old.poId .draft ∧ SameLine old row := by
  simp only [updateLine, bind_eq_ok, require_eq_ok, exists_unit, pure_eq_ok, Prod.exists] at h
  obtain ⟨order, horder, ⟨hdraft, -⟩, ⟨hid, hpo, hnumber, hprior, huom, hcreator, hcreated⟩, _, _, -,
    -, -, rfl⟩ := h
  exact ⟨hdraft ▸ hasOrder_of_lineOrder horder,
    ⟨hid, hpo, hnumber, hprior, huom, hcreator, hcreated⟩⟩

theorem updateLines_edits {filter : LineRow → Bool} {set : LineRow → LineRow}
    (h : ctx.updateLines filter set before = .ok after) : ∃ lines,
      List.Forall₂ (fun old new => new = old ∨
        HasOrder before.orders old.poId .draft ∧ SameLine old new) before.lines lines ∧
      after = { before with lines } := by
  simp only [updateLines, bind_eq_ok, pure_eq_ok] at h
  obtain ⟨lines, hrun, rfl⟩ := h
  refine ⟨lines, (Fallible.forall₂_of_mapM hrun).imp fun old new hbody => ?_, rfl⟩
  split at hbody
  · exact .inr (updateLine_edit hbody)
  · exact .inl (pure_eq_ok.mp hbody).symm

theorem deleteLines_drafts {filter : LineRow → Bool}
    (h : ctx.deleteLines filter before = .ok after) :
    (∀ line ∈ before.lines, filter line = true → HasOrder before.orders line.poId .draft) ∧
      after = { before with lines := before.lines.filter fun line => !filter line } := by
  simp only [deleteLines, bind_eq_ok, require_eq_ok, exists_unit, pure_eq_ok] at h
  obtain ⟨hdrafts, -, rfl⟩ := h
  refine ⟨fun line hline hremoved => ?_, rfl⟩
  have hline := Fallible.forall_of_forM hdrafts line (List.mem_filter.mpr ⟨hline, hremoved⟩)
  simp only [bind_eq_ok, require_eq_ok] at hline
  obtain ⟨order, horder, hdraft, -⟩ := hline
  exact hdraft ▸ hasOrder_of_lineOrder horder

/-- A statement alters the tables, one alteration after another. -/
theorem execute_alters {statement : ProcurementStatement}
    (h : ctx.execute statement before = .ok after) : ReflTransGen Alters before after := by
  cases statement with
  | insertOrders rows => exact insertOrders_alters h
  | updateOrders filter set => exact .single (updateOrders_alters h)
  | deleteOrders filter => exact .single (deleteOrders_alters h)
  | insertLines rows => exact insertLines_alters h
  | updateLines filter set =>
      obtain ⟨lines, hedits, rfl⟩ := updateLines_edits h
      exact .single (.linesEdited hedits)
  | deleteLines filter =>
      obtain ⟨hdrafts, rfl⟩ := deleteLines_drafts h
      exact .single (.linesRemoved hdrafts)

end ProcurementContext

/-! ## Requests -/

namespace Procurement

variable {before after : Procurement}

theorem of_returnedOrder {poId : Uuid} {tables : Procurement} {order : OrderRow}
    (h : Service.returnedOrder poId tables = .ok (order, after)) : after = tables := by
  simp only [Service.returnedOrder, bind_eq_ok, pure_eq_ok, Prod.mk.injEq] at h
  obtain ⟨_, -, -, rfl⟩ := h
  rfl

/-- A request is one statement, or changes nothing. -/
theorem step_statement {request : ProcurementContext × ProcurementCall}
    (h : step request before = .ok after) :
    after = before ∨ ∃ statement, request.1.execute statement before = .ok after := by
  obtain ⟨ctx, call⟩ := request
  cases call with
  | createOrder performerId values id =>
      simp only [step, Service.createOrder, Service.procurementConstraints,
        Service.translating_eq_ok, bind_eq_ok, Service.execute_eq_ok, pure_eq_ok, Prod.exists] at h
      obtain ⟨_, _, ⟨tables, hrun, hreturned⟩, rfl⟩ := h
      rw [of_returnedOrder hreturned]
      exact .inr ⟨.insertOrders _, hrun⟩
  | updateOrder poId values =>
      simp only [step, Service.updateOrder, Service.procurementConstraints,
        Service.translating_eq_ok, bind_eq_ok, pure_eq_ok, Prod.exists] at h
      obtain ⟨order, _, ⟨_, -, -, -, hrun⟩, rfl⟩ := h
      split at hrun
      · rw [pure_eq_ok, Prod.mk.injEq] at hrun
        exact .inl hrun.2.symm
      · simp only [bind_eq_ok, Service.execute_eq_ok] at hrun
        obtain ⟨tables, hrun, hreturned⟩ := hrun
        rw [of_returnedOrder hreturned]
        exact .inr ⟨.updateOrders _ _, hrun⟩
  | issueOrder poId =>
      simp only [step, Service.issueOrder, Service.procurementConstraints,
        Service.translating_eq_ok, bind_eq_ok, Service.execute_eq_ok, pure_eq_ok, Prod.exists] at h
      obtain ⟨_, _, ⟨_, -, -, -, tables, hrun, hreturned⟩, rfl⟩ := h
      rw [of_returnedOrder hreturned]
      exact .inr ⟨.updateOrders _ _, hrun⟩
  | createLine performerId poId values place id =>
      simp only [step, Service.createLine, Service.procurementConstraints,
        Service.translating_eq_ok, bind_eq_ok, Service.execute_eq_ok, pure_eq_ok, Prod.exists,
        Prod.mk.injEq] at h
      obtain ⟨_, _, ⟨_, -, _, _, -, tables, hrun, _, -, -, rfl⟩, rfl⟩ := h
      exact .inr ⟨.insertLines _, hrun⟩
  | updateLine poId lineId values =>
      simp only [step, Service.updateLine, Service.procurementConstraints,
        Service.translating_eq_ok, bind_eq_ok, pure_eq_ok, Prod.exists] at h
      obtain ⟨_, _, ⟨_, -, -, -, _, -, hrun⟩, rfl⟩ := h
      split at hrun
      · simp only [bind_eq_ok, pure_eq_ok, Prod.mk.injEq] at hrun
        obtain ⟨_, rfl, _, -, -, rfl⟩ := hrun
        exact .inl rfl
      · simp only [bind_eq_ok, Service.execute_eq_ok, pure_eq_ok, Prod.mk.injEq] at hrun
        obtain ⟨_, hrun, _, -, -, rfl⟩ := hrun
        exact .inr ⟨.updateLines _ _, hrun⟩
  | statement statement =>
      simp only [step, Service.execute_eq_ok] at h
      exact .inr ⟨statement, h⟩

theorem step_alters {request : ProcurementContext × ProcurementCall}
    (h : step request before = .ok after) : ReflTransGen Alters before after := by
  obtain rfl | ⟨statement, hrun⟩ := step_statement h
  · exact .refl
  · exact ProcurementContext.execute_alters hrun

/-! ## The invariant -/

/-- The versions of one line number of an order. -/
def versions (tables : Procurement) (poId : Uuid) (number : ℕ) : List LineRow :=
  tables.lines.filter fun line => line.poId = poId ∧ line.lineNumber = number

/-- Versions, in some order, from root to leaf. -/
abbrev Lineage (rows : List LineRow) : Prop :=
  SingleChain (fun row : LineRow => row.id) (fun row : LineRow => row.supersedesLineId) rows

/-- What every alteration keeps. -/
structure Authored (tables : Procurement) : Prop where
  orderIds : Distinct (fun order : OrderRow => order.id) tables.orders
  lineIds : Distinct (fun line : LineRow => line.id) tables.lines
  statuses : ∀ order ∈ tables.orders, order.status = .draft ∨ order.status = .issued
  owned : ∀ line ∈ tables.lines, ∃ order ∈ tables.orders, order.id = line.poId
  roots : ∀ line ∈ tables.lines, HasOrder tables.orders line.poId .draft →
    line.supersedesLineId = none
  lineages : ∀ poId number, Lineage (tables.versions poId number)

theorem mem_versions {tables : Procurement} {poId : Uuid} {number : ℕ} {line : LineRow} :
    line ∈ tables.versions poId number ↔
      line ∈ tables.lines ∧ line.poId = poId ∧ line.lineNumber = number := by
  simp [versions]

theorem versions_concat (row : LineRow) (poId : Uuid) (number : ℕ) :
    versions { before with lines := before.lines ++ [row] } poId number =
      if row.poId = poId ∧ row.lineNumber = number then before.versions poId number ++ [row]
      else before.versions poId number := by
  unfold versions
  rw [List.filter_append]
  split
  next hrow => rw [List.filter_cons_of_pos (by simpa using hrow), List.filter_nil]
  next hrow => rw [List.filter_cons_of_neg (by simpa using hrow), List.filter_nil, List.append_nil]

theorem authored_empty : Authored {} where
  orderIds := List.nodup_nil
  lineIds := List.nodup_nil
  statuses := by simp
  owned := by simp
  roots := by simp
  lineages _ _ := singleChain_nil

namespace Authored

variable {before : Procurement} (h : before.Authored)

include h

/-- An order has one status. -/
theorem status_eq {poId : Uuid} {s s' : PurchaseOrderStatus} (hs : HasOrder before.orders poId s)
    (hs' : HasOrder before.orders poId s') : s = s' := by
  obtain ⟨order, horder, hid, rfl⟩ := hs
  obtain ⟨other, hother, hid', rfl⟩ := hs'
  rw [h.orderIds.eq horder hother (hid.trans hid'.symm)]

theorem orderAdded {row : OrderRow} (hdraft : row.status = .draft)
    (hfresh : ∀ other ∈ before.orders, other.id ≠ row.id) :
    Authored { before with orders := before.orders ++ [row] } where
  orderIds := h.orderIds.concat hfresh
  lineIds := h.lineIds
  statuses order horder := by
    rcases List.mem_append.mp horder with horder | horder
    · exact h.statuses order horder
    · exact .inl (List.mem_singleton.mp horder ▸ hdraft)
  owned line hline := by
    obtain ⟨order, horder, hid⟩ := h.owned line hline
    exact ⟨order, List.mem_append_left _ horder, hid⟩
  roots line hline hown := by
    -- The new order has no lines.
    obtain ⟨order, horder, hid, hstatus⟩ := hown
    rcases List.mem_append.mp horder with horder | horder
    · exact h.roots line hline ⟨order, horder, hid, hstatus⟩
    · obtain ⟨owner, howner, hid'⟩ := h.owned line hline
      obtain rfl := List.mem_singleton.mp horder
      exact absurd (hid'.trans hid.symm) (hfresh owner howner)
  lineages := h.lineages

theorem ordersEdited {orders : List OrderRow}
    (hedits : List.Forall₂ (fun old new => new = old ∨ OrderEdit old new) before.orders orders) :
    Authored { before with orders } := by
  have hids : orders.map (fun order : OrderRow => order.id) =
      before.orders.map fun order : OrderRow => order.id := by
    symm
    rw [← List.forall₂_eq_eq_eq, List.forall₂_map_left_iff, List.forall₂_map_right_iff]
    refine hedits.imp fun old new hedit => ?_
    rcases hedit with rfl | hedit
    · rfl
    · exact hedit.id.symm
  -- What stands for an order's draft now was a draft before.
  have hback : ∀ new ∈ orders, ∃ old ∈ before.orders, old.id = new.id ∧
      (new = old ∨ OrderEdit old new) := by
    intro new hnew
    obtain ⟨i, hi, rfl⟩ := List.getElem_of_mem hnew
    have hlength := hedits.length_eq
    refine ⟨before.orders[i], List.getElem_mem _, ?_⟩
    have hedit := (List.forall₂_iff_get.mp hedits).2 i (by omega) hi
    simp only [List.get_eq_getElem] at hedit
    refine ⟨?_, hedit⟩
    rcases hedit with heq | hedit
    · rw [heq]
    · exact hedit.id.symm
  refine ⟨?_, h.lineIds, fun new hnew => ?_, fun line hline => ?_, fun line hline hown => ?_,
    h.lineages⟩
  · rw [Distinct, hids]
    exact h.orderIds
  · obtain ⟨old, hold, -, heq | hedit⟩ := hback new hnew
    · exact heq ▸ h.statuses old hold
    · exact hedit.status
  · obtain ⟨order, horder, hid⟩ := h.owned line hline
    have hmem := List.mem_map_of_mem (f := fun order : OrderRow => order.id) horder
    rw [← hids, List.mem_map] at hmem
    obtain ⟨new, hnew, hsame⟩ := hmem
    exact ⟨new, hnew, hsame.trans hid⟩
  · obtain ⟨new, hnew, hid, hstatus⟩ := hown
    obtain ⟨old, hold, hsame, heq | hedit⟩ := hback new hnew
    · exact h.roots line hline ⟨old, hold, hsame.trans hid, heq ▸ hstatus⟩
    · exact h.roots line hline ⟨old, hold, hsame.trans hid, hedit.draft⟩

theorem ordersRemoved {removed : OrderRow → Bool}
    (hunused : ∀ order ∈ before.orders, removed order = true →
      ∀ line ∈ before.lines, line.poId ≠ order.id) :
    Authored { before with orders := before.orders.filter fun order => !removed order } where
  orderIds := h.orderIds.filter _
  lineIds := h.lineIds
  statuses order horder := h.statuses order (List.mem_filter.mp horder).1
  owned line hline := by
    obtain ⟨order, horder, hid⟩ := h.owned line hline
    refine ⟨order, List.mem_filter.mpr ⟨horder, ?_⟩, hid⟩
    by_contra hremoved
    exact hunused order horder (by simpa using hremoved) line hline hid.symm
  roots line hline hown := by
    obtain ⟨order, horder, hid, hstatus⟩ := hown
    exact h.roots line hline ⟨order, (List.mem_filter.mp horder).1, hid, hstatus⟩
  lineages := h.lineages

theorem rootAdded {row : LineRow} (hdraft : HasOrder before.orders row.poId .draft)
    (hroot : row.supersedesLineId = none) (hfresh : ∀ other ∈ before.lines, other.id ≠ row.id)
    (hfirst : ∀ other ∈ before.lines, other.supersedesLineId = none → other.poId = row.poId →
      other.lineNumber ≠ row.lineNumber) :
    Authored { before with lines := before.lines ++ [row] } where
  orderIds := h.orderIds
  lineIds := h.lineIds.concat hfresh
  statuses := h.statuses
  owned line hline := by
    rcases List.mem_append.mp hline with hline | hline
    · exact h.owned line hline
    · obtain ⟨order, horder, hid, -⟩ := hdraft
      exact ⟨order, horder, List.mem_singleton.mp hline ▸ hid⟩
  roots line hline hown := by
    rcases List.mem_append.mp hline with hline | hline
    · exact h.roots line hline hown
    · exact List.mem_singleton.mp hline ▸ hroot
  lineages poId number := by
    rw [versions_concat]
    split
    next hrow =>
      -- Every other line of the draft is a root, and none has this number.
      obtain ⟨rfl, rfl⟩ := hrow
      have hnone : before.versions row.poId row.lineNumber = [] := by
        refine List.filter_eq_nil_iff.mpr fun other hother hsame => ?_
        obtain ⟨hpo, hnumber⟩ := of_decide_eq_true hsame
        exact hfirst other hother (h.roots other hother (hpo ▸ hdraft)) hpo hnumber
      rw [hnone]
      exact singleChain_singleton hroot
    next => exact h.lineages poId number

theorem successorAdded {row prior : LineRow} (hissued : HasOrder before.orders row.poId .issued)
    (hprior : prior ∈ before.lines) (hnames : row.supersedesLineId = some prior.id)
    (hpo : prior.poId = row.poId) (hnumber : prior.lineNumber = row.lineNumber)
    (hfresh : ∀ other ∈ before.lines, other.id ≠ row.id)
    (hunnamed : ∀ other ∈ before.lines, other.supersedesLineId ≠ some prior.id) :
    Authored { before with lines := before.lines ++ [row] } where
  orderIds := h.orderIds
  lineIds := h.lineIds.concat hfresh
  statuses := h.statuses
  owned line hline := by
    rcases List.mem_append.mp hline with hline | hline
    · exact h.owned line hline
    · obtain ⟨order, horder, hid, -⟩ := hissued
      exact ⟨order, horder, List.mem_singleton.mp hline ▸ hid⟩
  roots line hline hown := by
    rcases List.mem_append.mp hline with hline | hline
    · exact h.roots line hline hown
    · rw [List.mem_singleton.mp hline] at hown
      exact absurd (h.status_eq hown hissued) (by decide)
  lineages poId number := by
    rw [versions_concat]
    split
    next hrow =>
      obtain ⟨rfl, rfl⟩ := hrow
      refine (h.lineages row.poId row.lineNumber).concat (mem_versions.mpr ⟨hprior, hpo, hnumber⟩)
        (fun other hother => hunnamed other (mem_versions.mp hother).1) hnames
    next => exact h.lineages poId number

theorem linesEdited {lines : List LineRow}
    (hedits : List.Forall₂ (fun old new => new = old ∨
      HasOrder before.orders old.poId .draft ∧ SameLine old new) before.lines lines) :
    Authored { before with lines } := by
  have hsame : List.Forall₂ SameLine before.lines lines := by
    refine hedits.imp fun old new hedit => ?_
    rcases hedit with rfl | ⟨-, hedit⟩
    · exact ⟨rfl, rfl, rfl, rfl, rfl, rfl, rfl⟩
    · exact hedit
  have hids : lines.map (fun line : LineRow => line.id) =
      before.lines.map fun line : LineRow => line.id := by
    symm
    rw [← List.forall₂_eq_eq_eq, List.forall₂_map_left_iff, List.forall₂_map_right_iff]
    exact hsame.imp fun old new hedit => hedit.id.symm
  have hback : ∀ new ∈ lines, ∃ old ∈ before.lines, SameLine old new := by
    intro new hnew
    obtain ⟨i, hi, rfl⟩ := List.getElem_of_mem hnew
    have hlength := hsame.length_eq
    exact ⟨before.lines[i], List.getElem_mem _, (List.forall₂_iff_get.mp hsame).2 i (by omega) hi⟩
  refine ⟨h.orderIds, ?_, h.statuses, fun new hnew => ?_, fun new hnew hown => ?_,
    fun poId number => ?_⟩
  · rw [Distinct, hids]
    exact h.lineIds
  · obtain ⟨old, hold, hedit⟩ := hback new hnew
    rw [hedit.poId]
    exact h.owned old hold
  · obtain ⟨old, hold, hedit⟩ := hback new hnew
    rw [hedit.prior]
    exact h.roots old hold (hedit.poId ▸ hown)
  · refine (h.lineages poId number).of_forall₂ ?_
    have hfiltered : List.Forall₂ SameLine (before.versions poId number)
        (versions { before with lines } poId number) := by
      refine List.rel_filter (fun old new hedit => ?_) hsame
      simp [hedit.poId, hedit.number]
    exact hfiltered.imp fun old new hedit => ⟨hedit.id, hedit.prior⟩

theorem linesRemoved {removed : LineRow → Bool}
    (hdrafts : ∀ line ∈ before.lines, removed line = true →
      HasOrder before.orders line.poId .draft) :
    Authored { before with lines := before.lines.filter fun line => !removed line } where
  orderIds := h.orderIds
  lineIds := h.lineIds.filter _
  statuses := h.statuses
  owned line hline := h.owned line (List.mem_filter.mp hline).1
  roots line hline := h.roots line (List.mem_filter.mp hline).1
  lineages poId number := by
    have hversions : versions { before with lines := before.lines.filter fun line => !removed line }
        poId number = (before.versions poId number).filter fun line => !removed line := by
      simp only [versions, List.filter_filter, Bool.and_comm]
    rw [hversions]
    by_cases hnone : ∀ line ∈ before.versions poId number, removed line = false
    · rw [List.filter_eq_self.mpr fun line hline => by rw [hnone line hline]; rfl]
      exact h.lineages poId number
    · -- The order is a draft, so that the number has no other version.
      push Not at hnone
      obtain ⟨line, hline, hremoved⟩ := hnone
      have hline' := mem_versions.mp hline
      have hdraft := hdrafts line hline'.1 (by simpa using hremoved)
      rw [hline'.2.1] at hdraft
      have hempty : (before.versions poId number).filter (fun line => !removed line) = [] := by
        refine List.filter_eq_nil_iff.mpr fun other hother hkept => ?_
        have hroots : ∀ row ∈ before.versions poId number, row.supersedesLineId = none := by
          intro row hrow
          have hrow := mem_versions.mp hrow
          exact h.roots row hrow.1 (hrow.2.1 ▸ hdraft)
        rw [(h.lineages poId number).eq_of_roots hroots hother hline] at hkept
        simp [hremoved] at hkept
      rw [hempty]
      exact singleChain_nil

/-- Every alteration keeps the tables authored. -/
theorem alters {after : Procurement} (halters : Alters before after) : after.Authored := by
  cases halters with
  | orderAdded draft fresh => exact h.orderAdded draft fresh
  | ordersEdited edits => exact h.ordersEdited edits
  | ordersRemoved drafts unused => exact h.ordersRemoved unused
  | rootAdded draft root fresh first => exact h.rootAdded draft root fresh first
  | successorAdded issued hprior names poId number fresh unnamed =>
      exact h.successorAdded issued hprior names poId number fresh unnamed
  | linesEdited edits => exact h.linesEdited edits
  | linesRemoved drafts => exact h.linesRemoved drafts

theorem alterations {after : Procurement} (hmany : ReflTransGen Alters before after) :
    after.Authored := by
  induction hmany with
  | refl => exact h
  | tail _ halters ih => exact ih.alters halters

end Authored

theorem authored_run (requests : List (ProcurementContext × ProcurementCall))
    {tables : Procurement} (h : tables.Authored) : (Machine.run step requests tables).Authored :=
  Machine.run_invariant step Authored (fun _ => True)
    (fun _ _ _ _ hstep hbefore => hbefore.alterations (step_alters hstep)) requests tables
    (fun _ _ => trivial) h

end Procurement

end FleetOps
