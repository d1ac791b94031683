import FleetOps.Audit.Cancelled
import FleetOps.Procurement.Expectations
import FleetOps.Receiving.Ledger

/-!
# Receiving beside procurement

The runs of receiving take procurement as a step that replaces the catalog and that
leaves issued orders and their lines alone.  Here it is authored: one tenant's
procurement and receiving share their orders and lines.  Every run of the two is a run
of receiving (`procuredReceiving`), so that what is proved of receiving holds beside
the real authoring.
-/

namespace FleetOps

open Keys

/-- One tenant's procurement and receiving. -/
structure Site where
  procurement : Procurement
  tenant : Tenant

/-- A request to either. -/
inductive SiteCall
  | author (request : ProcurementContext × ProcurementCall)
  | receive (request : Context × ReceivingCall)

/-- The catalog with the authored orders and lines. -/
def Procurement.catalog (tables : Procurement) (items : List Item) (vendors : List Uuid) :
    Catalog where
  items
  vendors
  purchaseOrders := tables.orderList
  purchaseOrderLines := tables.lineList

/-- The orders that receiving's rows refer to. -/
def Tenant.referencedOrders (tenant : Tenant) : List Uuid :=
  tenant.receipts.filterMap (·.poId) ++ tenant.purchaseOrderLineCorrections.map (·.entityId)

/-- The purchase order lines that receiving's rows refer to. -/
def Tenant.referencedLines (tenant : Tenant) : List Uuid :=
  tenant.comparators.map (·.poLineId) ++ tenant.lines.filterMap (·.fields.poLineId) ++
    tenant.exceptions.filterMap (·.key.poLineId) ++
    tenant.purchaseOrderLineCorrections.map (·.rootId) ++
    tenant.lineCorrections.filterMap (·.fields.poLineId) ++
    tenant.evaluationExpectations.map (·.rootId)

/-- A request to receiving; a catalog is replaced but for what is authored. -/
def ReceivingCall.beside (tables : Procurement) : ReceivingCall → ReceivingCall
  | .procure catalog => .procure (tables.catalog catalog.items catalog.vendors)
  | call => call

/-- One request as one transaction. -/
def Site.step (posixSpace : Char → Bool) (call : SiteCall) (site : Site) : Service Site :=
  match call with
  | .author (ctx, call) => do
      let ctx := { ctx with
        vendors := site.tenant.vendors
        referencedOrders := site.tenant.referencedOrders
        referencedLines := site.tenant.referencedLines
        posixSpace }
      let procurement ← Procurement.step (ctx, call) site.procurement
      let catalog := procurement.catalog site.tenant.items site.tenant.vendors
      pure { procurement, tenant := site.tenant.withCatalog catalog }
  | .receive (ctx, call) => do
      let tenant ← Tenant.step posixSpace (ctx, call.beside site.procurement) site.tenant
      pure { site with tenant }

/-- Nothing is authored and nothing received. -/
def Site.opened (orgId : Uuid) (items : List Item) (vendors : List Uuid) : Site where
  procurement := {}
  tenant := Tenant.opened orgId (Procurement.catalog {} items vendors)

/-- The request to receiving that a committed call is: an authoring call replaces the catalog by the
rows that it left. -/
def receivingRequest (posixSpace : Char → Bool) (commit : Machine.Commit SiteCall Site) :
    Context × ReceivingCall :=
  match commit.action with
  | .author (ctx, _) =>
      ({ session := ctx.session, refs := ⟨[], [], [], [], []⟩, posixSpace },
        .procure (commit.after.procurement.catalog commit.before.tenant.items
          commit.before.tenant.vendors))
  | .receive (ctx, call) => (ctx, call.beside commit.before.procurement)

/-- Both sides read the same orders and lines. -/
structure Site.Shared (site : Site) : Prop where
  orders : site.tenant.purchaseOrders = site.procurement.orderList
  lines : site.tenant.purchaseOrderLines = site.procurement.lineList

section

variable {posixSpace : Char → Bool} {site next : Site}

/-- A request to receiving leaves the orders and lines alone, unless it replaces the catalog. -/
theorem step_procurement {t t' : Tenant} {request : Context × ReceivingCall} (hkeys : t.Integrity)
    (hrun : Tenant.step posixSpace request t = .ok t')
    (hcall : ∀ catalog, request.2 ≠ .procure catalog) :
    t'.purchaseOrders = t.purchaseOrders ∧ t'.purchaseOrderLines = t.purchaseOrderLines := by
  obtain ⟨ctx, call⟩ := request
  cases call with
  | createReceipt values keys =>
      simp only [Tenant.step, bind_eq_ok, pure_eq_ok] at hrun
      obtain ⟨⟨_, _⟩, hrun, rfl⟩ := hrun
      exact (createReceipt_eq_ok hkeys hrun).writes.records.2
  | addLine receiptId values keys =>
      simp only [Tenant.step, bind_eq_ok, pure_eq_ok] at hrun
      obtain ⟨⟨_, _⟩, hrun, rfl⟩ := hrun
      exact (addLine_eq_ok hkeys hrun).writes.records.2
  | receiveScan receiptId values reconcile keys =>
      simp only [Tenant.step, bind_eq_ok, pure_eq_ok] at hrun
      obtain ⟨⟨_, _⟩, hrun, rfl⟩ := hrun
      exact (receiveScan_captured hkeys hrun).writes.records.2
  | reconcileReceipt receiptId keys =>
      simp only [Tenant.step, bind_eq_ok, pure_eq_ok] at hrun
      obtain ⟨⟨_, _⟩, hrun, rfl⟩ := hrun
      exact (reconcileReceipt_eq_ok hkeys hrun).writes.records.2
  | correctProcurement poId rootId values keys =>
      simp only [Tenant.step, bind_eq_ok, pure_eq_ok] at hrun
      obtain ⟨⟨_, _⟩, hrun, rfl⟩ := hrun
      obtain ⟨-, -, horders, hrows, -⟩ := correctProcurement_pairAppended hrun
      exact ⟨horders, hrows⟩
  | correctReceiptLine receiptId rootId values keys =>
      simp only [Tenant.step, bind_eq_ok, pure_eq_ok] at hrun
      obtain ⟨⟨_, _⟩, hrun, rfl⟩ := hrun
      exact (correctReceiptLine_pairAppended hkeys hrun).1.records.2
  | transitionException exceptionId values eventId =>
      simp only [Tenant.step, bind_eq_ok, pure_eq_ok] at hrun
      obtain ⟨⟨event, _⟩, hrun, rfl⟩ := hrun
      obtain ⟨_, htransition⟩ := transitionException_eq_ok hrun
      obtain rfl := htransition.after_eq
      exact ⟨rfl, rfl⟩
  | changeAsset call =>
      simp only [Tenant.step, Service.assetConstraints, bind_eq_ok, Service.translating_eq_ok,
        Service.execute_eq_ok, pure_eq_ok] at hrun
      obtain ⟨tables, -, rfl⟩ := hrun
      exact ⟨rfl, rfl⟩
  | procure catalog => exact absurd rfl (hcall catalog)

/-- What authoring does is what receiving takes it to do. -/
theorem Site.Shared.admits {ctx : ProcurementContext} {call : ProcurementCall}
    {tables : Procurement} (h : site.Shared) (hauthored : site.procurement.Authored)
    (hrun : Procurement.step (ctx, call) site.procurement = .ok tables) (items : List Item)
    (vendors : List Uuid) : site.tenant.admits (tables.catalog items vendors) := by
  have hmany := Procurement.step_alters hrun
  have hfrozen := hauthored.frozen_alterations hmany
  have hids := (hauthored.alterations hmany).lineIds
  constructor
  · intro order horder hissued
    rw [h.orders] at horder
    obtain ⟨row, hrow, rfl⟩ := List.mem_map.mp horder
    have hkept := List.mem_map_of_mem (f := fun row : OrderRow => row.toPurchaseOrder)
      (hfrozen.orders row hrow hissued)
    simp only [Procurement.catalog, List.any_eq_true, decide_eq_true_eq]
    exact ⟨row.toPurchaseOrder, hkept, rfl, hissued⟩
  · intro line hline hissued
    rw [h.lines] at hline
    obtain ⟨row, hrow, rfl⟩ := List.mem_map.mp hline
    have hown : Procurement.HasOrder site.procurement.orders row.poId .issued := by
      simp only [Tenant.issued, h.orders, Procurement.orderList, List.any_map, List.any_eq_true,
        Function.comp_apply, Bool.and_eq_true, beq_iff_eq] at hissued
      obtain ⟨order, horder, hid, hstatus⟩ := hissued
      exact ⟨order, horder, hid, hstatus⟩
    have hkept := hfrozen.lines row hrow hown
    show (tables.lines.map _).find? _ = _
    rw [List.find?_map]
    exact congrArg (Option.map _) (hids.find?_eq hkept rfl)

/-- What stands between the two sides after every step. -/
structure Site.Sound (site : Site) : Prop extends site.Shared where
  authored : site.procurement.Authored
  integrity : site.tenant.Integrity

/-- A step of the site is a step of receiving. -/
theorem Site.Sound.step {call : SiteCall} (h : site.Sound)
    (hrun : Site.step posixSpace call site = .ok next) :
    next.Sound ∧ Tenant.step posixSpace (receivingRequest posixSpace ⟨site, call, next⟩)
      site.tenant = .ok next.tenant := by
  cases call with
  | author request =>
      obtain ⟨ctx, call⟩ := request
      simp only [Site.step, bind_eq_ok, pure_eq_ok] at hrun
      obtain ⟨tables, hrun, rfl⟩ := hrun
      have hadmits := h.toShared.admits h.authored hrun site.tenant.items site.tenant.vendors
      refine ⟨⟨⟨rfl, rfl⟩, h.authored.alterations (Procurement.step_alters hrun),
        h.integrity.withCatalog hadmits⟩, ?_⟩
      -- The step of receiving reads nothing of its context.
      simp only [receivingRequest, Tenant.step, bind_eq_ok, Service.ensure_eq_ok, pure_eq_ok,
        exists_unit, and_true]
      exact hadmits
  | receive request =>
      obtain ⟨ctx, call⟩ := request
      simp only [Site.step, bind_eq_ok, pure_eq_ok] at hrun
      obtain ⟨tenant, hrun, rfl⟩ := hrun
      have hkeys : tenant.Integrity := (step_on 0 h.integrity hrun).1
      refine ⟨⟨?_, h.authored, hkeys⟩, hrun⟩
      by_cases hcall : ∃ catalog, call = .procure catalog
      · obtain ⟨catalog, rfl⟩ := hcall
        simp only [ReceivingCall.beside, Tenant.step, bind_eq_ok, Service.ensure_eq_ok, pure_eq_ok,
          exists_unit] at hrun
        obtain ⟨-, rfl⟩ := hrun
        exact ⟨rfl, rfl⟩
      · have hself : call.beside site.procurement = call := by
          cases call with
          | procure catalog => exact absurd ⟨catalog, rfl⟩ hcall
          | _ => rfl
        rw [hself] at hrun
        obtain ⟨horders, hlines⟩ := step_procurement h.integrity hrun fun catalog heq =>
          hcall ⟨catalog, heq⟩
        exact ⟨horders.trans h.orders, hlines.trans h.lines⟩

end

theorem Site.opened_sound (orgId : Uuid) (items : List Item) (vendors : List Uuid) :
    (Site.opened orgId items vendors).Sound where
  orders := rfl
  lines := rfl
  authored := Procurement.authored_empty
  integrity := (Tenant.opened_audited orgId _).integrity

/-- Every run of authoring and receiving side by side is a run of receiving, of its own calls and of
the catalogs that committed authoring left: no step of authoring does what receiving assumes of
procurement that it never does.  Both sides read the same orders and lines throughout. -/
theorem procuredReceiving (posixSpace : Char → Bool) (orgId : Uuid) (items : List Item)
    (vendors : List Uuid) (calls : List SiteCall) :
    let start := Site.opened orgId items vendors
    let site := Machine.run (Site.step posixSpace) calls start
    let commits := Machine.commits (Site.step posixSpace) calls start
    site.Shared ∧
      Machine.run (Tenant.step posixSpace) (commits.map (receivingRequest posixSpace))
        (Tenant.opened orgId ⟨items, vendors, [], []⟩) = site.tenant ∧
      ∀ commit ∈ commits, Tenant.step posixSpace (receivingRequest posixSpace commit)
        commit.before.tenant = .ok commit.after.tenant := by
  obtain ⟨hsound, hrun, hcommits⟩ := Machine.run_simulated (Site.step posixSpace)
    (Tenant.step posixSpace) Site.tenant (receivingRequest posixSpace) Site.Sound
    (fun _ _ _ hstep h => h.step hstep) calls (Site.opened orgId items vendors)
    (Site.opened_sound orgId items vendors)
  exact ⟨hsound.toShared, hrun, hcommits⟩

end FleetOps
