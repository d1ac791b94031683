import FleetOps.Audit.Lineage
import FleetOps.Receiving.Creation
import FleetOps.Receiving.NewUnits

/-!
# Both readers agree

`RecordsNamed` is about the corrections of one table, `AssetNamed` about one Asset:
the listing of each history and `asset_history` say of every reversal that it
cancels the row that was in force just before it, and of no other row that it
cancels one.

The tables that receiving reaches from nothing are made of pairs
(`Tenant.Audited`), so there both hold (`cancelledRows`).
-/

namespace FleetOps

open Amendment Keys

/-! ## Listings -/

section

variable {φ : Type} {corrections : List (RecordCorrection φ)}
  {cancels : RecordCorrection φ → Option Uuid}

/-- The listing of each record of a table names what its reversals cancel. -/
structure RecordsNamed (corrections : List (RecordCorrection φ))
    (cancels : RecordCorrection φ → Option Uuid) : Prop where
  named : ∀ root, NamesCancelled (recordView root) (fun _ => ()) (recordAudit root)
    (recordRows root corrections) fun row => row.bind cancels
  listed : ∀ root, (recordHistory corrections root).Perm
    ((corrections.filter (·.rootId = root)).map fun c => (c.audit, cancels c))

theorem mem_recordRows {root : Uuid} {row : Option (RecordCorrection φ)} :
    row ∈ recordRows root corrections ↔
      row = none ∨ ∃ c ∈ corrections, c.rootId = root ∧ some c = row := by
  simp [recordRows, and_assoc]

/-- `audit_rows` of a list with the replacements of a record. -/
theorem namesSucceeded_record {listed : List AuditColumns} (root : Uuid)
    (honce : ReplacedOnce listed)
    (hlisted : ∀ c ∈ corrections, c.rootId = root → c.audit ∈ listed) :
    NamesSucceeded (recordAudit root) (recordRows root corrections) fun row =>
      row.bind fun c => cancelsHistoryId (correctedIds listed) c.audit := by
  have hreader : NamesSucceeded (recordAudit root) (recordRows root corrections) fun row =>
      cancelsHistoryId (correctedIds listed) (recordAudit root row) := by
    refine namesSucceeded_auditRows honce fun row hrow hrole => ?_
    rcases mem_recordRows.mp hrow with rfl | ⟨c, hc, hroot, rfl⟩
    · simp [recordAudit] at hrole
    · exact hlisted c hc hroot
  have hsame : (fun row : Option (RecordCorrection φ) =>
      row.bind fun c => cancelsHistoryId (correctedIds listed) c.audit) =
        fun row => cancelsHistoryId (correctedIds listed) (recordAudit root row) := by
    funext row
    cases row <;> rfl
  rw [hsame]
  exact hreader

/-- The listings of a table that is made of pairs. -/
theorem recordsNamed (h : ∀ root, PairedGenerations root corrections) :
    RecordsNamed corrections fun c =>
      cancelsHistoryId (correctedIds (corrections.map RecordCorrection.audit)) c.audit := by
  have honce := replacedOnce_corrections h
  have hnamed : ∀ root, NamesCancelled (recordView root) (fun _ => ()) (recordAudit root)
      (recordRows root corrections) fun row => row.bind fun c =>
        cancelsHistoryId (correctedIds (corrections.map RecordCorrection.audit)) c.audit := by
    intro root
    obtain ⟨entry, hrows, haudited⟩ := h root
    have hreader := namesSucceeded_record root honce fun c (hc : c ∈ corrections) _ =>
      List.mem_map_of_mem hc
    have hone : rowsOf [entry] = recordRows root corrections := by
      rw [rowsOf_cons, rowsOf_nil, List.append_nil, hrows]
    rw [← hone] at hreader ⊢
    refine hreader.namesCancelled (lineal_record hrows haudited) fun other hother => ?_
    rw [List.mem_singleton.mp hother]
    exact haudited
  refine ⟨hnamed, fun root => ?_⟩
  have hsorted := List.perm_insertionSort RecordCorrection.follows
    (corrections.filter (·.rootId = root))
  have hlisting : NamesSucceeded (recordAudit root) (recordRows root corrections) fun row =>
      row.bind fun c => cancelsHistoryId (correctedIds
        (((corrections.filter (·.rootId = root)).insertionSort RecordCorrection.follows).map
          RecordCorrection.audit)) c.audit := by
    refine namesSucceeded_record root (honce.of_subset ?_) fun c hc hroot => ?_
    · exact List.map_subset _ fun c hc => List.mem_of_mem_filter (hsorted.subset hc)
    · refine List.mem_map_of_mem (hsorted.mem_iff.mpr ?_)
      exact List.mem_filter.mpr ⟨hc, by simpa using hroot⟩
  have hagree := hlisting.agrees (hnamed root)
  unfold recordHistory auditRows
  rw [List.map_id, List.map_map]
  refine (hsorted.map _).trans (List.Perm.of_eq (List.map_congr_left fun c hc => ?_))
  obtain ⟨hmem, hroot⟩ := List.mem_filter.mp hc
  exact congrArg (Prod.mk c.audit)
    (hagree (some c) (mem_recordRows.mpr (.inr ⟨c, hmem, of_decide_eq_true hroot, rfl⟩)))

end

/-! ## `asset_history` -/

section

variable {tenant : Tenant} {others : List OtherEvent} {asset : Uuid}

/-- The entries of a kind, with what they are said to cancel, are the rows of it. -/
theorem filter_entries {ρ : Type} {events entries : List HistoryEntry} {kind : HistoryKind}
    {rows : List ρ} {toEntry : ρ → HistoryEntry} {name : HistoryEntry → Option Uuid}
    {cancels : ρ → Option Uuid} (hperm : entries.Perm events)
    (hevents : events.filter (·.kind = kind) = rows.map toEntry)
    (hcancels : ∀ row ∈ rows, name (toEntry row) = cancels row) :
    ((entries.map fun entry => (entry, name entry)).filter (·.1.kind = kind)).Perm
      (rows.map fun row => (toEntry row, cancels row)) := by
  rw [List.filter_map]
  have hkind : (entries.filter ((fun entry : HistoryEntry × Option Uuid =>
      decide (entry.1.kind = kind)) ∘ fun entry => (entry, name entry))).Perm
        (rows.map toEntry) := by
    rw [← hevents]
    exact hperm.filter _
  refine (hkind.map _).trans (List.Perm.of_eq ?_)
  rw [List.map_map]
  exact List.map_congr_left fun row hrow => congrArg (Prod.mk _) (hcancels row hrow)

/-- The entries of a kind show its rows. -/
theorem shown_entries {ρ : Type} {events entries : List HistoryEntry} {kind : HistoryKind}
    {rows : List ρ} {toEntry : ρ → HistoryEntry} {audit : ρ → AuditColumns}
    (hperm : entries.Perm events) (hevents : events.filter (·.kind = kind) = rows.map toEntry)
    (hshows : ∀ row, (toEntry row).Shows kind (audit row)) :
    Shown kind (rows.map audit) entries := by
  have hmem : ∀ entry : HistoryEntry, entry ∈ entries ∧ entry.kind = kind ↔
      ∃ row ∈ rows, toEntry row = entry := by
    intro entry
    rw [hperm.mem_iff, ← List.mem_map, ← hevents]
    simp
  constructor
  case shows =>
    intro row hrow
    obtain ⟨source, hsource, rfl⟩ := List.mem_map.mp hrow
    exact ⟨toEntry source, ((hmem _).mpr ⟨source, hsource, rfl⟩).1, hshows source⟩
  case shown =>
    intro entry hentry hkind
    obtain ⟨source, hsource, rfl⟩ := (hmem entry).mp ⟨hentry, hkind⟩
    exact ⟨audit source, List.mem_map_of_mem hsource, hshows source⟩

theorem shows_ofHistory {k : HistoryClass} (row : HistoryRow (Fact k)) :
    (HistoryEntry.ofHistory k row).Shows (.ofClass k) row.audit := by
  refine ⟨rfl, rfl, rfl, rfl, ?_⟩
  cases hroot : row.root <;>
    simp [HistoryEntry.ofHistory, HistoryFacts.root, HistoryRow.audit, hroot]

theorem shows_ofReceiptCorrection (row : RecordCorrection LineFields) :
    (HistoryEntry.ofReceiptCorrection row).Shows .receiptCorrection row.audit :=
  ⟨rfl, rfl, rfl, rfl, rfl⟩

theorem shows_ofProcurementCorrection (row : RecordCorrection PurchaseOrderFields) :
    (HistoryEntry.ofProcurementCorrection row).Shows .procurementCorrection row.audit :=
  ⟨rfl, rfl, rfl, rfl, rfl⟩

/-- Rows of one kind are all kept, or none. -/
theorem filter_kind {ρ : Type} {toEntry : ρ → HistoryEntry} {own : HistoryKind}
    (hown : ∀ row, (toEntry row).kind = own) (rows : List ρ) (kind : HistoryKind) :
    (rows.map toEntry).filter (·.kind = kind) = if own = kind then rows.map toEntry else [] := by
  by_cases hkind : own = kind
  · rw [if_pos hkind]
    exact List.filter_eq_self.mpr fun entry hentry => by
      obtain ⟨row, -, rfl⟩ := List.mem_map.mp hentry
      simpa [hown row] using hkind
  · rw [if_neg hkind]
    exact List.filter_eq_nil_iff.mpr fun entry hentry => by
      obtain ⟨row, -, rfl⟩ := List.mem_map.mp hentry
      simpa [hown row] using hkind

/-- The entries of a branch with correction columns are the rows of its table. -/
theorem filter_assetEvents (kind : HistoryKind) (hkind : ∀ branch, kind ≠ .other branch) :
    (tenant.assetEvents others asset).filter (·.kind = kind) =
      (HistoryClass.all.flatMap fun k => if .ofClass k = kind then
        (tenant.tables.rowsFor k asset).map (HistoryEntry.ofHistory k) else []) ++
      (if .receiptCorrection = kind then
        (tenant.unitCorrections asset).map HistoryEntry.ofReceiptCorrection else []) ++
      (if .procurementCorrection = kind then
        (tenant.unitProcurementCorrections asset).map HistoryEntry.ofProcurementCorrection
        else []) := by
  have hother : (others.map HistoryEntry.ofOther).filter (·.kind = kind) = [] :=
    List.filter_eq_nil_iff.mpr fun entry hentry heq => by
      obtain ⟨event, -, rfl⟩ := List.mem_map.mp hentry
      exact hkind event.branch (of_decide_eq_true heq).symm
  have hclass := fun k => filter_kind (fun row => (shows_ofHistory row).kind)
    (tenant.tables.rowsFor k asset) kind
  unfold Tenant.assetEvents
  rw [List.filter_append, List.filter_append, List.filter_append, List.filter_flatMap, hother,
    List.append_nil, filter_kind fun row => (shows_ofReceiptCorrection row).kind,
    filter_kind fun row => (shows_ofProcurementCorrection row).kind]
  simp only [hclass]

theorem filter_ofClass (k : HistoryClass) : (tenant.assetEvents others asset).filter
    (·.kind = .ofClass k) = (tenant.tables.rowsFor k asset).map (HistoryEntry.ofHistory k) := by
  rw [filter_assetEvents _ fun branch => HistoryKind.noConfusion]
  cases k <;> simp [HistoryClass.all]

theorem filter_receiptCorrection : (tenant.assetEvents others asset).filter
    (·.kind = .receiptCorrection) =
      (tenant.unitCorrections asset).map HistoryEntry.ofReceiptCorrection := by
  rw [filter_assetEvents _ fun branch => HistoryKind.noConfusion]
  simp [HistoryClass.all]

theorem filter_procurementCorrection : (tenant.assetEvents others asset).filter
    (·.kind = .procurementCorrection) =
      (tenant.unitProcurementCorrections asset).map HistoryEntry.ofProcurementCorrection := by
  rw [filter_assetEvents _ fun branch => HistoryKind.noConfusion]
  simp [HistoryClass.all]

/-- Of one Asset, each history's listing and `asset_history` name the same. -/
structure AssetNamed (others : List OtherEvent) (tenant : Tenant) (asset : Uuid)
    (lines : RecordCorrection LineFields → Option Uuid)
    (orders : RecordCorrection PurchaseOrderFields → Option Uuid)
    (classes : (k : HistoryClass) → HistoryRow (Fact k) → Option Uuid)
    (entries : List (HistoryEntry × Option Uuid)) : Prop where
  history : assetHistory others asset tenant = .ok entries
  named : ∀ k, NamesCancelled effective HistoryRow.rootId HistoryRow.audit
    (tenant.tables.rowsFor k asset) (classes k)
  listed : ∀ k, listHistory tenant.tables k asset =
    .ok ((tenant.tables.rowsFor k asset).map fun row => (row.audit, classes k row))
  ofClass : ∀ k, (entries.filter (·.1.kind = .ofClass k)).Perm
    ((tenant.tables.rowsFor k asset).map fun row => (.ofHistory k row, classes k row))
  receiptCorrections : (entries.filter (·.1.kind = .receiptCorrection)).Perm
    ((tenant.unitCorrections asset).map fun c => (.ofReceiptCorrection c, lines c))
  procurementCorrections : (entries.filter (·.1.kind = .procurementCorrection)).Perm
    ((tenant.unitProcurementCorrections asset).map fun c => (.ofProcurementCorrection c, orders c))
  others : ∀ entry ∈ entries, ∀ branch, entry.1.kind = .other branch → entry.2 = none

/-- A correction in `asset_history`, with all the corrections of its record. -/
theorem cancelsEntryId_correction {φ : Type} {corrections shown : List (RecordCorrection φ)}
    {cancels : RecordCorrection φ → Option Uuid} {kind : HistoryKind}
    {toEntry : RecordCorrection φ → HistoryEntry} {entries : List HistoryEntry}
    (hpaired : ∀ root, PairedGenerations root corrections)
    (hnamed : RecordsNamed corrections cancels) (hsubset : shown ⊆ corrections)
    (hwhole : ∀ c ∈ shown, ∀ d ∈ corrections, d.rootId = c.rootId → d ∈ shown)
    (hshown : Shown kind (shown.map RecordCorrection.audit) entries)
    (hshows : ∀ c, (toEntry c).Shows kind c.audit) :
    ∀ c ∈ shown, cancelsEntryId (historyCorrections entries) (toEntry c) = cancels c := by
  intro c hc
  have hreader : NamesSucceeded (recordAudit c.rootId) (recordRows c.rootId corrections) fun row =>
      row.bind fun d => cancelsEntryId (historyCorrections entries) (toEntry d) := by
    refine namesSucceeded_assetHistory hshown
      ((replacedOnce_corrections hpaired).of_subset (List.map_subset _ hsubset)) ?_ ?_ ?_
    · intro row hrow hrole
      rcases mem_recordRows.mp hrow with rfl | ⟨d, hd, hroot, rfl⟩
      · simp [recordAudit] at hrole
      · exact List.mem_map_of_mem (hwhole c hc d hd hroot)
    · intro row hrow hrole
      rcases mem_recordRows.mp hrow with rfl | ⟨d, hd, hroot, rfl⟩
      · simp [recordAudit] at hrole
      · exact ⟨toEntry d, hshows d, rfl⟩
    · intro row hrow hrole
      rcases mem_recordRows.mp hrow with rfl | ⟨d, hd, hroot, rfl⟩
      · rfl
      · refine cancelsEntryId_of_ne fun hreversal => hrole ?_
        rw [(hshows d).role] at hreversal
        exact Option.some.inj hreversal
  exact hreader.agrees (hnamed.named c.rootId) (some c)
    (mem_recordRows.mpr (.inr ⟨c, hsubset hc, rfl, rfl⟩))

/-- An Asset with well formed histories, among records that are corrected in pairs. -/
theorem assetNamed {lines : RecordCorrection LineFields → Option Uuid}
    {orders : RecordCorrection PurchaseOrderFields → Option Uuid}
    (hfound : ∃ row, tenant.tables.assets.find? (·.id = asset) = some row)
    (hclasses : ∀ k, ∃ baseline entries, ClassHistory tenant.tables k asset baseline entries)
    (hlinePairs : ∀ root, PairedGenerations root tenant.lineCorrections)
    (hlines : RecordsNamed tenant.lineCorrections lines)
    (horderPairs : ∀ root, PairedGenerations root tenant.purchaseOrderLineCorrections)
    (horders : RecordsNamed tenant.purchaseOrderLineCorrections orders) :
    ∃ classes entries, AssetNamed others tenant asset lines orders classes entries := by
  obtain ⟨found, hfound⟩ := hfound
  let listed (k : HistoryClass) := (tenant.tables.rowsFor k asset).map HistoryRow.audit
  let classes (k : HistoryClass) (row : HistoryRow (Fact k)) : Option Uuid :=
    cancelsHistoryId (correctedIds (listed k)) row.audit
  have hrows : ∀ k, ReplacedOnce (listed k) ∧ NamesCancelled effective HistoryRow.rootId
      HistoryRow.audit (tenant.tables.rowsFor k asset) (classes k) := by
    intro k
    obtain ⟨baseline, entries, hclass⟩ := hclasses k
    have haudited : ∀ entry ∈ entries, Audited (entry.map HistoryRow.audit) :=
      fun entry hentry => (hclass.overlay.overlaid entry hentry).audited
    have honce : ReplacedOnce (listed k) := by
      unfold listed
      rw [hclass.rows]
      exact hclass.overlay.replacedOnce
    refine ⟨honce, ?_⟩
    have hreader : NamesSucceeded HistoryRow.audit (tenant.tables.rowsFor k asset) (classes k) :=
      namesSucceeded_auditRows honce fun row hrow _ => List.mem_map_of_mem hrow
    rw [hclass.rows] at hreader ⊢
    exact hreader.namesCancelled hclass.overlay.lineal haudited
  let events := (tenant.assetEvents others asset).mergeSort HistoryEntry.le
  have hperm : events.Perm (tenant.assetEvents others asset) := List.mergeSort_perm ..
  refine ⟨classes, events.map fun entry =>
    (entry, cancelsEntryId (historyCorrections events) entry), ?_⟩
  constructor
  case history =>
    unfold assetHistory Service.fetch
    rw [hfound]
    rfl
  case named => exact fun k => (hrows k).2
  case listed =>
    intro k
    obtain ⟨baseline, entries, hclass⟩ := hclasses k
    have hsorted : (tenant.tables.rowsFor k asset).Pairwise fun a b =>
        a.resultVersion ≤ b.resultVersion := by
      rw [hclass.rows]
      exact hclass.ascending.imp fun h => h.le
    unfold listHistory Service.fetch auditRows
    rw [hfound, hsorted.insertionSort_eq, List.map_id, List.map_map]
    rfl
  case ofClass =>
    intro k
    have hshown := shown_entries hperm (filter_ofClass k) shows_ofHistory
    have hreader : NamesSucceeded HistoryRow.audit (tenant.tables.rowsFor k asset) fun row =>
        cancelsEntryId (historyCorrections events) (.ofHistory k row) :=
      namesSucceeded_assetHistory hshown (hrows k).1 (fun row hrow _ => List.mem_map_of_mem hrow)
        (fun row _ _ => ⟨_, shows_ofHistory row, rfl⟩) fun row _ hrole =>
          cancelsEntryId_of_ne fun hreversal => hrole (Option.some.inj hreversal)
    exact filter_entries hperm (filter_ofClass k) (hreader.agrees (hrows k).2)
  case receiptCorrections =>
    refine filter_entries hperm filter_receiptCorrection ?_
    refine cancelsEntryId_correction hlinePairs hlines (fun c hc => List.mem_of_mem_filter hc) ?_
      (shown_entries hperm filter_receiptCorrection shows_ofReceiptCorrection)
      shows_ofReceiptCorrection
    intro c hc d hd hroot
    obtain ⟨-, hunit⟩ := List.mem_filter.mp hc
    exact List.mem_filter.mpr ⟨hd, hroot ▸ hunit⟩
  case procurementCorrections =>
    refine filter_entries hperm filter_procurementCorrection ?_
    refine cancelsEntryId_correction horderPairs horders (fun c hc => List.mem_of_mem_filter hc) ?_
      (shown_entries hperm filter_procurementCorrection shows_ofProcurementCorrection)
      shows_ofProcurementCorrection
    intro c hc d hd hroot
    obtain ⟨-, hunit⟩ := List.mem_filter.mp hc
    exact List.mem_filter.mpr ⟨hd, hroot ▸ hunit⟩
  case others =>
    intro entry hentry branch hkind
    obtain ⟨event, hevent, rfl⟩ := List.mem_map.mp hentry
    refine cancelsEntryId_of_ne ?_
    have hmem := hperm.mem_iff.mp hevent
    simp only [Tenant.assetEvents, List.mem_append, List.mem_flatMap, List.mem_map] at hmem
    rcases hmem with ((⟨k, -, row, -, rfl⟩ | ⟨row, -, rfl⟩) | ⟨row, -, rfl⟩) | ⟨row, -, rfl⟩
    · exact HistoryKind.noConfusion hkind
    · exact HistoryKind.noConfusion hkind
    · exact HistoryKind.noConfusion hkind
    · simp [HistoryEntry.ofOther]

end

/-! ## Assets -/

section

variable {tables after : AssetTables}

/-- Every Asset has well formed histories. -/
structure AssetTables.Chronicled (tables : AssetTables) : Prop where
  keyed : tables.Keyed
  histories : ∀ asset ∈ tables.assets, ∃ creation facts entries,
    AssetHistory creation facts tables asset entries

/-- Another unit leaves an Asset's histories alone. -/
theorem AssetHistory.receive_other {creation : HistoryRow AssetState} {facts : InitialFacts}
    {asset : AssetRow} {entries : (k : HistoryClass) → List (Entry (HistoryRow (Fact k)))}
    (h : AssetHistory creation facts tables asset entries) {b : Bundle} (hb : b.Complete)
    (hne : b.asset.id ≠ asset.id) :
    AssetHistory creation facts (tables.receive b) asset entries := by
  have hrows : ∀ k, (tables.receive b).rowsFor k asset.id = tables.rowsFor k asset.id :=
    AssetTables.rowsFor_receive_other hb hne
  refine ⟨?_, ?_, ?_, fun k => ?_, h.projections, h.creation⟩
  · unfold AssetTables.receive
    rw [List.find?_append, h.found, Option.some_or]
  · have hinitial := h.initial
    unfold AssetTables.initialFacts? at hinitial ⊢
    unfold AssetTables.receive
    rw [List.find?_append, hinitial, Option.some_or]
  · unfold AssetTables.versionsFor
    simp only [hrows]
    exact h.versions
  · obtain ⟨hk, hoverlay, hnumbered, hascending, hchained⟩ := h.classes k
    exact ⟨(hrows k).trans hk, hoverlay, hnumbered, hascending, hchained⟩

theorem keptByUnits_chronicled : KeptByUnits AssetTables.Chronicled := by
  intro ctx items args receipt owner performer tables after hinsert h
  have hhistory := history_of_insertReceivedAsset h.keyed.referential hinsert
  obtain ⟨hadmitted, rfl⟩ := insertReceivedAsset_eq_ok hinsert
  have hcomplete := args.bundle_complete receipt owner performer ctx.session.now
  have hnew : ∀ asset ∈ tables.assets, asset.id ≠ args.assetId := hadmitted.asset.fresh
  refine ⟨h.keyed.receive hcomplete hnew hadmitted.identifier.serial, fun asset hasset => ?_⟩
  rcases List.mem_append.mp hasset with hold | hself
  · obtain ⟨creation, facts, entries, hentries⟩ := h.histories asset hold
    exact ⟨creation, facts, entries, hentries.receive_other hcomplete (hnew asset hold).symm⟩
  · obtain rfl := List.mem_singleton.mp hself
    exact ⟨_, _, _, hhistory⟩

theorem AssetTables.Chronicled.perform (h : tables.Chronicled) {request : Context × Call}
    (hrun : perform request tables = .ok after) : after.Chronicled := by
  have hkeyed := h.keyed.perform hrun
  refine ⟨hkeyed, fun asset hasset => ?_⟩
  have hids : after.assets.map AssetRow.id = tables.assets.map AssetRow.id := by
    obtain ⟨k, rows, updated, rfl, -, -⟩ := perform_record hrun
    exact tables.ids_record rows updated
  have hid : asset.id ∈ tables.assets.map AssetRow.id := hids ▸ List.mem_map_of_mem hasset
  obtain ⟨before, hbefore, hsame⟩ := List.mem_map.mp hid
  obtain ⟨creation, facts, entries, hentries⟩ := h.histories before hbefore
  obtain ⟨updated, fresh, hupdated, hhistory, -⟩ := hentries.perform hrun
  have hmem := List.mem_of_find?_eq_some hhistory.found
  obtain rfl := hkeyed.assets.eq hmem hasset (hupdated.trans hsame)
  exact ⟨creation, facts, fresh, hhistory⟩

end

/-! ## Runs -/

/-- What the readers rely on. -/
structure Tenant.Audited (t : Tenant) : Prop where
  integrity : t.Integrity
  tables : t.tables.Chronicled
  lines : ∀ root, PairedGenerations root t.lineCorrections
  orders : ∀ root, PairedGenerations root t.purchaseOrderLineCorrections

section

variable {ctx : Context} {t t' : Tenant}

theorem Tenant.Audited.kept (h : t.Audited) (hintegrity : t'.Integrity)
    (hkept : Kept AssetTables.Chronicled t t') : t'.Audited :=
  ⟨hintegrity, hkept.tables h.tables, hkept.lineCorrections ▸ h.lines,
    hkept.orderCorrections ▸ h.orders⟩

/-- An accepted correction of a purchase order line is of the next generation. -/
theorem insertPurchaseOrderLineCorrection_stored
    {row row' : RecordCorrection PurchaseOrderFields}
    (h : insertPurchaseOrderLineCorrection ctx row t = .ok (row', t')) :
    (row'.role = row.role ∧ row'.rootId = row.rootId ∧ row'.generation = row.generation) ∧
      row.generation = Tenant.generation t.purchaseOrderLineCorrections row.rootId + 1 := by
  simp only [insertPurchaseOrderLineCorrection, guardPurchaseOrderLineCorrection, bind_eq_ok,
    require_eq_ok, demand_eq_ok, pure_eq_ok, exists_unit, Prod.mk.injEq] at h
  obtain ⟨_, ⟨actor, -, original, -, -, -, -, hguard⟩, -, -, -, -, rfl, rfl⟩ := h
  obtain ⟨hgeneration, -, rfl⟩ := guardGeneration_eq_ok hguard
  exact ⟨⟨rfl, rfl, rfl⟩, hgeneration⟩

/-- `correct_procurement` writes a pair of the next generation. -/
theorem correctProcurement_pair {po root : Uuid} {values : ProcurementCorrection} {keys : PairKeys}
    {result : RecordCorrection PurchaseOrderFields}
    (h : Service.correctProcurement ctx po root values keys t = .ok (result, t')) :
    ∃ reversal corrected : RecordCorrection PurchaseOrderFields,
      (reversal.role = .reversal ∧ corrected.role = .corrected) ∧
      reversal.rootId = corrected.rootId ∧
      (reversal.generation =
          Tenant.generation t.purchaseOrderLineCorrections corrected.rootId + 1 ∧
        corrected.generation =
          Tenant.generation t.purchaseOrderLineCorrections corrected.rootId + 1) ∧
      t' = { t with
        purchaseOrderLineCorrections :=
          t.purchaseOrderLineCorrections ++ [reversal, corrected] } := by
  obtain ⟨row, row', _, _, hpair⟩ := correctProcurement_stages h
  obtain ⟨⟨hrole, hroot, hfirst⟩, hnext⟩ := insertPurchaseOrderLineCorrection_stored hpair.reversal
  obtain ⟨⟨hrole', hroot', hsecond⟩, -⟩ := insertPurchaseOrderLineCorrection_stored hpair.corrected
  obtain ⟨-, -, -, hmiddle⟩ := insertPurchaseOrderLineCorrection_eq_ok hpair.reversal
  obtain ⟨-, -, -, hafter⟩ := insertPurchaseOrderLineCorrection_eq_ok hpair.corrected
  have hsame : row.rootId = row'.rootId := hpair.roots.1.trans hpair.roots.2.symm
  have hboth : row.generation = row'.generation := hpair.generations.1.trans hpair.generations.2.symm
  refine ⟨_, _, ⟨hrole.trans hpair.roles.1, hrole'.trans hpair.roles.2⟩,
    (hroot.trans hsame).trans hroot'.symm, ⟨?_, ?_⟩, ?_⟩
  · rw [hroot', hfirst, ← hsame]
    exact hnext
  · rw [hroot', hsecond, ← hsame, ← hboth]
    exact hnext
  · rw [hafter, hmiddle]
    simp

/-- Every request keeps what the readers rely on. -/
theorem Tenant.Audited.step {posixSpace : Char → Bool} {request : Context × ReceivingCall}
    (h : t.Audited) (hrun : Tenant.step posixSpace request t = .ok t') : t'.Audited := by
  have hintegrity := (step_on 0 h.integrity hrun).1
  obtain ⟨ctx, call⟩ := request
  cases call with
  | createReceipt values keys =>
      simp only [Tenant.step, bind_eq_ok, pure_eq_ok] at hrun
      obtain ⟨⟨_, _⟩, hrun, rfl⟩ := hrun
      exact h.kept hintegrity (createReceipt_kept keptByUnits_chronicled h.integrity hrun)
  | addLine receiptId values keys =>
      simp only [Tenant.step, bind_eq_ok, pure_eq_ok] at hrun
      obtain ⟨⟨_, _⟩, hrun, rfl⟩ := hrun
      exact h.kept hintegrity (addLine_kept keptByUnits_chronicled h.integrity hrun)
  | receiveScan receiptId values reconcile keys =>
      simp only [Tenant.step, bind_eq_ok, pure_eq_ok] at hrun
      obtain ⟨⟨_, _⟩, hrun, rfl⟩ := hrun
      exact h.kept hintegrity (receiveScan_kept keptByUnits_chronicled h.integrity hrun)
  | reconcileReceipt receiptId keys =>
      simp only [Tenant.step, bind_eq_ok, pure_eq_ok] at hrun
      obtain ⟨⟨_, _⟩, hrun, rfl⟩ := hrun
      exact h.kept hintegrity (reconcileReceipt_kept hrun)
  | correctProcurement poId rootId values keys =>
      simp only [Tenant.step, bind_eq_ok, pure_eq_ok] at hrun
      obtain ⟨⟨_, _⟩, hrun, rfl⟩ := hrun
      obtain ⟨reversal, corrected, hroles, hroots, hgenerations, rfl⟩ :=
        correctProcurement_pair hrun
      exact ⟨hintegrity, h.tables, h.lines,
        fun root => (h.orders root).concat hroles hroots hgenerations⟩
  | correctReceiptLine receiptId rootId values keys =>
      simp only [Tenant.step, bind_eq_ok, pure_eq_ok] at hrun
      obtain ⟨⟨_, _⟩, hrun, rfl⟩ := hrun
      obtain ⟨round, -, -, hbefore, hvalid, hafter, -⟩ := correctReceiptLine_eq_ok h.integrity hrun
      obtain ⟨original, -, replacement, hpaired⟩ := hvalid.paired
      have hmirror : round.reversal.generation = round.corrected.generation := by
        rw [hpaired.mirror]
      rw [round.after_eq, hbefore] at hafter
      rw [hafter] at hintegrity ⊢
      refine ⟨hintegrity, h.tables, fun root => ?_, h.orders⟩
      have hcorrections : round.corrections = t.lineCorrections ++
          [round.reversal, round.corrected] := by
        rw [← hbefore]
        rfl
      have hnext := hvalid.next
      rw [hbefore] at hnext
      change PairedGenerations root round.corrections
      rw [hcorrections]
      exact (h.lines root).concat ⟨hvalid.reversal.1, hvalid.corrected.1⟩ hvalid.reversal.2.2.1
        ⟨hmirror.trans hnext, hnext⟩
  | transitionException exceptionId values eventId =>
      simp only [Tenant.step, bind_eq_ok, pure_eq_ok] at hrun
      obtain ⟨⟨event, _⟩, hrun, rfl⟩ := hrun
      obtain ⟨_, htransition⟩ := transitionException_eq_ok hrun
      rw [htransition.after_eq] at hintegrity ⊢
      exact ⟨hintegrity, h.tables, h.lines, h.orders⟩
  | changeAsset call =>
      simp only [Tenant.step, Service.assetConstraints, bind_eq_ok, Service.translating_eq_ok,
        Service.execute_eq_ok, pure_eq_ok] at hrun
      obtain ⟨tables, hperform, rfl⟩ := hrun
      exact ⟨hintegrity, h.tables.perform hperform, h.lines, h.orders⟩
  | procure catalog =>
      simp only [Tenant.step, bind_eq_ok, Service.ensure_eq_ok, pure_eq_ok, exists_unit] at hrun
      obtain ⟨-, rfl⟩ := hrun
      exact ⟨hintegrity, h.tables, h.lines, h.orders⟩

end

/-- A tenant before anything was received. -/
def Tenant.opened (orgId : Uuid) (catalog : Catalog) : Tenant :=
  ({ tables := { orgId } } : Tenant).withCatalog catalog

theorem Tenant.opened_audited (orgId : Uuid) (catalog : Catalog) :
    (Tenant.opened orgId catalog).Audited := by
  have hfresh : (Tenant.opened orgId catalog).Fresh :=
    ⟨rfl, fun _ hrow => absurd hrow List.not_mem_nil, fun _ hrow => absurd hrow List.not_mem_nil⟩
  refine ⟨hfresh.integrity, ⟨?_, fun _ hrow => absurd hrow List.not_mem_nil⟩, pairedGenerations_nil,
    pairedGenerations_nil⟩
  exact
    { assets := distinct_nil
      serials := distinct_nil
      referential := ⟨fun _ _ hrow => absurd hrow List.not_mem_nil,
        fun _ hrow => absurd hrow List.not_mem_nil⟩
      unassigned := refers_nil
      identifiers := refers_nil }

/-- All readers of a tenant's corrections name the same. -/
structure CancelledRows (others : List OtherEvent) (tenant : Tenant)
    (lines : RecordCorrection LineFields → Option Uuid)
    (orders : RecordCorrection PurchaseOrderFields → Option Uuid) : Prop where
  receiptLines : RecordsNamed tenant.lineCorrections lines
  purchaseOrderLines : RecordsNamed tenant.purchaseOrderLineCorrections orders
  assets : ∀ asset ∈ tenant.tables.assets, ∃ classes entries,
    AssetNamed others tenant asset.id lines orders classes entries

/-- In every state that a tenant reaches, every reader says of every reversal that it cancels the
row that was in force just before it. -/
theorem cancelledRows (posixSpace : Char → Bool) (orgId : Uuid) (catalog : Catalog)
    (requests : List (Context × ReceivingCall)) (others : List OtherEvent) :
    ∃ lines orders, CancelledRows others
      (Machine.run (Tenant.step posixSpace) requests (Tenant.opened orgId catalog))
      lines orders := by
  have haudited := Machine.run_invariant (Tenant.step posixSpace) Tenant.Audited (fun _ => True)
    (fun _ _ _ _ hrun hbefore => hbefore.step hrun) requests (Tenant.opened orgId catalog)
    (fun _ _ => trivial) (Tenant.opened_audited orgId catalog)
  have hlines := recordsNamed haudited.lines
  have horders := recordsNamed haudited.orders
  refine ⟨_, _, hlines, horders, fun asset hasset => ?_⟩
  obtain ⟨creation, facts, entries, hhistory⟩ := haudited.tables.histories asset hasset
  exact assetNamed ⟨asset, hhistory.found⟩ (fun k => ⟨_, _, hhistory.classes k⟩) haudited.lines
    hlines haudited.orders horders

end FleetOps
