import FleetOps.Assets.Invariant
import FleetOps.Assets.Lifecycle

/-!
# Lifecycle legality

Lifecycle events come from two services only.  Each checks the event against
the effective event that it follows, and a correction can replace nothing but the
newest assertion, so what an event was checked against stays in force behind it.
Hence legality of the whole lifecycle, amended events included, is kept by every
call (`Registry.step_legal`): `lifecycleLegality`.
-/

namespace FleetOps

open Amendment AssetState

/-! ## The machine -/

/-- The rows of one tenant that lifecycle events refer to, and the Asset tables. -/
structure Registry where
  refs : References
  tables : AssetTables

/-- Rows added to the tenant's reference tables. -/
def References.extend (refs more : References) : References where
  actors := refs.actors ++ more.actors
  parties := refs.parties ++ more.parties
  locations := refs.locations ++ more.locations
  attachments := refs.attachments ++ more.attachments
  attachmentLinks := refs.attachmentLinks ++ more.attachmentLinks

theorem References.Grows.refl (refs : References) : refs.Grows refs :=
  ⟨List.Subset.refl _, List.Subset.refl _, List.Subset.refl _⟩

theorem References.grows_extend (refs more : References) : refs.Grows (refs.extend more) where
  actors := List.subset_append_left ..
  attachments := List.subset_append_left ..
  attachmentLinks := List.subset_append_left ..

/-- A call of a lifecycle service, a call that writes another history, or new reference rows. -/
inductive LifecycleAction
  | transitionAsset (ctx : Context) (storage : Option EvidenceStorage) (assetId : Uuid)
      (values : TransitionValues) (transitionId : Uuid)
  | correctTransition (ctx : Context) (storage : Option EvidenceStorage) (assetId rootId : Uuid)
      (values : TransitionCorrection) (keys : PairKeys)
  | change (ctx : Context) (call : Call) (outside : call.historyClass ≠ .transition)
  | register (more : References)

/-- The commit of a lifecycle event, with the deferred check of its history. -/
def commitTransition (ctx : Context) (assetId : Uuid) (tables : AssetTables) :
    Service AssetTables := do
  Service.execute (checkPairs ctx .transition assetId tables)
  pure tables

/-- One action as one transaction, against the reference rows of its time. -/
def Registry.step (action : LifecycleAction) (state : Registry) : Service Registry :=
  match action with
  | .transitionAsset ctx storage assetId values transitionId => do
      let ctx := { ctx with refs := state.refs }
      let (_, after) ← Service.transitionAsset ctx storage assetId values transitionId state.tables
      let tables ← commitTransition ctx assetId after
      pure { state with tables }
  | .correctTransition ctx storage assetId rootId values keys => do
      let ctx := { ctx with refs := state.refs }
      let (_, after) ← Service.correctTransition ctx storage assetId rootId values keys state.tables
      let tables ← commitTransition ctx assetId after
      pure { state with tables }
  | .change ctx call _ => do
      let ctx := { ctx with refs := state.refs }
      let tables ← Service.assetConstraints (Service.execute (perform (ctx, call) state.tables))
      pure { state with tables }
  | .register more => pure { state with refs := state.refs.extend more }

/-! ## Legal events -/

/-- `later` follows `earlier` along the graph, or leaves a hold for the state it was entered
from. -/
def LegalEdge (earlier later : HistoryRow AssetState) : Prop :=
  ∃ fromState toState, earlier.toFact = some fromState ∧ later.fromFact = some fromState ∧
    later.toFact = some toState ∧
    (toState ∈ lifecycle fromState ∨ fromState = onHold ∧ earlier.fromFact = some toState)

/-- A retirement has valid evidence of disposal. -/
def Evidenced (refs : References) (org assetId : Uuid) (row : HistoryRow AssetState) : Prop :=
  row.toFact = some retired →
    validAssetEvidence refs org row.evidenceRef assetId (some .disposalEvidence) = true

/-- What a lifecycle event may be after the event in force. -/
def LegalStep (refs : References) (org assetId : Uuid) (earlier later : HistoryRow AssetState) :
    Prop :=
  LegalEdge earlier later ∧ Evidenced refs org assetId later

theorem LegalStep.of_grows {before after : References} (hgrows : before.Grows after)
    {org assetId : Uuid} {earlier later : HistoryRow AssetState}
    (h : LegalStep before org assetId earlier later) : LegalStep after org assetId earlier later :=
  ⟨h.1, fun hretired => validAssetEvidence_of_grows hgrows (h.2 hretired)⟩

theorem legalEdge_of_allowed {earlier later : HistoryRow AssetState}
    {fromState toState : AssetState} (hearlier : earlier.toFact = some fromState)
    (hfrom : later.fromFact = some fromState) (hto : later.toFact = some toState)
    (hallowed : toState ∈ allowedStates fromState earlier.fromFact) : LegalEdge earlier later :=
  ⟨fromState, toState, hearlier, hfrom, hto, mem_allowedStates.mp hallowed⟩

/-- The trigger on transitions leaves no retirement without evidence. -/
theorem evidenced_of_guard {refs : References} {org : Uuid} {row : HistoryRow AssetState}
    (hrole : row.role ≠ .reversal) (h : guardAssetEvidence refs org .transition row = .ok ()) :
    Evidenced refs org row.assetId row := by
  intro hretired
  have hpurpose : evidencePurpose row = some .disposalEvidence := by
    simp [evidencePurpose, hretired, hrole]
  simp only [guardAssetEvidence, require_eq_ok, hpurpose] at h
  exact h (.inr rfl)

/-! ## What the services check -/

/-- An accepted `transition_asset` is an accepted call, for a state that the graph allows. -/
theorem allowed_of_transitionAsset {ctx : Context} {storage : Option EvidenceStorage}
    {assetId transitionId : Uuid} {values : TransitionValues} {tables : AssetTables}
    {produced : Produced .transition}
    (h : Service.transitionAsset ctx storage assetId values transitionId tables = .ok produced) :
    FleetOps.transitionAsset ctx (values.args assetId transitionId) tables = .ok produced ∧
      ∀ latest : HistoryRow AssetState,
        latestEffective (tables.history .transition) assetId = some latest →
          values.toState ∈ allowedStates values.fromState latest.fromFact := by
  unfold Service.transitionAsset at h
  by_cases hhold : values.fromState = onHold
  · simp only [hhold, ne_eq, not_true_eq_false, if_false, if_true, bind_eq_ok,
      Service.assetConstraints, Service.translating_eq_ok, Service.execute_eq_ok, Service.fetch_eq_ok,
      Service.ensure_eq_ok, validateEdge] at h
    obtain ⟨-, -, -, -, latest, hlatest, -, -, -, hedge, h⟩ := h
    refine ⟨h, fun other hother => ?_⟩
    rw [hlatest, Option.some.injEq] at hother
    rwa [hhold, ← hother]
  · simp only [hhold, ne_eq, not_false_eq_true, if_true, if_false, bind_eq_ok,
      Service.assetConstraints, Service.translating_eq_ok, Service.execute_eq_ok,
      Service.ensure_eq_ok, validateEdge] at h
    obtain ⟨-, hedge, -, -, h⟩ := h
    refine ⟨h, fun latest _ => ?_⟩
    exact mem_allowedStates.mpr (.inl ((mem_allowedStates.mp hedge).resolve_right (by simp)))

/-- It follows the graph from the effective event. -/
theorem legalEdge_of_transitionAsset {ctx : Context} {storage : Option EvidenceStorage}
    {assetId transitionId : Uuid} {values : TransitionValues} {tables after : AssetTables}
    {row : HistoryRow AssetState}
    (h : Service.transitionAsset ctx storage assetId values transitionId tables =
      .ok (row, after)) :
    ∃ asset, Recorded ctx .transition assetId (some values.expectedVersion) tables asset row after ∧
      ∀ latest, latestEffective (tables.history .transition) asset.id = some latest →
        LegalEdge latest row := by
  obtain ⟨h, hedge⟩ := allowed_of_transitionAsset h
  obtain ⟨⟨asset, hrecorded⟩, hfrom, hto, -⟩ := recorded_of_transitionAsset h
  refine ⟨asset, hrecorded, fun latest hlatest => ?_⟩
  obtain ⟨org, hfound⟩ := hrecorded.found
  have hsource := hrecorded.source
  rw [standingFact, hlatest, hfrom] at hsource
  rw [asset?_id hfound] at hlatest
  exact legalEdge_of_allowed hsource.symm hfrom hto (hedge latest hlatest)

/-- An accepted `correct_transition` follows the graph from the event before the root. -/
theorem legalEdge_of_correctTransition {ctx : Context} {storage : Option EvidenceStorage}
    {assetId rootId : Uuid} {values : TransitionCorrection} {keys : PairKeys}
    {tables after : AssetTables} {row : HistoryRow AssetState}
    (h : Service.correctTransition ctx storage assetId rootId values keys tables =
      .ok (row, after)) :
    ∃ asset original head reversal,
      Amended ctx .transition (values.args assetId rootId keys) tables asset original head reversal
        row after ∧
      ∃ prior, effectiveBefore (tables.history .transition) asset.id original.resultVersion =
        some prior ∧ LegalEdge prior row := by
  simp only [Service.correctTransition, Service.correct, bind_eq_ok, Service.assetConstraints,
    Service.translating_eq_ok, Service.execute_eq_ok, Service.fetch_eq_ok, Service.ensure_eq_ok,
      validateEdge] at h
  obtain ⟨locked, -, -, -, root, hroot, -, -, prior, hprior, fromState, hfrom, -, hedge, -, -, -, -,
    h⟩ := h
  obtain ⟨asset, original, head, reversal, hamended⟩ := amended_of_correctionSql h
  refine ⟨asset, original, head, reversal, hamended, prior, ?_⟩
  obtain ⟨org, hfound⟩ := hamended.found
  have hid : asset.id = assetId := asset?_id hfound
  -- The service and the database function read the same root.
  have horiginal : root = original := by
    have hfind := hamended.original_find
    rw [hid] at hfind
    exact Option.some.inj (hroot.symm.trans hfind)
  rw [hid, ← horiginal]
  refine ⟨hprior, ?_⟩
  obtain ⟨actor, metadata, -, hcorrected⟩ := hamended.rows_eq
  rw [standingBefore, hid, ← horiginal, hprior] at hcorrected
  refine legalEdge_of_allowed hfrom ?_ ?_ hedge
  · rw [hcorrected]
    exact hfrom
  · rw [hcorrected]
    rfl

/-! ## The invariant -/

/-- The lifecycle of an Asset is a creation and legal events after it, amended ones included. -/
def LegalHistory (creation : HistoryRow AssetState) (assetId : Uuid) (state : Registry) : Prop :=
  ∃ facts asset entries rest, asset.id = assetId ∧
    AssetHistory creation facts state.tables asset entries ∧
    entries .transition = Entry.plain creation :: rest ∧
    Follows (LegalStep state.refs state.tables.orgId assetId) (fun row => row) creation rest

section

variable {creation : HistoryRow AssetState} {rest : List (Entry (HistoryRow AssetState))}

/-- The last head of a lifecycle is the event in force. -/
theorem getLast?_lifecycle :
    (Entry.plain creation :: rest).getLast?.map Entry.head =
      some (standing (fun row => row) creation rest) := by
  rw [List.getLast?_cons, standing]
  cases rest.getLast? <;> rfl

variable {facts : InitialFacts} {asset : AssetRow} {state : Registry} {tables : AssetTables}
  {entries : (k : HistoryClass) → List (Entry (HistoryRow (Fact k)))}

/-- A history that an accepted call leaves alone, or writes outside the lifecycle. -/
theorem LegalHistory.of_frame {updated : AssetRow} {refs : References}
    {fresh : (k : HistoryClass) → List (Entry (HistoryRow (Fact k)))}
    (hgrows : state.refs.Grows refs) (horg : tables.orgId = state.tables.orgId)
    (hentries : entries .transition = Entry.plain creation :: rest)
    (hlegal : Follows (LegalStep state.refs state.tables.orgId updated.id) (fun row => row)
      creation rest)
    (hafter : AssetHistory creation facts tables updated fresh)
    (hframe : fresh .transition = entries .transition) :
    LegalHistory creation updated.id ⟨refs, tables⟩ := by
  refine ⟨facts, updated, fresh, rest, rfl, hafter, hframe.trans hentries, ?_⟩
  rw [horg]
  exact hlegal.mono fun _ _ hstep => hstep.of_grows hgrows

end

theorem orgId_of_recorded {ctx : Context} {k : HistoryClass} {assetId : Uuid}
    {expected : Option ℕ} {tables after : AssetTables} {asset : AssetRow}
    {row : HistoryRow (Fact k)}
    (h : Recorded ctx k assetId expected tables asset row after) : after.orgId = tables.orgId := by
  obtain ⟨projected, -, rfl⟩ := h.after_eq
  rfl

theorem orgId_of_amended {ctx : Context} {k : HistoryClass} {args : CorrectionArgs k}
    {tables after : AssetTables} {asset : AssetRow}
    {original head reversal corrected : HistoryRow (Fact k)}
    (h : Amended ctx k args tables asset original head reversal corrected after) :
    after.orgId = tables.orgId := by
  obtain ⟨actor, now, projected, -, rfl⟩ := h.after_eq
  rfl

theorem orgId_of_perform {request : Context × Call} {tables after : AssetTables}
    (h : perform request tables = .ok after) : after.orgId = tables.orgId := by
  obtain ⟨ctx, call⟩ := request
  rcases perform_cases h with ⟨-, asset, row, hrecorded⟩ | ⟨k, args, -, asset, original, head,
    reversal, corrected, hamended⟩
  · exact orgId_of_recorded hrecorded
  · exact orgId_of_amended hamended

/-- An accepted event extends the lifecycle legally. -/
theorem LegalHistory.transitionAsset {creation : HistoryRow AssetState} {id : Uuid}
    {state : Registry} (h : LegalHistory creation id state) {ctx : Context}
    (hrefs : ctx.refs = state.refs) {storage : Option EvidenceStorage} {assetId transitionId : Uuid}
    {values : TransitionValues} {after : AssetTables} {row : HistoryRow AssetState}
    (hcall : Service.transitionAsset ctx storage assetId values transitionId state.tables =
      .ok (row, after)) :
    LegalHistory creation id { state with tables := after } := by
  obtain ⟨facts, asset, entries, rest, rfl, hhistory, hentries, hlegal⟩ := h
  obtain ⟨locked, hrecorded, hedge⟩ := legalEdge_of_transitionAsset hcall
  have horg := orgId_of_recorded hrecorded
  rcases hhistory.of_recorded hrecorded with ⟨rfl, updated, hid, hafter⟩ | hafter
  · refine ⟨facts, updated, _, rest ++ [Entry.plain row], hid, hafter, ?_, ?_⟩
    · rw [Function.update_self, hentries, List.cons_append]
    · rw [horg]
      have hlatest : latestEffective (state.tables.history .transition) locked.id =
          some (standing (fun row => row) creation rest) := by
        rw [(hhistory.classes .transition).latestEffective_eq, hentries, getLast?_lifecycle]
      refine hlegal.concat ⟨hedge _ hlatest, ?_⟩
      rw [← hrefs, ← hrecorded.row_asset]
      refine evidenced_of_guard ?_ hrecorded.evidence
      rw [hrecorded.row_role]
      decide
  · exact LegalHistory.of_frame (.refl _) horg hentries hlegal hafter rfl

/-- An accepted correction amends the lifecycle legally. -/
theorem LegalHistory.correctTransition {creation : HistoryRow AssetState} {id : Uuid}
    {state : Registry} (h : LegalHistory creation id state) {ctx : Context}
    (hrefs : ctx.refs = state.refs) {storage : Option EvidenceStorage} {assetId rootId : Uuid}
    {values : TransitionCorrection} {keys : PairKeys} {after : AssetTables}
    {row : HistoryRow AssetState}
    (hcall : Service.correctTransition ctx storage assetId rootId values keys state.tables =
      .ok (row, after)) :
    LegalHistory creation id { state with tables := after } := by
  obtain ⟨facts, asset, entries, rest, rfl, hhistory, hentries, hlegal⟩ := h
  obtain ⟨locked, original, head, reversal, hamended, prior, hprior, hedge⟩ :=
    legalEdge_of_correctTransition hcall
  have horg := orgId_of_amended hamended
  rcases hhistory.of_amended hamended with ⟨rfl, updated, earlier, last, hid, hsplit, hbefore,
    hafter⟩ | hafter
  · rw [hprior] at hbefore
    cases earlier with
    | nil => simp at hbefore
    | cons first earlier =>
        rw [hentries, List.cons_append, List.cons.injEq] at hsplit
        obtain ⟨rfl, rfl⟩ := hsplit
        rw [getLast?_lifecycle, Option.some.injEq] at hbefore
        refine ⟨facts, updated, _, earlier ++ [last.amend (reversal, row)], hid, hafter, ?_, ?_⟩
        · rw [Function.update_self, List.cons_append]
        · rw [horg]
          refine hlegal.amendLast ⟨hbefore ▸ hedge, ?_⟩
          obtain ⟨actor, metadata, -, hcorrected⟩ := hamended.rows_eq
          have hrole : row.role ≠ .reversal := by
            rw [hcorrected]
            exact fun heq => nomatch heq
          have hasset := hamended.rows_asset row (by simp)
          rw [← hrefs, ← hasset]
          exact evidenced_of_guard hrole hamended.evidence
  · exact LegalHistory.of_frame (.refl _) horg hentries hlegal hafter rfl

/-- Every accepted action keeps the lifecycle of every Asset legal. -/
theorem Registry.step_legal {creation : HistoryRow AssetState} {id : Uuid}
    {action : LifecycleAction} {state next : Registry} (hstep : Registry.step action state = .ok next)
    (h : LegalHistory creation id state) : LegalHistory creation id next := by
  cases action with
  | transitionAsset ctx storage assetId values transitionId =>
      simp only [Registry.step, commitTransition, bind_eq_ok, pure_eq_ok] at hstep
      obtain ⟨⟨row, after⟩, hcall, _, ⟨-, -, rfl⟩, rfl⟩ := hstep
      exact h.transitionAsset rfl hcall
  | correctTransition ctx storage assetId rootId values keys =>
      simp only [Registry.step, commitTransition, bind_eq_ok, pure_eq_ok] at hstep
      obtain ⟨⟨row, after⟩, hcall, _, ⟨-, -, rfl⟩, rfl⟩ := hstep
      exact h.correctTransition rfl hcall
  | change ctx call outside =>
      simp only [Registry.step, Service.assetConstraints, bind_eq_ok, Service.translating_eq_ok,
        Service.execute_eq_ok, pure_eq_ok] at hstep
      obtain ⟨after, hperform, rfl⟩ := hstep
      obtain ⟨facts, asset, entries, rest, rfl, hhistory, hentries, hlegal⟩ := h
      obtain ⟨updated, fresh, hid, hafter, hframe⟩ := hhistory.perform hperform
      have horg := orgId_of_perform hperform
      rw [← hid] at hlegal ⊢
      exact LegalHistory.of_frame (.refl _) horg hentries hlegal hafter (hframe _ outside.symm)
  | register more =>
      simp only [Registry.step, pure_eq_ok] at hstep
      subst hstep
      obtain ⟨facts, asset, entries, rest, rfl, hhistory, hentries, hlegal⟩ := h
      exact LegalHistory.of_frame (state.refs.grows_extend more) rfl hentries hlegal hhistory rfl

/-! ## Legality -/

/-- The lifecycle of an Asset, as its rows show it, is legal. -/
structure LifecycleLegal (creation : HistoryRow AssetState) (state : Registry) (assetId : Uuid) :
    Prop where
  created : (effectiveRows state.tables .transition assetId).head? = some creation
  ordered : (effectiveRows state.tables .transition assetId).Pairwise fun earlier later =>
    earlier.resultVersion < later.resultVersion
  edges : (effectiveRows state.tables .transition assetId).IsChain LegalEdge
  /-- Raw rows too retire the Asset only with evidence; a reversal asserts nothing. -/
  retired : ∀ row ∈ state.tables.rowsFor .transition assetId, row.role ≠ .reversal →
    Evidenced state.refs state.tables.orgId assetId row
  /-- Every correction, superseded or not, follows the event before its root. -/
  corrections : ∀ row ∈ state.tables.rowsFor .transition assetId, row.role = .corrected →
    ∃ root ∈ state.tables.rowsFor .transition assetId, row.root = some root.id ∧
      ∃ prior, effectiveBefore (state.tables.history .transition) assetId root.resultVersion =
        some prior ∧ LegalEdge prior row
  unreported : lifecycleCorrectionIssues state.refs state.tables (some assetId) = [] ∧
    assetId ∉ lifecycleCorrectionIssues state.refs state.tables none

section

variable {creation : HistoryRow AssetState} {facts : InitialFacts} {asset : AssetRow}
  {state : Registry} {entries : (k : HistoryClass) → List (Entry (HistoryRow (Fact k)))}
  {rest : List (Entry (HistoryRow AssetState))}

/-- The rows of a legal lifecycle: the creation, an event or a replacement that is a legal step
from the event before its root, or a reversal. -/
theorem AssetHistory.lifecycle_cases (h : AssetHistory creation facts state.tables asset entries)
    (hentries : entries .transition = Entry.plain creation :: rest)
    (hlegal : Follows (LegalStep state.refs state.tables.orgId asset.id) (fun row => row)
      creation rest)
    {row : HistoryRow AssetState} (hrow : row ∈ state.tables.rowsFor .transition asset.id) :
    row = creation ∨ row.role = .reversal ∨
      ∃ root prior, root ∈ state.tables.rowsFor .transition asset.id ∧ root.role = .none ∧
        (row = root ∨ row.root = some root.id) ∧
        effectiveBefore (state.tables.history .transition) asset.id root.resultVersion =
          some prior ∧
        LegalStep state.refs state.tables.orgId asset.id prior row := by
  have hclass := h.classes .transition
  rw [hclass.rows] at hrow ⊢
  rw [hentries] at hclass hrow ⊢
  rw [rowsOf_cons, Entry.rows_plain, List.singleton_append, List.mem_cons] at hrow
  rcases hrow with rfl | hrow
  · exact .inl rfl
  obtain ⟨entry, hentry, hmem⟩ := mem_rowsOf.mp hrow
  obtain ⟨earlier, later, rfl⟩ := List.append_of_mem hentry
  have hbefore : effectiveBefore (state.tables.history .transition) asset.id
      entry.root.resultVersion = some (standing (fun row => row) creation earlier) := by
    rw [← getLast?_lifecycle]
    exact hclass.effectiveBefore_root
  have hroot : entry.root ∈ rowsOf (Entry.plain creation :: (earlier ++ entry :: later)) :=
    mem_rowsOf.mpr ⟨entry, by simp, entry.root_mem_rows⟩
  have hoverlaid := hclass.overlay.overlaid entry (by simp)
  have hrole := hoverlaid.root_role
  rcases hoverlaid.mem_cases hmem with rfl | hreversal | ⟨hunder, pair, hpair, rfl⟩
  · exact .inr (.inr ⟨_, _, hroot, hrole, .inl rfl, hbefore, hlegal.root⟩)
  · exact .inr (.inl hreversal)
  · exact .inr (.inr ⟨_, _, hroot, hrole, .inr hunder, hbefore, hlegal.replacement hpair⟩)

/-- A correction is under an ordinary root, and legal after the event before that root. -/
theorem AssetHistory.correction_legal (h : AssetHistory creation facts state.tables asset entries)
    (hentries : entries .transition = Entry.plain creation :: rest)
    (hlegal : Follows (LegalStep state.refs state.tables.orgId asset.id) (fun row => row)
      creation rest)
    {row : HistoryRow AssetState} (hrow : row ∈ state.tables.rowsFor .transition asset.id)
    (hrole : row.role = .corrected) :
    ∃ root prior, root ∈ state.tables.rowsFor .transition asset.id ∧ row.root = some root.id ∧
      effectiveBefore (state.tables.history .transition) asset.id root.resultVersion = some prior ∧
      LegalStep state.refs state.tables.orgId asset.id prior row := by
  rcases h.lifecycle_cases hentries hlegal hrow with rfl | hreversal | ⟨root, prior, hroot,
    hordinary, hunder, hbefore, hstep⟩
  · have hplain :=
      ((h.classes .transition).overlay.overlaid (.plain row) (by simp [hentries])).root_role
    exact absurd (hplain.symm.trans hrole) (by decide)
  · exact absurd (hreversal.symm.trans hrole) (by decide)
  · refine ⟨root, prior, hroot, hunder.resolve_left ?_, hbefore, hstep⟩
    rintro rfl
    exact absurd (hordinary.symm.trans hrole) (by decide)

/-- The audit finds no fault with a legal lifecycle, whatever the scope it reads. -/
theorem AssetHistory.not_illegalCorrection
    (h : AssetHistory creation facts state.tables asset entries)
    (hentries : entries .transition = Entry.plain creation :: rest)
    (hlegal : Follows (LegalStep state.refs state.tables.orgId asset.id) (fun row => row)
      creation rest)
    {scope : Option Uuid} {issue : LifecycleIssueRow}
    (hissue : issue ∈ lifecycleIssueRows state.refs state.tables scope)
    (hasset : issue.assetId = asset.id) : illegalCorrection issue = false := by
  simp only [lifecycleIssueRows, List.mem_flatMap, List.mem_map, List.mem_filter,
    decide_eq_true_eq] at hissue
  obtain ⟨row, ⟨hrow, hrole, -⟩, other, ⟨hother, hsame, hunder⟩, rfl⟩ := hissue
  replace hasset : row.assetId = asset.id := hasset
  have hmem : row ∈ state.tables.rowsFor .transition asset.id :=
    List.mem_filter.mpr ⟨hrow, by simpa using hasset⟩
  have hotherMem : other ∈ state.tables.rowsFor .transition asset.id :=
    List.mem_filter.mpr ⟨hother, by simpa using hsame.trans hasset⟩
  obtain ⟨root, prior, hroot, hrowRoot, hbefore, ⟨fromState, toState, hfrom, -, hto, hedge⟩,
    hevidence⟩ := h.correction_legal hentries hlegal hmem hrole
  have heq : other = root := by
    have hclass := h.classes .transition
    rw [hclass.rows] at hroot hotherMem
    refine hclass.overlay.eq_of_id hotherMem hroot ?_
    rw [hrowRoot] at hunder
    exact Option.some.inj hunder
  rw [heq, hasset, hbefore]
  simp only [illegalCorrection, Option.bind_some, hfrom, hto]
  have hallowed := mem_allowedStates.mpr hedge
  by_cases hretired : toState = retired
  · have hvalid := hevidence (hto.trans (congrArg some hretired))
    simp [hvalid, hallowed]
  · simp [hretired, hallowed]

end

theorem LegalHistory.legal {creation : HistoryRow AssetState} {assetId : Uuid} {state : Registry}
    (h : LegalHistory creation assetId state) (hcreation : creation.toFact = some received) :
    LifecycleLegal creation state assetId := by
  obtain ⟨facts, asset, entries, rest, rfl, hhistory, hentries, hlegal⟩ := h
  have hclass := hhistory.classes .transition
  have heffective : effectiveRows state.tables .transition asset.id =
      creation :: rest.map Entry.head := by
    have hheads := hclass.effective_eq
    rw [hentries] at hheads
    exact hheads
  refine ⟨?_, ?_, ?_, ?_, ?_, ?_, ?_⟩
  · rw [heffective]
    rfl
  · rw [heffective]
    have hheads := hclass.ascending.heads
    rw [hentries] at hheads
    exact hheads
  · rw [heffective]
    have hedges : Follows LegalEdge (fun row => row) creation rest :=
      hlegal.mono fun _ _ hstep => hstep.1
    obtain ⟨hfirst, hchain⟩ := hedges.heads
    exact List.isChain_cons.mpr ⟨hfirst, hchain⟩
  · intro row hrow hrole
    rcases hhistory.lifecycle_cases hentries hlegal hrow with rfl | hreversal | ⟨root, prior, -, -,
      -, -, hstep⟩
    · intro hretired
      rw [hcreation] at hretired
      exact absurd hretired (by decide)
    · exact absurd hreversal hrole
    · exact hstep.2
  · intro row hrow hrole
    obtain ⟨root, prior, hroot, hunder, hbefore, hstep⟩ :=
      hhistory.correction_legal hentries hlegal hrow hrole
    exact ⟨root, hroot, hunder, prior, hbefore, hstep.1⟩
  · have hnone : (lifecycleIssueRows state.refs state.tables (some asset.id)).filter
        illegalCorrection = [] := by
      refine List.filter_eq_nil_iff.mpr fun issue hissue => ?_
      have hasset : issue.assetId = asset.id := by
        simp only [lifecycleIssueRows, List.mem_flatMap, List.mem_map, List.mem_filter,
          decide_eq_true_eq] at hissue
        obtain ⟨row, ⟨-, -, hscope⟩, other, -, rfl⟩ := hissue
        simpa using hscope
      rw [hhistory.not_illegalCorrection hentries hlegal hissue hasset]
      decide
    rw [lifecycleCorrectionIssues, classifyLifecycleIssues, hnone]
    rfl
  · intro hmem
    simp only [lifecycleCorrectionIssues, classifyLifecycleIssues, List.mem_eraseDups,
      List.mem_map, List.mem_filter] at hmem
    obtain ⟨issue, ⟨hissue, hillegal⟩, hasset⟩ := hmem
    rw [hhistory.not_illegalCorrection hentries hlegal hissue hasset] at hillegal
    exact absurd hillegal (by decide)

/-- In every state that lifecycle calls, other changes and new evidence reach from the creation of
an Asset, its lifecycle is legal. -/
theorem lifecycleLegality {ctx : Context} {args : UnitArgs} {tenant created : Tenant}
    {line : ReceiptLine} (hkeys : tenant.tables.Referential)
    (hcreate : createReceivedUnit ctx args tenant = .ok (line, created)) (refs : References)
    (actions : List LifecycleAction) :
    ∃ creation, created.tables.rowsFor .transition args.assetId = [creation] ∧
      creation.toFact = some received ∧
      LifecycleLegal creation (Machine.run Registry.step actions ⟨refs, created.tables⟩)
        args.assetId := by
  obtain ⟨receipt, owner, performer, hinsert⟩ := createReceivedUnit_eq_ok hcreate
  have hbegin := history_of_insertReceivedAsset hkeys hinsert
  refine ⟨args.creation receipt performer ctx.session.now,
    (hbegin.classes .transition).rows.trans (by simp), rfl, LegalHistory.legal ?_ rfl⟩
  refine Machine.run_invariant Registry.step
    (LegalHistory (args.creation receipt performer ctx.session.now) args.assetId) (fun _ => True)
    (fun _ _ _ _ hstep => Registry.step_legal hstep) actions _ (fun _ _ => trivial) ?_
  exact ⟨_, _, _, [], rfl, hbegin, Function.update_self .., trivial⟩

/-! ## A disposal -/

/-- The digest of the sample's one document. -/
def sampleSha256 : String := String.ofList (List.replicate 64 '0')

def sampleStorage : EvidenceStorage where
  files := fun key => if key = evidenceKey 100 sampleSha256 then some [37, 80] else none
  sha256 := fun _ => sampleSha256

/-- A certificate of disposal, linked to the radio. -/
def sampleCertificate : References where
  actors := []
  parties := []
  locations := []
  attachments :=
    [{ id := 30, sha256 := sampleSha256, byteSize := 2, mediaType := "application/pdf"
       storageKey := evidenceKey 100 sampleSha256, sourceType := .certificate, capturedBy := 1
       capturedAt := .at 80, recordedAt := .at 81, supersedesAttachmentId := none
       originalFilename := "disposal.pdf" }]
  attachmentLinks :=
    [{ id := 31, attachmentId := 30, entityType := .asset, entityId := 8
       linkRole := .disposalEvidence, actorId := 1, recordedAt := .at 82 }]

/-- A hold that is left, the correction of how it was left, an illegal edge and a retirement. -/
def sampleLifecycle : List LifecycleAction :=
  let event (expectedVersion : ℕ) (fromState toState : AssetState) (evidenceRef : Option Uuid)
      (id : Uuid) : LifecycleAction :=
    .transitionAsset sampleContext (some sampleStorage) 8
      { expectedVersion, fromState, toState, reason := "Observed", occurredAt := .at 90
        evidenceRef } id
  [event 1 received inStock none 20, event 2 inStock onHold none 21, event 3 onHold inStock none 22,
    .correctTransition sampleContext (some sampleStorage) 8 22
      { expectedVersion := 4, toState := outOfService, reason := "Failed inspection"
        correctionOccurredAt := .at 95 } ⟨23, 24, 25⟩,
    event 6 outOfService deployed none 26, event 6 outOfService retired (some 30) 27,
    .register sampleCertificate, event 6 outOfService retired (some 30) 27]

theorem lifecycleLegality_sample :
    ∃ line created creation, createReceivedUnit sampleContext sampleUnit sampleTenant =
      .ok (line, created) ∧
        (Machine.run Registry.step sampleLifecycle
          ⟨sampleContext.refs, created.tables⟩).tables.versionOf 8 = 7 ∧
        LifecycleLegal creation (Machine.run Registry.step sampleLifecycle
          ⟨sampleContext.refs, created.tables⟩) 8 := by
  have hrun : ((createReceivedUnit sampleContext sampleUnit sampleTenant).toOption.map
      fun created => (Machine.run Registry.step sampleLifecycle
        ⟨sampleContext.refs, created.2.tables⟩).tables.versionOf 8) = some 7 := by decide +kernel
  obtain ⟨line, created, hcreate, -⟩ := sampleUnit_created
  obtain ⟨creation, -, -, hlegal⟩ :=
    lifecycleLegality sampleTenant_referential hcreate sampleContext.refs sampleLifecycle
  refine ⟨line, created, creation, hcreate, ?_, hlegal⟩
  simpa [hcreate, Except.toOption] using hrun

end FleetOps
