import FleetOps.Foundations.Machine
import FleetOps.Receiving.Units

/-!
# The Master Asset history invariant

An Asset begins with `create_received_unit`; after that only the eleven
functions of the boundary write to it.  Whatever calls are made, against this
Asset or others, accepted or refused, the five histories stay a faithful
account of the Asset's row: `historyInvariant`.
-/

namespace FleetOps

open Amendment

/-- The effective rows of a class of an Asset. -/
def effectiveRows (tables : AssetTables) (k : HistoryClass) (asset : Uuid) :
    List (HistoryRow (Fact k)) :=
  (effective (tables.history k)).filter (·.assetId = asset)

/-- The effective rows of a class chain from its baseline, and the last one is what the Asset's
row projects. -/
structure ChainedClass (tables : AssetTables) (facts : InitialFacts) (asset : AssetRow)
    (k : HistoryClass) : Prop where
  /-- The rows are in the order of their versions. -/
  ordered : (effectiveRows tables k asset.id).Pairwise fun earlier later =>
    earlier.resultVersion < later.resultVersion
  chain : (effectiveRows tables k asset.id).IsChain fun earlier later =>
    later.fromFact = earlier.toFact
  baseline : ∀ first ∈ (effectiveRows tables k asset.id).head?,
    first.fromFact = facts.baseline k
  projection : asset.projection k =
    match (effectiveRows tables k asset.id).getLast? with
    | some last => last.projected k
    | none => factProjected k (facts.baseline k)

/-- The invariant of an Asset that was created with an event. -/
def HistoryInvariant (creation : HistoryRow AssetState) (tables : AssetTables) (id : Uuid) : Prop :=
  ∃ asset facts, asset.id = id ∧ tables.assets.find? (·.id = id) = some asset ∧
    tables.initialFacts? id = some facts ∧
    (tables.versionsFor id).Perm (List.range' 1 asset.version) ∧
    (effectiveRows tables .transition id).head? = some creation ∧
    ∀ k, ChainedClass tables facts asset k

theorem AssetHistory.invariant {creation : HistoryRow AssetState} {facts : InitialFacts}
    {tables : AssetTables} {asset : AssetRow}
    {entries : (k : HistoryClass) → List (Entry (HistoryRow (Fact k)))}
    (h : AssetHistory creation facts tables asset entries) :
    HistoryInvariant creation tables asset.id := by
  have heffective : ∀ k, effectiveRows tables k asset.id = (entries k).map Entry.head :=
    fun k => (h.classes k).effective_eq
  refine ⟨asset, facts, rfl, h.found, h.initial, h.versions, ?_, fun k => ?_⟩
  · obtain ⟨rest, hrest⟩ := h.creation
    rw [heffective, hrest]
    rfl
  · obtain ⟨hfirst, hchain⟩ := (h.classes k).chained.heads
    refine ⟨?_, ?_, ?_, ?_⟩
    · rw [heffective]
      exact (h.classes k).ascending.heads
    · rw [heffective]
      exact hchain
    · rw [heffective]
      exact hfirst
    · rw [heffective, h.projections k, standingProjection, List.getLast?_map]
      cases (entries k).getLast? <;> rfl

/-- In every state that calls reach from the creation of an Asset, its histories number its
versions once each, chain class by class from the baseline, and agree with its row. -/
theorem historyInvariant {ctx : Context} {args : UnitArgs} {tenant created : Tenant}
    {line : ReceiptLine} (hkeys : tenant.tables.Referential)
    (hcreate : createReceivedUnit ctx args tenant = .ok (line, created))
    (requests : List (Context × Call)) :
    ∃ creation, created.tables.rowsFor .transition args.assetId = [creation] ∧
      HistoryInvariant creation (Machine.run perform requests created.tables) args.assetId := by
  obtain ⟨receipt, owner, performer, hinsert⟩ := createReceivedUnit_eq_ok hcreate
  have hbegin := history_of_insertReceivedAsset hkeys hinsert
  refine ⟨args.creation receipt performer ctx.session.now,
    (hbegin.classes .transition).rows.trans (by simp), ?_⟩
  have hrun := Machine.run_invariant perform
    (fun tables => ∃ asset entries, asset.id = args.assetId ∧
      AssetHistory (args.creation receipt performer ctx.session.now)
        (args.facts receipt owner performer ctx.session.now) tables asset entries)
    (fun _ => True)
    (fun request state next _ hperform ⟨asset, entries, hid, hhistory⟩ => by
      obtain ⟨updated, fresh, hupdated, hnext, -⟩ := hhistory.perform hperform
      exact ⟨updated, fresh, hupdated.trans hid, hnext⟩)
    requests created.tables (fun _ _ => trivial) ⟨_, _, rfl, hbegin⟩
  obtain ⟨asset, entries, hid, hhistory⟩ := hrun
  exact hid ▸ hhistory.invariant

theorem historyInvariant_sample :
    ∃ line created creation, createReceivedUnit sampleContext sampleUnit sampleTenant =
      .ok (line, created) ∧
        (Machine.run perform sampleRequests created.tables).versionOf 8 = 4 ∧
        HistoryInvariant creation (Machine.run perform sampleRequests created.tables) 8 := by
  obtain ⟨line, created, hcreate, hversion⟩ := sampleUnit_created
  obtain ⟨creation, -, hinvariant⟩ :=
    historyInvariant sampleTenant_referential hcreate sampleRequests
  exact ⟨line, created, creation, hcreate, hversion, hinvariant⟩

end FleetOps
