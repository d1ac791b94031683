import FleetOps.Assets.Authority
import FleetOps.Assets.Calls

/-!
# Admission of rows

`Admits` is everything that an `INSERT` into a history checks, so a row is
inserted exactly if it is admitted (`insertHistory_iff`).  What the checks are
for is kept by every accepted call: the tables stay `Constrained`
(`AssetTables.Constrained.perform`).
-/

namespace FleetOps

open Keys

/-- What an `INSERT` into a history checks. -/
structure Admits (ctx : Context) (k : HistoryClass) (row : HistoryRow (Fact k))
    (tables : AssetTables) : Prop where
  evidence : guardAssetEvidence ctx.refs tables.orgId k row = .ok ()
  required : requiredFacts k row
  checks : historyChecks ctx.posixSpace k row
  unique : historyUnique (ctx.foreignKeys (.history k)) (tables.history k) row
  references : historyReferences ctx.refs tables k row
  performer : enforceAuthenticatedCreator ctx.session row.actorId = .ok ()

theorem insertHistory_iff {ctx : Context} {k : HistoryClass} {row : HistoryRow (Fact k)}
    {tables after : AssetTables} :
    insertHistory ctx k row tables = .ok after ↔
      Admits ctx k row tables ∧ tables.append k [row] = after := by
  simp only [insertHistory, bind_eq_ok, require_eq_ok, pure_eq_ok, exists_unit]
  constructor
  · rintro ⟨hevidence, hrequired, hchecks, hunique, hreferences, hperformer, rfl⟩
    exact ⟨⟨hevidence, hrequired, hchecks, hunique, hreferences, hperformer⟩, rfl⟩
  · rintro ⟨h, rfl⟩
    exact ⟨h.evidence, h.required, h.checks, h.unique, h.references, h.performer, rfl⟩

/-! ## Unique indexes -/

section

variable {φ : Type} {foreign : List Uuid} {rows : List (HistoryRow φ)} {row : HistoryRow φ}

/-- What the unique indexes say of a new row. -/
theorem historyUnique_iff : historyUnique foreign rows row = true ↔
    row.id ∉ foreign ∧ ∀ other ∈ rows, other.id ≠ row.id ∧
      ¬(other.assetId = row.assetId ∧ other.resultVersion = row.resultVersion) ∧
      (row.role ≠ .none → other.role = row.role →
        ¬(row.pairId.isSome ∧ other.pairId = row.pairId) ∧
          ¬(row.root.isSome ∧ other.root = row.root ∧ other.generation = row.generation)) := by
  simp only [historyUnique, Bool.and_eq_true, List.all_eq_true, Bool.not_eq_true',
    List.contains_eq_mem, decide_eq_false_iff_not, bne_iff_ne, Bool.or_eq_true, beq_iff_eq]
  refine and_congr_right fun _ => forall₂_congr fun other _ => ?_
  rw [and_assoc]
  refine and_congr_right fun _ => and_congr ?_ ?_
  · simp
  · constructor
    · intro h hrole hsame
      rcases h with (hnone | hother) | hkeys
      · exact absurd hnone hrole
      · exact absurd hsame hother
      · simpa [and_assoc] using hkeys
    · intro h
      by_cases hrole : row.role = .none
      · exact .inl (.inl hrole)
      · by_cases hsame : other.role = row.role
        · refine .inr ?_
          simpa [and_assoc] using h hrole hsame
        · exact .inl (.inr hsame)

/-- The keys hold of one more unique row. -/
theorem HistoryKeys.concat (h : HistoryKeys rows) (hunique : historyUnique foreign rows row = true) :
    HistoryKeys (rows ++ [row]) := by
  have hnew := (historyUnique_iff.mp hunique).2
  -- Of two rows, one may be the new one; each index excludes that.
  have hpair : ∀ {p : HistoryRow φ → HistoryRow φ → Prop},
      (∀ r ∈ rows, ∀ s ∈ rows, p r s → s = r) → (∀ r ∈ rows, ¬p r row) → (∀ r ∈ rows, ¬p row r) →
        ∀ r ∈ rows ++ [row], ∀ s ∈ rows ++ [row], p r s → s = r := by
    intro p hold hright hleft r hr s hs hp
    rcases List.mem_append.mp hr with hr | hr
    · rcases List.mem_append.mp hs with hs | hs
      · exact hold r hr s hs hp
      · rw [List.mem_singleton.mp hs] at hp
        exact absurd hp (hright r hr)
    · rw [List.mem_singleton.mp hr] at hp ⊢
      rcases List.mem_append.mp hs with hs | hs
      · exact absurd hp (hleft s hs)
      · exact List.mem_singleton.mp hs
  constructor
  case ids => exact h.ids.concat fun other hother => (hnew other hother).1
  case versions =>
    intro r hr s hs hasset hversion
    refine hpair (p := fun r s => s.assetId = r.assetId ∧ s.resultVersion = r.resultVersion)
      (fun r hr s hs hsame => h.versions r hr s hs hsame.1 hsame.2) (fun other hother hsame => ?_)
      (fun other hother hsame => ?_) r hr s hs ⟨hasset, hversion⟩
    · exact (hnew other hother).2.1 ⟨hsame.1.symm, hsame.2.symm⟩
    · exact (hnew other hother).2.1 hsame
  case pairs =>
    intro r hr s hs hrole hsame hsome hpairId
    refine hpair (p := fun r s => r.role ≠ .none ∧ s.role = r.role ∧ r.pairId.isSome ∧
      s.pairId = r.pairId)
      (fun r hr s hs hp => h.pairs r hr s hs hp.1 hp.2.1 hp.2.2.1 hp.2.2.2)
      (fun other hother hp => ?_) (fun other hother hp => ?_) r hr s hs
      ⟨hrole, hsame, hsome, hpairId⟩
    · obtain ⟨hne, hroles, hpairSome, hpairs⟩ := hp
      exact ((hnew other hother).2.2 (hroles ▸ hne) hroles.symm).1
        ⟨hpairs ▸ hpairSome, hpairs.symm⟩
    · obtain ⟨hne, hroles, hpairSome, hpairs⟩ := hp
      exact ((hnew other hother).2.2 hne hroles).1 ⟨hpairSome, hpairs⟩
  case generations =>
    intro r hr s hs hrole hsame hsome hroot hgeneration
    refine hpair (p := fun r s => r.role ≠ .none ∧ s.role = r.role ∧ r.root.isSome ∧
      s.root = r.root ∧ s.generation = r.generation)
      (fun r hr s hs hp => h.generations r hr s hs hp.1 hp.2.1 hp.2.2.1 hp.2.2.2.1 hp.2.2.2.2)
      (fun other hother hp => ?_) (fun other hother hp => ?_) r hr s hs
      ⟨hrole, hsame, hsome, hroot, hgeneration⟩
    · obtain ⟨hne, hroles, hrootSome, hroots, hgenerations⟩ := hp
      exact ((hnew other hother).2.2 (hroles ▸ hne) hroles.symm).2
        ⟨hroots ▸ hrootSome, hroots.symm, hgenerations.symm⟩
    · obtain ⟨hne, hroles, hrootSome, hroots, hgenerations⟩ := hp
      exact ((hnew other hother).2.2 hne hroles).2 ⟨hrootSome, hroots, hgenerations⟩

end

/-! ## Constraints that every call keeps -/

section

variable {ctx : Context} {k : HistoryClass} {tables after : AssetTables}

theorem mem_append {j : HistoryClass} {row : HistoryRow (Fact k)} {other : HistoryRow (Fact j)}
    (hother : other ∈ (tables.append k [row]).history j) :
    other ∈ tables.history j ∨ ∃ heq : k = j, heq ▸ row = other := by
  by_cases hj : k = j
  · subst hj
    simp only [AssetTables.append, Function.update_self, List.mem_append, List.mem_singleton]
      at hother
    exact hother.imp id fun heq => ⟨rfl, heq.symm⟩
  · simp only [AssetTables.append, Function.update_of_ne (Ne.symm hj)] at hother
    exact .inl hother

theorem AssetTables.Constrained.insertHistory (h : tables.Constrained ctx.posixSpace)
    {row : HistoryRow (Fact k)} (hinsert : FleetOps.insertHistory ctx k row tables = .ok after) :
    after.Constrained ctx.posixSpace := by
  obtain ⟨hadmits, rfl⟩ := insertHistory_iff.mp hinsert
  refine ⟨h.assets, h.version, fun j => ?_, fun j other hother => ?_, fun j other hother => ?_,
    h.initialFacts, h.initialAssignmentFacts⟩
  · by_cases hj : j = k
    · subst hj
      simpa only [AssetTables.append, Function.update_self] using (h.keys j).concat hadmits.unique
    · simpa only [AssetTables.append, Function.update_of_ne hj] using h.keys j
  · rcases mem_append hother with hold | ⟨rfl, rfl⟩
    · exact h.required j other hold
    · exact hadmits.required
  · rcases mem_append hother with hold | ⟨rfl, rfl⟩
    · exact h.checks j other hold
    · exact hadmits.checks

/-- The row that an `UPDATE` writes has a key that is there. -/
theorem AssetTables.Constrained.updateAsset {posixSpace : Char → Bool}
    (h : tables.Constrained posixSpace) {asset : AssetRow} {value : Option (Projected k)}
    {version : ℕ} (hversion : 0 < version)
    (hupdate : FleetOps.updateAsset ctx k asset value version tables = .ok after) :
    after.Constrained posixSpace := by
  obtain ⟨projected, -, rfl⟩ := updateAsset_eq_ok hupdate
  refine ⟨?_, fun a ha => ?_, h.keys, h.required, h.checks, h.initialFacts,
    h.initialAssignmentFacts⟩
  · have hids : ((tables.putAsset (projected.atVersion version)).assets.map AssetRow.id) =
        tables.assets.map AssetRow.id := by
      rw [AssetTables.putAsset, List.map_map]
      refine List.map_congr_left fun a _ => ?_
      simp only [Function.comp_apply]
      split
      · next hid => exact hid.symm
      · rfl
    rw [Distinct, hids]
    exact h.assets
  · obtain ⟨old, hold, rfl⟩ := List.mem_map.mp ha
    split
    · exact hversion
    · exact h.version old hold

theorem AssetTables.Constrained.produce (h : tables.Constrained ctx.posixSpace) {args : ChangeArgs}
    {actor : Uuid} {asset : AssetRow} {fromFact toFact : Option (Fact k)} {evidenceRef : Option Uuid}
    {row : HistoryRow (Fact k)}
    (hproduce : FleetOps.produce ctx k args actor asset fromFact toFact evidenceRef tables =
      .ok (row, after)) : after.Constrained ctx.posixSpace := by
  obtain ⟨_, hproduced⟩ := produce_eq_ok hproduce
  exact (h.insertHistory hproduced.insert).updateAsset (Nat.succ_pos _) hproduced.update

theorem AssetTables.Constrained.correctionSql (h : tables.Constrained ctx.posixSpace)
    {args : CorrectionArgs k} {row : HistoryRow (Fact k)}
    (hcorrect : FleetOps.correctionSql ctx k args tables = .ok (row, after)) :
    after.Constrained ctx.posixSpace := by
  obtain ⟨_, _, _, _, _, _, _, _, _, hrun⟩ := correctionSql_eq_ok hcorrect
  exact ((h.insertHistory hrun.reversal).insertHistory hrun.corrected).updateAsset (Nat.succ_pos _)
    hrun.update

theorem AssetTables.Constrained.transitionAsset (h : tables.Constrained ctx.posixSpace)
    {args : TransitionArgs} {row : HistoryRow AssetState}
    (hcall : FleetOps.transitionAsset ctx args tables = .ok (row, after)) :
    after.Constrained ctx.posixSpace := by
  obtain ⟨_, _, _, -, hproducing⟩ := transitionAsset_eq_ok hcall
  exact h.produce hproducing.produced

theorem AssetTables.Constrained.operationSql (h : tables.Constrained ctx.posixSpace)
    {required : Bool} {args : ChangeArgs} {target : Option (Fact k)} {row : HistoryRow (Fact k)}
    (hcall : FleetOps.operationSql ctx k required args target tables = .ok (row, after)) :
    after.Constrained ctx.posixSpace := by
  obtain ⟨_, _, _, hproducing⟩ := operationSql_eq_ok hcall
  exact h.produce hproducing.produced

theorem AssetTables.Constrained.assignmentSql (h : tables.Constrained ctx.posixSpace)
    {assigning : Bool} {args : ChangeArgs} {target : Target .assignment}
    {row : HistoryRow Assignee}
    (hcall : FleetOps.assignmentSql ctx assigning args target tables = .ok (row, after)) :
    after.Constrained ctx.posixSpace := by
  obtain ⟨_, _, _, -, hproducing⟩ := assignmentSql_eq_ok hcall
  exact h.produce hproducing.produced

/-- Every accepted call keeps the constraints. -/
theorem AssetTables.Constrained.perform (h : tables.Constrained ctx.posixSpace) {call : Call}
    (hperform : FleetOps.perform (ctx, call) tables = .ok after) :
    after.Constrained ctx.posixSpace := by
  simp only [FleetOps.perform, bind_eq_ok, pure_eq_ok] at hperform
  obtain ⟨⟨row, _⟩, hbody, -, -, rfl⟩ := hperform
  cases call with
  | transitionAsset args => exact h.transitionAsset hbody
  | moveAsset args target => exact h.operationSql hbody
  | changeCustody args target => exact h.operationSql hbody
  | changeOwnership args target => exact h.operationSql hbody
  | assignAsset args type id => exact h.assignmentSql hbody
  | unassignAsset args => exact h.assignmentSql hbody
  | correct k args =>
      rw [body_correct] at hbody
      exact h.correctionSql hbody

end

end FleetOps
