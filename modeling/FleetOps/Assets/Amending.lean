import FleetOps.Assets.Concurrency
import FleetOps.Assets.Replacement

/-!
# Roots over runs

An Asset's newest event decides which root can still be corrected.  `Newest`
says that a root's effective head is that event; an accepted call on the Asset
leaves it to an earlier root only if the call corrects that root
(`TracedAsset.newest_exec`), and a root that lost it never has it again
(`Registry.Passed`).

What was in force before a root is settled: no later call changes it
(`Evolves.settled`), so every replacement in a chain starts from one fact, and
its time is the last one that the chain supplied (`suppliedTimes`).
-/

namespace FleetOps

open Amendment Keys

/-- The newest event of the Asset, over its five histories, is the effective head of the root. -/
def AssetTables.Newest (tables : AssetTables) (k : HistoryClass) (id root : Uuid) : Prop :=
  ∃ head, effectiveHead tables k id root = some head ∧
    ∀ version ∈ tables.versionsFor id, version ≤ head.resultVersion

/-- The call is a correction of the root. -/
def Call.Corrects (call : Call) (k : HistoryClass) (id root : Uuid) : Prop :=
  ∃ args : CorrectionArgs k, call = .correct k args ∧ args.assetId = id ∧ args.rootId = root

/-- The occurrence time that a committed correction of the root supplied, when it did. -/
def suppliedTime (k : HistoryClass) (id root : Uuid) : Call → Option Timestamp
  | .correct j args =>
      if j = k ∧ args.assetId = id ∧ args.rootId = root then args.occurredAt else none
  | _ => none

/-- The occurrence times that a run's accepted corrections of the root supplied, in order. -/
def suppliedTimes (commits : List (Machine.Commit LifecycleAction Registry)) (k : HistoryClass)
    (id root : Uuid) : List Timestamp :=
  commits.filterMap fun commit => commit.action.call?.bind fun request =>
    suppliedTime k id root request.2

section

variable {creation : HistoryRow AssetState} {facts : InitialFacts} {ctx : Context}
  {call : Call} {tables after : AssetTables} {asset updated : AssetRow}
  {entries fresh : (k : HistoryClass) → List (Entry (HistoryRow (Fact k)))} {k : HistoryClass}

/-! ## One call -/

/-- An entry that the call does not correct stays. -/
theorem Evolves.kept (h : Evolves asset call entries fresh) {entry : Entry (HistoryRow (Fact k))}
    (hentry : entry ∈ entries k) (hnot : ¬call.Corrects k asset.id entry.root.id) :
    entry ∈ fresh k := by
  cases h with
  | other outside same => exact same ▸ hentry
  | recorded row ordinary own version concat =>
      rw [concat]
      by_cases hk : k = call.historyClass
      · subst hk
        rw [Function.update_self]
        exact List.mem_append_left _ hentry
      · rwa [Function.update_of_ne hk]
  | amended j args earlier last pair correction own split root head version time amend =>
      rw [amend]
      by_cases hk : k = j
      · subst hk
        rw [Function.update_self]
        rw [split] at hentry
        rcases List.mem_append.mp hentry with hold | hlast
        · exact List.mem_append_left _ hold
        · obtain rfl := List.mem_singleton.mp hlast
          exact absurd ⟨args, correction, own, root.symm⟩ hnot
      · rwa [Function.update_of_ne hk]

/-- An entry that the call corrects made the Asset's version, and gains a pair. -/
theorem Evolves.amends (h : Evolves asset call entries fresh) {entry : Entry (HistoryRow (Fact k))}
    (hroots : Distinct (fun e : Entry (HistoryRow (Fact k)) => e.root.id) (entries k))
    (hentry : entry ∈ entries k) (hcorrects : call.Corrects k asset.id entry.root.id) :
    entry.head.resultVersion = asset.version ∧ ∃ pair, entry.amend pair ∈ fresh k ∧
      pair.2.resultVersion = asset.version + 2 := by
  obtain ⟨args, rfl, hown, hnamed⟩ := hcorrects
  cases h with
  | other outside same => exact absurd hown outside
  | recorded row ordinary own version concat => exact absurd ordinary (by simp [Call.produces])
  | amended j args' earlier last pair correction own split root head version time amend =>
      cases correction
      have hlast : last ∈ entries k := by simp [split]
      obtain rfl := hroots.eq hlast hentry (root.trans hnamed)
      refine ⟨head, pair, ?_, version⟩
      rw [amend, Function.update_self]
      simp

/-- A correction names a root of its class. -/
theorem Evolves.target (h : Evolves asset call entries fresh) {args : CorrectionArgs k}
    (hcall : call = .correct k args) (hown : args.assetId = asset.id) :
    ∃ entry ∈ entries k, entry.root.id = args.rootId := by
  subst hcall
  cases h with
  | other outside same => exact absurd hown outside
  | recorded row ordinary own version concat => exact absurd ordinary (by simp [Call.produces])
  | amended j args' earlier last pair correction own split root head version time amend =>
      cases correction
      exact ⟨last, by simp [split], root⟩

/-- An entry after a call is as it was, or a new row above the Asset's version, or amended. -/
theorem Evolves.origin (h : Evolves asset call entries fresh) {entry : Entry (HistoryRow (Fact k))}
    (hroots : Distinct (fun e : Entry (HistoryRow (Fact k)) => e.root.id) (entries k))
    (hentry : entry ∈ fresh k) :
    (entry ∈ entries k ∧ ¬call.Corrects k asset.id entry.root.id) ∨
      (∃ row, entry = Entry.plain row ∧ row.resultVersion = asset.version + 1 ∧
        call.produces = 1) ∨
      ∃ old ∈ entries k, ∃ (pair : HistoryRow (Fact k) × HistoryRow (Fact k))
        (args : CorrectionArgs k), entry = old.amend pair ∧ call = .correct k args ∧
          args.assetId = asset.id ∧ args.rootId = old.root.id ∧
          pair.2.occurredAt = args.occurredAt.getD old.head.occurredAt := by
  cases h with
  | other outside same =>
      refine .inl ⟨same ▸ hentry, ?_⟩
      rintro ⟨args, rfl, hown, -⟩
      exact outside hown
  | recorded row ordinary own version concat =>
      have hnot : ¬call.Corrects k asset.id entry.root.id := by
        rintro ⟨args, rfl, -⟩
        exact absurd ordinary (by simp [Call.produces])
      rw [concat] at hentry
      by_cases hk : k = call.historyClass
      · subst hk
        rw [Function.update_self] at hentry
        rcases List.mem_append.mp hentry with hold | hnew
        · exact .inl ⟨hold, hnot⟩
        · exact .inr (.inl ⟨row, List.mem_singleton.mp hnew, version, ordinary⟩)
      · rw [Function.update_of_ne hk] at hentry
        exact .inl ⟨hentry, hnot⟩
  | amended j args earlier last pair correction own split root head version time amend =>
      rw [amend] at hentry
      by_cases hk : k = j
      · subst hk
        rw [Function.update_self] at hentry
        rcases List.mem_append.mp hentry with hold | hnew
        · refine .inl ⟨by simp [split, hold], ?_⟩
          rintro ⟨other, hother, -, hnamed⟩
          -- The corrected entry is the last one, whose root is its own.
          obtain rfl : args = other := by
            cases correction.symm.trans hother
            rfl
          have hkeys := hroots
          rw [split, Distinct, List.map_append, List.nodup_append] at hkeys
          exact hkeys.2.2 _ (List.mem_map_of_mem hold) _ (by simp) (hnamed.symm.trans root.symm)
        · exact .inr (.inr ⟨last, by simp [split], pair, args, List.mem_singleton.mp hnew,
            correction, own, root.symm, time⟩)
      · rw [Function.update_of_ne hk] at hentry
        refine .inl ⟨hentry, ?_⟩
        rintro ⟨other, hother, -⟩
        cases correction.symm.trans hother
        exact hk rfl

/-- The heads below a version that the Asset has reached stay as they are. -/
theorem Evolves.settled (h : Evolves asset call entries fresh) {version : ℕ}
    (hreached : version ≤ asset.version) (k : HistoryClass) :
    ((fresh k).map Entry.head).filter (fun row => decide (row.resultVersion < version)) =
      ((entries k).map Entry.head).filter (fun row => decide (row.resultVersion < version)) := by
  cases h with
  | other outside same => rw [same]
  | recorded row ordinary own number concat =>
      rw [concat]
      by_cases hk : k = call.historyClass
      · subst hk
        have hdrop : decide (row.resultVersion < version) = false := by
          rw [number]
          exact decide_eq_false (by omega)
        simp [Function.update_self, List.filter_append, hdrop]
      · rw [Function.update_of_ne hk]
  | amended j args earlier last pair correction own split root head number time amend =>
      rw [amend]
      by_cases hk : k = j
      · subst hk
        have hold : decide (last.head.resultVersion < version) = false :=
          decide_eq_false (by omega)
        have hnew : decide (pair.2.resultVersion < version) = false :=
          decide_eq_false (by omega)
        simp [Function.update_self, split, List.filter_append, hold, hnew]
      · rw [Function.update_of_ne hk]

namespace SoundAsset

/-- The Asset's newest event is the root's head if that head made its version. -/
theorem newest_iff {posixSpace : Char → Bool} {refs : References}
    (h : SoundAsset posixSpace creation facts refs tables asset entries)
    {entry : Entry (HistoryRow (Fact k))} (hentry : entry ∈ entries k) :
    tables.Newest k asset.id entry.root.id ↔ entry.head.resultVersion = asset.version := by
  have hhead := (h.history.classes k).effectiveHead_eq hentry
  have hle := h.history.version_le ((h.history.classes k).mem_rows hentry entry.head_mem_rows)
  have hpositive : 0 < asset.version :=
    h.constrained.version asset (List.mem_of_find?_eq_some h.history.found)
  have hrange : ∀ version, version ∈ tables.versionsFor asset.id ↔
      1 ≤ version ∧ version ≤ asset.version := by
    intro version
    rw [h.history.versions.mem_iff, List.mem_range'_1]
    omega
  constructor
  · rintro ⟨head, hfound, hmax⟩
    obtain rfl := Option.some.inj (hhead.symm.trans hfound)
    have hge := hmax asset.version ((hrange _).mpr ⟨hpositive, le_rfl⟩)
    omega
  · intro hversion
    refine ⟨entry.head, hhead, fun version hmem => ?_⟩
    rw [hversion]
    exact ((hrange version).mp hmem).2

/-- An accepted call moves the Asset's version by what it produces, if it is on this Asset. -/
theorem version_perform {posixSpace : Char → Bool} {refs : References}
    (h : SoundAsset posixSpace creation facts refs tables asset entries)
    (hafter : SoundAsset posixSpace creation facts refs after updated fresh)
    (hid : updated.id = asset.id) (hperform : FleetOps.perform (ctx, call) tables = .ok after) :
    updated.version = if call.assetId = asset.id then asset.version + call.produces
      else asset.version := by
  obtain ⟨n, hadvances⟩ := advances_of_perform hperform
  have hfound := hafter.history.found
  rw [hid] at hfound
  split
  · next hown =>
      obtain ⟨hbefore, hraised⟩ := hadvances.versionOf
      simp only [AssetTables.versionOf, hown, h.history.found, hfound, Option.map_some,
        Option.getD_some] at hbefore hraised
      omega
  · next hne =>
      have hsame := hadvances.others asset.id (Ne.symm hne)
      simp only [hfound, h.history.found, Option.some.injEq] at hsame
      rw [hsame]

end SoundAsset

end

/-! ## Supplied times -/

section

variable {commits : List (Machine.Commit LifecycleAction Registry)} {k : HistoryClass}
  {id root : Uuid}

theorem suppliedTime_eq_none {call : Call} (h : ¬call.Corrects k id root) :
    suppliedTime k id root call = none := by
  cases call with
  | correct j args =>
      rw [suppliedTime, if_neg]
      rintro ⟨rfl, hown, hnamed⟩
      exact h ⟨args, rfl, hown, hnamed⟩
  | transitionAsset | moveAsset | changeCustody | changeOwnership | assignAsset | unassignAsset =>
      rfl

theorem suppliedTimes_concat (commit : Machine.Commit LifecycleAction Registry) :
    suppliedTimes (commits ++ [commit]) k id root = suppliedTimes commits k id root ++
      (commit.action.call?.bind fun request => suppliedTime k id root request.2).toList := by
  rw [suppliedTimes, suppliedTimes, List.filterMap_append]
  congr 1

/-- Where no correction named the root, none supplied a time. -/
theorem suppliedTimes_eq_nil (h : ∀ commit ∈ commits, ∀ request ∈ commit.action.call?,
    ¬request.2.Corrects k id root) : suppliedTimes commits k id root = [] := by
  refine List.filterMap_eq_nil_iff.mpr fun commit hcommit => ?_
  cases hcall : commit.action.call? with
  | none => rfl
  | some request => exact suppliedTime_eq_none (h commit hcommit request hcall)

end

/-! ## Runs -/

/-- A sound Asset whose corrections are accounted for: each committed one named a root that is
there, and each head's time is the last one supplied for its root, or else the root's own. -/
structure TracedAsset (posixSpace : Char → Bool) (creation : HistoryRow AssetState)
    (facts : InitialFacts) (commits : List (Machine.Commit LifecycleAction Registry))
    (state : Registry) (asset : AssetRow)
    (entries : (k : HistoryClass) → List (Entry (HistoryRow (Fact k)))) : Prop where
  sound : SoundAsset posixSpace creation facts state.refs state.tables asset entries
  rooted : state.tables.Rooted
  named : ∀ commit ∈ commits, ∀ request ∈ commit.action.call?, ∀ k root,
    request.2.Corrects k asset.id root → ∃ entry ∈ entries k, entry.root.id = root
  times : ∀ k, ∀ entry ∈ entries k, entry.head.occurredAt =
    (suppliedTimes commits k asset.id entry.root.id).getLast?.getD entry.root.occurredAt

/-- The last of some values with a new one, where there is a new one. -/
theorem getLast?_append_toList {α : Type} (values : List α) (new : Option α) (default : α) :
    (values ++ new.toList).getLast?.getD default = new.getD (values.getLast?.getD default) := by
  cases new with
  | none => rw [Option.toList_none, List.append_nil, Option.getD_none]
  | some value => rw [Option.toList_some, List.getLast?_concat, Option.getD_some, Option.getD_some]

section

variable {posixSpace : Char → Bool} {creation : HistoryRow AssetState} {facts : InitialFacts}
  {commits : List (Machine.Commit LifecycleAction Registry)} {state next : Registry}
  {action : LifecycleAction} {asset updated : AssetRow}
  {entries fresh : (k : HistoryClass) → List (Entry (HistoryRow (Fact k)))}

namespace TracedAsset

/-- An accepted call keeps the account, with the time that it supplied. -/
theorem perform (h : TracedAsset posixSpace creation facts commits state asset entries)
    {ctx : Context} {call : Call} (hcall : action.call? = some (ctx, call))
    (hid : updated.id = asset.id) (hrooted : next.tables.Rooted)
    (hsound : SoundAsset posixSpace creation facts next.refs next.tables updated fresh)
    (hevolves : Evolves asset call entries fresh) :
    TracedAsset posixSpace creation facts (commits ++ [⟨state, action, next⟩]) next updated
      fresh := by
  have hroots : ∀ k, Distinct (fun e : Entry (HistoryRow (Fact k)) => e.root.id) (entries k) :=
    fun k => (h.sound.history.classes k).overlay.roots
  -- Whatever root an entry had, some entry has it now.
  have hkept : ∀ k, ∀ old ∈ entries k, ∃ entry ∈ fresh k, entry.root.id = old.root.id := by
    intro k old hold
    by_cases hcorrects : call.Corrects k asset.id old.root.id
    · obtain ⟨-, pair, hpair, -⟩ := hevolves.amends (hroots k) hold hcorrects
      exact ⟨_, hpair, rfl⟩
    · exact ⟨old, hevolves.kept hold hcorrects, rfl⟩
  refine ⟨hsound, hrooted, fun commit hcommit request hrequest k root hcorrects => ?_,
    fun k entry hentry => ?_⟩
  · rw [hid] at hcorrects
    rcases List.mem_append.mp hcommit with hdone | hnew
    · obtain ⟨old, hold, hnamed⟩ := h.named commit hdone request hrequest k root hcorrects
      obtain ⟨entry, hentry, hroot⟩ := hkept k old hold
      exact ⟨entry, hentry, hroot.trans hnamed⟩
    · rw [List.mem_singleton.mp hnew, hcall, Option.mem_some_iff] at hrequest
      obtain rfl := hrequest
      obtain ⟨args, heq, hown, hnamed⟩ := hcorrects
      obtain ⟨old, hold, hroot⟩ := hevolves.target heq hown
      obtain ⟨entry, hentry, hsame⟩ := hkept k old hold
      exact ⟨entry, hentry, hsame.trans (hroot.trans hnamed)⟩
  · rw [suppliedTimes_concat, hcall, Option.bind_some, getLast?_append_toList, hid]
    rcases hevolves.origin (hroots k) hentry with ⟨hold, hnot⟩ | ⟨row, rfl, hversion, hone⟩ |
      ⟨old, hold, pair, args, rfl, rfl, hown, hnamed, htime⟩
    · rw [suppliedTime_eq_none hnot]
      exact h.times k entry hold
    · have hordinary : ∀ root, ¬call.Corrects k asset.id root := by
        rintro root ⟨args, rfl, -⟩
        exact absurd hone (by simp [Call.produces])
      have hnone : suppliedTimes commits k asset.id row.id = [] := by
        refine suppliedTimes_eq_nil fun commit hcommit request hrequest hcorrects => ?_
        -- A root that was corrected before is not the new row's.
        obtain ⟨old, hold, hnamed⟩ := h.named commit hcommit request hrequest k _ hcorrects
        have hstays := hevolves.kept hold (hordinary _)
        have hsame := (hsound.history.classes k).overlay.eq_of_root hstays hentry hnamed
        have hmem := (h.sound.history.classes k).mem_rows hold old.head_mem_rows
        have hle := h.sound.history.version_le hmem
        rw [hsame, Entry.head_plain] at hle
        omega
      rw [suppliedTime_eq_none (hordinary _), Entry.root_plain, hnone]
      rfl
    · have hsupplied : suppliedTime k asset.id old.root.id (.correct k args) = args.occurredAt := by
        rw [suppliedTime, if_pos ⟨rfl, hown, hnamed⟩]
      rw [Entry.head_amend, Entry.root_amend, hsupplied, htime, h.times k old hold]

/-- Every committed action keeps the account. -/
theorem exec (h : TracedAsset posixSpace creation facts commits state asset entries)
    (hexec : Registry.exec posixSpace action state = .ok next) :
    ∃ updated fresh, updated.id = asset.id ∧
      TracedAsset posixSpace creation facts (commits ++ [⟨state, action, next⟩]) next updated
        fresh := by
  rcases Registry.exec_cases hexec with ⟨more, rfl, rfl⟩ | ⟨ctx, call, after, hcall, rfl, hperform⟩
  · refine ⟨asset, entries, rfl, h.sound.extend more, h.rooted,
      fun commit hcommit request hrequest => ?_, fun k entry hentry => ?_⟩
    · rcases List.mem_append.mp hcommit with hdone | hnew
      · exact h.named commit hdone request hrequest
      · rw [List.mem_singleton.mp hnew] at hrequest
        exact absurd hrequest (by simp [LifecycleAction.call?])
    · rw [suppliedTimes_concat, getLast?_append_toList]
      exact h.times k entry hentry
  · obtain ⟨updated, fresh, hid, hsound, hevolves⟩ := h.sound.perform hperform
    exact ⟨updated, fresh, hid, h.perform hcall hid (h.rooted.perform hperform) hsound hevolves⟩

end TracedAsset

end

/-! ## What a root keeps -/

section

variable {posixSpace : Char → Bool} {creation : HistoryRow AssetState} {facts : InitialFacts}
  {refs : References} {tables : AssetTables} {state next : Registry}
  {action : LifecycleAction} {asset : AssetRow} {id : Uuid} {k : HistoryClass}
  {entries : (k : HistoryClass) → List (Entry (HistoryRow (Fact k)))}

/-- A root whose head is below the version of its Asset. -/
def Registry.Passed (posixSpace : Char → Bool) (creation : HistoryRow AssetState)
    (facts : InitialFacts) (k : HistoryClass) (id root : Uuid) (state : Registry) : Prop :=
  ∃ asset entries, asset.id = id ∧
    SoundAsset posixSpace creation facts state.refs state.tables asset entries ∧
    ∃ entry ∈ entries k, entry.root.id = root ∧ entry.head.resultVersion < asset.version

theorem Registry.Passed.not_newest {root : Uuid}
    (h : state.Passed posixSpace creation facts k id root) : ¬state.tables.Newest k id root := by
  obtain ⟨asset, entries, rfl, hsound, entry, hentry, rfl, hlt⟩ := h
  rw [hsound.newest_iff hentry]
  exact hlt.ne

/-- It is never the newest again: only a call on the newest root could amend it. -/
theorem Registry.Passed.exec {root : Uuid} (h : state.Passed posixSpace creation facts k id root)
    (hexec : Registry.exec posixSpace action state = .ok next) :
    next.Passed posixSpace creation facts k id root := by
  obtain ⟨asset, entries, rfl, hsound, entry, hentry, rfl, hlt⟩ := h
  rcases Registry.exec_cases hexec with ⟨more, -, rfl⟩ | ⟨ctx, call, after, -, rfl, hperform⟩
  · exact ⟨asset, entries, rfl, hsound.extend more, entry, hentry, rfl, hlt⟩
  · obtain ⟨updated, fresh, hid, hafter, hevolves⟩ := hsound.perform hperform
    have hversion := hsound.version_perform hafter hid hperform
    have hnot : ¬call.Corrects k asset.id entry.root.id := by
      intro hcorrects
      have heq := (hevolves.amends (hsound.history.classes k).overlay.roots hentry hcorrects).1
      omega
    refine ⟨updated, fresh, hid, hafter, entry, hevolves.kept hentry hnot, rfl, ?_⟩
    split at hversion
    · omega
    · omega

/-- The effective rows of the Asset below a version that it has reached. -/
def Registry.Settled (posixSpace : Char → Bool) (creation : HistoryRow AssetState)
    (facts : InitialFacts) (id : Uuid) (version : ℕ)
    (rows : (k : HistoryClass) → List (HistoryRow (Fact k))) (state : Registry) : Prop :=
  ∃ asset entries, asset.id = id ∧
    SoundAsset posixSpace creation facts state.refs state.tables asset entries ∧
    version ≤ asset.version ∧
    ∀ k, ((entries k).map Entry.head).filter (fun row => decide (row.resultVersion < version)) =
      rows k

theorem Registry.Settled.exec {version : ℕ} {rows : (k : HistoryClass) → List (HistoryRow (Fact k))}
    (h : state.Settled posixSpace creation facts id version rows)
    (hexec : Registry.exec posixSpace action state = .ok next) :
    next.Settled posixSpace creation facts id version rows := by
  obtain ⟨asset, entries, rfl, hsound, hreached, hrows⟩ := h
  rcases Registry.exec_cases hexec with ⟨more, -, rfl⟩ | ⟨ctx, call, after, -, rfl, hperform⟩
  · exact ⟨asset, entries, rfl, hsound.extend more, hreached, hrows⟩
  · obtain ⟨updated, fresh, hid, hafter, hevolves⟩ := hsound.perform hperform
    have hversion := hsound.version_perform hafter hid hperform
    refine ⟨updated, fresh, hid, hafter, ?_, fun k => (hevolves.settled hreached k).trans (hrows k)⟩
    split at hversion
    · omega
    · omega

theorem Registry.Settled.effectiveRows {version : ℕ}
    {rows : (k : HistoryClass) → List (HistoryRow (Fact k))}
    (h : state.Settled posixSpace creation facts id version rows) (k : HistoryClass) :
    (effectiveRows state.tables k id).filter (fun row => decide (row.resultVersion < version)) =
      rows k := by
  obtain ⟨asset, entries, rfl, hsound, -, hrows⟩ := h
  rw [FleetOps.effectiveRows, (hsound.history.classes k).effective_eq]
  exact hrows k

/-- The fact in force before a version is read off the effective rows below it. -/
theorem Registry.Settled.standingBefore {version : ℕ}
    {rows : (k : HistoryClass) → List (HistoryRow (Fact k))}
    (h : state.Settled posixSpace creation facts id version rows) (k : HistoryClass) :
    standingBefore state.tables k id version =
      match Query.latestBy HistoryRow.resultVersion (rows k) with
      | some previous => previous.toFact
      | none => facts.baseline k := by
  have hrows := h.effectiveRows k
  obtain ⟨asset, entries, rfl, hsound, -⟩ := h
  have hbefore : effectiveBefore (state.tables.history k) asset.id version =
      Query.latestBy HistoryRow.resultVersion (rows k) := by
    rw [effectiveBefore, ← hrows, FleetOps.effectiveRows, List.filter_filter]
    congr 1
    refine List.filter_congr fun row _ => ?_
    simp [Bool.and_comm]
  rw [FleetOps.standingBefore, hbefore, hsound.history.initial]
  rfl

end

/-! ## Eligibility -/

/-- What holds of the corrections of a root, in a state that a run committed. -/
structure Correctable (posixSpace : Char → Bool) (creation : HistoryRow AssetState)
    (asset : AssetRow) (k : HistoryClass) (original : HistoryRow (Fact k))
    (commits : List (Machine.Commit LifecycleAction Registry)) (state : Registry) : Prop where
  /-- With valid arguments, a correction is accepted exactly of the newest root. -/
  accepted : ∀ (ctx : Context) (args : CorrectionArgs k) (actor : Uuid) (reason : String)
    (time : Timestamp) (keys : PairKeys), args.rootId = original.id →
      (k = .transition → original.id ≠ creation.id) →
      args.Valid { ctx with refs := state.refs, posixSpace } state.tables asset
        (standingBefore state.tables k asset.id original.resultVersion) actor reason time keys →
      ((∃ after, perform ({ ctx with refs := state.refs, posixSpace }, .correct k args)
          state.tables = .ok after) ↔ state.tables.Newest k asset.id original.id)
  /-- Whatever the arguments, no other root is corrected. -/
  refused : ¬state.tables.Newest k asset.id original.id → ∀ (ctx : Context)
    (args : CorrectionArgs k), args.assetId = asset.id → args.rootId = original.id → ∀ after,
      perform ({ ctx with refs := state.refs, posixSpace }, .correct k args) state.tables ≠
        .ok after
  /-- An accepted call on the Asset leaves the root the newest if it corrects the root. -/
  passes : ∀ action next request, action.call? = some request →
    Registry.exec posixSpace action state = .ok next →
      (next.tables.Newest k asset.id original.id ↔
        if request.2.assetId = asset.id then request.2.Corrects k asset.id original.id
        else state.tables.Newest k asset.id original.id)
  /-- A root that is not the newest never is again. -/
  lost : ¬state.tables.Newest k asset.id original.id → ∀ later,
    ¬(Machine.run (Registry.exec posixSpace) later state).tables.Newest k asset.id original.id
  /-- The head in force starts from the fact before the root, at the last time supplied. -/
  head : ∃ head, effectiveHead state.tables k asset.id original.id = some head ∧
    head.fromFact = standingBefore state.tables k asset.id original.resultVersion ∧
    head.occurredAt =
      (suppliedTimes commits k asset.id original.id).getLast?.getD original.occurredAt
  /-- What was in force before the root stays in force. -/
  settled : ∀ later, let after := Machine.run (Registry.exec posixSpace) later state
    standingBefore after.tables k asset.id original.resultVersion =
        standingBefore state.tables k asset.id original.resultVersion ∧
      ∀ j, (effectiveRows after.tables j asset.id).filter
          (fun row => decide (row.resultVersion < original.resultVersion)) =
        (effectiveRows state.tables j asset.id).filter
          (fun row => decide (row.resultVersion < original.resultVersion))

section

variable {posixSpace : Char → Bool} {creation : HistoryRow AssetState} {facts : InitialFacts}
  {commits : List (Machine.Commit LifecycleAction Registry)} {state : Registry} {asset : AssetRow}
  {entries : (k : HistoryClass) → List (Entry (HistoryRow (Fact k)))} {k : HistoryClass}

namespace TracedAsset

variable (h : TracedAsset posixSpace creation facts commits state asset entries)

include h

/-- A correction that is accepted is of the newest root. -/
theorem newest_of_perform {ctx : Context} {args : CorrectionArgs k} {after : AssetTables}
    {entry : Entry (HistoryRow (Fact k))} (hentry : entry ∈ entries k)
    (hown : args.assetId = asset.id) (hroot : args.rootId = entry.root.id)
    (hperform : FleetOps.perform ({ ctx with refs := state.refs, posixSpace }, .correct k args)
      state.tables = .ok after) : state.tables.Newest k asset.id entry.root.id := by
  obtain ⟨updated, fresh, -, -, hevolves⟩ := h.sound.perform hperform
  rw [h.sound.newest_iff hentry]
  exact (hevolves.amends (h.sound.history.classes k).overlay.roots hentry
    ⟨args, rfl, hown, hroot⟩).1

theorem accepted {ctx : Context} {args : CorrectionArgs k} {actor : Uuid} {reason : String}
    {time : Timestamp} {keys : PairKeys} {entry : Entry (HistoryRow (Fact k))}
    (hentry : entry ∈ entries k) (hroot : args.rootId = entry.root.id)
    (hcreation : k = .transition → entry.root.id ≠ creation.id)
    (hvalid : args.Valid { ctx with refs := state.refs, posixSpace } state.tables asset
      (standingBefore state.tables k asset.id entry.root.resultVersion) actor reason time keys)
    (hnewest : state.tables.Newest k asset.id entry.root.id) :
    ∃ after, FleetOps.perform ({ ctx with refs := state.refs, posixSpace }, .correct k args)
      state.tables = .ok after := by
  have hversion := (h.sound.newest_iff hentry).mp hnewest
  obtain ⟨earlier, hsplit⟩ := h.sound.history.last_of_version hentry hversion
  have hclass := h.sound.history.classes k
  rw [hsplit] at hclass
  rw [h.sound.history.standingBefore_eq hclass.effectiveBefore_root] at hvalid
  refine SoundAsset.correct_accepted { ctx with refs := state.refs, posixSpace } h.sound
    h.rooted hsplit hroot.symm hversion ?_ hvalid
  rintro rfl rfl
  -- The first entry of the lifecycle is the creation event.
  obtain ⟨rest, hbegins⟩ := h.sound.history.creation
  rw [hsplit, List.nil_append] at hbegins
  have hfirst := (List.cons.inj hbegins).1
  exact hcreation rfl (by rw [hfirst]; rfl)

/-- An accepted call on the Asset leaves only a root that it corrects the newest. -/
theorem newest_exec {action : LifecycleAction} {next : Registry} {request : Context × Call}
    {entry : Entry (HistoryRow (Fact k))} (hentry : entry ∈ entries k)
    (hcall : action.call? = some request)
    (hexec : Registry.exec posixSpace action state = .ok next) :
    next.tables.Newest k asset.id entry.root.id ↔
      if request.2.assetId = asset.id then request.2.Corrects k asset.id entry.root.id
      else state.tables.Newest k asset.id entry.root.id := by
  rcases Registry.exec_cases hexec with ⟨more, rfl, -⟩ | ⟨ctx, call, after, hsome, rfl, hperform⟩
  · exact absurd hcall (by simp [LifecycleAction.call?])
  · obtain rfl := Option.some.inj (hcall.symm.trans hsome)
    obtain ⟨updated, fresh, hid, hafter, hevolves⟩ := h.sound.perform hperform
    have hversion := h.sound.version_perform hafter hid hperform
    have hroots := (h.sound.history.classes k).overlay.roots
    have hmem := (h.sound.history.classes k).mem_rows hentry entry.head_mem_rows
    have hle := h.sound.history.version_le hmem
    by_cases hcorrects : call.Corrects k asset.id entry.root.id
    · obtain ⟨-, pair, hpair, hnumber⟩ := hevolves.amends hroots hentry hcorrects
      have hnewest := hafter.newest_iff hpair
      obtain ⟨args, hargs, hsame, -⟩ := id hcorrects
      have hown : call.assetId = asset.id := by
        rw [hargs]
        exact hsame
      have hproduces : call.produces = 2 := by
        rw [hargs]
        rfl
      rw [if_pos hown, hproduces] at hversion
      rw [hid, Entry.root_amend, Entry.head_amend] at hnewest
      rw [if_pos hown]
      exact iff_of_true (hnewest.mpr (hnumber.trans hversion.symm)) hcorrects
    · have hnewest := hafter.newest_iff (hevolves.kept hentry hcorrects)
      rw [hid] at hnewest
      rw [hnewest, hversion]
      by_cases hown : call.assetId = asset.id
      · rw [if_pos hown, if_pos hown]
        have hpos := call.produces_pos
        exact iff_of_false (by omega) hcorrects
      · rw [if_neg hown, if_neg hown]
        exact (h.sound.newest_iff hentry).symm

theorem head_of_entry {entry : Entry (HistoryRow (Fact k))} (hentry : entry ∈ entries k) :
    ∃ head, effectiveHead state.tables k asset.id entry.root.id = some head ∧
      head.fromFact = standingBefore state.tables k asset.id entry.root.resultVersion ∧
      head.occurredAt =
        (suppliedTimes commits k asset.id entry.root.id).getLast?.getD entry.root.occurredAt := by
  have hclass := h.sound.history.classes k
  refine ⟨entry.head, hclass.effectiveHead_eq hentry, ?_, h.times k entry hentry⟩
  obtain ⟨earlier, later, hsplit⟩ := List.append_of_mem hentry
  rw [hsplit] at hclass
  rw [h.sound.history.standingBefore_eq hclass.effectiveBefore_root]
  exact h.sound.history.head_source earlier later hsplit

theorem correctable {original : HistoryRow (Fact k)}
    (hmem : original ∈ state.tables.rowsFor k asset.id) (hrole : original.role = .none) :
    Correctable posixSpace creation asset k original commits state := by
  have hclass := h.sound.history.classes k
  have hreached := h.sound.history.version_le hmem
  rw [hclass.rows] at hmem
  obtain ⟨entry, hentry, rfl⟩ := hclass.overlay.entry_of_ordinary hmem hrole
  have hsettled : state.Settled posixSpace creation facts asset.id entry.root.resultVersion
      fun j => ((entries j).map Entry.head).filter fun row =>
        decide (row.resultVersion < entry.root.resultVersion) :=
    ⟨asset, entries, rfl, h.sound, hreached, fun _ => rfl⟩
  refine ⟨fun ctx args actor reason time keys hroot hcreation hvalid => ⟨?_, ?_⟩, ?_, ?_, ?_,
    h.head_of_entry hentry, fun later => ?_⟩
  · rintro ⟨after, hperform⟩
    exact h.newest_of_perform hentry hvalid.asset hroot hperform
  · exact h.accepted hentry hroot hcreation hvalid
  · intro hnot ctx args hown hroot after hperform
    exact hnot (h.newest_of_perform hentry hown hroot hperform)
  · exact fun action next request hcall hexec => h.newest_exec hentry hcall hexec
  · intro hnot later
    have hle := h.sound.history.version_le (hclass.mem_rows hentry entry.head_mem_rows)
    rw [h.sound.newest_iff hentry] at hnot
    have hpassed := Machine.run_invariant (Registry.exec posixSpace)
      (Registry.Passed posixSpace creation facts k asset.id entry.root.id) (fun _ => True)
      (fun action state next _ hexec hinv => hinv.exec hexec) later state (fun _ _ => trivial)
      ⟨asset, entries, rfl, h.sound, entry, hentry, rfl, by omega⟩
    exact hpassed.not_newest
  · have hafter := Machine.run_invariant (Registry.exec posixSpace)
      (Registry.Settled posixSpace creation facts asset.id entry.root.resultVersion _)
      (fun _ => True) (fun action state next _ hexec hinv => hinv.exec hexec) later state
      (fun _ _ => trivial) hsettled
    refine ⟨(hafter.standingBefore k).trans (hsettled.standingBefore k).symm, fun j => ?_⟩
    exact (hafter.effectiveRows j).trans (hsettled.effectiveRows j).symm

end TracedAsset

end

/-- In every state that actions reach from an Asset's creation, and of every root: a valid
correction is accepted exactly when the root's effective head is the Asset's newest event; once
another event committed it is refused for ever; and through any chain of corrections the head
starts from the fact before the root, at the last time supplied, above rows that never change. -/
theorem correctionEligibility {ctx : Context} {args : UnitArgs} {tenant created : Tenant}
    {line : ReceiptLine} (hkeys : tenant.tables.Referential)
    (hconstrained : tenant.tables.Constrained ctx.posixSpace) (hrooted : tenant.tables.Rooted)
    (hcreate : createReceivedUnit ctx args tenant = .ok (line, created))
    (actions : List LifecycleAction) :
    let start : Registry := ⟨ctx.refs, created.tables⟩
    let state := Machine.run (Registry.exec ctx.posixSpace) actions start
    ∃ creation asset, created.tables.rowsFor .transition args.assetId = [creation] ∧
      state.tables.assets.find? (·.id = args.assetId) = some asset ∧
      ∀ k, ∀ original ∈ state.tables.rowsFor k args.assetId, original.role = .none →
        Correctable ctx.posixSpace creation asset k original
          (Machine.commits (Registry.exec ctx.posixSpace) actions start) state := by
  obtain ⟨receipt, owner, performer, hinsert⟩ := createReceivedUnit_eq_ok hcreate
  have hbegin := sound_of_insertReceivedAsset hkeys hconstrained hinsert
  have hrun := Machine.run_traced (Registry.exec ctx.posixSpace)
    (fun commits state => ∃ asset entries, asset.id = args.assetId ∧
      TracedAsset ctx.posixSpace (args.creation receipt performer ctx.session.now)
        (args.facts receipt owner performer ctx.session.now) commits state asset entries)
    (fun done action state next hexec hinv => by
      obtain ⟨asset, entries, hid, htraced⟩ := hinv
      obtain ⟨updated, fresh, hupdated, hafter⟩ := htraced.exec hexec
      exact ⟨updated, fresh, hupdated.trans hid, hafter⟩)
    actions [] ⟨ctx.refs, created.tables⟩
    ⟨_, _, rfl, hbegin, rooted_of_insertReceivedAsset hrooted hinsert,
      fun commit hcommit => absurd hcommit List.not_mem_nil, fun k entry hentry => ?_⟩
  · obtain ⟨asset, entries, hid, htraced⟩ := hrun
    refine ⟨args.creation receipt performer ctx.session.now, asset,
      (hbegin.history.classes .transition).rows.trans (by simp), ?_,
      fun k original hmem hrole => ?_⟩
    · rw [← hid]
      exact htraced.sound.history.found
    · rw [← hid] at hmem
      exact htraced.correctable hmem hrole
  · by_cases hk : k = .transition
    · subst hk
      rw [Function.update_self] at hentry
      rw [List.mem_singleton.mp hentry]
      rfl
    · rw [Function.update_of_ne hk] at hentry
      exact absurd hentry List.not_mem_nil

theorem correctionEligibility_sample :
    ∃ line created creation asset, createReceivedUnit sampleContext sampleUnit sampleTenant =
      .ok (line, created) ∧
        let start : Registry := ⟨sampleContext.refs, created.tables⟩
        let state := Machine.run (Registry.exec sampleContext.posixSpace) sampleLifecycle start
        state.tables.assets.find? (·.id = 8) = some asset ∧
          ∀ k, ∀ original ∈ state.tables.rowsFor k 8, original.role = .none →
            Correctable sampleContext.posixSpace creation asset k original
              (Machine.commits (Registry.exec sampleContext.posixSpace) sampleLifecycle start)
              state := by
  obtain ⟨line, created, hcreate, -⟩ := sampleUnit_created
  have hrooted : sampleTenant.tables.Rooted := fun _ _ hrow => absurd hrow List.not_mem_nil
  obtain ⟨creation, asset, -, hfound, hroots⟩ := correctionEligibility sampleTenant_referential
    sampleTenant_constrained hrooted hcreate sampleLifecycle
  exact ⟨line, created, creation, asset, hcreate, hfound, hroots⟩

end FleetOps
