import FleetOps.Client.Queue
import FleetOps.Foundations.Keys
import FleetOps.Foundations.Machine
import FleetOps.Foundations.Sequence

/-!
# Allocation in the capture queue

Any number of tabs work on one database.  `step` is one transaction of one of
them; what tabs have read and still hold is part of the state, because a row may
be written back long after it was read.  `committed` lists the operations in the
order in which the transactions that stored them committed.

`Allocated` is what holds of the stored operations after any run.  It follows
from one fact about `allocate` (`Ready.allocate`): the device hands out the next
number of an epoch that belongs to the scope.
-/

namespace FleetOps

namespace Client

open Sequence

/-! ## The machine -/

/-- An operation in the store, by itself or as the evidence link of a row. -/
structure Stored where
  ordinal : ℕ
  scope : Scope
  operation : Operation

def Stored.epoch (entry : Stored) : Uuid := entry.operation.clientEpoch

def Stored.seq (entry : Stored) : ℕ := entry.operation.clientSeq

/-- The operations of a row. -/
def QueueRow.stored (row : QueueRow) : List Stored :=
  ⟨row.ordinal, row.scope, row.envelope⟩ ::
    match row.evidenceOperation, row.evidenceOrdinal with
    | some op, some ordinal => [⟨ordinal, row.scope, op⟩]
    | _, _ => []

def Database.stored (db : Database) : List Stored := db.queue.flatMap QueueRow.stored

/-- The database, and the rows that tabs have read. -/
structure Tabs where
  db : Database := {}
  read : List QueueRow := []
  committed : List Stored := []

/-- When `synchronize` writes an outcome back: a link was sent, or a photo uploaded, for a row
that was read with it. -/
def Outcome.Fits (held : QueueRow) : Outcome → Prop
  | linked | linkRejected _ => held.evidenceOperation.isSome
  | uploaded _ => held.photo.isSome
  | answered .. | failed _ => True

instance (held : QueueRow) : DecidablePred (Outcome.Fits held)
  | .linked | .linkRejected _ => inferInstanceAs (Decidable (held.evidenceOperation.isSome = true))
  | .uploaded _ => inferInstanceAs (Decidable (held.photo.isSome = true))
  | .answered .. | .failed _ => inferInstanceAs (Decidable True)

/-- A transaction of some tab.  `aborted` is one that drew identifiers and was lost. -/
inductive Action
  | enqueue (draws : Draws) (now : ℕ) (session : Session) (claim : Claim) (photo : Option Photo)
      (occurred : String)
  | evidenceOperation (draws : Draws) (session : Session) (id lineId : Uuid)
  | resetEpoch (epoch : Uuid) (session : Session)
  | rows (scope : Scope)
  | updateRow (index : ℕ) (outcome : Outcome)
  | aborted (drawn : List Uuid)

/-- The identifiers that a transaction draws. -/
def Action.drawn : Action → List Uuid
  | enqueue draws .. | evidenceOperation draws .. => draws.all
  | resetEpoch epoch _ => [epoch]
  | rows _ | updateRow .. => []
  | aborted drawn => drawn

/-- What a transaction stored: the operations whose ordinals were not there before. -/
def gained (before after : Database) : List Stored :=
  after.stored.filter fun entry => entry.ordinal ∉ before.stored.map Stored.ordinal

/-- A transaction commits. -/
def Tabs.commit (tabs : Tabs) (db : Database) : Tabs :=
  { tabs with db, committed := tabs.committed ++ gained tabs.db db }

/-- One transaction. -/
def step : Action → Tabs → Except String Tabs
  | .enqueue draws now session claim photo occurred, tabs =>
      (enqueue draws now session claim photo occurred tabs.db).map fun result =>
        tabs.commit result.2
  | .evidenceOperation draws session id lineId, tabs =>
      (evidenceOperation draws session id lineId tabs.db).map fun result => tabs.commit result.2
  | .resetEpoch epoch session, tabs => .ok (tabs.commit (resetEpoch epoch session tabs.db))
  | .rows scope, tabs =>
      .ok { tabs with read := tabs.read ++ tabs.db.queue.filter (·.scope = scope) }
  | .updateRow index outcome, tabs =>
      match tabs.read[index]? with
      | none => .error "not read"
      | some held =>
          if outcome.Fits held then
            (updateRow held.id outcome tabs.db).map fun result => tabs.commit result.2
          else .error "not sent"
  | .aborted _, _ => .error "Local capture could not be saved"

/-! ## What the device hands out -/

/-- The device goes on with the numbers of its epoch, which belongs to its scope. -/
structure Ready (committed : List Stored) (device : Device) : Prop where
  ordinals : ∀ entry ∈ committed, entry.ordinal ≤ device.ordinal
  count : (numbers Stored.epoch Stored.seq committed device.epoch).length = device.seq
  scope : ∀ entry ∈ committed, entry.epoch = device.epoch → entry.scope = device.scope
  bounded : device.seq ≤ seqMax

namespace Ready

variable {committed : List Stored} {device : Device}

/-- An epoch that nothing was stored under. -/
theorem fresh (h : Ready committed device) {epoch : Uuid} {scope : Scope}
    (hepoch : ∀ entry ∈ committed, entry.epoch ≠ epoch) :
    Ready committed { device with epoch, seq := 0, scope } where
  ordinals := h.ordinals
  count := by rw [numbers_eq_nil hepoch]; rfl
  scope := fun entry hentry heq => absurd heq (hepoch entry hentry)
  bounded := Nat.zero_le _

end Ready

/-- What an allocation hands out: the next number of an epoch of the scope. -/
structure Next (committed : List Stored) (owner : Scope) (device : Device) : Prop where
  ordinals : ∀ entry ∈ committed, entry.ordinal < device.ordinal
  count : device.seq = (numbers Stored.epoch Stored.seq committed device.epoch).length + 1
  scope : ∀ entry ∈ committed, entry.epoch = device.epoch → entry.scope = owner
  owner : device.scope = owner
  bounded : device.seq ≤ seqMax

/-- The identifiers that a call draws are under no stored operation. -/
def Draws.Fresh (draws : Draws) (committed : List Stored) : Prop :=
  ∀ entry ∈ committed, entry.epoch ∉ draws.all

theorem next_allocate {committed : List Stored} {saved : Option Device} {draws : Draws}
    {scope : Scope} (hsaved : ∀ device ∈ saved, Ready committed device)
    (hnone : saved = none → committed = []) (hfresh : draws.Fresh committed) :
    Next committed scope (allocate draws saved scope false) := by
  have hne : ∀ epoch ∈ draws.all, ∀ entry ∈ committed, entry.epoch ≠ epoch :=
    fun epoch hepoch entry hentry heq => hfresh entry hentry (heq ▸ hepoch)
  have hstart : Ready committed (savedDevice draws saved scope) := by
    cases saved with
    | some device => exact hsaved device rfl
    | none =>
        rw [hnone rfl]
        exact ⟨by simp, rfl, by simp, Nat.zero_le _⟩
  have hscoped : Ready committed ((savedDevice draws saved scope).rescope draws scope false) ∧
      ((savedDevice draws saved scope).rescope draws scope false).scope = scope := by
    by_cases hsame : (savedDevice draws saved scope).scope = scope
    · rw [Device.rescope, if_neg (by simp [hsame])]
      exact ⟨hstart, hsame⟩
    · rw [Device.rescope, if_pos (.inr hsame)]
      exact ⟨hstart.fresh (hne draws.scopeEpoch (by simp [Draws.all])), rfl⟩
  obtain ⟨hready, howner⟩ := hscoped
  unfold allocate
  generalize (savedDevice draws saved scope).rescope draws scope false = device at hready howner
  by_cases hlimit : seqMax ≤ device.seq
  · have hrenumbered : Ready committed { device with epoch := draws.limitEpoch, seq := 0 } :=
      hready.fresh (hne draws.limitEpoch (by simp [Draws.all]))
    rw [Device.renumber, if_pos hlimit]
    refine ⟨fun entry hentry => Nat.lt_succ_of_le (hrenumbered.ordinals entry hentry),
      congrArg (· + 1) hrenumbered.count.symm,
      fun entry hentry heq => (hrenumbered.scope entry hentry heq).trans howner, howner, ?_⟩
    show 0 + 1 ≤ seqMax
    decide
  · rw [Device.renumber, if_neg hlimit]
    refine ⟨fun entry hentry => Nat.lt_succ_of_le (hready.ordinals entry hentry),
      congrArg (· + 1) hready.count.symm,
      fun entry hentry heq => (hready.scope entry hentry heq).trans howner, howner, ?_⟩
    show device.seq + 1 ≤ seqMax
    omega

/-- An operation stored with what an allocation handed out. -/
structure Stored.Of (device : Device) (owner : Scope) (entry : Stored) : Prop where
  ordinal : entry.ordinal = device.ordinal
  epoch : entry.epoch = device.epoch
  seq : entry.seq = device.seq
  scope : entry.scope = owner

theorem Next.ready {committed : List Stored} {scope : Scope} {device : Device}
    (h : Next committed scope device) {entry : Stored} (hentry : entry.Of device scope) :
    Ready (committed ++ [entry]) device where
  ordinals := by
    intro other hother
    rcases List.mem_append.mp hother with hold | hnew
    · exact (h.ordinals other hold).le
    · rw [List.mem_singleton.mp hnew, hentry.ordinal]
  count := by
    rw [← hentry.epoch, numbers_concat_self, List.length_append, List.length_singleton,
      hentry.epoch, ← h.count]
  scope := by
    intro other hother heq
    rw [h.owner]
    rcases List.mem_append.mp hother with hold | hnew
    · exact h.scope other hold heq
    · rw [List.mem_singleton.mp hnew, hentry.scope]
  bounded := h.bounded

/-! ## The invariant -/

/-- What holds of the stored operations. -/
structure Allocated (committed : List Stored) : Prop where
  /-- Ordinals ascend in the order of the commits. -/
  ascending : committed.Pairwise fun earlier later => earlier.ordinal < later.ordinal
  /-- Each epoch's operations are numbered 1, 2, … in that order. -/
  counted : Counted Stored.epoch Stored.seq committed
  owned : ∀ a ∈ committed, ∀ b ∈ committed, a.epoch = b.epoch → a.scope = b.scope
  bounded : ∀ entry ∈ committed, entry.seq ≤ seqMax

theorem Allocated.concat {committed : List Stored} (h : Allocated committed) {scope : Scope}
    {device : Device} (hnext : Next committed scope device) {entry : Stored}
    (hentry : entry.Of device scope) : Allocated (committed ++ [entry]) where
  ascending := by
    refine List.pairwise_append.mpr ⟨h.ascending, List.pairwise_singleton _ _, ?_⟩
    intro other hother last hlast
    rw [List.mem_singleton.mp hlast, hentry.ordinal]
    exact hnext.ordinals other hother
  counted := h.counted.concat (by rw [hentry.seq, hnext.count, hentry.epoch])
  owned := by
    have hold : ∀ other ∈ committed, other.epoch = entry.epoch → other.scope = entry.scope :=
      fun other hother heq =>
        (hnext.scope other hother (heq.trans hentry.epoch)).trans hentry.scope.symm
    intro a ha b hb heq
    rcases List.mem_append.mp ha with ha | ha
    · rcases List.mem_append.mp hb with hb | hb
      · exact h.owned a ha b hb heq
      · rw [List.mem_singleton.mp hb] at heq ⊢
        exact hold a ha heq
    · rw [List.mem_singleton.mp ha] at heq ⊢
      rcases List.mem_append.mp hb with hb | hb
      · exact (hold b hb heq.symm).symm
      · rw [List.mem_singleton.mp hb]
  bounded := by
    intro other hother
    rcases List.mem_append.mp hother with hold | hnew
    · exact h.bounded other hold
    · rw [List.mem_singleton.mp hnew, hentry.seq]
      exact hnext.bounded

theorem epoch_allocate (draws : Draws) (saved : Option Device) (scope : Scope) :
    (allocate draws saved scope false).epoch ∈ draws.all ∨
      ∃ device ∈ saved, (allocate draws saved scope false).epoch = device.epoch := by
  have hstart : (savedDevice draws saved scope).epoch ∈ draws.all ∨
      ∃ device ∈ saved, (savedDevice draws saved scope).epoch = device.epoch := by
    cases saved with
    | some device => exact .inr ⟨device, rfl, rfl⟩
    | none => exact .inl (by simp [savedDevice, Draws.all])
  unfold allocate Device.renumber
  by_cases hlimit : seqMax ≤ ((savedDevice draws saved scope).rescope draws scope false).seq
  · simp [hlimit, Draws.all]
  · simp only [hlimit, if_false]
    unfold Device.rescope
    by_cases hsame : (savedDevice draws saved scope).scope = scope
    · rw [if_neg (by simp [hsame])]
      exact hstart
    · rw [if_pos (.inr hsame)]
      exact .inl (by simp [Draws.all])

/-- What a row keeps about its photo and its link. -/
structure QueueRow.Whole (row : QueueRow) : Prop where
  photo : row.attachmentId.isSome → row.evidenceOperation = none → row.photo.isSome
  ordinal : row.evidenceOrdinal.isSome = row.evidenceOperation.isSome

/-- The stored row of one that a tab holds still has its link, and its photo or a link. -/
structure QueueRow.Holds (held row : QueueRow) : Prop where
  id : row.id = held.id
  link : held.evidenceOperation.isSome → row.evidenceOperation.isSome
  photo : held.photo.isSome → row.photo.isSome ∨ row.evidenceOperation.isSome

/-- A later row of the same capture: nothing that was queued has changed. -/
structure QueueRow.Frozen (row later : QueueRow) : Prop where
  id : later.id = row.id
  scope : later.scope = row.scope
  ordinal : later.ordinal = row.ordinal
  envelope : later.envelope = row.envelope
  evidence : row.evidenceOperation.isSome → later.evidenceOperation = row.evidenceOperation ∧
    later.evidenceOrdinal = row.evidenceOrdinal

theorem QueueRow.Frozen.refl (row : QueueRow) : row.Frozen row :=
  ⟨rfl, rfl, rfl, rfl, fun _ => ⟨rfl, rfl⟩⟩

theorem QueueRow.Frozen.trans {a b c : QueueRow} (hab : a.Frozen b) (hbc : b.Frozen c) :
    a.Frozen c where
  id := hbc.id.trans hab.id
  scope := hbc.scope.trans hab.scope
  ordinal := hbc.ordinal.trans hab.ordinal
  envelope := hbc.envelope.trans hab.envelope
  evidence := by
    intro hsome
    obtain ⟨hop, hordinal⟩ := hab.evidence hsome
    obtain ⟨hop', hordinal'⟩ := hbc.evidence (hop ▸ hsome)
    exact ⟨hop'.trans hop, hordinal'.trans hordinal⟩

/-- The invariant, over the identifiers that were drawn so far. -/
structure Sound (drawn : List Uuid) (tabs : Tabs) : Prop where
  ids : (tabs.db.queue.map QueueRow.id).Nodup
  stored : tabs.committed.Perm tabs.db.stored
  allocated : Allocated tabs.committed
  device : ∀ device ∈ tabs.db.device, Ready tabs.committed device ∧ device.epoch ∈ drawn
  blank : tabs.db.device = none → tabs.committed = []
  drawn : ∀ entry ∈ tabs.committed, entry.epoch ∈ drawn
  whole : ∀ row ∈ tabs.db.queue, row.Whole
  read : ∀ held ∈ tabs.read, ∃ row ∈ tabs.db.queue, held.Holds row

/-- Nothing is changed in a row that is stored again. -/
theorem put_split {queue : List QueueRow} (hids : (queue.map QueueRow.id).Nodup) {saved : QueueRow}
    (hsaved : saved ∈ queue) : ∃ front back, queue = front ++ saved :: back ∧
      ∀ row : QueueRow, row.id = saved.id → put row queue = front ++ row :: back := by
  obtain ⟨front, back, rfl⟩ := List.append_of_mem hsaved
  refine ⟨front, back, rfl, fun row hid => ?_⟩
  rw [List.map_append, List.map_cons, List.nodup_append, List.nodup_cons] at hids
  obtain ⟨-, ⟨hback, -⟩, hfront⟩ := hids
  have hothers : ∀ others : List QueueRow, (∀ other ∈ others, other.id ≠ row.id) →
      put row others = others := by
    intro others hne
    refine List.map_congr_left (fun other hother => if_neg (hne other hother)) |>.trans ?_
    exact List.map_id' others
  have hfrontPut : put row front = front := hothers front fun other hother heq =>
    hfront _ (List.mem_map_of_mem hother) _ (List.mem_cons_self ..) (heq.trans hid)
  have hbackPut : put row back = back := hothers back fun other hother heq =>
    hback (hid ▸ heq ▸ List.mem_map_of_mem hother)
  rw [put, List.map_append, List.map_cons, if_pos hid.symm]
  exact congrArg₂ (fun a b => a ++ row :: b) hfrontPut hbackPut

/-- What a transaction gains that stores one operation more. -/
theorem gained_eq {before after : Database} {front back : List Stored} {entry : Stored}
    (hbefore : before.stored = front ++ back) (hafter : after.stored = front ++ entry :: back)
    (hnew : ∀ old ∈ before.stored, old.ordinal ≠ entry.ordinal) : gained before after = [entry] := by
  have hold : ∀ part : List Stored, (∀ old ∈ part, old ∈ before.stored) →
      (part.filter fun e => e.ordinal ∉ before.stored.map Stored.ordinal) = [] := by
    intro part hpart
    refine List.filter_eq_nil_iff.mpr fun old hmem => ?_
    simpa using ⟨old, hpart old hmem, rfl⟩
  rw [gained, hafter, List.filter_append, List.filter_cons_of_pos, hold front, hold back]
  · rfl
  · exact fun old hmem => hbefore ▸ List.mem_append_right _ hmem
  · exact fun old hmem => hbefore ▸ List.mem_append_left _ hmem
  · simpa using hnew

theorem gained_of_stored_eq {before after : Database} (h : after.stored = before.stored) :
    gained before after = [] := by
  rw [gained, h]
  exact List.filter_eq_nil_iff.mpr fun old hmem => by simpa using ⟨old, hmem, rfl⟩

/-- What a transaction stored: at most what it was allocated, under fresh identifiers. -/
def Gains (tabs after : Tabs) : Prop :=
  ∀ entry ∈ after.committed, entry ∈ tabs.committed ∨
    ∃ draws scope, Draws.Fresh draws tabs.committed ∧
    entry.Of (allocate draws tabs.db.device scope false) scope

theorem gains_of_eq {tabs after : Tabs} (h : after.committed = tabs.committed) : Gains tabs after :=
  fun _ hentry => .inl (h ▸ hentry)

/-- What a committed transaction keeps. -/
structure Kept (drawn : List Uuid) (tabs after : Tabs) : Prop where
  sound : Sound drawn after
  frozen : ∀ row ∈ tabs.db.queue, ∃ later ∈ after.db.queue, row.Frozen later
  gains : Gains tabs after

theorem Kept.of {drawn : List Uuid} {tabs after : Tabs} (h : Sound drawn after ∧ Gains tabs after)
    (hfrozen : ∀ row ∈ tabs.db.queue, ∃ later ∈ after.db.queue, row.Frozen later) :
    Kept drawn tabs after :=
  ⟨h.1, hfrozen, h.2⟩

section

variable {drawn : List Uuid} {tabs : Tabs}

theorem Sound.fresh (h : Sound drawn tabs) {draws : Draws} (hfresh : ∀ u ∈ draws.all, u ∉ drawn) :
    draws.Fresh tabs.committed :=
  fun entry hentry hmem => hfresh _ hmem (h.drawn entry hentry)

/-- A transaction that stores the operation it allocated. -/
theorem Sound.store (h : Sound drawn tabs) {draws : Draws} (hfresh : ∀ u ∈ draws.all, u ∉ drawn)
    {queue : List QueueRow} {scope : Scope} {device : Device}
    (hallocate : allocate draws tabs.db.device scope false = device) {entry : Stored}
    (hentry : entry.Of device scope) {front back : List Stored}
    (hbefore : tabs.db.stored = front ++ back)
    (hafter : queue.flatMap QueueRow.stored = front ++ entry :: back)
    (hids : (queue.map QueueRow.id).Nodup) (hwhole : ∀ row ∈ queue, row.Whole)
    (hread : ∀ held ∈ tabs.read, ∃ row ∈ queue, held.Holds row) :
    Sound (drawn ++ draws.all) (tabs.commit { device := some device, queue }) ∧
      Gains tabs (tabs.commit { device := some device, queue }) := by
  have hnext : Next tabs.committed scope device := hallocate ▸
    next_allocate (fun old hold => (h.device old hold).1) h.blank (h.fresh hfresh)
  have hnew : ∀ old ∈ tabs.db.stored, old.ordinal ≠ entry.ordinal := by
    intro old hold
    rw [hentry.ordinal]
    exact (hnext.ordinals old (h.stored.mem_iff.mpr hold)).ne
  have hgained : gained tabs.db { device := some device, queue } = [entry] :=
    gained_eq hbefore hafter hnew
  have hdrawn : device.epoch ∈ drawn ++ draws.all := by
    rw [List.mem_append, ← hallocate]
    rcases epoch_allocate draws tabs.db.device scope with hnew | ⟨old, hold, heq⟩
    · exact .inr hnew
    · exact .inl (heq ▸ (h.device old hold).2)
  have hcommitted : (tabs.commit { device := some device, queue }).committed =
      tabs.committed ++ [entry] := congrArg (tabs.committed ++ ·) hgained
  refine ⟨⟨hids, ?_, ?_, ?_, ?_, ?_, hwhole, hread⟩, ?_⟩
  · rw [hcommitted]
    refine (h.stored.append_right [entry]).trans ?_
    show (tabs.db.stored ++ [entry]).Perm (queue.flatMap QueueRow.stored)
    rw [hafter, hbefore, List.append_assoc]
    exact (List.perm_append_singleton entry back).append_left front
  · rw [hcommitted]
    exact h.allocated.concat hnext hentry
  · intro other hother
    obtain rfl : device = other := Option.some.inj hother
    rw [hcommitted]
    exact ⟨hnext.ready hentry, hdrawn⟩
  · intro hnone
    exact absurd hnone (by simp [Tabs.commit])
  · rw [hcommitted]
    intro other hother
    rcases List.mem_append.mp hother with hold | hlast
    · exact List.mem_append_left _ (h.drawn other hold)
    · rw [List.mem_singleton.mp hlast, hentry.epoch]
      exact hdrawn
  · intro other hother
    rw [hcommitted, List.mem_append, List.mem_singleton] at hother
    rcases hother with hold | rfl
    · exact .inl hold
    · exact .inr ⟨draws, scope, h.fresh hfresh, hallocate ▸ hentry⟩

/-- A transaction that writes a row back without an allocation. -/
theorem Sound.keep (h : Sound drawn tabs) {queue : List QueueRow}
    (hstored : queue.flatMap QueueRow.stored = tabs.db.stored)
    (hids : (queue.map QueueRow.id).Nodup) (hwhole : ∀ row ∈ queue, row.Whole)
    (hread : ∀ held ∈ tabs.read, ∃ row ∈ queue, held.Holds row) :
    Sound drawn (tabs.commit { tabs.db with queue }) ∧
      Gains tabs (tabs.commit { tabs.db with queue }) := by
  have hcommitted : (tabs.commit { tabs.db with queue }).committed = tabs.committed := by
    have hgained : gained tabs.db { tabs.db with queue } = [] := gained_of_stored_eq hstored
    rw [Tabs.commit, hgained, List.append_nil]
  refine ⟨⟨hids, ?_, ?_, ?_, ?_, ?_, hwhole, hread⟩, gains_of_eq hcommitted⟩
  · rw [hcommitted]
    exact h.stored.trans (List.Perm.of_eq hstored.symm)
  · rw [hcommitted]
    exact h.allocated
  · rw [hcommitted]
    exact h.device
  · rw [hcommitted]
    exact h.blank
  · rw [hcommitted]
    exact h.drawn

/-- More identifiers drawn. -/
theorem Sound.draw (h : Sound drawn tabs) (more : List Uuid) : Sound (drawn ++ more) tabs :=
  { h with
    device := fun device hdevice =>
      ⟨(h.device device hdevice).1, List.mem_append_left _ (h.device device hdevice).2⟩
    drawn := fun entry hentry => List.mem_append_left _ (h.drawn entry hentry) }

theorem QueueRow.Holds.trans_frozen {held row later : QueueRow} (h : held.Holds row)
    (hid : later.id = row.id) (hlink : row.evidenceOperation.isSome → later.evidenceOperation.isSome)
    (hphoto : row.photo.isSome → later.photo.isSome ∨ later.evidenceOperation.isSome) :
    held.Holds later where
  id := hid.trans h.id
  link := fun hsome => hlink (h.link hsome)
  photo := fun hsome => (h.photo hsome).elim hphoto fun hop => .inr (hlink hop)

/-- Rows that are written back stay where they were, for those who hold them. -/
theorem holds_put {queue front back : List QueueRow} {saved row : QueueRow}
    (hqueue : queue = front ++ saved :: back) (hrow : saved.Holds row) {held : QueueRow}
    (h : ∃ row ∈ queue, held.Holds row) : ∃ other ∈ front ++ row :: back, held.Holds other := by
  obtain ⟨other, hother, hholds⟩ := h
  subst hqueue
  rcases List.mem_append.mp hother with hfront | hrest
  · exact ⟨other, List.mem_append_left _ hfront, hholds⟩
  · rcases List.mem_cons.mp hrest with rfl | hback
    · exact ⟨row, by simp, hholds.trans_frozen hrow.id hrow.link hrow.photo⟩
    · exact ⟨other, List.mem_append_right _ (List.mem_cons_of_mem _ hback), hholds⟩

theorem frozen_put {queue front back : List QueueRow} {saved row : QueueRow}
    (hqueue : queue = front ++ saved :: back) (hrow : saved.Frozen row) :
    ∀ other ∈ queue, ∃ later ∈ front ++ row :: back, other.Frozen later := by
  intro other hother
  subst hqueue
  rcases List.mem_append.mp hother with hfront | hrest
  · exact ⟨other, List.mem_append_left _ hfront, .refl other⟩
  · rcases List.mem_cons.mp hrest with rfl | hback
    · exact ⟨row, by simp, hrow⟩
    · exact ⟨other, List.mem_append_right _ (List.mem_cons_of_mem _ hback), .refl other⟩

theorem Sound.enqueue (h : Sound drawn tabs) {draws : Draws} (hfresh : ∀ u ∈ draws.all, u ∉ drawn)
    {now : ℕ} {session : Session} {claim : Claim} {photo : Option Photo} {occurred : String}
    {row : QueueRow} {db : Database}
    (henqueue : enqueue draws now session claim photo occurred tabs.db = .ok (row, db)) :
    Kept (drawn ++ draws.all) tabs (tabs.commit db) := by
  unfold Client.enqueue at henqueue
  by_cases hexpired : session.expiresAt.all (· ≤ now)
  · simp [hexpired] at henqueue
  simp only [hexpired, Bool.false_eq_true, if_false] at henqueue
  generalize hallocate : allocate draws tabs.db.device (scopeOf session) false = device at henqueue
  split at henqueue
  · simp at henqueue
  next htaken =>
  simp only [Except.ok.injEq, Prod.mk.injEq] at henqueue
  obtain ⟨hrow, rfl⟩ := henqueue
  have hid : row.id = draws.operation := by
    rw [← hrow]
    rfl
  have hnew : ∀ other ∈ tabs.db.queue, other.id ≠ row.id := by
    intro other hother heq
    rw [hid] at heq
    exact htaken (List.any_eq_true.mpr ⟨other, hother, decide_eq_true heq⟩)
  rw [hrow]
  obtain ⟨entry, hentry⟩ : ∃ entry : Stored, entry = ⟨device.ordinal, scopeOf session,
      envelope draws.operation device session claim occurred⟩ := ⟨_, rfl⟩
  have hstored : row.stored = [entry] := by
    rw [← hrow, hentry]
    rfl
  have hof : entry.Of device (scopeOf session) := by
    rw [hentry]
    exact ⟨rfl, rfl, rfl, rfl⟩
  refine .of (h.store hfresh hallocate hof (List.append_nil _).symm ?_ ?_ ?_ ?_)
    fun other hother => ⟨other, List.mem_append_left _ hother, .refl other⟩
  · rw [List.flatMap_append, List.flatMap_singleton, hstored]
    rfl
  · rw [List.map_append, List.map_singleton, List.nodup_append]
    refine ⟨h.ids, List.nodup_singleton _, fun id hid other hother heq => ?_⟩
    obtain ⟨old, hold, rfl⟩ := List.mem_map.mp hid
    exact hnew old hold (heq.trans (List.mem_singleton.mp hother))
  · intro other hother
    rcases List.mem_append.mp hother with hold | hlast
    · exact h.whole other hold
    · rw [List.mem_singleton.mp hlast, ← hrow]
      exact ⟨fun hattachment => absurd hattachment (by simp), rfl⟩
  · intro held hheld
    obtain ⟨other, hother, hholds⟩ := h.read held hheld
    exact ⟨other, List.mem_append_left _ hother, hholds⟩

theorem Sound.evidenceOperation (h : Sound drawn tabs) {draws : Draws}
    (hfresh : ∀ u ∈ draws.all, u ∉ drawn) {session : Session} {id lineId : Uuid}
    {op : Option Operation} {db : Database}
    (hevidence : evidenceOperation draws session id lineId tabs.db = .ok (op, db)) :
    Kept (drawn ++ draws.all) tabs (tabs.commit db) := by
  unfold Client.evidenceOperation at hevidence
  cases hfind : tabs.db.queue.find? (·.id = id) with
  | none => simp [hfind] at hevidence
  | some saved =>
      have hsaved := List.mem_of_find?_eq_some hfind
      have hwhole := h.whole saved hsaved
      cases hattachment : saved.attachmentId with
      | none => simp [hfind, hattachment] at hevidence
      | some attachmentId =>
          simp only [hfind, hattachment] at hevidence
          by_cases hscope : saved.scope ≠ scopeOf session
          · simp [hscope] at hevidence
          simp only [hscope, if_false] at hevidence
          cases hlink : saved.evidenceOperation with
          | some existing =>
              simp only [hlink, Except.ok.injEq, Prod.mk.injEq] at hevidence
              obtain ⟨-, rfl⟩ := hevidence
              obtain ⟨hsound, hgains⟩ := h.keep rfl h.ids h.whole h.read
              exact ⟨hsound.draw _, fun row hrow => ⟨row, hrow, .refl row⟩, hgains⟩
          | none =>
              -- A photo is there as long as it has no link.
              obtain ⟨photo, hphoto⟩ := Option.isSome_iff_exists.mp
                (hwhole.photo (by simp [hattachment]) hlink)
              simp only [hlink, hphoto, Except.ok.injEq, Prod.mk.injEq] at hevidence
              obtain ⟨-, rfl⟩ := hevidence
              generalize hallocate : allocate draws tabs.db.device saved.scope false = device
              generalize hop : envelope draws.operation device session
                (evidenceClaim lineId attachmentId) photo.capturedAt = link
              obtain ⟨front, back, hqueue, hput⟩ := put_split h.ids hsaved
              rw [hput (saved.link link device.ordinal) rfl]
              obtain ⟨entry, hentry⟩ : ∃ entry : Stored,
                  entry = ⟨device.ordinal, saved.scope, link⟩ := ⟨_, rfl⟩
              have hstored : (saved.link link device.ordinal).stored =
                  [⟨saved.ordinal, saved.scope, saved.envelope⟩, entry] := by
                rw [hentry]
                rfl
              have hof : entry.Of device saved.scope := by
                rw [hentry, ← hop]
                exact ⟨rfl, rfl, rfl, rfl⟩
              have hbefore : tabs.db.stored = (front.flatMap QueueRow.stored ++
                  [⟨saved.ordinal, saved.scope, saved.envelope⟩]) ++
                    back.flatMap QueueRow.stored := by
                rw [Database.stored, hqueue, List.flatMap_append, List.flatMap_cons,
                  QueueRow.stored.eq_1 saved, hlink, List.append_assoc]
              have hfrozen : saved.Frozen (saved.link link device.ordinal) := by
                refine ⟨rfl, rfl, rfl, rfl, fun hsome => ?_⟩
                rw [hlink] at hsome
                exact absurd hsome Bool.false_ne_true
              refine .of (h.store hfresh hallocate hof hbefore ?_ ?_ ?_ ?_)
                (frozen_put hqueue hfrozen)
              · rw [List.flatMap_append, List.flatMap_cons, hstored, List.append_assoc]
                rfl
              · have hids := h.ids
                rw [hqueue, List.map_append, List.map_cons] at hids
                rw [List.map_append, List.map_cons]
                exact hids
              · intro other hother
                rcases List.mem_append.mp hother with hfront | hrest
                · exact h.whole other (hqueue ▸ List.mem_append_left _ hfront)
                · rcases List.mem_cons.mp hrest with rfl | hback
                  · exact ⟨fun _ hnone => absurd hnone (Option.some_ne_none _), rfl⟩
                  · exact h.whole other
                      (hqueue ▸ List.mem_append_right _ (List.mem_cons_of_mem _ hback))
              · intro held hheld
                have hholds : saved.Holds (saved.link link device.ordinal) :=
                  ⟨rfl, fun _ => rfl, fun _ => .inr rfl⟩
                exact holds_put hqueue hholds (h.read held hheld)

theorem Sound.resetEpoch (h : Sound drawn tabs) {epoch : Uuid} (hfresh : epoch ∉ drawn)
    (session : Session) :
    Kept (drawn ++ [epoch]) tabs (tabs.commit (resetEpoch epoch session tabs.db)) := by
  have hcommitted : (tabs.commit (Client.resetEpoch epoch session tabs.db)).committed =
      tabs.committed := by
    have hgained : gained tabs.db (Client.resetEpoch epoch session tabs.db) = [] :=
      gained_of_stored_eq rfl
    rw [Tabs.commit, hgained, List.append_nil]
  have hne : ∀ entry ∈ tabs.committed, entry.epoch ≠ epoch :=
    fun entry hentry heq => hfresh (heq ▸ h.drawn entry hentry)
  refine ⟨⟨h.ids, ?_, ?_, ?_, ?_, ?_, h.whole, h.read⟩, fun row hrow => ⟨row, hrow, .refl row⟩,
    gains_of_eq hcommitted⟩
  · rw [hcommitted]
    exact h.stored
  · rw [hcommitted]
    exact h.allocated
  · intro device hdevice
    obtain ⟨saved, hsaved, rfl⟩ := Option.map_eq_some_iff.mp hdevice
    rw [hcommitted]
    exact ⟨(h.device saved hsaved).1.fresh hne, List.mem_append_right _ (List.mem_singleton_self _)⟩
  · intro hnone
    rw [hcommitted]
    exact h.blank (Option.map_eq_none_iff.mp hnone)
  · rw [hcommitted]
    exact fun entry hentry => List.mem_append_left _ (h.drawn entry hentry)

/-- An outcome leaves the captured columns of a row alone. -/
theorem frozen_change (old : QueueRow) (outcome : Outcome) : old.Frozen (outcome.change old) := by
  cases outcome <;> exact ⟨rfl, rfl, rfl, rfl, fun _ => ⟨rfl, rfl⟩⟩

theorem evidenceOperation_change (old : QueueRow) (outcome : Outcome) :
    (outcome.change old).evidenceOperation = old.evidenceOperation ∧
      (outcome.change old).evidenceOrdinal = old.evidenceOrdinal := by
  cases outcome <;> exact ⟨rfl, rfl⟩

theorem stored_change (old : QueueRow) (outcome : Outcome) :
    (outcome.change old).stored = old.stored := by
  cases outcome <;> rfl

/-- A photo is dropped only once its link is stored. -/
theorem photo_change {held old : QueueRow} {outcome : Outcome} (hfits : outcome.Fits held)
    (hholds : held.Holds old) (hphoto : old.photo.isSome) :
    (outcome.change old).photo.isSome ∨ (outcome.change old).evidenceOperation.isSome := by
  cases outcome with
  | linked => exact .inr (hholds.link hfits)
  | answered rejected response => exact .inl hphoto
  | linkRejected message => exact .inl hphoto
  | uploaded attachmentId => exact .inl hphoto
  | failed message => exact .inl hphoto

theorem whole_change {held old : QueueRow} {outcome : Outcome} (hfits : outcome.Fits held)
    (hholds : held.Holds old) (hwhole : old.Whole) : (outcome.change old).Whole where
  photo := by
    intro hattachment hnone
    have hlink := (evidenceOperation_change old outcome).1
    rw [hnone] at hlink
    have hphoto : old.photo.isSome := by
      cases outcome with
      | uploaded attachmentId =>
          refine (hholds.photo hfits).resolve_right ?_
          rw [← hlink]
          exact Bool.false_ne_true
      | answered rejected response => exact hwhole.photo hattachment hlink.symm
      | linkRejected message => exact hwhole.photo hattachment hlink.symm
      | linked => exact hwhole.photo hattachment hlink.symm
      | failed message => exact hwhole.photo hattachment hlink.symm
    refine (photo_change hfits hholds hphoto).resolve_right ?_
    rw [hnone]
    exact Bool.false_ne_true
  ordinal := by
    obtain ⟨hop, hordinal⟩ := evidenceOperation_change old outcome
    rw [hop, hordinal]
    exact hwhole.ordinal

theorem Sound.updateRow (h : Sound drawn tabs) {held : QueueRow} (hheld : held ∈ tabs.read)
    {outcome : Outcome} (hfits : outcome.Fits held) {row : QueueRow} {db : Database}
    (hupdate : updateRow held.id outcome tabs.db = .ok (row, db)) :
    Kept drawn tabs (tabs.commit db) := by
  obtain ⟨current, hcurrent, hholds⟩ := h.read held hheld
  have hfind : tabs.db.queue.find? (·.id = held.id) = some current :=
    Keys.Distinct.find?_eq h.ids hcurrent hholds.id
  rw [Client.updateRow, hfind] at hupdate
  simp only [Except.ok.injEq, Prod.mk.injEq] at hupdate
  obtain ⟨-, rfl⟩ := hupdate
  have hfrozen := frozen_change current outcome
  obtain ⟨front, back, hqueue, hput⟩ := put_split h.ids hcurrent
  rw [hput _ hfrozen.id]
  have hlink := (evidenceOperation_change current outcome).1
  refine .of (h.keep ?_ ?_ ?_ ?_) (frozen_put hqueue hfrozen)
  · rw [Database.stored, hqueue, List.flatMap_append, List.flatMap_cons, List.flatMap_append,
      List.flatMap_cons, stored_change]
  · have hids := h.ids
    rw [hqueue, List.map_append, List.map_cons] at hids
    rw [List.map_append, List.map_cons, hfrozen.id]
    exact hids
  · intro other hother
    rcases List.mem_append.mp hother with hfront | hrest
    · exact h.whole other (hqueue ▸ List.mem_append_left _ hfront)
    · rcases List.mem_cons.mp hrest with rfl | hback
      · exact whole_change hfits hholds (h.whole current hcurrent)
      · exact h.whole other (hqueue ▸ List.mem_append_right _ (List.mem_cons_of_mem _ hback))
  · intro other hother
    refine holds_put hqueue ⟨hfrozen.id, fun hsome => hlink ▸ hsome, ?_⟩ (h.read other hother)
    exact photo_change hfits hholds

/-- Every committed transaction keeps the invariant, and what was queued. -/
theorem Sound.step (h : Sound drawn tabs) {action : Action} {after : Tabs}
    (hfresh : ∀ u ∈ action.drawn, u ∉ drawn) (hstep : step action tabs = .ok after) :
    Kept (drawn ++ action.drawn) tabs after := by
  cases action with
  | enqueue draws now session claim photo occurred =>
      rw [Client.step] at hstep
      cases hresult : Client.enqueue draws now session claim photo occurred tabs.db with
      | error reason => simp [hresult, Except.map] at hstep
      | ok result =>
          simp only [hresult, Except.map, Except.ok.injEq] at hstep
          exact hstep ▸ h.enqueue hfresh hresult
  | evidenceOperation draws session id lineId =>
      rw [Client.step] at hstep
      cases hresult : Client.evidenceOperation draws session id lineId tabs.db with
      | error reason => simp [hresult, Except.map] at hstep
      | ok result =>
          simp only [hresult, Except.map, Except.ok.injEq] at hstep
          exact hstep ▸ h.evidenceOperation hfresh hresult
  | resetEpoch epoch session =>
      obtain rfl := Except.ok.inj hstep
      exact h.resetEpoch (hfresh epoch (List.mem_singleton_self _)) session
  | rows scope =>
      obtain rfl := Except.ok.inj hstep
      have hread : ∀ held ∈ tabs.read ++ tabs.db.queue.filter (·.scope = scope),
          ∃ row ∈ tabs.db.queue, held.Holds row := by
        intro held hheld
        rcases List.mem_append.mp hheld with hold | hnew
        · exact h.read held hold
        · exact ⟨held, (List.mem_filter.mp hnew).1, rfl, id, .inl⟩
      have hsound : Sound drawn
          { tabs with read := tabs.read ++ tabs.db.queue.filter (·.scope = scope) } :=
        ⟨h.ids, h.stored, h.allocated, h.device, h.blank, h.drawn, h.whole, hread⟩
      exact ⟨hsound.draw _, fun row hrow => ⟨row, hrow, .refl row⟩, gains_of_eq rfl⟩
  | updateRow index outcome =>
      rw [Client.step] at hstep
      cases hheld : tabs.read[index]? with
      | none => simp [hheld] at hstep
      | some held =>
          by_cases hfits : outcome.Fits held
          · simp only [hheld, hfits, if_true] at hstep
            cases hresult : Client.updateRow held.id outcome tabs.db with
            | error reason => simp [hresult, Except.map] at hstep
            | ok result =>
                simp only [hresult, Except.map, Except.ok.injEq] at hstep
                have hkept := h.updateRow (List.mem_of_getElem? hheld) hfits hresult
                exact hstep ▸ ⟨hkept.sound.draw _, hkept.frozen, hkept.gains⟩
          · simp [hheld, hfits] at hstep
  | aborted drawn => exact nomatch hstep

theorem sound_start : Sound [] {} where
  ids := List.nodup_nil
  stored := .refl _
  allocated := ⟨List.Pairwise.nil, counted_nil, by simp, by simp⟩
  device := by simp
  blank := fun _ => rfl
  drawn := by simp
  whole := by simp
  read := by simp

end

/-! ## Runs -/

/-- Any interleaving of transactions that draw different identifiers. -/
theorem Sound.run {drawn : List Uuid} {tabs : Tabs} (h : Sound drawn tabs) (actions : List Action)
    (hdraws : (drawn ++ actions.flatMap Action.drawn).Nodup) :
    Sound (drawn ++ actions.flatMap Action.drawn) (Machine.run Client.step actions tabs) ∧
      ∀ row ∈ tabs.db.queue,
        ∃ later ∈ (Machine.run Client.step actions tabs).db.queue, row.Frozen later := by
  induction actions generalizing drawn tabs with
  | nil =>
      rw [List.flatMap_nil, List.append_nil]
      exact ⟨h, fun row hrow => ⟨row, hrow, .refl row⟩⟩
  | cons action rest ih =>
      rw [List.flatMap_cons, ← List.append_assoc] at hdraws ⊢
      rw [Machine.run_cons]
      cases hstep : Client.step action tabs with
      | error reason =>
          rw [Machine.attempt_of_error hstep]
          exact ih (h.draw _) hdraws
      | ok after =>
          have hfresh : ∀ u ∈ action.drawn, u ∉ drawn := by
            intro u hu hold
            have hnodup := (List.nodup_append.mp hdraws).1
            exact (List.nodup_append.mp hnodup).2.2 u hold u hu rfl
          obtain ⟨hsound, hfrozen, -⟩ := h.step hfresh hstep
          obtain ⟨hfinal, hlater⟩ := ih hsound hdraws
          rw [Machine.attempt_of_ok hstep]
          refine ⟨hfinal, fun row hrow => ?_⟩
          obtain ⟨middle, hmiddle, hfirst⟩ := hfrozen row hrow
          obtain ⟨last, hlast, hsecond⟩ := hlater middle hmiddle
          exact ⟨last, hlast, hfirst.trans hsecond⟩

/-- A full epoch is left for a fresh one. -/
theorem allocate_of_full (draws : Draws) {saved : Device} (hfull : seqMax ≤ saved.seq)
    (scope : Scope) : (allocate draws (some saved) scope false).epoch ∈ draws.all ∧
      (allocate draws (some saved) scope false).seq = 1 := by
  have hpos : ¬seqMax ≤ 0 := by decide
  by_cases hsame : saved.scope = scope
  · simp [allocate, savedDevice, Device.rescope, hsame, Device.renumber, hfull, Draws.all]
  · simp [allocate, savedDevice, Device.rescope, hsame, Device.renumber, hpos, Draws.all]

/-- The laws of the queue along a run from an empty database. -/
structure QueueLaws (actions : List Action) : Prop where
  /-- The committed operations are those in the store. -/
  stored : (Machine.run step actions {}).committed.Perm (Machine.run step actions {}).db.stored
  allocated : Allocated (Machine.run step actions {}).committed
  unique : (Machine.run step actions {}).committed.Pairwise fun a b =>
    (a.epoch, a.seq) ≠ (b.epoch, b.seq)
  /-- Where the numbers of an epoch are used up, the next operation starts another. -/
  full : ∀ commit ∈ Machine.commits step actions {}, ∀ device ∈ commit.before.db.device,
    seqMax ≤ device.seq → ∀ entry ∈ commit.after.committed, entry ∉ commit.before.committed →
      entry.seq = 1 ∧ ∀ old ∈ commit.before.committed, old.epoch ≠ entry.epoch
  /-- What was queued once stays as it was queued. -/
  frozen : ∀ front back, actions = front ++ back → ∀ row ∈ (Machine.run step front {}).db.queue,
    ∃ later ∈ (Machine.run step actions {}).db.queue, row.Frozen later

/-- Whatever transactions of any tabs follow one another, committed or aborted, with different
identifiers drawn, the queue's laws hold. -/
theorem queueAllocation (actions : List Action) (hdraws : (actions.flatMap Action.drawn).Nodup) :
    QueueLaws actions := by
  have hrun : ∀ front back, actions = front ++ back →
      Sound (front.flatMap Action.drawn) (Machine.run step front {}) := by
    rintro front back rfl
    rw [List.flatMap_append] at hdraws
    exact (sound_start.run front (List.nodup_append.mp hdraws).1).1
  have hsound := hrun actions [] (List.append_nil _).symm
  refine ⟨hsound.stored, hsound.allocated, ?_, ?_, ?_⟩
  · refine hsound.allocated.counted.pairwise.imp fun hlt heq => ?_
    rw [Prod.mk.injEq] at heq
    exact (hlt heq.1).ne heq.2
  · intro commit hcommit device hdevice hfull entry hentry hnew
    obtain ⟨front, back, rfl, hbefore, hstep, -⟩ := Machine.mem_commits hcommit
    have hstart := hrun front (commit.action :: back) rfl
    rw [← hbefore] at hstart
    have hfresh : ∀ u ∈ commit.action.drawn, u ∉ front.flatMap Action.drawn := by
      intro u hu hold
      rw [List.flatMap_append, List.flatMap_cons] at hdraws
      exact (List.nodup_append.mp hdraws).2.2 u hold u (List.mem_append_left _ hu) rfl
    obtain ⟨draws, scope, hdrawn, hof⟩ :=
      ((hstart.step hfresh hstep).gains entry hentry).resolve_left hnew
    obtain ⟨hepoch, hseq⟩ := allocate_of_full draws hfull scope
    rw [← Option.mem_def.mp hdevice] at hepoch hseq
    refine ⟨hof.seq.trans hseq, fun old hold heq => hdrawn old hold ?_⟩
    rw [heq, hof.epoch]
    exact hepoch
  · rintro front back rfl row hrow
    rw [Machine.run_append]
    have hfront := hrun front back rfl
    rw [List.flatMap_append] at hdraws
    exact (hfront.run back hdraws).2 row hrow

/-- Two operators at one device: a capture with a photo, its link, a reset, and one that was
lost. -/
def sampleCaptures : List Action :=
  let first : Session := { orgId := 100, actorId := 1, expiresAt := some 90 }
  let second : Session := { orgId := 100, actorId := 2, expiresAt := some 90 }
  let claim : Claim :=
    { operation := .receiveScan, entityId := 7, entityType := "RECEIPT", expectedVersion := none
      payload := [] }
  let photo : Photo :=
    { blob := [1], filename := "label.jpg", mediaType := "image/jpeg", capturedAt := "2026-01-05" }
  [.enqueue ⟨20, 21, 22, 23, 24⟩ 50 first claim (some photo) "2026-01-05", .rows (scopeOf first),
    .updateRow 0 (.uploaded 40), .aborted [30, 31], 
    .evidenceOperation ⟨50, 51, 52, 53, 54⟩ first 24 8,
    .resetEpoch 60 first, .enqueue ⟨70, 71, 72, 73, 74⟩ 55 second claim none "2026-01-04"]

theorem queueAllocation_sample : QueueLaws sampleCaptures :=
  queueAllocation sampleCaptures (by decide)

end Client

end FleetOps
