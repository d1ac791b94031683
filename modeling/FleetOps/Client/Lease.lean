import FleetOps.Client.Queue

/-!
# The synchronisation lease

Only the tab that holds the lease of a scope replays its queue.  A lease is a
record of the store `meta`, under a key of its own, with an owner and an expiry;
a tab that is gone lets it expire.  `lease` acquires, renews and releases it.

The record says at once that a scope has one holder.  What a tab goes by is the
answer to its own calls, though, and it may be late to learn that it lost the
lease.  `LeaseTabs` therefore keeps what every tab was told, and the invariant
`LeaseTabs.Agrees` says that from the last call on this is what the record says.
-/

namespace FleetOps

namespace Client

/-- A record `lease|…` of the store `meta`. -/
structure Lease where
  owner : Uuid
  expires : ℕ
  deriving DecidableEq, Repr

def leaseKey (scope : Scope) : String := "lease|" ++ scope

/-- The leases of the store `meta`, by key. -/
abbrev Leases := String → Option Lease

/-- A call of `lease`.  Its transaction reads the clock at the check and again at the `put`; it may
abort, and the call then throws. -/
structure LeaseCall where
  scope : Scope
  owner : Uuid
  release : Bool
  checkedAt : ℕ
  putAt : ℕ
  aborts : Bool := false
  deriving DecidableEq, Repr

/-- `allowed` in `lease`. -/
def LeaseCall.allowed (call : LeaseCall) (old : Option Lease) : Bool :=
  old.all fun old => old.owner = call.owner || old.expires < call.checkedAt

/-- `lease`, in a transaction that completes. -/
def lease (call : LeaseCall) (leases : Leases) : Bool × Leases :=
  let key := leaseKey call.scope
  if call.allowed (leases key) then
    if call.release then (true, Function.update leases key none)
    else (true, Function.update leases key (some ⟨call.owner, call.putAt + 60000⟩))
  else (false, leases)

/-- A tab holds an unexpired lease; `expires < now` is what the check calls expired. -/
def Leases.Holds (leases : Leases) (scope : Scope) (owner : Uuid) (now : ℕ) : Prop :=
  ∃ held ∈ leases (leaseKey scope), held.owner = owner ∧ now ≤ held.expires

theorem leaseKey_inj {scope other : Scope} : leaseKey scope = leaseKey other ↔ scope = other := by
  simp [leaseKey]

/-! ## Tabs -/

/-- The leases, and until when each tab was told that it holds one. -/
structure LeaseTabs where
  leases : Leases := fun _ => none
  told : Scope → Uuid → Option ℕ := fun _ _ => none

/-- What the caller knows after an answer. -/
def LeaseCall.learns (call : LeaseCall) (answer : Bool) : Option ℕ :=
  if answer ∧ ¬call.release then some (call.putAt + 60000) else none

/-- One call of one tab. -/
def LeaseTabs.step (call : LeaseCall) (tabs : LeaseTabs) : LeaseTabs :=
  if call.aborts then tabs
  else
    let (answer, leases) := lease call tabs.leases
    { leases
      told := Function.update tabs.told call.scope
        (Function.update (tabs.told call.scope) call.owner (call.learns answer)) }

/-- The calls of all tabs, in the order of their transactions. -/
def LeaseTabs.run : List LeaseCall → LeaseTabs → LeaseTabs
  | [], tabs => tabs
  | call :: rest, tabs => run rest (tabs.step call)

/-- A tab goes by a lease that it was told of and that has not expired. -/
def LeaseTabs.Relies (tabs : LeaseTabs) (scope : Scope) (owner : Uuid) (now : ℕ) : Prop :=
  ∃ expires ∈ tabs.told scope owner, now ≤ expires

/-- The clock does not go backwards, from `now` on. -/
def Forward (now : ℕ) : List LeaseCall → Prop
  | [] => True
  | call :: rest => now ≤ call.checkedAt ∧ call.checkedAt ≤ call.putAt ∧ Forward call.putAt rest

/-- The time after some calls. -/
def clockAfter (now : ℕ) : List LeaseCall → ℕ
  | [] => now
  | call :: rest => clockAfter call.putAt rest

/-- From `clock` on, what the tabs go by is what the records say. -/
def LeaseTabs.Agrees (clock : ℕ) (tabs : LeaseTabs) : Prop :=
  ∀ scope owner now, clock ≤ now →
    (tabs.Relies scope owner now ↔ tabs.leases.Holds scope owner now)

section

variable {call : LeaseCall} {leases : Leases} {tabs : LeaseTabs}

/-- A record has one owner. -/
theorem Leases.Holds.unique {scope : Scope} {owner other : Uuid} {now later : ℕ}
    (h : leases.Holds scope owner now) (hother : leases.Holds scope other later) :
    owner = other := by
  obtain ⟨held, hheld, rfl, -⟩ := h
  obtain ⟨also, halso, rfl, -⟩ := hother
  rw [Option.mem_def] at hheld halso
  rw [hheld, Option.some.injEq] at halso
  rw [halso]

/-- A call that is allowed meets no unexpired lease but its own. -/
theorem not_holds_of_allowed (h : call.allowed (leases (leaseKey call.scope)) = true)
    {owner : Uuid} (howner : owner ≠ call.owner) {now : ℕ} (hnow : call.checkedAt ≤ now) :
    ¬leases.Holds call.scope owner now := by
  rintro ⟨held, hheld, rfl, hexpires⟩
  rw [Option.mem_def] at hheld
  simp only [LeaseCall.allowed, hheld, Option.all_some, Bool.or_eq_true, decide_eq_true_eq] at h
  rcases h with hsame | hexpired
  · exact howner hsame
  · omega

/-- A call meets another tab's unexpired lease, and leaves everything as it is. -/
theorem lease_of_held {owner : Uuid} (howner : owner ≠ call.owner)
    (hheld : leases.Holds call.scope owner call.checkedAt) : lease call leases = (false, leases) := by
  unfold lease
  rw [if_neg]
  intro hallowed
  exact not_holds_of_allowed hallowed howner (Nat.le_refl _) hheld

/-- A call leaves the other scopes alone. -/
theorem lease_other {scope : Scope} (hscope : scope ≠ call.scope) :
    (lease call leases).2 (leaseKey scope) = leases (leaseKey scope) := by
  have hkey : leaseKey scope ≠ leaseKey call.scope := fun h => hscope (leaseKey_inj.mp h)
  unfold lease
  dsimp only
  split
  · split
    · exact Function.update_of_ne hkey ..
    · exact Function.update_of_ne hkey ..
  · rfl

/-- After an answer `true` the caller is the holder, or nobody is if it released. -/
theorem holds_of_allowed (h : call.allowed (leases (leaseKey call.scope)) = true) {owner : Uuid}
    {now : ℕ} : (lease call leases).2.Holds call.scope owner now ↔
      call.release = false ∧ owner = call.owner ∧ now ≤ call.putAt + 60000 := by
  unfold lease Leases.Holds
  dsimp only
  rw [if_pos h]
  by_cases hrelease : call.release = true
  · simp [hrelease]
  · simp [hrelease, eq_comm]

theorem answer_eq : (lease call leases).1 = call.allowed (leases (leaseKey call.scope)) := by
  unfold lease
  dsimp only
  split
  · rename_i hallowed
    rw [hallowed]
    split <;> rfl
  · rename_i hallowed
    simpa using hallowed

/-! ## Runs -/

/-- One call keeps the tabs in agreement with the records. -/
theorem LeaseTabs.Agrees.step {clock : ℕ} (h : tabs.Agrees clock) (hclock : clock ≤ call.checkedAt)
    (hput : call.checkedAt ≤ call.putAt) : (tabs.step call).Agrees call.putAt := by
  intro scope owner now hnow
  have hbefore := h scope owner now (by omega)
  by_cases haborts : call.aborts = true
  · simpa only [LeaseTabs.step, haborts, if_true] using hbefore
  simp only [LeaseTabs.step, haborts, if_false, LeaseTabs.Relies, Bool.false_eq_true]
  by_cases hscope : scope = call.scope
  · subst hscope
    rw [Function.update_self]
    by_cases hallowed : call.allowed (tabs.leases (leaseKey call.scope)) = true
    · rw [holds_of_allowed hallowed]
      by_cases howner : owner = call.owner
      · subst howner
        rw [Function.update_self, LeaseCall.learns, answer_eq, hallowed]
        by_cases hrelease : call.release = true
        · simp [hrelease]
        · simp [hrelease]
      · -- What another tab went by had expired before the check.
        rw [Function.update_of_ne howner]
        have hnot := not_holds_of_allowed hallowed howner (show call.checkedAt ≤ now by omega)
        constructor
        · intro hrelies
          exact absurd (hbefore.mp hrelies) hnot
        · rintro ⟨-, hsame, -⟩
          exact absurd hsame howner
    · have hrefused : lease call tabs.leases = (false, tabs.leases) := by
        unfold lease
        rw [if_neg hallowed]
      rw [hrefused]
      by_cases howner : owner = call.owner
      · subst howner
        rw [Function.update_self]
        constructor
        · rintro ⟨expires, hlearns, -⟩
          simp [LeaseCall.learns] at hlearns
        · rintro ⟨held, hheld, hsame, -⟩
          replace hheld : tabs.leases (leaseKey call.scope) = some held := hheld
          simp [LeaseCall.allowed, hheld, hsame] at hallowed
      · rw [Function.update_of_ne howner]
        exact hbefore
  · rw [Function.update_of_ne hscope, Leases.Holds, lease_other hscope]
    exact hbefore

theorem LeaseTabs.Agrees.run {calls : List LeaseCall} {clock : ℕ} (h : tabs.Agrees clock)
    (hforward : Forward clock calls) : (tabs.run calls).Agrees (clockAfter clock calls) := by
  induction calls generalizing tabs clock with
  | nil => exact h
  | cons call rest ih =>
      obtain ⟨hclock, hput, hrest⟩ := hforward
      exact ih (h.step hclock hput) hrest

/-- At the start nobody holds a lease. -/
theorem LeaseTabs.agrees_initial (clock : ℕ) : ({} : LeaseTabs).Agrees clock := by
  intro scope owner now _
  simp [LeaseTabs.Relies, Leases.Holds]

end

/-- In every run, of any number of tabs: at most one tab holds, or goes by, an unexpired lease of a
scope; an answer `true` makes its caller the only holder, or leaves none if it released; and while
another tab holds an unexpired lease, a call changes nothing and is answered `false`. -/
theorem leaseExclusive (calls : List LeaseCall) (hforward : Forward 0 calls) :
    (∀ scope owner other now, clockAfter 0 calls ≤ now →
      ((({} : LeaseTabs).run calls).Relies scope owner now ↔
        (({} : LeaseTabs).run calls).leases.Holds scope owner now) ∧
      ((({} : LeaseTabs).run calls).Relies scope owner now →
        (({} : LeaseTabs).run calls).Relies scope other now → owner = other)) ∧
    ∀ earlier call later, calls = earlier ++ call :: later → call.aborts = false →
      ((lease call (({} : LeaseTabs).run earlier).leases).1 = true →
        ∀ owner, ((({} : LeaseTabs).run earlier).step call).leases.Holds call.scope owner call.putAt ↔
          call.release = false ∧ owner = call.owner) ∧
      ∀ owner, owner ≠ call.owner →
        (({} : LeaseTabs).run earlier).leases.Holds call.scope owner call.checkedAt →
          (lease call (({} : LeaseTabs).run earlier).leases).1 = false ∧
            ((({} : LeaseTabs).run earlier).step call).leases =
              (({} : LeaseTabs).run earlier).leases := by
  constructor
  · intro scope owner other now hnow
    have hagrees := (LeaseTabs.agrees_initial 0).run hforward
    refine ⟨hagrees scope owner now hnow, fun howner hother => ?_⟩
    exact ((hagrees scope owner now hnow).mp howner).unique ((hagrees scope other now hnow).mp hother)
  · intro earlier call later hcalls haborts
    constructor
    · intro hanswer owner
      rw [answer_eq] at hanswer
      simp only [LeaseTabs.step, haborts, if_false, Bool.false_eq_true]
      rw [holds_of_allowed hanswer]
      simp
    · intro owner howner hheld
      have hlease := lease_of_held howner hheld
      simp [LeaseTabs.step, haborts, hlease]

/-- One tab acquires the lease, a second is refused and takes it over once it has expired, and the
release of the first is refused. -/
def sampleLeaseCalls : List LeaseCall :=
  [⟨"1|2", 5, false, 1000, 1000, false⟩, ⟨"1|2", 6, false, 1000, 1000, false⟩,
    ⟨"1|2", 6, false, 62000, 62000, false⟩, ⟨"1|2", 5, true, 62000, 62000, false⟩]

theorem leaseExclusive_sample :
    (({} : LeaseTabs).run sampleLeaseCalls).leases.Holds "1|2" 6 62000 ∧
      ¬(({} : LeaseTabs).run sampleLeaseCalls).Relies "1|2" 5 62000 := by
  have hforward : Forward 0 sampleLeaseCalls := by simp [sampleLeaseCalls, Forward]
  have hholds : (({} : LeaseTabs).run sampleLeaseCalls).leases.Holds "1|2" 6 62000 := by
    refine ⟨⟨6, 122000⟩, ?_, rfl, by decide⟩
    decide
  refine ⟨hholds, fun hrelies => ?_⟩
  obtain ⟨hall, -⟩ := leaseExclusive sampleLeaseCalls hforward
  have hsix := (hall "1|2" 6 5 62000 (by decide)).1.mpr hholds
  exact absurd ((hall "1|2" 6 5 62000 (by decide)).2 hsix hrelies) (by decide)

end Client

end FleetOps
