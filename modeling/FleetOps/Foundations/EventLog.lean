import FleetOps.Foundations.Keys
import FleetOps.Foundations.Machine
import FleetOps.Foundations.Query
import Mathlib.Data.List.Range

/-!
# Logs of numbered transitions

A workflow that is kept as a log: each event carries a number, the status that
it leaves and the status that it enters.  A log is `Legal` when its events are
numbered from one and each follows an edge from the status before it.  The
status of a workflow is then what its log leaves (`status`), the newest event
is the last one, and a status without edges is never left.

`verdicts` is the workflow itself, without a log: which of a sequence of
requests, each naming the status that it expects and the one that it aims for,
are accepted.
-/

namespace EventLog

variable {ε σ : Type*}

/-- How events are read. -/
structure Reading (ε σ : Type*) where
  number : ε → ℕ
  source : ε → σ
  target : ε → σ

variable (r : Reading ε σ) (edge : σ → σ → Prop) (start : σ)

/-- The status that a log leaves. -/
def status (log : List ε) : σ := (log.getLast?.map r.target).getD start

/-- The events are numbered from one, and each follows an edge from the status before it. -/
structure Legal (log : List ε) : Prop where
  numbered : log.map r.number = List.range' 1 log.length
  steps : ∀ earlier e later, log = earlier ++ e :: later →
    r.source e = status r start earlier ∧ edge (r.source e) (r.target e)

variable {r edge start} {log : List ε}

@[simp] theorem status_nil : status r start [] = start := rfl

@[simp] theorem status_concat (e : ε) : status r start (log ++ [e]) = r.target e := by
  simp [status]

theorem Legal.nil : Legal r edge start [] :=
  ⟨rfl, fun earlier e later h => by simp at h⟩

/-- The next event, from the status that the log leaves. -/
theorem Legal.concat (h : Legal r edge start log) {e : ε} (hnumber : r.number e = log.length + 1)
    (hsource : r.source e = status r start log) (hedge : edge (r.source e) (r.target e)) :
    Legal r edge start (log ++ [e]) := by
  refine ⟨?_, fun earlier other later hsplit => ?_⟩
  · rw [List.map_append, h.numbered, List.length_append, List.length_singleton,
      List.range'_1_concat, List.map_singleton, hnumber, Nat.add_comm 1]
  · cases later using List.reverseRecOn with
    | nil =>
        obtain ⟨rfl, heq⟩ := List.append_inj' hsplit rfl
        obtain rfl := List.singleton_injective heq
        exact ⟨hsource, hedge⟩
    | append_singleton later last =>
        rw [← List.cons_append, ← List.append_assoc] at hsplit
        obtain ⟨hlog, -⟩ := List.append_inj' hsplit rfl
        exact h.steps earlier other later hlog

theorem Legal.ascending (h : Legal r edge start log) :
    log.Pairwise fun a b => r.number a < r.number b := by
  have hrange : (log.map r.number).Pairwise (· < ·) := h.numbered ▸ List.pairwise_lt_range'
  exact List.pairwise_map.mp hrange

/-- The newest event is the last one. -/
theorem Legal.latestBy (h : Legal r edge start log) :
    Query.latestBy r.number log = log.getLast? :=
  Query.latestBy_eq_getLast? h.ascending

/-- The newest event carries the length of the log. -/
theorem Legal.number_latest (h : Legal r edge start log) :
    (log.getLast?.map r.number).getD 0 = log.length := by
  rw [← List.getLast?_map, h.numbered, List.getLast?_range']
  cases log with
  | nil => rfl
  | cons e rest => simp

theorem Legal.number_le (h : Legal r edge start log) {e : ε} (he : e ∈ log) :
    1 ≤ r.number e ∧ r.number e ≤ log.length := by
  have hmem : r.number e ∈ log.map r.number := List.mem_map_of_mem he
  rw [h.numbered, List.mem_range'_1] at hmem
  omega

/-- An event's place is its number. -/
theorem Legal.number_split (h : Legal r edge start log) {earlier later : List ε} {e : ε}
    (hsplit : log = earlier ++ e :: later) : r.number e = earlier.length + 1 := by
  have hat := congrArg (fun numbers => numbers[earlier.length]?) h.numbered
  simp only [hsplit, List.getElem?_map, List.getElem?_append_right (Nat.le_refl _), Nat.sub_self,
    List.getElem?_cons_zero, Option.map_some, List.length_append, List.length_cons] at hat
  rw [List.getElem?_range' (by omega), Option.some.injEq] at hat
  omega

/-- The predecessor of an event, looked up by its number, left the status that the event left. -/
theorem Legal.predecessor (h : Legal r edge start log) {e : ε} (he : e ∈ log) :
    ((log.find? fun p => r.number p + 1 = r.number e).map r.target).getD start = r.source e ∧
      (1 < r.number e → (log.find? fun p => r.number p + 1 = r.number e).isSome) := by
  obtain ⟨earlier, later, hsplit⟩ := List.append_of_mem he
  have hnumber := h.number_split hsplit
  cases earlier using List.reverseRecOn with
  | nil =>
      -- The first event has no predecessor.
      have hnone : (log.find? fun p => r.number p + 1 = r.number e) = none := by
        refine List.find?_eq_none.mpr fun p hp => ?_
        have hpositive := (h.number_le hp).1
        simp only [List.length_nil] at hnumber
        simp only [decide_eq_true_eq]
        omega
      rw [hnone]
      exact ⟨(h.steps [] e later hsplit).1.symm, fun hlt => by simp [hnumber] at hlt⟩
  | append_singleton earlier last =>
      have hlast : log = earlier ++ last :: (e :: later) := by simp [hsplit]
      have hnumbered := h.number_split hlast
      have hfound : (log.find? fun p => r.number p + 1 = r.number e) = some last := by
        rw [hlast, List.find?_append, List.find?_eq_none.mpr fun p hp => ?_, Option.none_or,
          List.find?_cons_of_pos]
        · simpa [hnumbered] using hnumber.symm
        · obtain ⟨front, back, rfl⟩ := List.append_of_mem hp
          have hsplit : log = front ++ p :: (back ++ last :: (e :: later)) := by simp [hlast]
          have hfront := h.number_split hsplit
          simp only [List.length_append, List.length_cons, List.length_nil] at hnumber
          simp only [decide_eq_true_eq]
          omega
      rw [hfound]
      refine ⟨?_, fun _ => rfl⟩
      rw [(h.steps (earlier ++ [last]) e later hsplit).1, status_concat]
      rfl

/-- The event with a number entered the status that the log left then; number zero is no event. -/
theorem Legal.status_take (h : Legal r edge start log) {n : ℕ} (hn : n ≤ log.length) :
    ((log.find? fun e => decide (r.number e = n)).map r.target).getD start =
        status r start (log.take n) ∧
      (0 < n → (log.find? fun e => decide (r.number e = n)).isSome) := by
  cases n with
  | zero =>
      have hnone : (log.find? fun e => decide (r.number e = 0)) = none := by
        refine List.find?_eq_none.mpr fun e he => ?_
        have hpositive := (h.number_le he).1
        simp only [decide_eq_true_eq]
        omega
      rw [hnone]
      exact ⟨rfl, fun hlt => absurd hlt (by omega)⟩
  | succ n =>
      have hdistinct : Keys.Distinct r.number log := by
        rw [Keys.Distinct, h.numbered]
        exact List.nodup_range'
      have hsplit : log = log.take n ++ log[n] :: log.drop (n + 1) := by
        rw [List.getElem_cons_drop, List.take_append_drop]
      have hnumber : r.number log[n] = n + 1 := by
        have hat := h.number_split hsplit
        rwa [List.length_take, Nat.min_eq_left (by omega)] at hat
      rw [hdistinct.find?_eq (List.getElem_mem _) hnumber, List.take_succ_eq_append_getElem hn,
        status_concat]
      exact ⟨rfl, fun _ => rfl⟩

/-- A status without edges is never left. -/
theorem Legal.eq_nil_of_terminal {more : List ε} (h : Legal r edge start (log ++ more))
    (hterminal : ∀ s, ¬edge (status r start log) s) : more = [] := by
  cases more with
  | nil => rfl
  | cons next rest =>
      obtain ⟨hsource, hedge⟩ := h.steps log next rest rfl
      exact absurd (hsource ▸ hedge) (hterminal _)

/-! ## Requests -/

/-- Which requests a workflow accepts, one after another. -/
def verdicts [DecidableEq σ] (edge : σ → σ → Bool) : σ → List (σ × σ) → List Bool
  | _, [] => []
  | current, (expected, target) :: rest =>
      if expected = current ∧ edge current target then true :: verdicts edge target rest
      else false :: verdicts edge current rest

/-- A machine that commits an action exactly where the workflow accepts its request, and then has
the status that was aimed for, gives the workflow's verdicts. -/
theorem outcomes_eq_verdicts [DecidableEq σ] {α τ κ : Type*} {exec : α → τ → Except κ τ}
    {edge : σ → σ → Bool} (asks : α → σ × σ) (current : τ → σ) (ready : List α → τ → Prop)
    (haccept : ∀ a rest t, ready (a :: rest) t → (asks a).1 = current t →
      edge (current t) (asks a).2 = true →
      ∃ t', exec a t = .ok t' ∧ current t' = (asks a).2 ∧ ready rest t')
    (hreject : ∀ a rest t, ready (a :: rest) t →
      ¬((asks a).1 = current t ∧ edge (current t) (asks a).2 = true) →
      (∃ reason, exec a t = .error reason) ∧ ready rest t)
    (actions : List α) (t : τ) (hready : ready actions t) :
    Machine.outcomes exec actions t = verdicts edge (current t) (actions.map asks) := by
  induction actions generalizing t with
  | nil => rfl
  | cons a rest ih =>
      rw [Machine.outcomes, List.map_cons, verdicts]
      by_cases hasks : (asks a).1 = current t ∧ edge (current t) (asks a).2 = true
      · obtain ⟨t', hexec, hcurrent, hrest⟩ := haccept a rest t hready hasks.1 hasks.2
        rw [if_pos hasks, Machine.attempt_of_ok hexec, hexec, ih t' hrest, hcurrent]
        rfl
      · obtain ⟨⟨reason, hexec⟩, hrest⟩ := hreject a rest t hready hasks
        rw [if_neg hasks, Machine.attempt_of_error hexec, hexec, ih t hrest]
        rfl

end EventLog
