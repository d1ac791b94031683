import Mathlib.Order.Nat
import Mathlib.Tactic.Common

/-!
# Machines whose steps may be refused

A machine is a function `exec : α → σ → Except ε σ`: an action is either
committed, giving the next state, or refused, and a refused action leaves the
state as it was.  `run` folds a list of actions, `commits` records the
transitions that were committed, with the states around them.

The rules a development uses are `run_invariant` (an invariant of every
committed step is an invariant of every run), `commits_forall` (a fact about
every committed step from an invariant state), `run_traced` (the same for an
invariant that also speaks of what was committed so far), `run_committed` (a run
is its committed actions replayed alone) and `run_simulated`: a run is another
machine's, of the actions that stand for its commits.
-/

namespace Machine

variable {α σ ε : Type*}

/-- A committed transition, with the states before and after it. -/
structure Commit (α σ : Type*) where
  before : σ
  action : α
  after : σ

section

variable (exec : α → σ → Except ε σ)

/-- One action: its effect if it is committed, nothing if it is refused. -/
def attempt (action : α) (state : σ) : σ :=
  match exec action state with
  | .ok next => next
  | .error _ => state

/-- A list of actions, one after another. -/
def run : List α → σ → σ
  | [], state => state
  | action :: rest, state => run rest (attempt exec action state)

/-- The transitions that a list of actions commits. -/
def commits : List α → σ → List (Commit α σ)
  | [], _ => []
  | action :: rest, state =>
      match exec action state with
      | .ok next => ⟨state, action, next⟩ :: commits rest next
      | .error _ => commits rest state

/-- Which of a list of actions are committed. -/
def outcomes : List α → σ → List Bool
  | [], _ => []
  | action :: rest, state => (exec action state).isOk :: outcomes rest (attempt exec action state)

end

variable {exec : α → σ → Except ε σ}

theorem attempt_of_ok {action : α} {state next : σ} (h : exec action state = .ok next) :
    attempt exec action state = next := by
  rw [attempt, h]

theorem attempt_of_error {action : α} {state : σ} {reason : ε}
    (h : exec action state = .error reason) : attempt exec action state = state := by
  rw [attempt, h]

@[simp] theorem run_nil (state : σ) : run exec [] state = state := rfl

@[simp] theorem run_cons (action : α) (rest : List α) (state : σ) :
    run exec (action :: rest) state = run exec rest (attempt exec action state) := rfl

theorem run_append (first second : List α) (state : σ) :
    run exec (first ++ second) state = run exec second (run exec first state) := by
  induction first generalizing state with
  | nil => rfl
  | cons action rest ih => exact ih _

theorem commits_cons_of_ok {action : α} {rest : List α} {state next : σ}
    (h : exec action state = .ok next) :
    commits exec (action :: rest) state = ⟨state, action, next⟩ :: commits exec rest next := by
  rw [commits, h]

theorem commits_cons_of_error {action : α} {rest : List α} {state : σ} {reason : ε}
    (h : exec action state = .error reason) :
    commits exec (action :: rest) state = commits exec rest state := by
  rw [commits, h]

/-- What every committed action preserves, every run preserves. -/
theorem run_invariant (exec : α → σ → Except ε σ) (inv : σ → Prop) (allowed : α → Prop)
    (hstep : ∀ action state next, allowed action → exec action state = .ok next →
      inv state → inv next) :
    ∀ (actions : List α) (state : σ), (∀ action ∈ actions, allowed action) → inv state →
      inv (run exec actions state) := by
  intro actions
  induction actions with
  | nil => intro state _ hinv; exact hinv
  | cons action rest ih =>
      intro state hallowed hinv
      refine ih _ (fun other hother => hallowed other (List.mem_cons_of_mem _ hother)) ?_
      cases hexec : exec action state with
      | error reason => rwa [attempt_of_error hexec]
      | ok next =>
          rw [attempt_of_ok hexec]
          exact hstep action state next (hallowed action (List.mem_cons_self ..)) hexec hinv

/-- A run is its committed actions replayed alone. -/
theorem run_committed (actions : List α) (state : σ) :
    run exec ((commits exec actions state).map Commit.action) state = run exec actions state := by
  induction actions generalizing state with
  | nil => rfl
  | cons action rest ih =>
      cases hexec : exec action state with
      | error reason => rw [commits_cons_of_error hexec, run_cons, attempt_of_error hexec, ih]
      | ok next =>
          rw [commits_cons_of_ok hexec, List.map_cons, run_cons, run_cons, attempt_of_ok hexec, ih]

/-- Every committed transition starts in a state of the run, which satisfies its invariant. -/
theorem commits_forall (exec : α → σ → Except ε σ) (inv : σ → Prop) (allowed : α → Prop)
    (hstep : ∀ action state next, allowed action → exec action state = .ok next →
      inv state → inv next) :
    ∀ (actions : List α) (state : σ), (∀ action ∈ actions, allowed action) → inv state →
      ∀ commit ∈ commits exec actions state,
        inv commit.before ∧ allowed commit.action ∧
          exec commit.action commit.before = .ok commit.after := by
  intro actions
  induction actions with
  | nil => intro state _ _ commit hcommit; simp [commits] at hcommit
  | cons action rest ih =>
      intro state hallowed hinv commit hcommit
      have hrest : ∀ other ∈ rest, allowed other :=
        fun other hother => hallowed other (List.mem_cons_of_mem _ hother)
      have haction := hallowed action (List.mem_cons_self ..)
      cases hexec : exec action state with
      | error reason =>
          rw [commits_cons_of_error hexec] at hcommit
          exact ih state hrest hinv commit hcommit
      | ok next =>
          rw [commits_cons_of_ok hexec] at hcommit
          rcases List.mem_cons.mp hcommit with rfl | hcommit
          · exact ⟨hinv, haction, hexec⟩
          · exact ih next hrest (hstep action state next haction hexec hinv) commit hcommit

/-- What holds of a state together with the transitions committed so far, where every further
transition keeps it. -/
theorem run_traced (exec : α → σ → Except ε σ) (inv : List (Commit α σ) → σ → Prop)
    (hstep : ∀ done action state next, exec action state = .ok next → inv done state →
      inv (done ++ [⟨state, action, next⟩]) next) :
    ∀ (actions : List α) (done : List (Commit α σ)) (state : σ), inv done state →
      inv (done ++ commits exec actions state) (run exec actions state) := by
  intro actions
  induction actions with
  | nil =>
      intro done state hinv
      rw [commits, List.append_nil]
      exact hinv
  | cons action rest ih =>
      intro done state hinv
      cases hexec : exec action state with
      | error reason =>
          rw [commits_cons_of_error hexec, run_cons, attempt_of_error hexec]
          exact ih done state hinv
      | ok next =>
          rw [commits_cons_of_ok hexec, run_cons, attempt_of_ok hexec]
          have hrest := ih _ next (hstep done action state next hexec hinv)
          rwa [List.append_assoc] at hrest

/-- Where every committed transition is, in another machine's view of the states, the commit of one
action that stands for it, a run is that machine's run of those actions, all of them committed. -/
theorem run_simulated {β τ δ : Type*} (exec : α → σ → Except ε σ) (image : β → τ → Except δ τ)
    (view : σ → τ) (stand : Commit α σ → β) (inv : σ → Prop)
    (hstep : ∀ action state next, exec action state = .ok next → inv state →
      inv next ∧ image (stand ⟨state, action, next⟩) (view state) = .ok (view next)) :
    ∀ (actions : List α) (state : σ), inv state →
      inv (run exec actions state) ∧
        run image ((commits exec actions state).map stand) (view state) =
          view (run exec actions state) ∧
        ∀ commit ∈ commits exec actions state,
          image (stand commit) (view commit.before) = .ok (view commit.after) := by
  intro actions
  induction actions with
  | nil => exact fun state hinv => ⟨hinv, rfl, fun _ hcommit => absurd hcommit List.not_mem_nil⟩
  | cons action rest ih =>
      intro state hinv
      cases hexec : exec action state with
      | error reason =>
          rw [run_cons, attempt_of_error hexec, commits_cons_of_error hexec]
          exact ih state hinv
      | ok next =>
          obtain ⟨hnext, himage⟩ := hstep action state next hexec hinv
          obtain ⟨hfinal, hrun, hcommits⟩ := ih next hnext
          rw [run_cons, attempt_of_ok hexec, commits_cons_of_ok hexec]
          refine ⟨hfinal, ?_, List.forall_mem_cons.mpr ⟨himage, hcommits⟩⟩
          rw [List.map_cons, run_cons, attempt_of_ok himage, hrun]

/-- What holds at the end of a run and not at its start was brought about by a committed
transition. -/
theorem exists_commit {p : σ → Prop} {actions : List α} {state : σ} (hstart : ¬p state)
    (hend : p (run exec actions state)) :
    ∃ commit ∈ commits exec actions state, ¬p commit.before ∧ p commit.after := by
  induction actions generalizing state with
  | nil => exact absurd hend hstart
  | cons action rest ih =>
      cases hexec : exec action state with
      | error reason =>
          rw [run_cons, attempt_of_error hexec] at hend
          rw [commits_cons_of_error hexec]
          exact ih hstart hend
      | ok next =>
          rw [run_cons, attempt_of_ok hexec] at hend
          rw [commits_cons_of_ok hexec]
          by_cases hnext : p next
          · exact ⟨_, List.mem_cons_self .., hstart, hnext⟩
          · obtain ⟨commit, hcommit, hbrought⟩ := ih hnext hend
            exact ⟨commit, List.mem_cons_of_mem _ hcommit, hbrought⟩

/-- A committed transition splits the run: it starts where the actions in front of it lead, and the
rest goes on from where it ends. -/
theorem mem_commits {actions : List α} {state : σ} {commit : Commit α σ}
    (h : commit ∈ commits exec actions state) :
    ∃ front back, actions = front ++ commit.action :: back ∧
      commit.before = run exec front state ∧ exec commit.action commit.before = .ok commit.after ∧
      run exec actions state = run exec back commit.after := by
  induction actions generalizing state with
  | nil => simp [commits] at h
  | cons action rest ih =>
      cases hexec : exec action state with
      | error reason =>
          rw [commits_cons_of_error hexec] at h
          obtain ⟨front, back, rfl, hbefore, hrun, hafter⟩ := ih h
          have hskip := attempt_of_error hexec
          refine ⟨action :: front, back, rfl, ?_, hrun, ?_⟩
          · rw [run_cons, hskip, hbefore]
          · rw [run_cons, hskip, hafter]
      | ok next =>
          have hstep := attempt_of_ok hexec
          rw [commits_cons_of_ok hexec] at h
          rcases List.mem_cons.mp h with rfl | h
          · exact ⟨[], rest, rfl, rfl, hexec, by rw [run_cons, hstep]⟩
          · obtain ⟨front, back, rfl, hbefore, hrun, hafter⟩ := ih h
            refine ⟨action :: front, back, rfl, ?_, hrun, ?_⟩
            · rw [run_cons, hstep, hbefore]
            · rw [run_cons, hstep, hafter]

/-- Where every committed step raises a measure of the state, the committed transitions are
ordered by it: each starts no lower than the one before it ended. -/
theorem commits_pairwise (exec : α → σ → Except ε σ) (inv : σ → Prop) (allowed : α → Prop)
    (measure : σ → ℕ)
    (hstep : ∀ action state next, allowed action → exec action state = .ok next →
      inv state → inv next)
    (hrise : ∀ action state next, allowed action → exec action state = .ok next →
      inv state → measure state < measure next) :
    ∀ (actions : List α) (state : σ), (∀ action ∈ actions, allowed action) → inv state →
      (∀ commit ∈ commits exec actions state, measure state ≤ measure commit.before) ∧
        (commits exec actions state).Pairwise fun earlier later =>
          measure earlier.after ≤ measure later.before := by
  intro actions
  induction actions with
  | nil => intro state _ _; simp [commits]
  | cons action rest ih =>
      intro state hallowed hinv
      have hrest : ∀ other ∈ rest, allowed other :=
        fun other hother => hallowed other (List.mem_cons_of_mem _ hother)
      have haction := hallowed action (List.mem_cons_self ..)
      cases hexec : exec action state with
      | error reason =>
          rw [commits_cons_of_error hexec]
          exact ih state hrest hinv
      | ok next =>
          rw [commits_cons_of_ok hexec]
          obtain ⟨habove, hordered⟩ :=
            ih next hrest (hstep action state next haction hexec hinv)
          refine ⟨?_, List.pairwise_cons.mpr ⟨habove, hordered⟩⟩
          intro commit hcommit
          rcases List.mem_cons.mp hcommit with rfl | hcommit
          · exact le_rfl
          · exact (hrise action state next haction hexec hinv).le.trans (habove commit hcommit)

end Machine
