import Mathlib.Tactic.Common

/-!
# Computations that may fail

`List.foldlM` in `Except` runs a body over a list and stops at the first error.
An invariant of the processed prefix and the state is proved for the body once
and holds at the end (`foldlM_invariant`).  `Avoids bad` says that a computation
never raises an error of a kind, with a rule for each way to build computations.
-/

namespace Fallible

universe u v

variable {α β σ : Type u} {ε : Type v}

theorem bind_ok {first : Except ε α} {value : α} (next : α → Except ε β)
    (h : first = .ok value) : first >>= next = next value := by
  rw [h]
  rfl

theorem bind_error {first : Except ε α} {reason : ε} (next : α → Except ε β)
    (h : first = .error reason) : first >>= next = .error reason := by
  rw [h]
  rfl

/-- What holds before the loop, and is kept by its body, holds after it. -/
theorem foldlM_invariant {body : σ → α → Except ε σ} (inv : List α → σ → Prop)
    (items : List α) (state : σ) {final : σ} (hrun : items.foldlM body state = .ok final)
    (hstart : inv [] state)
    (hstep : ∀ done item rest before after, items = done ++ item :: rest → inv done before →
      body before item = .ok after → inv (done ++ [item]) after) : inv items final := by
  suffices h : ∀ (rest done : List α) (before : σ), items = done ++ rest → inv done before →
      rest.foldlM body before = .ok final → inv items final from h items [] state rfl hstart hrun
  intro rest
  induction rest with
  | nil =>
      intro done before hitems hinv hrun
      rw [List.append_nil] at hitems
      obtain rfl : before = final := Except.ok.inj hrun
      exact hitems ▸ hinv
  | cons item rest ih =>
      intro done before hitems hinv hrun
      rw [List.foldlM_cons] at hrun
      cases hbody : body before item with
      | error reason => rw [bind_error _ hbody] at hrun; exact nomatch hrun
      | ok after =>
          rw [bind_ok _ hbody] at hrun
          refine ih (done ++ [item]) after (by simpa using hitems) ?_ hrun
          exact hstep done item rest before after hitems hinv hbody

/-- A loop whose body succeeds wherever its invariant holds succeeds, and keeps the invariant. -/
theorem foldlM_ok_of_invariant {body : σ → α → Except ε σ} (inv : List α → σ → Prop)
    (items : List α) (state : σ) (hstart : inv [] state)
    (hstep : ∀ done item rest before, items = done ++ item :: rest → inv done before →
      ∃ after, body before item = .ok after ∧ inv (done ++ [item]) after) :
    ∃ final, items.foldlM body state = .ok final ∧ inv items final := by
  suffices h : ∀ (rest done : List α) (before : σ), items = done ++ rest → inv done before →
      ∃ final, rest.foldlM body before = .ok final ∧ inv items final from h items [] state rfl hstart
  intro rest
  induction rest with
  | nil =>
      intro done before hitems hinv
      rw [List.append_nil] at hitems
      exact ⟨before, rfl, hitems ▸ hinv⟩
  | cons item rest ih =>
      intro done before hitems hinv
      obtain ⟨after, hbody, hinv⟩ := hstep done item rest before hitems hinv
      obtain ⟨final, hrun, hfinal⟩ := ih (done ++ [item]) after (by simpa using hitems) hinv
      refine ⟨final, ?_, hfinal⟩
      rw [List.foldlM_cons, bind_ok _ hbody]
      exact hrun

/-- A loop whose body moves along a reflexive and transitive relation moves along it. -/
theorem foldlM_rel {body : σ → α → Except ε σ} (rel : σ → σ → Prop) (hrefl : ∀ s, rel s s)
    (htrans : ∀ {a b c}, rel a b → rel b c → rel a c) {items : List α} {state final : σ}
    (hrun : items.foldlM body state = .ok final)
    (hstep : ∀ item ∈ items, ∀ before after, body before item = .ok after → rel before after) :
    rel state final :=
  foldlM_invariant (fun _ s => rel state s) items state hrun (hrefl state)
    fun _ item _ before after hitems hinv hbody =>
      htrans hinv (hstep item (by simp [hitems]) before after hbody)

/-- A loop that maps relates its results to its items, one by one. -/
theorem forall₂_of_mapM {body : α → Except ε β} {items : List α} {results : List β}
    (hrun : items.mapM body = .ok results) :
    List.Forall₂ (fun item result => body item = .ok result) items results := by
  induction items generalizing results with
  | nil =>
      obtain rfl : [] = results := Except.ok.inj hrun
      exact .nil
  | cons item rest ih =>
      rw [List.mapM_cons] at hrun
      cases hbody : body item with
      | error reason =>
          rw [bind_error _ hbody] at hrun
          exact absurd hrun (by simp)
      | ok result =>
          rw [bind_ok _ hbody] at hrun
          cases hrest : rest.mapM body with
          | error reason =>
              rw [bind_error _ hrest] at hrun
              exact absurd hrun (by simp)
          | ok others =>
              rw [bind_ok _ hrest] at hrun
              obtain rfl : result :: others = results := Except.ok.inj hrun
              exact .cons hbody (ih hrest)

/-- A loop of checks passes for each of its items. -/
theorem forall_of_forM {ι : Type} {body : ι → Except ε PUnit} {items : List ι}
    (hrun : items.forM body = .ok ⟨⟩) : ∀ item ∈ items, body item = .ok ⟨⟩ := by
  induction items with
  | nil => simp
  | cons head rest ih =>
      change (body head >>= fun _ => rest.forM body) = _ at hrun
      cases hbody : body head with
      | error reason =>
          rw [bind_error _ hbody] at hrun
          exact absurd hrun (by simp)
      | ok _ =>
          rw [bind_ok _ hbody] at hrun
          intro item hitem
          rcases List.mem_cons.mp hitem with rfl | hitem
          · exact hbody
          · exact ih hrun item hitem

/-- A computation raises no error of a kind. -/
def Avoids (bad : ε → Prop) (computation : Except ε α) : Prop :=
  ∀ reason, computation = .error reason → ¬bad reason

namespace Avoids

variable {bad : ε → Prop}

theorem ok {value : α} : Avoids bad (.ok value) := nofun

theorem pure {value : α} : Avoids bad (pure value : Except ε α) := nofun

/-- A sequence avoids what its parts avoid; the rest is run on what the first part gave. -/
theorem bind {first : Except ε α} {next : α → Except ε β} (hfirst : Avoids bad first)
    (hnext : ∀ value, first = .ok value → Avoids bad (next value)) : Avoids bad (first >>= next) := by
  intro raised heq
  cases hrun : first with
  | error reason =>
      rw [bind_error _ hrun] at heq
      obtain rfl := Except.error.inj heq
      exact hfirst _ hrun
  | ok value =>
      rw [bind_ok _ hrun] at heq
      exact hnext value hrun raised heq

/-- The sequence rule, for a simp set to take a program apart. -/
theorem bind_iff {first : Except ε α} {next : α → Except ε β} : Avoids bad (first >>= next) ↔
    Avoids bad first ∧ ∀ value, first = .ok value → Avoids bad (next value) := by
  refine ⟨fun h => ⟨fun reason hrun => h reason (bind_error _ hrun), fun value hrun => ?_⟩,
    fun h => h.1.bind h.2⟩
  intro reason hnext
  exact h reason (by rw [bind_ok _ hrun, hnext])

theorem map_iff {first : Except ε α} {f : α → β} :
    Avoids bad (f <$> first) ↔ Avoids bad first := by
  cases first with
  | error reason => exact ⟨fun h raised heq => h raised (by rw [Except.error.inj heq]; rfl),
      fun h raised heq => h raised (by rw [Except.error.inj heq])⟩
  | ok value => exact ⟨fun _ => Avoids.ok, fun _ => Avoids.ok⟩

/-- A loop avoids what its body avoids from every state that the loop reaches. -/
theorem foldlM {body : σ → α → Except ε σ} (inv : List α → σ → Prop) {items : List α} {state : σ}
    (hstart : inv [] state)
    (hstep : ∀ done item rest before after, items = done ++ item :: rest → inv done before →
      body before item = .ok after → inv (done ++ [item]) after)
    (hbody : ∀ done item rest before, items = done ++ item :: rest → inv done before →
      Avoids bad (body before item)) : Avoids bad (items.foldlM body state) := by
  suffices h : ∀ (rest done : List α) (before : σ), items = done ++ rest → inv done before →
      Avoids bad (rest.foldlM body before) from h items [] state rfl hstart
  intro rest
  induction rest with
  | nil => intro done before _ _; exact Avoids.pure
  | cons item rest ih =>
      intro done before hitems hinv
      rw [List.foldlM_cons]
      refine (hbody done item rest before hitems hinv).bind fun after hrun => ?_
      exact ih (done ++ [item]) after (by simpa using hitems)
        (hstep done item rest before after hitems hinv hrun)

/-- A loop that maps avoids what it avoids on each of its items. -/
theorem mapM {body : α → Except ε β} {items : List α}
    (h : ∀ item ∈ items, Avoids bad (body item)) : Avoids bad (items.mapM body) := by
  induction items with
  | nil => exact Avoids.pure
  | cons head rest ih =>
      rw [List.mapM_cons]
      refine (h head (List.mem_cons_self ..)).bind fun result _ => ?_
      exact (ih fun item hitem => h item (List.mem_cons_of_mem _ hitem)).bind fun _ _ => Avoids.pure

end Avoids

end Fallible
