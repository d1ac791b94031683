import Mathlib.Logic.Function.Basic
import Mathlib.Tactic.Common

/-!
# Write-once stores

A name of a write-once store is linked at most once.  `link` gives a name its
content if the name is free and leaves the store alone if it is taken.

The rules are `extends_link` (a linked name keeps its content) and `Holds.link`
(what holds of every name and its content still holds when another is linked).
-/

namespace WriteOnce

/-- Contents by name. -/
abbrev Store (κ ν : Type*) := κ → Option ν

variable {κ ν : Type*} [DecidableEq κ]

/-- An exclusive link. -/
def link (store : Store κ ν) (name : κ) (content : ν) : Store κ ν :=
  if (store name).isSome then store else Function.update store name (some content)

/-- Every name keeps its content. -/
def Extends (before after : Store κ ν) : Prop :=
  ∀ name content, before name = some content → after name = some content

/-- A fact about every name and its content. -/
def Holds (fact : κ → ν → Prop) (store : Store κ ν) : Prop :=
  ∀ name content, store name = some content → fact name content

variable {store before middle after : Store κ ν} {name other : κ} {content : ν}

omit [DecidableEq κ] in
theorem Extends.refl (store : Store κ ν) : Extends store store := fun _ _ h => h

omit [DecidableEq κ] in
theorem Extends.trans (h : Extends before middle) (h' : Extends middle after) :
    Extends before after :=
  fun name content hbefore => h' name content (h name content hbefore)

theorem link_of_taken {old : ν} (h : store name = some old) : link store name content = store := by
  simp [link, h]

theorem link_of_free (h : store name = none) :
    link store name content = Function.update store name (some content) := by
  simp [link, h]

theorem link_of_ne (hne : other ≠ name) : link store name content other = store other := by
  cases hname : store name with
  | none => rw [link_of_free hname, Function.update_of_ne hne]
  | some old => rw [link_of_taken hname]

/-- A linked name has some content, which is the new one if the name was free. -/
theorem link_self : link store name content name = some ((store name).getD content) := by
  cases hname : store name with
  | none => rw [link_of_free hname, Function.update_self, Option.getD_none]
  | some old => rw [link_of_taken hname, hname, Option.getD_some]

theorem extends_link (store : Store κ ν) (name : κ) (content : ν) :
    Extends store (link store name content) := by
  intro other old hold
  by_cases hsame : other = name
  · subst hsame
    rw [link_of_taken hold, hold]
  · rw [link_of_ne hsame, hold]

theorem Holds.link {fact : κ → ν → Prop} (h : Holds fact store) (hnew : fact name content) :
    Holds fact (link store name content) := by
  intro other old hold
  by_cases hsame : other = name
  · subst hsame
    cases hname : store other with
    | none =>
        rw [link_self, hname, Option.getD_none, Option.some.injEq] at hold
        exact hold ▸ hnew
    | some first =>
        rw [link_of_taken hname] at hold
        exact h other old hold
  · rw [link_of_ne hsame] at hold
    exact h other old hold

end WriteOnce
