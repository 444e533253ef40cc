import Mathlib.Order.Bounds.Basic
import Mathlib.Data.Set.Lattice

/-!
# Least closed sets of a monotone enabling relation

An `Enabling` says which elements may be processed once a set of elements has been processed.  A
set is *closed* when every element it enables belongs to it.  `Enabling.least` is the least closed
set, and `Grounded.isLeast` is the rule for algorithms: a processing order in which every element
was enabled by the elements before it, and after which nothing new is enabled, lists exactly the
least closed set, whatever the order was.

`Enabling.restrict` only lets the elements of a set `ok` enable others.
-/

universe u

/-- A monotone enabling relation. -/
structure Enabling (α : Type u) where
  enabled : Set α → α → Prop
  mono : ∀ {S T : Set α} {a : α}, S ⊆ T → enabled S a → enabled T a

namespace Enabling

variable {α : Type u} (E : Enabling α)

/-- Every element enabled by `S` is in `S`. -/
def Closed (S : Set α) : Prop := ∀ a, E.enabled S a → a ∈ S

/-- The least closed set. -/
def least : Set α := {a | ∀ S, E.Closed S → a ∈ S}

theorem least_subset {S : Set α} (hS : E.Closed S) : E.least ⊆ S := fun _ ha => ha S hS

theorem least_closed : E.Closed E.least :=
  fun a ha _ hS => hS a (E.mono (E.least_subset hS) ha)

theorem least_isLeast : IsLeast {S | E.Closed S} E.least :=
  ⟨E.least_closed, fun _ hS => E.least_subset hS⟩

/-- Every element of the list is enabled by the elements that come before it. -/
inductive Grounded : List α → Prop
  | nil : Grounded []
  | snoc {l : List α} {a : α} : Grounded l → E.enabled {b | b ∈ l} a → Grounded (l ++ [a])

variable {E}

theorem Grounded.subset_least {l : List α} (h : E.Grounded l) : {a | a ∈ l} ⊆ E.least := by
  induction h with
  | nil => simp
  | snoc _ ha ih =>
    intro b hb
    rcases List.mem_append.1 hb with hb | hb
    · exact ih hb
    · obtain rfl := List.mem_singleton.1 hb
      exact E.least_closed _ (E.mono ih ha)

/-- A grounded order that ends closed lists exactly the least closed set. -/
theorem Grounded.eq_least {l : List α} (h : E.Grounded l) (hl : E.Closed {a | a ∈ l}) :
    {a | a ∈ l} = E.least :=
  Set.Subset.antisymm h.subset_least (E.least_subset hl)

variable (E)

/-- The enabling relation in which only the elements of `ok` count as processed. -/
def restrict (ok : Set α) : Enabling α where
  enabled S a := E.enabled (S ∩ ok) a
  mono hST ha := E.mono (Set.inter_subset_inter_left _ hST) ha

theorem least_restrict_subset (ok : Set α) : (E.restrict ok).least ⊆ E.least :=
  least_subset _ fun _ ha => E.least_closed _ (E.mono Set.inter_subset_left ha)

/-- When no element of the restricted closure is excluded, the restriction changes nothing. -/
theorem least_restrict_eq {ok : Set α} (h : (E.restrict ok).least ⊆ ok) :
    (E.restrict ok).least = E.least := by
  refine Set.Subset.antisymm (E.least_restrict_subset ok) (least_subset _ fun a ha => ?_)
  apply (E.restrict ok).least_closed a
  change E.enabled ((E.restrict ok).least ∩ ok) a
  rwa [Set.inter_eq_left.2 h]

/-- If the closure has an excluded element, so has the restricted closure. -/
theorem exists_not_mem_of_least {ok : Set α} (h : ∃ a ∈ E.least, a ∉ ok) :
    ∃ a ∈ (E.restrict ok).least, a ∉ ok := by
  by_contra hcon
  push Not at hcon
  obtain ⟨a, ha, hok⟩ := h
  rw [← E.least_restrict_eq hcon] at ha
  exact hok (hcon a ha)

end Enabling
