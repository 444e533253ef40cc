import Mathlib.Order.Notation

/-!
# Systems with guarded moves

A `Guarded` system moves by a function of the state and a label, where its guard allows the label.
Whatever the environment decides (an address an allocator returns, a schedule) is part of the label,
so that a statement about all admissible label lists is one about all behaviours.
-/

universe u v

/-- A guarded system with states `S` and labels `L`. -/
structure Guarded (S : Type u) (L : Type v) where
  allowed : S → L → Prop
  step : S → L → S

namespace Guarded

variable {S : Type u} {L : Type v} (G : Guarded S L)

/-- The state after a list of moves. -/
def exec (s : S) (ls : List L) : S := ls.foldl G.step s

/-- Every move of the list is allowed in the state it is made in. -/
def Admissible : S → List L → Prop
  | _, [] => True
  | s, l :: ls => G.allowed s l ∧ Admissible (G.step s l) ls

/-- The same moves under a stronger guard. -/
def restrict (C : S → L → Prop) : Guarded S L := ⟨fun s l => G.allowed s l ∧ C s l, G.step⟩

@[simp] theorem exec_nil (s : S) : G.exec s [] = s := rfl

@[simp] theorem exec_cons (s : S) (l : L) (ls : List L) :
    G.exec s (l :: ls) = G.exec (G.step s l) ls := rfl

theorem exec_append (s : S) (ls ls' : List L) :
    G.exec s (ls ++ ls') = G.exec (G.exec s ls) ls' := List.foldl_append ..

@[simp] theorem exec_snoc (s : S) (ls : List L) (l : L) :
    G.exec s (ls ++ [l]) = G.step (G.exec s ls) l := G.exec_append s ls [l]

variable {G}

theorem admissible_append {s : S} {ls ls' : List L} :
    G.Admissible s (ls ++ ls') ↔ G.Admissible s ls ∧ G.Admissible (G.exec s ls) ls' := by
  induction ls generalizing s with
  | nil => simp [Admissible]
  | cons l ls ih => simp only [List.cons_append, Admissible, ih, exec_cons, and_assoc]

theorem admissible_snoc {s : S} {ls : List L} {l : L} :
    G.Admissible s (ls ++ [l]) ↔ G.Admissible s ls ∧ G.allowed (G.exec s ls) l := by
  rw [admissible_append]
  simp [Admissible]

instance decidableAdmissible [∀ s l, Decidable (G.allowed s l)] :
    ∀ (s : S) (ls : List L), Decidable (G.Admissible s ls)
  | _, [] => inferInstanceAs (Decidable True)
  | s, l :: ls =>
    have := decidableAdmissible (G.step s l) ls
    inferInstanceAs (Decidable (G.allowed s l ∧ G.Admissible (G.step s l) ls))

instance decidableRestrict {C : S → L → Prop} {s : S} {l : L} [Decidable (G.allowed s l)]
    [Decidable (C s l)] : Decidable ((G.restrict C).allowed s l) :=
  inferInstanceAs (Decidable (_ ∧ _))

/-- The invariant rule. -/
theorem Admissible.invariant {I : S → Prop} (hstep : ∀ s l, I s → G.allowed s l → I (G.step s l))
    {s : S} {ls : List L} (hs : I s) (h : G.Admissible s ls) : I (G.exec s ls) := by
  induction ls generalizing s with
  | nil => exact hs
  | cons l ls ih => exact ih (hstep s l hs h.1) h.2

end Guarded
