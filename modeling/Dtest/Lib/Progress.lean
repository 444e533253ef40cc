import Dtest.Lib.Guarded
import Mathlib.Data.Nat.Notation

/-!
# Systems given by partial moves, and their progress

`Guarded.ofMove` makes a guarded system of a function that returns the next state where a move can
be made.  The rules are the invariant rule for such a system, and a rule for a measure that every
move decreases: no run is longer than the measure.
-/

universe u v

namespace Guarded

variable {S : Type u} {L : Type v}

/-- The system whose moves are those that `move` defines. -/
def ofMove (move : S → L → Option S) : Guarded S L where
  allowed s l := (move s l).isSome = true
  step s l := (move s l).getD s

variable {move : S → L → Option S}

instance (s : S) (l : L) : Decidable ((ofMove move).allowed s l) :=
  inferInstanceAs (Decidable (_ = true))

theorem ofMove_allowed_iff {s : S} {l : L} :
    (ofMove move).allowed s l ↔ ∃ s', move s l = some s' := Option.isSome_iff_exists

theorem ofMove_step {s s' : S} {l : L} (h : move s l = some s') : (ofMove move).step s l = s' := by
  show (move s l).getD s = s'
  rw [h]
  rfl

/-- A run leads from one state to another. -/
def Reaches (move : S → L → Option S) (s s' : S) : Prop :=
  ∃ ls, (ofMove move).Admissible s ls ∧ (ofMove move).exec s ls = s'

theorem Reaches.refl (s : S) : Reaches move s s := ⟨[], trivial, rfl⟩

theorem Reaches.head {s s₁ s' : S} (l : L) (hmove : move s l = some s₁) (h : Reaches move s₁ s') :
    Reaches move s s' := by
  obtain ⟨ls, hadm, hexec⟩ := h
  rw [← ofMove_step hmove] at hadm hexec
  exact ⟨l :: ls, ⟨ofMove_allowed_iff.2 ⟨s₁, hmove⟩, hadm⟩, hexec⟩

theorem Reaches.trans {s s₁ s' : S} (h : Reaches move s s₁) (h' : Reaches move s₁ s') :
    Reaches move s s' := by
  obtain ⟨ls, hadm, rfl⟩ := h
  obtain ⟨ls', hadm', rfl⟩ := h'
  exact ⟨ls ++ ls', admissible_append.2 ⟨hadm, hadm'⟩, exec_append _ s ls ls'⟩

theorem admissible_restrict {G : Guarded S L} {C : S → L → Prop} {s : S} {ls : List L}
    (h : (G.restrict C).Admissible s ls) : G.Admissible s ls := by
  induction ls generalizing s with
  | nil => trivial
  | cons l ls ih => exact ⟨h.1.1, ih h.2⟩

/-- The invariant rule for moves that meet a condition. -/
theorem invariant_ofMove {C : S → L → Prop} {I : S → Prop}
    (hstep : ∀ s l s', I s → C s l → move s l = some s' → I s') {s : S} {ls : List L} (hs : I s)
    (h : ((ofMove move).restrict C).Admissible s ls) :
    I (((ofMove move).restrict C).exec s ls) := by
  refine Admissible.invariant (fun s l hI hallowed => ?_) hs h
  obtain ⟨s', hmove⟩ := ofMove_allowed_iff.1 hallowed.1
  show I ((ofMove move).step s l)
  rw [ofMove_step hmove]
  exact hstep s l s' hI hallowed.2 hmove

section Measure

variable {G : Guarded S L} {I : S → Prop} {μ : S → ℕ}

/-- A run is no longer than a measure that every move decreases. -/
theorem length_le_measure (hI : ∀ s l, I s → G.allowed s l → I (G.step s l))
    (hlt : ∀ s l, I s → G.allowed s l → μ (G.step s l) < μ s) {s : S} {ls : List L}
    (hs : I s) (h : G.Admissible s ls) : ls.length + μ (G.exec s ls) ≤ μ s := by
  induction ls generalizing s with
  | nil => exact Nat.le_of_eq (Nat.zero_add _)
  | cons l ls ih =>
    have hlater := ih (hI s l hs h.1) h.2
    have hhere := hlt s l hs h.1
    rw [List.length_cons, exec_cons]
    omega

end Measure

end Guarded
