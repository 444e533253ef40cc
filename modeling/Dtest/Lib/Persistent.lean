import Dtest.Lib.Guarded
import Mathlib.Algebra.Order.Ring.Nat
import Mathlib.Logic.Function.Basic
import Mathlib.Order.Basic

/-!
# Parties that do not disable one another

Each of several parties takes the steps of its own script in order.  What a party waits for stays
true as the others go on, so the order in which the parties step does not matter: where no party can
step any more, each has taken as many steps as it can in any order.  A system with queues, messages
in flight and the like `Implements` such parties when each of its moves is a step of one of them or
of none, and when it only stops where they do.
-/

universe u v w

/-- Parties with the condition for the next step of each, where `c j` counts the steps of party
`j`. -/
structure Persistent (ι : Type u) where
  enabled : ι → (ι → ℕ) → Prop
  mono : ∀ {i : ι} {c d : ι → ℕ}, c ≤ d → c i = d i → enabled i c → enabled i d

namespace Persistent

variable {ι : Type u}

/-- No party can step. -/
def Stuck (P : Persistent ι) (c : ι → ℕ) : Prop := ∀ i, ¬ P.enabled i c

variable [DecidableEq ι]

/-- Party `i` takes a step. -/
def advance (c : ι → ℕ) (i : ι) : ι → ℕ := Function.update c i (c i + 1)

@[simp] theorem advance_self (c : ι → ℕ) (i : ι) : advance c i i = c i + 1 :=
  Function.update_self i _ c

@[simp] theorem advance_of_ne (c : ι → ℕ) {i j : ι} (h : j ≠ i) : advance c i j = c j :=
  Function.update_of_ne h _ c

theorem le_advance (c : ι → ℕ) (i : ι) : c ≤ advance c i := by
  intro j
  by_cases h : j = i
  · subst h
    simp
  · simp [h]

variable {P : Persistent ι} {c d : ι → ℕ} {i : ι}

/-- A party cannot step past counts where all are stuck. -/
theorem advance_le (hd : P.Stuck d) (hle : c ≤ d) (h : P.enabled i c) : advance c i ≤ d := by
  have hlt : c i < d i := by
    refine lt_of_le_of_ne (hle i) fun heq => ?_
    exact hd i (P.mono hle heq h)
  intro j
  by_cases hj : j = i
  · subst hj
    rw [advance_self]
    exact hlt
  · rw [advance_of_ne c hj]
    exact hle j

variable {S : Type v} {L : Type w}

/-- `progress` counts the steps of the parties in the states of a system with the invariant `I`. -/
structure Implements (P : Persistent ι) (G : Guarded S L) (I : S → Prop) (progress : S → ι → ℕ) :
    Prop where
  inv : ∀ s l, I s → G.allowed s l → I (G.step s l)
  step : ∀ s l, I s → G.allowed s l → progress (G.step s l) = progress s ∨
    ∃ i, P.enabled i (progress s) ∧ progress (G.step s l) = advance (progress s) i
  stuck : ∀ s, I s → (∀ l, ¬ G.allowed s l) → P.Stuck (progress s)

namespace Implements

variable {G : Guarded S L} {I : S → Prop} {progress : S → ι → ℕ} {s : S} {ls ls' : List L}

/-- No run takes a party back. -/
theorem le_progress (h : P.Implements G I progress) (hs : I s) (hadm : G.Admissible s ls) :
    progress s ≤ progress (G.exec s ls) := by
  induction ls generalizing s with
  | nil => exact le_rfl
  | cons l ls ih =>
    refine le_trans ?_ (ih (h.inv s l hs hadm.1) hadm.2)
    rcases h.step s l hs hadm.1 with heq | ⟨i, -, heq⟩
    · exact heq.ge
    · rw [heq]
      exact le_advance _ i

/-- No run takes a party past counts where all are stuck. -/
theorem progress_le (h : P.Implements G I progress) (hd : P.Stuck d) (hs : I s)
    (hle : progress s ≤ d) (hadm : G.Admissible s ls) : progress (G.exec s ls) ≤ d := by
  induction ls generalizing s with
  | nil => exact hle
  | cons l ls ih =>
    refine ih (h.inv s l hs hadm.1) ?_ hadm.2
    rcases h.step s l hs hadm.1 with heq | ⟨i, hi, heq⟩
    · exact heq.trans_le hle
    · exact heq.trans_le (advance_le hd hle hi)

/-- A run takes each party at most as far as any run that cannot go on. -/
theorem progress_le_final (h : P.Implements G I progress) (hs : I s) (hadm : G.Admissible s ls)
    (hadm' : G.Admissible s ls') (hfinal : ∀ l, ¬ G.allowed (G.exec s ls') l) :
    progress (G.exec s ls) ≤ progress (G.exec s ls') := by
  have hI : I (G.exec s ls') := hadm'.invariant h.inv hs
  exact h.progress_le (h.stuck _ hI hfinal) hs (h.le_progress hs hadm') hadm

end Implements

end Persistent
