import Mathlib.Data.Nat.Notation
import Mathlib.Order.Notation

/-!
# Loops given by a partial step function

`Loop.run step n s` takes at most `n` steps and stops early where `step` is undefined.  The rules
are the invariant rule and two variant rules: a loop whose variant decreases at every step has
stopped after as many steps as its variant allows, and one whose variant decreases now and then
stops at some time.
-/

universe u

namespace Loop

variable {σ : Type u} (step : σ → Option σ)

/-- At most `n` steps. -/
def run : ℕ → σ → σ
  | 0, s => s
  | n + 1, s =>
    match step s with
    | none => s
    | some s' => run n s'

variable {step}

theorem run_succ_of_some {s s' : σ} (h : step s = some s') (n : ℕ) :
    run step (n + 1) s = run step n s' := by
  rw [run, h]

theorem run_of_none {s : σ} (h : step s = none) (n : ℕ) : run step n s = s := by
  cases n with
  | zero => rfl
  | succ n => rw [run, h]

/-- The invariant rule. -/
theorem run_induction {P : σ → Prop} (hstep : ∀ s s', step s = some s' → P s → P s') (n : ℕ) {s : σ}
    (hs : P s) : P (run step n s) := by
  induction n generalizing s with
  | zero => exact hs
  | succ n ih =>
    cases h : step s with
    | none => rwa [run_of_none h]
    | some s' =>
      rw [run_succ_of_some h]
      exact ih (hstep s s' h hs)

/-- The variant rule, for states that satisfy an invariant. -/
theorem step_run_eq_none {P : σ → Prop} (hstep : ∀ s s', step s = some s' → P s → P s')
    (variant : σ → ℕ) (hvar : ∀ s s', P s → step s = some s' → variant s' < variant s)
    (n : ℕ) {s : σ} (hs : P s) (hn : variant s ≤ n) : step (run step n s) = none := by
  induction n generalizing s with
  | zero =>
    cases h : step s with
    | none => exact h
    | some s' => exact absurd (hvar s s' hs h) (by omega)
  | succ n ih =>
    cases h : step s with
    | none => rwa [run_of_none h]
    | some s' =>
      rw [run_succ_of_some h]
      exact ih (hstep s s' h hs) (by have := hvar s s' hs h; omega)

theorem run_run (m n : ℕ) (s : σ) : run step n (run step m s) = run step (m + n) s := by
  induction m generalizing s with
  | zero => rw [Nat.zero_add]; rfl
  | succ m ih =>
    cases h : step s with
    | none => rw [run_of_none h, run_of_none h, run_of_none h]
    | some s' => rw [run_succ_of_some h, Nat.succ_add, run_succ_of_some h, ih]

/-- The variant rule for a loop that repeats itself a while before it gets on. -/
theorem exists_stop {P : σ → Prop} (hstep : ∀ s s', step s = some s' → P s → P s') (variant : σ → ℕ)
    (hvar : ∀ s s', P s → step s = some s' → ∃ n, variant (run step n s) < variant s) {s : σ}
    (hs : P s) :
    ∃ n, step (run step n s) = none := by
  induction hn : variant s using Nat.strongRecOn generalizing s with | _ k ih
  subst hn
  cases h : step s with
  | none => exact ⟨0, h⟩
  | some s' =>
    obtain ⟨m, hm⟩ := hvar s s' hs h
    obtain ⟨n, hstop⟩ := ih _ hm (run_induction hstep m hs) rfl
    rw [run_run] at hstop
    exact ⟨m + n, hstop⟩

/-- A loop that has stopped stays where it is. -/
theorem run_add {s : σ} {n : ℕ} (h : step (run step n s) = none) (k : ℕ) :
    run step (n + k) s = run step n s := by
  induction n generalizing s with
  | zero => exact run_of_none h _
  | succ n ih =>
    cases hs : step s with
    | none => rw [run_of_none hs, run_of_none hs]
    | some s' =>
      rw [run_succ_of_some hs] at h ⊢
      rw [Nat.succ_add, run_succ_of_some hs, ih h]

end Loop
