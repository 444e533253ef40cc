import Mathlib.Algebra.Order.Ring.Nat

/-!
# Unsigned 64-bit arithmetic on natural numbers

`wadd`, `wsub` and `wmul` are the operations of machine words, given as the naturals below `2 ^ 64`.
They are congruences, so a chain of them can be compared with exact sums.  `signedWord` is the value
that a number has as a signed word.
-/

/-- Addition modulo `2 ^ 64`. -/
def wadd (a b : ℕ) : ℕ := (a + b) % 2 ^ 64

/-- Subtraction modulo `2 ^ 64`. -/
def wsub (a b : ℕ) : ℕ := (2 ^ 64 - b % 2 ^ 64 + a) % 2 ^ 64

/-- Multiplication modulo `2 ^ 64`. -/
def wmul (a b : ℕ) : ℕ := a * b % 2 ^ 64

/-- The number between `-2 ^ 63` and `2 ^ 63` that is the same modulo `2 ^ 64`. -/
def signedWord (a : ℤ) : ℤ := a.bmod (2 ^ 64)

theorem signedWord_of_lt {a : ℤ} (h : -2 ^ 63 ≤ a) (h' : a < 2 ^ 63) : signedWord a = a := by
  unfold signedWord
  exact Int.bmod_eq_of_le (by omega) (by omega)

theorem signedWord_add_signedWord (a b : ℤ) :
    signedWord (a + signedWord b) = signedWord (a + b) := by
  unfold signedWord
  exact Int.add_bmod_bmod

/-- The upper half of the words is negative. -/
theorem signedWord_of_le {a : ℤ} (h : 2 ^ 63 ≤ a) (h' : a < 2 ^ 64) :
    signedWord a = a - 2 ^ 64 := by
  have hsub : signedWord (a - 2 ^ 64) = signedWord a := by
    unfold signedWord
    exact Int.sub_bmod_right a (2 ^ 64)
  rw [← hsub]
  exact signedWord_of_lt (by omega) (by omega)

theorem wadd_lt (a b : ℕ) : wadd a b < 2 ^ 64 := by
  unfold wadd
  exact Nat.mod_lt _ (Nat.two_pow_pos 64)

theorem wmul_of_lt {a b : ℕ} (h : a * b < 2 ^ 64) : wmul a b = a * b := by
  unfold wmul
  exact Nat.mod_eq_of_lt h

theorem wadd_of_lt {a b : ℕ} (h : a + b < 2 ^ 64) : wadd a b = a + b := by
  unfold wadd
  exact Nat.mod_eq_of_lt h

theorem wsub_eq_mod {a b : ℕ} (h : b ≤ a) : wsub a b = (a - b) % 2 ^ 64 := by
  unfold wsub
  omega

theorem wsub_of_le {a b : ℕ} (ha : a < 2 ^ 64) (h : b ≤ a) : wsub a b = a - b := by
  rw [wsub_eq_mod h]
  exact Nat.mod_eq_of_lt (lt_of_le_of_lt (Nat.sub_le a b) ha)

/-- Growing the minuend grows the difference. -/
theorem wsub_wadd_left (a b c : ℕ) : wsub (wadd a c) b = (wsub a b + c) % 2 ^ 64 := by
  unfold wsub wadd
  omega

/-- Growing the subtrahend shrinks the difference. -/
theorem wsub_wadd_right (a b c n : ℕ) (h : wsub a b = (n + c) % 2 ^ 64) :
    wsub a (wadd b c) = n % 2 ^ 64 := by
  unfold wsub wadd at *
  omega

theorem foldl_wadd {α : Type*} (f : α → ℕ) (l : List α) (a : ℕ) :
    l.foldl (fun a x => wadd a (f x)) a % 2 ^ 64 = (a + (l.map f).sum) % 2 ^ 64 := by
  induction l generalizing a with
  | nil => rfl
  | cons x l ih =>
    rw [List.foldl_cons, ih, List.map_cons, List.sum_cons]
    unfold wadd
    omega

/-- Adding the values of a list to the subtrahend, one after the other. -/
theorem wsub_foldl_wadd {α : Type*} (f : α → ℕ) (l : List α) (a b n : ℕ)
    (h : wsub a b = (n + (l.map f).sum) % 2 ^ 64) :
    wsub a (l.foldl (fun b x => wadd b (f x)) b) = n % 2 ^ 64 := by
  induction l generalizing b with
  | nil => exact h
  | cons x l ih =>
    refine ih _ (wsub_wadd_right _ _ _ _ ?_)
    rw [h, List.map_cons, List.sum_cons, Nat.add_comm (f x), Nat.add_assoc]
