import Mathlib.Data.Nat.ModEq

/-!
# Folding a number modulo `2 ^ p - 1`

Adding the part of a number above bit `p` to its low `p` bits keeps its residue modulo `2 ^ p - 1`,
and makes the number smaller without ever making it zero.
-/

namespace Mersenne

/-- The low `p` bits plus what stands above them. -/
def fold (p n : ℕ) : ℕ := n % 2 ^ p + n / 2 ^ p

theorem fold_modEq (p n : ℕ) : fold p n ≡ n [MOD 2 ^ p - 1] := by
  have h1 : 2 ^ p ≡ 1 [MOD 2 ^ p - 1] := by
    apply Nat.ModEq.symm
    rw [Nat.modEq_iff_dvd' (Nat.two_pow_pos p)]
  have h2 : 1 * (n / 2 ^ p) ≡ 2 ^ p * (n / 2 ^ p) [MOD 2 ^ p - 1] := h1.symm.mul_right _
  rw [Nat.one_mul] at h2
  calc fold p n ≡ n % 2 ^ p + 2 ^ p * (n / 2 ^ p) [MOD 2 ^ p - 1] := h2.add_left _
    _ = n := Nat.mod_add_div n (2 ^ p)

theorem fold_pos {p n : ℕ} (h : 0 < n) : 0 < fold p n := by
  have hn := Nat.mod_add_div n (2 ^ p)
  unfold fold
  cases hq : n / 2 ^ p with
  | zero =>
    rw [hq, Nat.mul_zero] at hn
    omega
  | succ q => omega

/-- One fold leaves at most the full low part and the number of its multiples. -/
theorem fold_lt {p n b : ℕ} (h : n < 2 ^ p * (b + 1)) : fold p n < 2 ^ p + b := by
  have hq : n / 2 ^ p < b + 1 := Nat.div_lt_of_lt_mul h
  have hr : n % 2 ^ p < 2 ^ p := Nat.mod_lt n (Nat.two_pow_pos p)
  unfold fold
  omega

end Mersenne
