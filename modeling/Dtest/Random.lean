import Mathlib.Algebra.Order.Field.Rat
import Mathlib.Tactic.NormNum
import Mathlib.Tactic.Ring
import Dtest.Lib.Mersenne

/-!
# `frand`

The generator keeps one 32-bit word per thread.  A call multiplies it by 48271 in 64 bits and folds
the product once at bit 31, so that the state is a residue modulo `2 ^ 31 - 1`, but not a canonical
one.
-/

namespace Dtest

open Mersenne

/-- What a call leaves in `state`, and what it returns: a 32-bit integer over `2 ^ 31` is a `double`
without rounding, and so is exact as a rational. -/
structure FrandResult where
  state : UInt32
  retval : ℚ
  deriving DecidableEq

/-- One call.  `now` is the count of the clock's ticks, which only a state of zero reads. -/
def frand (now : ℕ) (state : UInt32) : FrandResult :=
  let state := if state = 0 then UInt32.ofNat now else state
  let product : UInt64 := state.toUInt64 * 48271
  let x : UInt32 := ((product &&& (0x7fffffff : UInt64)) + (product >>> (31 : UInt64))).toUInt32
  let retval : ℚ := (x.toNat : ℚ) / (0x80000000 : ℕ)
  { state := x, retval := if retval > 1 then 1 else retval }

/-- `state` after a number of calls; the clock may show anything at each of them. -/
def frandState (now : ℕ → ℕ) (seed : UInt32) : ℕ → UInt32
  | 0 => seed
  | k + 1 => (frand (now k) (frandState now seed k)).state

section Call

variable {state : UInt32}

/-- A state other than zero is not replaced by the clock. -/
theorem frand_eq_of_ne_zero (h : state ≠ 0) (now now' : ℕ) :
    frand now state = frand now' state := by
  unfold frand
  simp only [if_neg h]

theorem toNat_pos (h : state ≠ 0) : 0 < state.toNat := by
  rw [Nat.pos_iff_ne_zero]
  intro h0
  exact h (UInt32.toNat_inj.1 h0)

theorem fold_product_lt (state : UInt32) : fold 31 (state.toNat * 48271) < 2 ^ 31 + 96541 := by
  have := state.toNat_lt
  apply fold_lt
  omega

/-- The 64-bit product is exact. -/
theorem toNat_product (state : UInt32) :
    (state.toUInt64 * (48271 : UInt64)).toNat = state.toNat * 48271 := by
  have := state.toNat_lt
  rw [UInt64.toNat_mul, UInt32.toNat_toUInt64]
  exact Nat.mod_eq_of_lt (by change state.toNat * 48271 < 2 ^ 64; omega)

/-- The 32-bit sum is the fold of the exact product: it does not wrap. -/
theorem toNat_frand_state (h : state ≠ 0) (now : ℕ) :
    (frand now state).state.toNat = fold 31 (state.toNat * 48271) := by
  have hlow : ((state.toUInt64 * 48271) &&& (0x7fffffff : UInt64)).toNat =
      state.toNat * 48271 % 2 ^ 31 := by
    rw [UInt64.toNat_and, toNat_product]
    exact Nat.and_two_pow_sub_one_eq_mod _ 31
  have hhigh : ((state.toUInt64 * 48271) >>> (31 : UInt64)).toNat =
      state.toNat * 48271 / 2 ^ 31 := by
    rw [UInt64.toNat_shiftRight, toNat_product]
    exact Nat.shiftRight_eq_div_pow _ 31
  have hlt := fold_product_lt state
  unfold frand
  simp only [if_neg h]
  rw [UInt64.toNat_toUInt32, UInt64.toNat_add, hlow, hhigh]
  unfold fold at *
  omega

theorem frand_state_ne_zero (h : state ≠ 0) (now : ℕ) : (frand now state).state ≠ 0 := by
  have hs := toNat_pos h
  intro h0
  have hx := toNat_frand_state h now
  have hpos : 0 < fold 31 (state.toNat * 48271) := fold_pos (by omega)
  rw [h0] at hx
  simp at hx
  omega

theorem frand_state_modEq (h : state ≠ 0) (now : ℕ) :
    (frand now state).state.toNat ≡ state.toNat * 48271 [MOD 2 ^ 31 - 1] := by
  rw [toNat_frand_state h]
  exact fold_modEq 31 _

theorem frand_retval (now : ℕ) (state : UInt32) :
    (frand now state).retval =
      min 1 (((frand now state).state.toNat : ℚ) / (0x80000000 : ℕ)) := by
  have hmin (q : ℚ) : (if q > 1 then 1 else q) = min 1 q := by
    split
    case isTrue h => exact (min_eq_left h.le).symm
    case isFalse h => exact (min_eq_right (not_lt.1 h)).symm
  exact hmin _

theorem frand_retval_pos (h : state ≠ 0) (now : ℕ) : 0 < (frand now state).retval := by
  have hpos := toNat_pos (frand_state_ne_zero h now)
  have hq : (0 : ℚ) < (frand now state).state.toNat := by exact_mod_cast hpos
  rw [frand_retval]
  exact lt_min one_pos (div_pos hq (by norm_num))

theorem frand_retval_nonneg (now : ℕ) (state : UInt32) : 0 ≤ (frand now state).retval := by
  rw [frand_retval]
  exact le_min zero_le_one (div_nonneg (Nat.cast_nonneg _) (Nat.cast_nonneg _))

theorem frand_retval_le_one (now : ℕ) (state : UInt32) : (frand now state).retval ≤ 1 := by
  rw [frand_retval]
  exact min_le_left _ _

end Call

section Run

variable {seed : UInt32} (now : ℕ → ℕ)

theorem frandState_ne_zero (h : seed ≠ 0) (k : ℕ) : frandState now seed k ≠ 0 := by
  induction k with
  | zero => exact h
  | succ k ih => exact frand_state_ne_zero ih _

theorem frandState_modEq (h : seed ≠ 0) (k : ℕ) :
    (frandState now seed k).toNat ≡ 48271 ^ k * seed.toNat [MOD 2 ^ 31 - 1] := by
  induction k with
  | zero => rw [Nat.pow_zero, Nat.one_mul]; rfl
  | succ k ih =>
    have hk := frandState_ne_zero now h k
    calc (frandState now seed (k + 1)).toNat
        ≡ (frandState now seed k).toNat * 48271 [MOD 2 ^ 31 - 1] := frand_state_modEq hk _
      _ ≡ 48271 ^ k * seed.toNat * 48271 [MOD 2 ^ 31 - 1] := ih.mul_right _
      _ = 48271 ^ (k + 1) * seed.toNat := by ring

theorem frandState_lt (h : seed ≠ 0) {k : ℕ} (hk : 1 ≤ k) :
    (frandState now seed k).toNat < 2 ^ 31 + 96541 := by
  obtain ⟨k, rfl⟩ := Nat.exists_eq_add_of_le' hk
  rw [frandState, toNat_frand_state (frandState_ne_zero now h k)]
  exact fold_product_lt _

/-- From a seed other than zero, the state stays in the residue class of the multiplicative
generator and away from zero, so the clock is never read again; the sum of the two parts of the
product fits in 32 bits at every call, and every returned value lies in `(0, 1]`. -/
theorem frand_sound (h : seed ≠ 0) (k : ℕ) :
    frandState now seed k ≠ 0 ∧
    (∀ t t', frand t (frandState now seed k) = frand t' (frandState now seed k)) ∧
    (frandState now seed k).toNat ≡ 48271 ^ k * seed.toNat [MOD 2 ^ 31 - 1] ∧
    (1 ≤ k → (frandState now seed k).toNat < 2 ^ 31 + 96541) ∧
    (frandState now seed (k + 1)).toNat =
      (frandState now seed k).toNat * 48271 % 2 ^ 31 +
        (frandState now seed k).toNat * 48271 / 2 ^ 31 ∧
    0 < (frand (now k) (frandState now seed k)).retval ∧
    (frand (now k) (frandState now seed k)).retval ≤ 1 := by
  have hk := frandState_ne_zero now h k
  refine ⟨hk, frand_eq_of_ne_zero hk, frandState_modEq now h k, frandState_lt now h, ?_, ?_, ?_⟩
  · exact toNat_frand_state hk _
  · exact frand_retval_pos hk _
  · exact frand_retval_le_one _ _

/-- The largest seed, after one call. -/
theorem frand_sound_max :
    (frandState (fun _ => 0) 0xffffffff 1).toNat ≡
      48271 ^ 1 * (0xffffffff : UInt32).toNat [MOD 2 ^ 31 - 1] :=
  (frand_sound (fun _ => 0) (by decide) 1).2.2.1

end Run

end Dtest
