import Mathlib.Algebra.Order.Ring.Nat

/-!
# Little-endian bytes of a natural number
-/

namespace LittleEndian

/-- The `k` lowest bytes of `n`. -/
def encode : ℕ → ℕ → List UInt8
  | 0, _ => []
  | k + 1, n => UInt8.ofNat n :: encode k (n / 256)

/-- The number with the given bytes. -/
def decode : List UInt8 → ℕ
  | [] => 0
  | b :: l => b.toNat + 256 * decode l

@[simp] theorem length_encode (k n : ℕ) : (encode k n).length = k := by
  induction k generalizing n with
  | zero => rfl
  | succ k ih => rw [encode, List.length_cons, ih]

theorem decode_encode (k n : ℕ) : decode (encode k n) = n % 256 ^ k := by
  induction k generalizing n with
  | zero => rw [Nat.pow_zero, Nat.mod_one]; rfl
  | succ k ih =>
    rw [encode, decode, ih, Nat.pow_succ', Nat.mod_mul, UInt8.toNat_ofNat']

theorem decode_encode_of_lt {k n : ℕ} (h : n < 256 ^ k) : decode (encode k n) = n := by
  rw [decode_encode, Nat.mod_eq_of_lt h]

theorem decode_lt (l : List UInt8) : decode l < 256 ^ l.length := by
  induction l with
  | nil => exact Nat.one_pos
  | cons b l ih =>
    have := b.toNat_lt
    rw [decode, List.length_cons, Nat.pow_succ']
    omega

end LittleEndian
