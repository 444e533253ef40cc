import Mathlib.Order.Interval.Finset.Nat

/-!
# Byte ranges in pages

The pages that a range of bytes at a page boundary touches are an interval: a byte belongs to one of
them if it lies in the range rounded up (`Pages.div_mem_pagesOf`), and each holds a byte of the
range itself (`Pages.exists_of_mem_pagesOf`).
-/

namespace Pages

/-- The length of a range in pages of `P` bytes. -/
def pageCount (P len : ℕ) : ℕ := (len + (P - 1)) / P

/-- The pages of the range of `len` bytes at `ptr`. -/
def pagesOf (P ptr len : ℕ) : Finset ℕ := Finset.Ico (ptr / P) (ptr / P + pageCount P len)

variable {P ptr len : ℕ}

theorem pageCount_zero (P : ℕ) : pageCount P 0 = 0 := by
  unfold pageCount
  rw [Nat.zero_add]
  rcases Nat.eq_zero_or_pos P with rfl | hP
  exacts [rfl, Nat.div_eq_of_lt (by omega)]

theorem pagesOf_zero (P ptr : ℕ) : pagesOf P ptr 0 = ∅ := by
  unfold pagesOf
  rw [pageCount_zero, Nat.add_zero, Finset.Ico_self]

theorem le_pageCount_mul (hP : 0 < P) : len ≤ pageCount P len * P := by
  have hdiv := Nat.div_add_mod (len + (P - 1)) P
  have hmod := Nat.mod_lt (len + (P - 1)) hP
  rw [Nat.mul_comm] at hdiv
  unfold pageCount
  omega

theorem div_mem_pagesOf (hP : 0 < P) (h : P ∣ ptr) (a : ℕ) :
    a / P ∈ pagesOf P ptr len ↔ ptr ≤ a ∧ a < ptr + pageCount P len * P := by
  obtain ⟨k, rfl⟩ := h
  unfold pagesOf
  rw [Finset.mem_Ico, Nat.mul_div_cancel_left k hP, Nat.le_div_iff_mul_le hP,
    Nat.div_lt_iff_lt_mul hP, Nat.add_mul, Nat.mul_comm k P]

theorem exists_of_mem_pagesOf (hP : 0 < P) (h : P ∣ ptr) {q : ℕ} (hq : q ∈ pagesOf P ptr len) :
    ∃ a, ptr ≤ a ∧ a < ptr + len ∧ a / P = q := by
  obtain ⟨k, rfl⟩ := h
  unfold pagesOf at hq
  rw [Finset.mem_Ico, Nat.mul_div_cancel_left k hP] at hq
  obtain ⟨i, rfl⟩ := Nat.exists_eq_add_of_le hq.1
  refine ⟨P * (k + i), Nat.mul_le_mul_left P (Nat.le_add_right k i), ?_,
    Nat.mul_div_cancel_left _ hP⟩
  have hi : (i + 1) * P ≤ len + (P - 1) :=
    (Nat.le_div_iff_mul_le hP).1 (Nat.lt_of_add_lt_add_left hq.2)
  rw [Nat.succ_mul, Nat.mul_comm i P] at hi
  rw [Nat.mul_add]
  omega

/-- A byte of the range belongs to a page of it. -/
theorem div_mem_pagesOf_of_lt (hP : 0 < P) (h : P ∣ ptr) {a : ℕ} (h1 : ptr ≤ a)
    (h2 : a < ptr + len) : a / P ∈ pagesOf P ptr len := by
  have hle : len ≤ pageCount P len * P := le_pageCount_mul hP
  exact (div_mem_pagesOf hP h a).2 ⟨h1, by omega⟩

end Pages
