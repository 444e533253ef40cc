import Mathlib.Data.List.Basic
import Mathlib.Data.List.TakeWhile

/-!
# C strings in buffers

A buffer is the list of its bytes, and a string in it ends at the first NUL.  A function that looks
for the end of a string without a NUL leaves the buffer; that is `none` here.
-/

namespace CString

/-- What `c_str` shows of a string: its bytes up to the first NUL. -/
def content (s : List UInt8) : List UInt8 := s.takeWhile (· ≠ 0)

/-- `strncpy` into a buffer of `n` bytes: a shorter string is padded with NULs, a longer one is cut
and left without any. -/
def strncpy (n : ℕ) (s : List UInt8) : List UInt8 := s.take n ++ List.replicate (n - s.length) 0

/-- The string at the beginning of a buffer. -/
def read : List UInt8 → Option (List UInt8)
  | [] => none
  | b :: l => if b = 0 then some [] else (read l).map (b :: ·)

/-- `strchr`: where the string at the beginning of a buffer has its first `c`, if it has one. -/
def strchr (c : UInt8) : List UInt8 → Option (Option ℕ)
  | [] => none
  | b :: l =>
    if b = c then some (some 0)
    else if b = 0 then some none
    else (strchr c l).map (Option.map (· + 1))

theorem content_eq {s : List UInt8} (h : 0 ∉ s) : content s = s := by
  unfold content
  rw [List.takeWhile_eq_self_iff]
  intro b hb
  simp only [ne_eq, decide_not, Bool.not_eq_true', decide_eq_false_iff_not]
  rintro rfl
  exact h hb

theorem nul_notMem_content (s : List UInt8) : 0 ∉ content s := by
  intro h
  have := List.mem_takeWhile_imp h
  simp at this

theorem mem_of_mem_content {s : List UInt8} {b : UInt8} (h : b ∈ content s) : b ∈ s :=
  (List.takeWhile_sublist _).mem h

@[simp] theorem length_strncpy (n : ℕ) (s : List UInt8) : (strncpy n s).length = n := by
  unfold strncpy
  rw [List.length_append, List.length_take, List.length_replicate]
  omega

/-- A string that is shorter than the buffer is copied with a NUL. -/
theorem strncpy_of_lt {n : ℕ} {s : List UInt8} (h : s.length < n) :
    ∃ rest, strncpy n s = s ++ 0 :: rest := by
  obtain ⟨k, hk⟩ := Nat.exists_eq_succ_of_ne_zero (by omega : n - s.length ≠ 0)
  unfold strncpy
  rw [List.take_of_length_le h.le, hk, List.replicate_succ]
  exact ⟨_, rfl⟩

/-- One that is not leaves no room for it. -/
theorem strncpy_of_le {n : ℕ} {s : List UInt8} (h : n ≤ s.length) : strncpy n s = s.take n := by
  unfold strncpy
  rw [Nat.sub_eq_zero_of_le h, List.replicate_zero, List.append_nil]

theorem read_append {s : List UInt8} (h : 0 ∉ s) (rest : List UInt8) :
    read (s ++ 0 :: rest) = some s := by
  induction s with
  | nil => rfl
  | cons b s ih =>
    rw [List.mem_cons, not_or] at h
    rw [List.cons_append, read, if_neg (Ne.symm h.1), ih h.2]
    rfl

theorem read_eq_none {s : List UInt8} (h : 0 ∉ s) : read s = none := by
  induction s with
  | nil => rfl
  | cons b s ih =>
    rw [List.mem_cons, not_or] at h
    rw [read, if_neg (Ne.symm h.1), ih h.2]
    rfl

/-- The search passes over bytes that neither match nor end the string. -/
theorem strchr_append {c : UInt8} {s : List UInt8} (h : 0 ∉ s) (hc : c ∉ s) (l : List UInt8) :
    strchr c (s ++ l) = (strchr c l).map (Option.map (· + s.length)) := by
  induction s with
  | nil =>
    rw [List.nil_append]
    cases strchr c l with
    | none => rfl
    | some i => cases i <;> rfl
  | cons b s ih =>
    rw [List.mem_cons, not_or] at h hc
    rw [List.cons_append, strchr, if_neg (Ne.symm hc.1), if_neg (Ne.symm h.1), ih h.2 hc.2]
    cases strchr c l with
    | none => rfl
    | some i => cases i <;> rfl

theorem strchr_found {c : UInt8} {s : List UInt8} (h : 0 ∉ s) (hc : c ∉ s) (l : List UInt8) :
    strchr c (s ++ c :: l) = some (some s.length) := by
  rw [strchr_append h hc, strchr, if_pos rfl, Option.map_some, Option.map_some, Nat.zero_add]

theorem strchr_absent {c : UInt8} {s : List UInt8} (h : 0 ∉ s) (hc : c ∉ s) (hne : c ≠ 0)
    (l : List UInt8) :
    strchr c (s ++ 0 :: l) = some none := by
  rw [strchr_append h hc, strchr, if_neg (Ne.symm hne), if_pos rfl]
  rfl

theorem strchr_eq_none {c : UInt8} {s : List UInt8} (h : 0 ∉ s) (hc : c ∉ s) :
    strchr c s = none := by
  have := strchr_append h hc []
  rwa [List.append_nil] at this

end CString
