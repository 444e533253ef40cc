import Mathlib.Data.Nat.Notation
import Mathlib.Data.List.Basic

/-!
# Data that reach a non-blocking reader

A list of `Arrival`s is what a reader will meet on a stream, in the order in which it meets it: the
data, the ends of the pieces in which they come, the reads that find nothing yet and those that are
interrupted or fail.  `await` reads a fixed number of data from such a list, patiently or not.
`await_eq_got_iff`, `await_eq_ended_iff` and `of_await_eq_blocked` say how this ends, in terms of
the data of the list and of its segments `upTo` and `beyond`.
-/

universe u

/-- What a reader may meet next. -/
inductive Arrival (α : Type u) where
  | datum (a : α)
  | cut
  | wouldBlock
  | interrupted
  | failed
  deriving DecidableEq

namespace Arrival

variable {α : Type u}

/-- The data of a list of arrivals. -/
def data : List (Arrival α) → List α
  | [] => []
  | datum a :: l => a :: data l
  | cut :: l => data l
  | wouldBlock :: l => data l
  | interrupted :: l => data l
  | failed :: l => data l

/-- The shortest segment that holds the first `n` data. -/
def upTo : ℕ → List (Arrival α) → List (Arrival α)
  | 0, _ => []
  | _ + 1, [] => []
  | n + 1, datum a :: l => datum a :: upTo n l
  | n + 1, cut :: l => cut :: upTo (n + 1) l
  | n + 1, wouldBlock :: l => wouldBlock :: upTo (n + 1) l
  | n + 1, interrupted :: l => interrupted :: upTo (n + 1) l
  | n + 1, failed :: l => failed :: upTo (n + 1) l

/-- What follows the first `n` data. -/
def beyond : ℕ → List (Arrival α) → List (Arrival α)
  | 0, l => l
  | _ + 1, [] => []
  | n + 1, datum _ :: l => beyond n l
  | n + 1, cut :: l => beyond (n + 1) l
  | n + 1, wouldBlock :: l => beyond (n + 1) l
  | n + 1, interrupted :: l => beyond (n + 1) l
  | n + 1, failed :: l => beyond (n + 1) l

@[simp] theorem upTo_zero (l : List (Arrival α)) : upTo 0 l = [] := by
  cases l <;> rfl

@[simp] theorem beyond_zero (l : List (Arrival α)) : beyond 0 l = l := by
  cases l <;> rfl

theorem upTo_append_beyond (n : ℕ) (l : List (Arrival α)) : upTo n l ++ beyond n l = l := by
  induction l generalizing n with
  | nil => cases n <;> rfl
  | cons x l ih =>
    cases n with
    | zero => rfl
    | succ n => cases x <;> simp only [upTo, beyond, List.cons_append, ih]

theorem mem_of_mem_upTo {x : Arrival α} {n : ℕ} {l : List (Arrival α)} (h : x ∈ upTo n l) :
    x ∈ l := by
  rw [← upTo_append_beyond n l]
  exact List.mem_append_left _ h

theorem mem_of_mem_beyond {x : Arrival α} {n : ℕ} {l : List (Arrival α)} (h : x ∈ beyond n l) :
    x ∈ l := by
  rw [← upTo_append_beyond n l]
  exact List.mem_append_right _ h

theorem data_append (l l' : List (Arrival α)) : data (l ++ l') = data l ++ data l' := by
  induction l with
  | nil => rfl
  | cons x l ih => cases x <;> simp only [data, List.cons_append, ih]

theorem data_upTo (n : ℕ) (l : List (Arrival α)) : data (upTo n l) = (data l).take n := by
  induction l generalizing n with
  | nil => cases n <;> rfl
  | cons x l ih =>
    cases n with
    | zero => rfl
    | succ n => cases x <;> simp only [upTo, data, List.take_succ_cons, ih]

theorem data_beyond (n : ℕ) (l : List (Arrival α)) : data (beyond n l) = (data l).drop n := by
  induction l generalizing n with
  | nil => cases n <;> rfl
  | cons x l ih =>
    cases n with
    | zero => rfl
    | succ n => cases x <;> simp only [beyond, data, List.drop_succ_cons, ih]

theorem length_data_le (l : List (Arrival α)) : (data l).length ≤ l.length := by
  induction l with
  | nil => exact Nat.le_refl _
  | cons x l ih =>
    cases x with
    | datum a => exact Nat.succ_le_succ ih
    | cut | wouldBlock | interrupted | failed => exact Nat.le_succ_of_le ih

theorem length_data_beyond (n : ℕ) (l : List (Arrival α)) :
    (data (beyond n l)).length = (data l).length - n := by
  rw [data_beyond, List.length_drop]

/-- Reading a datum takes at least one arrival. -/
theorem length_beyond_lt {n : ℕ} {l : List (Arrival α)} (hn : 0 < n) (hl : 0 < (data l).length) :
    (beyond n l).length < l.length := by
  have hsum := congrArg List.length (upTo_append_beyond n l)
  have hle := length_data_le (upTo n l)
  rw [data_upTo, List.length_take] at hle
  rw [List.length_append] at hsum
  omega

theorem upTo_of_length_lt {n : ℕ} {l : List (Arrival α)} (h : (data l).length < n) :
    upTo n l = l := by
  induction l generalizing n with
  | nil => cases n <;> rfl
  | cons x l ih =>
    cases n with
    | zero => exact absurd h (Nat.not_lt_zero _)
    | succ n =>
      cases x <;> simp only [data, List.length_cons] at h <;> rw [upTo, ih (by omega)]

theorem upTo_add (m n : ℕ) (l : List (Arrival α)) :
    upTo (m + n) l = upTo m l ++ upTo n (beyond m l) := by
  induction l generalizing m with
  | nil => cases m <;> cases n <;> rfl
  | cons x l ih =>
    cases m with
    | zero => rw [Nat.zero_add, upTo_zero, beyond_zero, List.nil_append]
    | succ m =>
      have := ih m
      have := ih (m + 1)
      rw [Nat.succ_add] at *
      cases x <;> simp only [upTo, beyond, List.cons_append, *]

theorem beyond_add (m n : ℕ) (l : List (Arrival α)) : beyond (m + n) l = beyond n (beyond m l) := by
  induction l generalizing m with
  | nil => cases m <;> cases n <;> rfl
  | cons x l ih =>
    cases m with
    | zero => rw [Nat.zero_add, beyond_zero]
    | succ m =>
      have := ih m
      have := ih (m + 1)
      rw [Nat.succ_add] at *
      cases x <;> simp only [beyond, *]

theorem upTo_subset_upTo {m n : ℕ} (h : m ≤ n) (l : List (Arrival α)) : upTo m l ⊆ upTo n l := by
  obtain ⟨k, rfl⟩ := Nat.exists_eq_add_of_le h
  rw [upTo_add]
  exact List.subset_append_left _ _

/-- A segment without data is skipped with the first datum. -/
theorem beyond_succ_append (n : ℕ) {l : List (Arrival α)} (h : data l = [])
    (l' : List (Arrival α)) :
    beyond (n + 1) (l ++ l') = beyond (n + 1) l' := by
  induction l with
  | nil => rfl
  | cons x l ih =>
    cases x with
    | datum a => exact absurd h (List.cons_ne_nil _ _)
    | cut | wouldBlock | interrupted | failed => exact ih h

theorem beyond_append {n : ℕ} {l : List (Arrival α)} (h : n ≤ (data l).length)
    (l' : List (Arrival α)) : beyond n (l ++ l') = beyond n l ++ l' := by
  induction l generalizing n with
  | nil => rw [Nat.le_zero.mp h, beyond_zero, beyond_zero]
  | cons x l ih =>
    cases n with
    | zero => rw [beyond_zero, beyond_zero]
    | succ n =>
      cases x <;> simp only [data, List.length_cons] at h <;> exact ih (by omega)

theorem upTo_append {n : ℕ} {l : List (Arrival α)} (h : (data l).length < n)
    (l' : List (Arrival α)) :
    upTo n (l ++ l') = l ++ upTo (n - (data l).length) l' := by
  have hn : n = (data l).length + (n - (data l).length) := by omega
  induction l generalizing n with
  | nil => rfl
  | cons x l ih =>
    cases n with
    | zero => exact absurd h (Nat.not_lt_zero _)
    | succ n =>
      cases x <;> simp only [data, List.length_cons] at h hn ⊢ <;>
        rw [List.cons_append, upTo, ih (by omega) (by omega), List.cons_append]
      rw [Nat.add_sub_add_right]

/-- The data that a read of at most `n` of them finds at once. -/
def ready : ℕ → List (Arrival α) → List α
  | n + 1, datum a :: l => a :: ready n l
  | _, _ => []

/-- What such a read leaves. -/
def unread : ℕ → List (Arrival α) → List (Arrival α)
  | n + 1, datum _ :: l => unread n l
  | _, l => l

theorem length_unread_le (n : ℕ) (l : List (Arrival α)) : (unread n l).length ≤ l.length := by
  induction n generalizing l with
  | zero => exact Nat.le_refl _
  | succ n ih =>
    cases l with
    | nil => exact Nat.le_refl _
    | cons x l =>
      cases x with
      | datum a => exact Nat.le_succ_of_le (ih l)
      | cut | wouldBlock | interrupted | failed => exact Nat.le_refl _

/-! ### Reading a number of data -/

/-- How the reading of a number of data ends: with all of them, at the end of the stream, with a
failed read, with a read that finds nothing yet, or not at all. -/
inductive Outcome (α : Type u) where
  | got (read : List α) (rest : List (Arrival α))
  | ended (read : List α)
  | failed
  | blocked (read : List α) (rest : List (Arrival α))
  | starved

/-- The outcome of a reading that began with `read`. -/
def Outcome.prepend (read : List α) : Outcome α → Outcome α
  | .got r rest => .got (read ++ r) rest
  | .ended r => .ended (read ++ r)
  | .failed => .failed
  | .blocked r rest => .blocked (read ++ r) rest
  | .starved => .starved

/-- Reads `n` data.  A patient reader tries again when there is nothing yet. -/
def await (patient closed : Bool) : ℕ → List (Arrival α) → Outcome α
  | 0, l => .got [] l
  | _ + 1, [] => if closed then .ended [] else if patient then .starved else .blocked [] []
  | n + 1, datum a :: l => (await patient closed n l).prepend [a]
  | n + 1, cut :: l => await patient closed (n + 1) l
  | n + 1, wouldBlock :: l => if patient then await patient closed (n + 1) l else .blocked [] l
  | n + 1, interrupted :: l => await patient closed (n + 1) l
  | _ + 1, failed :: _ => .failed

theorem Outcome.prepend_nil (o : Outcome α) : o.prepend [] = o := by
  cases o <;> rfl

theorem Outcome.prepend_cons (a : α) (read : List α) (o : Outcome α) :
    o.prepend (a :: read) = (o.prepend read).prepend [a] := by
  cases o <;> rfl

/-- A reader can take its data in several reads. -/
theorem await_ready (patient closed : Bool) {k n : ℕ} (h : k ≤ n) (l : List (Arrival α)) :
    await patient closed n l =
      (await patient closed (n - (ready k l).length) (unread k l)).prepend (ready k l) := by
  induction k generalizing n l with
  | zero => exact (Outcome.prepend_nil _).symm
  | succ k ih =>
    obtain ⟨n, rfl⟩ := Nat.exists_eq_succ_of_ne_zero (Nat.ne_zero_of_lt h)
    cases l with
    | nil => exact (Outcome.prepend_nil _).symm
    | cons x l =>
      cases x with
      | datum a =>
        rw [await, ih (Nat.le_of_succ_le_succ h), ready, unread, List.length_cons,
          Nat.succ_sub_succ, ← Outcome.prepend_cons]
      | cut | wouldBlock | interrupted | failed => exact (Outcome.prepend_nil _).symm

/-- A segment in which nothing stops the reader. -/
def Passable (patient : Bool) (l : List (Arrival α)) : Prop :=
  failed ∉ l ∧ (wouldBlock ∈ l → patient = true)

variable {patient closed : Bool} {n : ℕ} {l rest : List (Arrival α)} {read : List α}

@[simp] theorem await_zero : await patient closed 0 l = .got [] l := by
  cases l <;> rfl

theorem passable_nil : Passable patient ([] : List (Arrival α)) :=
  ⟨List.not_mem_nil, fun h => absurd h List.not_mem_nil⟩

theorem passable_cons_wouldBlock :
    Passable patient (wouldBlock :: l) ↔ patient = true ∧ Passable patient l := by
  simp only [Passable, List.mem_cons, reduceCtorEq, false_or, true_or, true_implies]
  tauto

theorem not_passable_cons_failed : ¬ Passable patient (failed :: l) := fun h =>
  h.1 List.mem_cons_self

theorem Passable.of_subset {l' : List (Arrival α)} (h : Passable patient l') (hl : l ⊆ l') :
    Passable patient l :=
  ⟨fun hf => h.1 (hl hf), fun hw => h.2 (hl hw)⟩

theorem Passable.tail {x : Arrival α} (h : Passable patient (x :: l)) : Passable patient l :=
  h.of_subset (List.subset_cons_self x l)

/-- Only a failed read and one that finds nothing can stop the reader. -/
theorem Passable.cons {x : Arrival α} (h : Passable patient l) (hf : failed ≠ x)
    (hw : wouldBlock ≠ x) : Passable patient (x :: l) := by
  simpa only [Passable, List.mem_cons, hf, hw, false_or] using h

/-- A reader that nothing stops gets its data as soon as there are enough of them. -/
theorem await_of_passable (hn : n ≤ (data l).length) (h : Passable patient (upTo n l)) :
    await patient closed n l = .got ((data l).take n) (beyond n l) := by
  induction l generalizing n with
  | nil =>
    rw [Nat.le_zero.mp hn, await_zero, List.take_zero, beyond_zero]
  | cons x l ih =>
    cases n with
    | zero => rw [await_zero, List.take_zero, beyond_zero]
    | succ n =>
      cases x with
      | datum a =>
        rw [await, ih (Nat.le_of_succ_le_succ hn) h.tail]
        rfl
      | cut => exact ih hn h.tail
      | wouldBlock =>
        obtain ⟨hp, h⟩ := passable_cons_wouldBlock.mp h
        rw [await, if_pos hp]
        exact ih hn h
      | interrupted => exact ih hn h.tail
      | failed => exact absurd h not_passable_cons_failed

/-- A reader that nothing stops meets the end of the stream when there is too little before it. -/
theorem await_of_short (hn : (data l).length < n) (h : Passable patient l) :
    await patient closed n l =
      if closed then .ended (data l) else if patient then .starved else .blocked (data l) [] := by
  induction l generalizing n with
  | nil =>
    cases n with
    | zero => exact absurd hn (Nat.not_lt_zero _)
    | succ n => rfl
  | cons x l ih =>
    cases n with
    | zero => exact absurd hn (Nat.not_lt_zero _)
    | succ n =>
      cases x with
      | datum a =>
        rw [await, ih (Nat.lt_of_succ_lt_succ hn) h.tail]
        cases closed <;> cases patient <;> rfl
      | cut => exact ih hn h.tail
      | wouldBlock =>
        obtain ⟨hp, h⟩ := passable_cons_wouldBlock.mp h
        rw [await, if_pos hp]
        exact ih hn h
      | interrupted => exact ih hn h.tail
      | failed => exact absurd h not_passable_cons_failed

/-- A reader that something stops has met a failed read, or, unless it is patient, a read that found
nothing. -/
theorem await_of_not_passable (h : ¬ Passable patient (upTo n l)) :
    failed ∈ l ∧ await patient closed n l = .failed ∨
      patient = false ∧ ∃ front rest, l = front ++ wouldBlock :: rest ∧ (data front).length < n ∧
        await patient closed n l = .blocked (data front) rest := by
  induction l generalizing n with
  | nil => cases n <;> exact absurd passable_nil h
  | cons x l ih =>
    cases n with
    | zero => exact absurd (upTo_zero _ ▸ passable_nil) h
    | succ n =>
      cases x with
      | datum a =>
        rw [await]
        rcases ih (fun h' => h (h'.cons nofun nofun)) with
          ⟨hf, ha⟩ | ⟨hp, front, rest, rfl, hlt, ha⟩
        · exact .inl ⟨List.mem_cons_of_mem _ hf, by rw [ha]; rfl⟩
        · exact .inr ⟨hp, datum a :: front, rest, rfl, Nat.succ_lt_succ hlt, by rw [ha]; rfl⟩
      | cut =>
        rcases ih (fun h' => h (h'.cons nofun nofun)) with
          ⟨hf, ha⟩ | ⟨hp, front, rest, rfl, hlt, ha⟩
        · exact .inl ⟨List.mem_cons_of_mem _ hf, ha⟩
        · exact .inr ⟨hp, cut :: front, rest, rfl, hlt, ha⟩
      | wouldBlock =>
        cases patient with
        | false => exact .inr ⟨rfl, [], l, rfl, Nat.succ_pos _, rfl⟩
        | true =>
          rcases ih (fun h' => h (passable_cons_wouldBlock.mpr ⟨rfl, h'⟩)) with ⟨hf, ha⟩ | ⟨hp, -⟩
          · exact .inl ⟨List.mem_cons_of_mem _ hf, ha⟩
          · exact absurd hp Bool.noConfusion
      | interrupted =>
        rcases ih (fun h' => h (h'.cons nofun nofun)) with
          ⟨hf, ha⟩ | ⟨hp, front, rest, rfl, hlt, ha⟩
        · exact .inl ⟨List.mem_cons_of_mem _ hf, ha⟩
        · exact .inr ⟨hp, interrupted :: front, rest, rfl, hlt, ha⟩
      | failed => exact .inl ⟨List.mem_cons_self, rfl⟩

/-- A patient reader is stopped by nothing but a failed read. -/
theorem passable_true_iff : Passable true l ↔ failed ∉ l :=
  ⟨fun h => h.1, fun h => ⟨h, fun _ => rfl⟩⟩

theorem await_of_failed (h : failed ∈ upTo n l) : await true closed n l = .failed := by
  rcases await_of_not_passable fun hp => passable_true_iff.mp hp h with
    ⟨-, ha⟩ | ⟨hp, -⟩
  · exact ha
  · exact absurd hp Bool.noConfusion

/-- What stands among the data `k + 1, …, k + n`. -/
theorem mem_upTo_beyond {k : ℕ} {x : Arrival α} {front : List (Arrival α)}
    (hk : k ≤ (data front).length) (hn : (data front).length < k + n) :
    x ∈ upTo n (beyond k (front ++ x :: rest)) := by
  have hlt : (data (beyond k front)).length < n := by
    rw [length_data_beyond]
    omega
  rw [beyond_append hk, upTo_append hlt]
  obtain ⟨j, hj⟩ := Nat.exists_eq_add_of_lt hlt
  rw [hj, Nat.add_assoc, Nat.add_sub_cancel_left]
  apply List.mem_append_right _
  cases x <;> exact List.mem_cons_self

end Arrival
