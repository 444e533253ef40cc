import Mathlib.Algebra.Order.Ring.Nat
import Mathlib.Data.List.Basic

/-!
# Bounded pipes with non-blocking ends

A `Pipe` holds at most `capacity` values.  How much a call of `write` accepts and a call of `read`
takes is left open within the limits that a non-blocking descriptor keeps to, so that a statement
about every `PartialWrite`, `NonBlockingWrite` and `NonBlockingRead` is one about every way the
calls cut the data.
-/

universe u

/-- A bounded pipe. -/
structure Pipe (β : Type u) where
  capacity : ℕ
  content : List β
  fits : content.length ≤ capacity

/-- What a call of `write` accepts, given the free space and the length it is asked to write.
Nothing accepted stands for EAGAIN. -/
structure PartialWrite where
  accepted : ℕ → ℕ → ℕ
  le_free : ∀ free len, accepted free len ≤ free
  le_len : ∀ free len, accepted free len ≤ len

/-- Data that fits is accepted as a whole.  A pipe that keeps its data in pages and does not share
them between writes accepts less. -/
def PartialWrite.Whole (w : PartialWrite) : Prop :=
  ∀ free len, len ≤ free → w.accepted free len = len

/-- A call of `write` that accepts a part at least of data that fits. -/
structure NonBlockingWrite extends PartialWrite where
  progress : ∀ free len, 0 < len → len ≤ free → 0 < accepted free len

/-- As much as fits is accepted. -/
def NonBlockingWrite.most : NonBlockingWrite where
  accepted := min
  le_free := Nat.min_le_left
  le_len := Nat.min_le_right
  progress _ _ hlen hle := Nat.lt_min.2 ⟨hlen.trans_le hle, hlen⟩

theorem NonBlockingWrite.whole_most : most.toPartialWrite.Whole := fun _ _ h => Nat.min_eq_right h

/-- What a call of `read` takes, given what is available and the length it asks for.  Nothing taken
stands for the end of the file and for EAGAIN. -/
structure NonBlockingRead where
  taken : ℕ → ℕ → ℕ
  le_available : ∀ available len, taken available len ≤ available
  le_len : ∀ available len, taken available len ≤ len
  progress : ∀ available len, 0 < available → 0 < len → 0 < taken available len

/-- As much as there is is taken. -/
def NonBlockingRead.most : NonBlockingRead where
  taken := min
  le_available := Nat.min_le_left
  le_len := Nat.min_le_right
  progress _ _ havailable hlen := Nat.lt_min.2 ⟨havailable, hlen⟩

namespace Pipe

variable {β : Type u}

/-- A new pipe. -/
def empty (capacity : ℕ) : Pipe β := ⟨capacity, [], Nat.zero_le _⟩

/-- The free space. -/
def free (p : Pipe β) : ℕ := p.capacity - p.content.length

/-- A call of `write`: the number of values accepted, and the pipe after it. -/
def write (p : Pipe β) (w : PartialWrite) (data : List β) : ℕ × Pipe β :=
  let n := w.accepted p.free data.length
  (n, { p with
    content := p.content ++ data.take n
    fits := by
      have hfree : n ≤ p.free := w.le_free _ _
      have hfits := p.fits
      rw [List.length_append, List.length_take]
      unfold free at hfree
      omega })

/-- One call of `write` after the other, for one list of data each; `ws i` is the behaviour of call
`i`. -/
def writes (ws : ℕ → PartialWrite) : ℕ → List (List β) → Pipe β → Pipe β
  | _, [], p => p
  | i, data :: datas, p => writes ws (i + 1) datas (p.write (ws i) data).2

/-- Each of the writes from call `i` on is accepted as a whole, where there is room for `free`
values before the first. -/
def AcceptedWhole (ws : ℕ → PartialWrite) : ℕ → ℕ → List (List β) → Prop
  | _, _, [] => True
  | i, free, data :: datas =>
    (ws i).accepted free data.length = data.length ∧
      AcceptedWhole ws (i + 1) (free - data.length) datas

/-- A call of `read`: the values taken, and the pipe after it. -/
def read (p : Pipe β) (r : NonBlockingRead) (len : ℕ) : List β × Pipe β :=
  let n := r.taken p.content.length len
  (p.content.take n, { p with
    content := p.content.drop n
    fits := by
      have hfits := p.fits
      rw [List.length_drop]
      omega })

@[simp] theorem content_empty (capacity : ℕ) : (empty capacity : Pipe β).content = [] := rfl

@[simp] theorem capacity_empty (capacity : ℕ) : (empty capacity : Pipe β).capacity = capacity := rfl

@[simp] theorem free_empty (capacity : ℕ) : (empty capacity : Pipe β).free = capacity := rfl

variable (p : Pipe β) (w : PartialWrite) (r : NonBlockingRead) (data : List β)

@[simp] theorem capacity_write : (p.write w data).2.capacity = p.capacity := rfl

theorem content_write :
    (p.write w data).2.content = p.content ++ data.take (p.write w data).1 := rfl

theorem write_le : (p.write w data).1 ≤ data.length := w.le_len _ _

theorem free_write : (p.write w data).2.free = p.free - (p.write w data).1 := by
  have hle := p.write_le w data
  unfold free
  rw [content_write, List.length_append, List.length_take, capacity_write]
  omega

/-- Data that fits is accepted in part at least. -/
theorem write_pos (w : NonBlockingWrite) (hdata : data ≠ [])
    (hfits : p.content.length + data.length ≤ p.capacity) :
    0 < (p.write w.toPartialWrite data).1 := by
  apply w.progress
  · exact List.length_pos_of_ne_nil hdata
  · unfold free
    omega

/-! ## Sequences of writes -/

variable {ws : ℕ → PartialWrite}

theorem length_content_writes_le (ws : ℕ → PartialWrite) (i : ℕ) (datas : List (List β))
    (p : Pipe β) :
    (writes ws i datas p).content.length ≤ p.content.length + datas.flatten.length := by
  induction datas generalizing i p with
  | nil => exact Nat.le_add_right _ _
  | cons data datas ih =>
    have hrest := ih (i + 1) (p.write (ws i) data).2
    rw [content_write, List.length_append, List.length_take] at hrest
    rw [List.flatten_cons, List.length_append]
    show (writes ws (i + 1) datas (p.write (ws i) data).2).content.length ≤ _
    omega

/-- After a sequence of writes all the data is in the pipe exactly if every write was accepted as a
whole: what one of them has refused is not made up for by the others. -/
theorem content_writes_iff (ws : ℕ → PartialWrite) (i : ℕ) (datas : List (List β)) (p : Pipe β) :
    (writes ws i datas p).content = p.content ++ datas.flatten ↔
      AcceptedWhole ws i p.free datas := by
  induction datas generalizing i p with
  | nil => exact iff_of_true (List.append_nil _).symm trivial
  | cons data datas ih =>
    show (writes ws (i + 1) datas (p.write (ws i) data).2).content = _ ↔
      (p.write (ws i) data).1 = data.length ∧ _
    have hle := p.write_le (ws i) data
    by_cases hall : (p.write (ws i) data).1 = data.length
    · have hcontent := p.content_write (ws i) data
      rw [hall, List.take_length] at hcontent
      have hrest := ih (i + 1) (p.write (ws i) data).2
      rw [hcontent, List.append_assoc, free_write, hall] at hrest
      rw [List.flatten_cons, hrest]
      exact (and_iff_right hall).symm
    · refine iff_of_false (fun h => hall ?_) fun h => hall h.1
      have hlength := length_content_writes_le ws (i + 1) datas (p.write (ws i) data).2
      rw [h, content_write, List.flatten_cons, List.length_append, List.length_append,
        List.length_append, List.length_take] at hlength
      omega

/-- Writes accepted as a whole fit together. -/
theorem AcceptedWhole.length_le {i free : ℕ} {datas : List (List β)}
    (h : AcceptedWhole ws i free datas) : datas.flatten.length ≤ free := by
  induction datas generalizing i free with
  | nil => exact Nat.zero_le _
  | cons data datas ih =>
    have hfirst := (ws i).le_free free data.length
    rw [h.1] at hfirst
    have hrest := ih h.2
    rw [List.flatten_cons, List.length_append]
    omega

/-- Where data that fits is accepted as a whole, writes that fit together are. -/
theorem acceptedWhole_of_fits (hws : ∀ i, (ws i).Whole) {i free : ℕ} {datas : List (List β)}
    (hfits : datas.flatten.length ≤ free) : AcceptedWhole ws i free datas := by
  induction datas generalizing i free with
  | nil => trivial
  | cons data datas ih =>
    rw [List.flatten_cons, List.length_append] at hfits
    exact ⟨hws i _ _ (by omega), ih (by omega)⟩

/-! ## Reading -/

/-- What is taken comes off the front. -/
theorem read_append_content (len : ℕ) : (p.read r len).1 ++ (p.read r len).2.content = p.content :=
  List.take_append_drop _ _

/-- Nothing is taken only from an empty pipe. -/
theorem read_eq_nil_iff {len : ℕ} (hlen : 0 < len) : (p.read r len).1 = [] ↔ p.content = [] := by
  constructor
  · intro h
    by_contra hne
    have hpos := List.length_pos_of_ne_nil hne
    have htaken := r.progress _ _ hpos hlen
    have hzero : (p.content.take (r.taken p.content.length len)).length = 0 :=
      congrArg List.length h
    rw [List.length_take] at hzero
    omega
  · intro h
    show p.content.take _ = []
    rw [h, List.take_nil]

end Pipe
