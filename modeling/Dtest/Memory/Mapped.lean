import Dtest.Memory.Model
import Mathlib.Tactic.Common

/-!
# The mappings in `_orderedBlocks` and the removal loop

`WellFormed` is the invariant of `_orderedBlocks`: the entries are non-empty, pairwise disjoint
intervals keyed by their last byte.  One turn of a removal loop takes an initial part of the range
out of one entry (`Removed`), and the loop ends with `size = 0` exactly where the whole range was
tracked (`removeLoop_size_eq_zero_iff`).
-/

universe u

namespace Dtest

variable {σ : Type u}

/-- `a` is a byte of the entry `e` of `_orderedBlocks`. -/
def InEntry (e : ℕ × Allocation σ) (a : ℕ) : Prop := e.1 < a + e.2.size ∧ a ≤ e.1

/-- `a` is a byte of some entry. -/
def Tracked (b : SortedMap ℕ (Allocation σ)) (a : ℕ) : Prop := ∃ e ∈ b.entries, InEntry e a

/-- The entries are non-empty intervals of the address space, keyed by their last byte, and pairwise
disjoint. -/
structure WellFormed (b : SortedMap ℕ (Allocation σ)) : Prop where
  nonempty : ∀ e ∈ b.entries, 0 < e.2.size
  fits : ∀ e ∈ b.entries, e.2.size ≤ e.1 + 1
  word : ∀ e ∈ b.entries, e.1 < 2 ^ 64
  disjoint : ∀ e ∈ b.entries, ∀ e' ∈ b.entries, e ≠ e' → ∀ a, InEntry e a → ¬ InEntry e' a

/-- The bytes of all entries together. -/
def mappedSize (b : SortedMap ℕ (Allocation σ)) : ℕ := b.sum Allocation.size

theorem lastByte_eq {ptr size : ℕ} (hsize : 0 < size) (h : ptr + size ≤ 2 ^ 64) :
    lastByte ptr size = ptr + size - 1 := by
  unfold lastByte wsub wadd
  omega

theorem firstByte_eq {last size : ℕ} (hlast : last < 2 ^ 64) (hsize : 0 < size)
    (h : size ≤ last + 1) : firstByte last size = last + 1 - size := by
  unfold firstByte wsub wadd
  omega

section entries

variable {b : SortedMap ℕ (Allocation σ)} {e : ℕ × Allocation σ}

theorem wellFormed_empty : WellFormed (SortedMap.empty : SortedMap ℕ (Allocation σ)) :=
  ⟨by simp [SortedMap.empty], by simp [SortedMap.empty], by simp [SortedMap.empty],
    by simp [SortedMap.empty]⟩

theorem not_tracked_empty (a : ℕ) : ¬ Tracked (SortedMap.empty : SortedMap ℕ (Allocation σ)) a := by
  rintro ⟨e, he, -⟩
  cases he

theorem inEntry_last (hb : WellFormed b) (he : e ∈ b.entries) : InEntry e e.1 :=
  ⟨by have := hb.nonempty e he; omega, le_rfl⟩

theorem tracked_last (hb : WellFormed b) (he : e ∈ b.entries) : Tracked b e.1 :=
  ⟨e, he, inEntry_last hb he⟩

/-- An entry that overlaps `e` is `e`. -/
theorem eq_of_inEntry (hb : WellFormed b) (he : e ∈ b.entries) {e' : ℕ × Allocation σ}
    (he' : e' ∈ b.entries) {a : ℕ} (ha : InEntry e a) (ha' : InEntry e' a) : e = e' := by
  by_contra hne
  exact hb.disjoint e he e' he' hne a ha ha'

/-- A key that is not tracked is free. -/
theorem find?_of_not_tracked (hb : WellFormed b) {k : ℕ} (hk : ¬ Tracked b k) :
    b.find? k = none := by
  refine SortedMap.find?_eq_none_iff.2 fun e he h => hk ?_
  rw [← h]
  exact tracked_last hb he

/-- Inserting a non-empty interval none of whose bytes is tracked. -/
theorem WellFormed.insert (hb : WellFormed b) {k : ℕ} {v : Allocation σ} (hpos : 0 < v.size)
    (hfits : v.size ≤ k + 1) (hword : k < 2 ^ 64) (hnew : ∀ a, InEntry (k, v) a → ¬ Tracked b a) :
    WellFormed (b.insert k v) ∧ b.find? k = none ∧
      ∀ a, Tracked (b.insert k v) a ↔ InEntry (k, v) a ∨ Tracked b a := by
  have hk : b.find? k = none :=
    find?_of_not_tracked hb (hnew k ⟨by change k < k + v.size; omega, le_rfl⟩)
  have hmem : ∀ e, e ∈ (b.insert k v).entries ↔ e = (k, v) ∨ e ∈ b.entries :=
    fun e => SortedMap.mem_insert hk
  refine ⟨⟨?_, ?_, ?_, ?_⟩, hk, fun a => ?_⟩
  · intro e he
    rcases (hmem e).1 he with rfl | he
    exacts [hpos, hb.nonempty e he]
  · intro e he
    rcases (hmem e).1 he with rfl | he
    exacts [hfits, hb.fits e he]
  · intro e he
    rcases (hmem e).1 he with rfl | he
    exacts [hword, hb.word e he]
  · intro e he e' he' hne a ha ha'
    rcases (hmem e).1 he with rfl | he <;> rcases (hmem e').1 he' with rfl | he'
    · exact hne rfl
    · exact hnew a ha ⟨e', he', ha'⟩
    · exact hnew a ha' ⟨e, he, ha⟩
    · exact hb.disjoint e he e' he' hne a ha ha'
  · constructor
    · rintro ⟨e, he, ha⟩
      rcases (hmem e).1 he with rfl | he
      exacts [Or.inl ha, Or.inr ⟨e, he, ha⟩]
    · rintro (ha | ⟨e, he, ha⟩)
      exacts [⟨_, (hmem _).2 (Or.inl rfl), ha⟩, ⟨e, (hmem e).2 (Or.inr he), ha⟩]

theorem WellFormed.erase (hb : WellFormed b) (k : ℕ) : WellFormed (b.erase k) := by
  have hmem : ∀ e ∈ (b.erase k).entries, e ∈ b.entries := fun e he => (SortedMap.mem_erase.1 he).1
  exact ⟨fun e he => hb.nonempty e (hmem e he), fun e he => hb.fits e (hmem e he),
    fun e he => hb.word e (hmem e he),
    fun e he e' he' => hb.disjoint e (hmem e he) e' (hmem e' he')⟩

theorem tracked_erase (hb : WellFormed b) (he : e ∈ b.entries) (a : ℕ) :
    Tracked (b.erase e.1) a ↔ Tracked b a ∧ ¬ InEntry e a := by
  constructor
  · rintro ⟨e', he', ha⟩
    obtain ⟨hmem, hne⟩ := SortedMap.mem_erase.1 he'
    refine ⟨⟨e', hmem, ha⟩, fun ha' => hne ?_⟩
    rw [eq_of_inEntry hb he hmem ha' ha]
  · rintro ⟨⟨e', he', ha⟩, hne⟩
    refine ⟨e', SortedMap.mem_erase.2 ⟨he', fun h => hne ?_⟩, ha⟩
    rwa [← SortedMap.eq_of_mem_of_fst_eq he' he h]

end entries

/-! ## One turn of a removal loop -/

/-- What turns of a removal loop do to the counters, for any range: as many bytes leave the map as
the range has lost, and they are counted as freed. -/
structure Counted (s s' : Removal σ) : Prop where
  size_le : s'.size ≤ s.size
  wellFormed : WellFormed s'.orderedBlocks
  mappedSize : mappedSize s'.orderedBlocks + (s.size - s'.size) = mappedSize s.orderedBlocks
  freeSize : s'.freeSize % 2 ^ 64 = (s.freeSize + (s.size - s'.size)) % 2 ^ 64

/-- What turns of a removal loop do to a range inside the address space: its first
`s.size - s'.size` bytes were tracked and have been taken out of the map, every entry that is left
lies in an old one and carries its call stack, and a range that is not used up goes on behind the
removed bytes. -/
structure Removed (s s' : Removal σ) : Prop extends Counted s s' where
  covered : ∀ a, s.ptr ≤ a → a < s.ptr + (s.size - s'.size) → Tracked s.orderedBlocks a
  tracked : ∀ a, Tracked s'.orderedBlocks a ↔
    Tracked s.orderedBlocks a ∧ ¬ (s.ptr ≤ a ∧ a < s.ptr + (s.size - s'.size))
  inside : ∀ e ∈ s'.orderedBlocks.entries, ∃ e' ∈ s.orderedBlocks.entries,
    e.2.callstack = e'.2.callstack ∧ ∀ a, InEntry e a → InEntry e' a
  ptr : 0 < s'.size → s'.ptr = wadd s.ptr (s.size - s'.size)

/-- The range does not leave the address space. -/
def Removal.Fits (s : Removal σ) : Prop := s.ptr + s.size ≤ 2 ^ 64

theorem Counted.refl {s : Removal σ} (h : WellFormed s.orderedBlocks) : Counted s s :=
  ⟨le_rfl, h, by omega, by rw [Nat.sub_self, Nat.add_zero]⟩

theorem Counted.trans {s s' s'' : Removal σ} (h : Counted s s') (h' : Counted s' s'') :
    Counted s s'' := by
  have h1 := h.size_le
  have h2 := h'.size_le
  refine ⟨h2.trans h1, h'.wellFormed, ?_, ?_⟩
  · have := h.mappedSize
    have := h'.mappedSize
    omega
  · have := h.freeSize
    have := h'.freeSize
    omega

namespace Removed

theorem ptr_eq {s s' : Removal σ} (h : Removed s s') (hs : s.Fits) (hpos : 0 < s'.size) :
    s'.ptr = s.ptr + (s.size - s'.size) := by
  have := h.size_le
  unfold Removal.Fits at hs
  rw [h.ptr hpos, wadd_of_lt (by omega)]

theorem fits {s s' : Removal σ} (h : Removed s s') (hs : s.Fits) (hpos : 0 < s'.size) :
    s'.Fits := by
  have hptr := h.ptr_eq hs hpos
  have := h.size_le
  unfold Removal.Fits at *
  omega

theorem refl {s : Removal σ} (h : WellFormed s.orderedBlocks) (hs : s.Fits) : Removed s s := by
  refine ⟨Counted.refl h, ?_, ?_, ?_, ?_⟩
  · intro a h1 h2
    omega
  · exact fun a => ⟨fun ha => ⟨ha, by omega⟩, And.left⟩
  · exact fun e he => ⟨e, he, rfl, fun a ha => ha⟩
  · intro hpos
    unfold Removal.Fits at hs
    rw [wadd_of_lt (by omega)]
    omega

theorem trans {s s' s'' : Removal σ} (h : Removed s s') (hs : s.Fits) (hpos : 0 < s'.size)
    (h' : Removed s' s'') : Removed s s'' := by
  have hptr := h.ptr_eq hs hpos
  have h1 := h.size_le
  have h2 := h'.size_le
  have hsum : s.size - s''.size = s.size - s'.size + (s'.size - s''.size) := by omega
  refine ⟨h.toCounted.trans h'.toCounted, ?_, ?_, ?_, ?_⟩
  · intro a ha1 ha2
    by_cases ha : a < s.ptr + (s.size - s'.size)
    · exact h.covered a ha1 ha
    · exact ((h.tracked a).1 (h'.covered a (by omega) (by omega))).1
  · intro a
    rw [h'.tracked, h.tracked, and_assoc, hptr]
    apply and_congr_right
    intro _
    omega
  · intro e he
    obtain ⟨e', he', hcs, hin⟩ := h'.inside e he
    obtain ⟨e'', he'', hcs', hin'⟩ := h.inside e' he'
    exact ⟨e'', he'', hcs.trans hcs', fun a ha => hin' a (hin a ha)⟩
  · intro hpos'
    rw [h'.ptr hpos', hptr, hsum]
    unfold wadd
    omega

end Removed

/-- `b'` is `b` with the entry `e` replaced by pieces of it, which hold the bytes in `K`, `n` in
number. -/
structure Pieces (b : SortedMap ℕ (Allocation σ)) (e : ℕ × Allocation σ)
    (b' : SortedMap ℕ (Allocation σ)) (K : ℕ → Prop) (n : ℕ) : Prop where
  wellFormed : WellFormed b'
  sub : ∀ a, K a → InEntry e a
  tracked : ∀ a, Tracked b' a ↔ Tracked b a ∧ ¬ InEntry e a ∨ K a
  inside : ∀ x ∈ b'.entries, ∃ y ∈ b.entries,
    x.2.callstack = y.2.callstack ∧ ∀ a, InEntry x a → InEntry y a
  mappedSize : mappedSize b' + e.2.size = mappedSize b + n

namespace Pieces

variable {b b' : SortedMap ℕ (Allocation σ)} {e : ℕ × Allocation σ} {K : ℕ → Prop} {n : ℕ}

theorem erase (hb : WellFormed b) (he : e ∈ b.entries) :
    Pieces b e (b.erase e.1) (fun _ => False) 0 := by
  refine ⟨hb.erase e.1, fun a h => h.elim, fun a => ?_, fun x hx => ?_, ?_⟩
  · rw [tracked_erase hb he, or_false]
  · exact ⟨x, (SortedMap.mem_erase.1 hx).1, rfl, fun a ha => ha⟩
  · have := SortedMap.sum_erase (SortedMap.find?_eq_some_iff.2 he) Allocation.size
    unfold Dtest.mappedSize
    omega

theorem insert (h : Pieces b e b' K n) (he : e ∈ b.entries) (hword : e.1 < 2 ^ 64) (k size : ℕ)
    (hpos : 0 < size) (hfits : size ≤ k + 1)
    (hin : ∀ a, k < a + size → a ≤ k → InEntry e a ∧ ¬ K a) :
    Pieces b e (b'.insert k ⟨size, e.2.callstack⟩)
      (fun a => K a ∨ k < a + size ∧ a ≤ k) (n + size) := by
  have hk : k ≤ e.1 := (hin k (by omega) le_rfl).1.2
  obtain ⟨hwf, hnone, htr⟩ := h.wellFormed.insert (k := k) (v := ⟨size, e.2.callstack⟩) hpos
    hfits (by omega) fun a ha htr => by
      obtain ⟨h1, h2⟩ := hin a ha.1 ha.2
      exact ((h.tracked a).1 htr).elim (fun h' => h'.2 h1) h2
  refine ⟨hwf, ?_, fun a => ?_, fun x hx => ?_, ?_⟩
  · rintro a (ha | ⟨h1, h2⟩)
    exacts [h.sub a ha, (hin a h1 h2).1]
  · rw [htr, h.tracked, or_comm, or_assoc]
    rfl
  · rcases (SortedMap.mem_insert hnone).1 hx with rfl | hx
    · exact ⟨e, he, rfl, fun a ha => (hin a ha.1 ha.2).1⟩
    · exact h.inside x hx
  · have h1 := SortedMap.sum_insert hnone (v := ⟨size, e.2.callstack⟩) Allocation.size
    have h2 := h.mappedSize
    unfold Dtest.mappedSize at *
    dsimp only at h1
    omega

/-- Pieces that hold all bytes of `e` but the first `k` of the range make a turn of the loop. -/
theorem removed {s s' : Removal σ} (h : Pieces s.orderedBlocks e s'.orderedBlocks K n)
    (he : e ∈ s.orderedBlocks.entries) {k : ℕ} (hk : s'.size + k = s.size)
    (hfrom : e.1 < s.ptr + e.2.size) (hto : s.ptr + k ≤ e.1 + 1)
    (hK : ∀ a, InEntry e a → (K a ↔ a < s.ptr ∨ s.ptr + k ≤ a)) (hn : n + k = e.2.size)
    (hfree : s'.freeSize = wadd s.freeSize k) (hptr : 0 < s'.size → s'.ptr = wadd s.ptr k) :
    Removed s s' := by
  obtain rfl : k = s.size - s'.size := by omega
  have hin : ∀ a, s.ptr ≤ a → a < s.ptr + (s.size - s'.size) → InEntry e a := fun a h1 h2 =>
    ⟨by omega, by omega⟩
  refine ⟨⟨by omega, h.wellFormed, ?_, ?_⟩, fun a h1 h2 => ⟨e, he, hin a h1 h2⟩, fun a => ?_,
    h.inside, hptr⟩
  · have := h.mappedSize
    omega
  · rw [hfree]
    unfold wadd
    omega
  · rw [h.tracked]
    by_cases ha : InEntry e a
    · have htr : Tracked s.orderedBlocks a := ⟨e, he, ha⟩
      simp only [ha, not_true_eq_false, and_false, false_or, htr, true_and, hK a ha]
      omega
    · have hK' : ¬ K a := fun hk => ha (h.sub a hk)
      have hout : ¬ (s.ptr ≤ a ∧ a < s.ptr + (s.size - s'.size)) := fun hr => ha (hin a hr.1 hr.2)
      simp only [ha, not_false_eq_true, and_true, hK', or_false, hout]

end Pieces

/-- The loop body takes the part of the range that lies in the block it has found out of that
block. -/
theorem removed_removeFrom {s : Removal σ} (hwf : WellFormed s.orderedBlocks) (hpos : 0 < s.size)
    {last : ℕ} {alloc : Allocation σ} (he : (last, alloc) ∈ s.orderedBlocks.entries)
    (hlast : s.ptr ≤ last) (hp : firstByte last alloc.size ≤ s.ptr) :
    Removed s (removeFrom s last alloc (firstByte last alloc.size)) ∧
      (removeFrom s last alloc (firstByte last alloc.size)).size < s.size := by
  have hne : 0 < alloc.size := hwf.nonempty _ he
  have hfit : alloc.size ≤ last + 1 := hwf.fits _ he
  have hword : last < 2 ^ 64 := hwf.word _ he
  have hrest := Pieces.erase hwf he
  rw [firstByte_eq hword hne hfit] at hp ⊢
  by_cases heq : s.ptr = last + 1 - alloc.size
  · by_cases hlt : s.size < alloc.size
    · -- the range ends inside the block: its end stays
      have hkey : lastByte (wadd (last + 1 - alloc.size) s.size) (alloc.size - s.size) = last := by
        rw [wadd_of_lt (by omega), lastByte_eq (by omega) (by omega)]
        omega
      simp only [removeFrom, if_pos heq, if_pos hlt, hkey]
      have hback := hrest.insert he hword last (alloc.size - s.size) (by omega)
        (by omega) fun a h1 h2 => ⟨⟨by dsimp only; omega, h2⟩, id⟩
      refine ⟨hback.removed he (Nat.zero_add _) (by dsimp only; omega) (by dsimp only; omega) ?_
        (by dsimp only; omega) rfl (absurd · (lt_irrefl 0)), hpos⟩
      rintro a ⟨h1, h2⟩
      dsimp only at h1 h2 ⊢
      rw [false_or]
      omega
    · -- the whole block lies in the range
      simp only [removeFrom, if_pos heq, if_neg hlt]
      refine ⟨hrest.removed he (Nat.sub_add_cancel (not_lt.1 hlt)) (by dsimp only; omega)
        (by dsimp only; omega) ?_ (Nat.zero_add _) rfl fun _ => rfl, by omega⟩
      rintro a ⟨h1, h2⟩
      dsimp only at h1 h2 ⊢
      rw [false_iff]
      omega
  · -- the front of the block stays
    have hoff : wsub s.ptr (last + 1 - alloc.size) = s.ptr - (last + 1 - alloc.size) :=
      wsub_of_le (by omega) hp
    have hrem : wsub alloc.size (s.ptr - (last + 1 - alloc.size)) = last + 1 - s.ptr := by
      unfold wsub
      omega
    have hkey : lastByte (last + 1 - alloc.size) (s.ptr - (last + 1 - alloc.size)) = s.ptr - 1 := by
      rw [lastByte_eq (by omega) (by omega)]
      omega
    have hfront := hrest.insert he hword (s.ptr - 1) (s.ptr - (last + 1 - alloc.size))
      (by omega) (by omega) fun a h1 h2 => ⟨⟨by dsimp only; omega, by dsimp only; omega⟩, id⟩
    by_cases hlt : s.size < last + 1 - s.ptr
    · have hkey' : lastByte (wadd s.ptr s.size) (last + 1 - s.ptr - s.size) = last := by
        rw [wadd_of_lt (by omega), lastByte_eq (by omega) (by omega)]
        omega
      simp only [removeFrom, if_neg heq, hoff, hrem, hkey, if_pos hlt, hkey']
      have hback := hfront.insert he hword last (last + 1 - s.ptr - s.size) (by omega)
        (by omega) fun a h1 h2 => ⟨⟨by dsimp only; omega, h2⟩, by rw [false_or]; omega⟩
      refine ⟨hback.removed he (Nat.zero_add _) (by dsimp only; omega) (by dsimp only; omega) ?_
        (by dsimp only; omega) rfl (absurd · (lt_irrefl 0)), hpos⟩
      rintro a ⟨h1, h2⟩
      dsimp only at h1 h2 ⊢
      rw [false_or]
      omega
    · simp only [removeFrom, if_neg heq, hoff, hrem, hkey, if_neg hlt]
      refine ⟨hfront.removed he (Nat.sub_add_cancel (not_lt.1 hlt)) (by dsimp only; omega)
        (by dsimp only; omega) ?_ (by dsimp only; omega) rfl fun _ => rfl, by omega⟩
      rintro a ⟨h1, h2⟩
      dsimp only at h1 h2 ⊢
      rw [false_or]
      omega

/-! ## A whole loop -/

variable {s s' : Removal σ}

/-- A turn of the loop keeps the book on what has been removed and shortens the range. -/
theorem removed_of_step (hwf : WellFormed s.orderedBlocks) (h : removeStep s = some s') :
    Removed s s' ∧ s'.size < s.size := by
  unfold removeStep at h
  split_ifs at h with hsize
  split at h
  · cases h
  · rename_i last alloc hlow
    obtain ⟨hmem, hle, -⟩ := SortedMap.lowerBound_eq_some hlow
    dsimp only at h
    split_ifs at h with hp
    cases h
    exact removed_removeFrom hwf (by omega) hmem hle (not_lt.1 hp)

/-- A loop that stops early stands at a byte that is not tracked. -/
theorem not_tracked_of_step_eq_none (hwf : WellFormed s.orderedBlocks) (hpos : 0 < s.size)
    (h : removeStep s = none) : ¬ Tracked s.orderedBlocks s.ptr := by
  rintro ⟨e, he, h1, h2⟩
  unfold removeStep at h
  rw [if_neg (by omega)] at h
  cases hlow : s.orderedBlocks.lowerBound s.ptr with
  | none => exact absurd h2 (not_le.2 (SortedMap.lowerBound_eq_none_iff.1 hlow e he))
  | some x =>
    obtain ⟨last, alloc⟩ := x
    obtain ⟨hmem, hle, hleast⟩ := SortedMap.lowerBound_eq_some hlow
    simp only [hlow] at h
    split_ifs at h with hp
    rw [firstByte_eq (hwf.word _ hmem) (hwf.nonempty _ hmem) (hwf.fits _ hmem)] at hp
    have hlast : last ≤ e.1 := hleast e he h2
    dsimp only at hle
    -- the first block that ends at or after `ptr` and the one that holds `ptr` share the byte
    -- `last`
    have heq := eq_of_inEntry hwf hmem he (inEntry_last hwf hmem)
      ⟨by dsimp only; omega, hlast⟩
    rw [← heq] at h1
    dsimp only at h1 hp
    omega

theorem counted_of_step {t : Removal σ} (h : Counted s t) {t' : Removal σ}
    (ht : removeStep t = some t') :
    Counted s t' :=
  h.trans (removed_of_step h.wellFormed ht).1.toCounted

/-- For any range at all, a removal loop keeps the map well formed and the counters right, and it
ends. -/
theorem counted_removeLoop (hwf : WellFormed s.orderedBlocks) :
    Counted s (removeLoop s) ∧ removeStep (removeLoop s) = none :=
  ⟨Loop.run_induction (fun _ _ ht h => counted_of_step h ht) _ (Counted.refl hwf),
    Loop.step_run_eq_none (fun _ _ ht h => counted_of_step h ht) Removal.size
      (fun _ _ h ht => (removed_of_step h.wellFormed ht).2) _ (Counted.refl hwf) le_rfl⟩

theorem size_pos_of_step (h : removeStep s = some s') : 0 < s.size := by
  unfold removeStep at h
  split_ifs at h
  omega

/-- For a range inside the address space, a removal loop takes an initial part of it out. -/
theorem removed_removeLoop (hwf : WellFormed s.orderedBlocks) (hs : s.Fits) :
    Removed s (removeLoop s) := by
  refine Loop.run_induction (P := Removed s) (fun t t' ht h => ?_) _ (Removed.refl hwf hs)
  exact h.trans hs (size_pos_of_step ht) (removed_of_step h.wellFormed ht).1

/-- A removal loop uses up its range exactly where every byte of it was tracked. -/
theorem removeLoop_size_eq_zero_iff (hwf : WellFormed s.orderedBlocks) (hs : s.Fits) :
    (removeLoop s).size = 0 ↔
      ∀ a, s.ptr ≤ a → a < s.ptr + s.size → Tracked s.orderedBlocks a := by
  have h := removed_removeLoop hwf hs
  have hle := h.size_le
  constructor
  · intro hz a h1 h2
    exact h.covered a h1 (by omega)
  · intro hall
    by_contra hne
    have hpos : 0 < (removeLoop s).size := Nat.pos_of_ne_zero hne
    apply not_tracked_of_step_eq_none h.wellFormed hpos (counted_removeLoop hwf).2
    rw [h.ptr_eq hs hpos, h.tracked]
    exact ⟨hall _ (by omega) (by omega), by omega⟩

end Dtest
