import Dtest.Memory.Tracking
import Dtest.Memory.Mapped

/-!
# What `remove_mapped` and the removal phase of `retrack_mapped` do to a range

A range inside the address space is taken out of `_orderedBlocks` where all of it is tracked;
otherwise the call ends in the fatal error, at the first byte that is not (`removal_exact`).
-/

universe u

namespace Dtest

variable {σ : Type u}

theorem freeSize_removeFrom_lt (s : Removal σ) (last : ℕ) (alloc : Allocation σ) (p : ℕ) :
    (removeFrom s last alloc p).freeSize < 2 ^ 64 := by
  unfold removeFrom
  dsimp only
  split_ifs <;> exact wadd_lt _ _

/-- `_freeSize` is as it was, or a machine word. -/
theorem freeSize_removeLoop (s : Removal σ) :
    removeLoop s = s ∨ (removeLoop s).freeSize < 2 ^ 64 := by
  refine Loop.run_induction (P := fun t => t = s ∨ t.freeSize < 2 ^ 64) (fun t t' ht _ => ?_) _
    (Or.inl rfl)
  unfold removeStep at ht
  split_ifs at ht
  split at ht
  · cases ht
  · dsimp only at ht
    split_ifs at ht
    cases ht
    exact Or.inr (freeSize_removeFrom_lt ..)

namespace Memory

variable {m : Memory σ} {ex : Exemptions σ} {cs : σ}

/-- The fatal error of a removal that stops early. -/
theorem Ready.removeMapped_fatal (h : m.Ready) (hex : ex.canTrackDealloc cs) {ptr size : ℕ}
    (hsize : 0 < (m.removal ptr size).size) :
    (m.removeMapped ex ptr size cs).2 = some (noValidBlock (m.removal ptr size).ptr) := by
  unfold Memory.removeMapped
  rw [h.enter]
  dsimp only
  rw [if_pos (show 0 < (Memory.removal { m with locked := wadd 0 1 } ptr size).size from hsize)]
  unfold Memory.fatal
  rw [if_pos hex]
  rfl

/-- The removal phase decides whether `retrack_mapped` ends in the fatal error. -/
theorem Ready.retrackMapped_error (h : m.Ready) (ptr size newPtr newSize : ℕ) :
    (m.retrackMapped ex ptr size newPtr newSize cs).2 = (m.removeMapped ex ptr size cs).2 := by
  unfold Memory.retrackMapped Memory.removeMapped
  rw [h.enter]
  dsimp only
  split_ifs <;> rfl

end Memory

/-- The removal loop ends.  Where every byte of the range is tracked there is no error, the range
and nothing else has left the map, the map is well formed, every entry lies in an old one with the
same call stack, and `_freeSize` has grown by the size of the range; `retrack_mapped` then records
its new range in that map, unless the call stack is exempt.  Where some byte is not tracked and the
call stack is not exempt, the fatal error names such a byte. -/
theorem removal_exact (ex : Exemptions σ) {m : Memory σ} (hm : m.Ready)
    (hwf : WellFormed m.orderedBlocks) {ptr size : ℕ} (hsize : 1 ≤ size)
    (hfits : ptr + size ≤ 2 ^ 64) (cs : σ) :
    let s := m.removal ptr size
    removeStep s = none ∧
    ((∀ a, ptr ≤ a → a < ptr + size → Tracked m.orderedBlocks a) →
      m.removeMapped ex ptr size cs = (m.afterRemoval s, none) ∧
      (∀ newPtr newSize, m.retrackMapped ex ptr size newPtr newSize cs =
        (if ex.canTrackAlloc cs then (m.afterRemoval s).trackRange newPtr newSize cs
        else m.afterRemoval s, none)) ∧
      (∀ a, Tracked s.orderedBlocks a ↔
        Tracked m.orderedBlocks a ∧ ¬ (ptr ≤ a ∧ a < ptr + size)) ∧
      WellFormed s.orderedBlocks ∧
      (∀ e ∈ s.orderedBlocks.entries, ∃ e' ∈ m.orderedBlocks.entries,
        e.2.callstack = e'.2.callstack ∧ ∀ a, InEntry e a → InEntry e' a) ∧
      s.freeSize = wadd m.freeSize size) ∧
    ((∃ a, ptr ≤ a ∧ a < ptr + size ∧ ¬ Tracked m.orderedBlocks a) → ex.canTrackDealloc cs →
      ∃ a, ptr ≤ a ∧ a < ptr + size ∧ ¬ Tracked m.orderedBlocks a ∧
        (m.removeMapped ex ptr size cs).2 = some (noValidBlock a) ∧
        ∀ newPtr newSize,
          (m.retrackMapped ex ptr size newPtr newSize cs).2 = some (noValidBlock a)) := by
  intro s
  let s₀ : Removal σ := ⟨m.orderedBlocks, m.freeSize, ptr, size⟩
  have hremoved : Removed s₀ s := removed_removeLoop hwf hfits
  have hzero : s.size = 0 ↔ ∀ a, ptr ≤ a → a < ptr + size → Tracked m.orderedBlocks a :=
    removeLoop_size_eq_zero_iff (s := s₀) hwf hfits
  have hstop : removeStep s = none := (counted_removeLoop (s := s₀) hwf).2
  refine ⟨hstop, fun hall => ?_, fun ⟨b, hb1, hb2, hb⟩ hex => ?_⟩
  · have hdone : s.size = 0 := hzero.2 hall
    have hrange : s₀.size - s.size = size := by rw [hdone]; rfl
    have herror : m.removeMapped ex ptr size cs = (m.afterRemoval (m.removal ptr size), none) :=
      hm.removeMapped hdone
    refine ⟨herror, fun newPtr newSize => hm.retrackMapped hdone newPtr newSize, ?_,
      hremoved.wellFormed, hremoved.inside, ?_⟩
    · have htracked := hremoved.tracked
      rwa [hrange] at htracked
    · have hlt : s.freeSize < 2 ^ 64 := by
        rcases freeSize_removeLoop s₀ with h | h
        · have hsame : s.size = size := congrArg Removal.size h
          omega
        · exact h
      have hfree := hremoved.freeSize
      rwa [hrange, Nat.mod_eq_of_lt hlt] at hfree
  · have hpos : 0 < s.size := by
      rw [Nat.pos_iff_ne_zero]
      exact fun hdone => hb (hzero.1 hdone b hb1 hb2)
    have hle : s.size ≤ size := hremoved.size_le
    have hptr : s.ptr = ptr + (size - s.size) := hremoved.ptr_eq hfits hpos
    have hnot := not_tracked_of_step_eq_none hremoved.wellFormed hpos hstop
    have herror : (m.removeMapped ex ptr size cs).2 = some (noValidBlock s.ptr) :=
      hm.removeMapped_fatal hex hpos
    refine ⟨s.ptr, by omega, by omega, fun htr => hnot ?_, herror, fun newPtr newSize => ?_⟩
    · rw [hremoved.tracked]
      exact ⟨htr, fun h => by
        have h2 := h.2
        change s.ptr < ptr + (size - s.size) at h2
        omega⟩
    · rw [hm.retrackMapped_error, herror]

/-- Three mappings without a gap between them, tracked from three call stacks. -/
def threeMappings : Memory ℕ :=
  { tracking := true
    orderedBlocks := ((SortedMap.empty.insert 4195 ⟨100, 0⟩).insert 4295 ⟨100, 1⟩).insert 4395
      ⟨100, 2⟩ }

/-- A range from inside the first mapping to inside the last. -/
theorem removal_exact_threeMappings :
    (∀ a, 4150 ≤ a → a < 4150 + 200 → Tracked threeMappings.orderedBlocks a) ∧
    threeMappings.removeMapped noExemptions 4150 200 7 =
      (threeMappings.afterRemoval (threeMappings.removal 4150 200), none) ∧
    (threeMappings.removal 4150 200).orderedBlocks.entries =
      [(4149, ⟨54, 0⟩), (4395, ⟨46, 2⟩)] := by
  have hentries : threeMappings.orderedBlocks.entries =
      [(4195, ⟨100, 0⟩), (4295, ⟨100, 1⟩), (4395, ⟨100, 2⟩)] := by decide +kernel
  have hwf : WellFormed threeMappings.orderedBlocks := by
    refine ⟨?_, ?_, ?_, ?_⟩
    · decide +kernel
    · decide +kernel
    · decide +kernel
    · rw [hentries]
      intro e he e' he' hne a ha ha'
      simp only [List.mem_cons, List.not_mem_nil, or_false] at he he'
      unfold InEntry at ha ha'
      rcases he with rfl | rfl | rfl <;> rcases he' with rfl | rfl | rfl
      all_goals first | exact hne rfl | (dsimp only at ha ha'; omega)
  have hall : ∀ a, 4150 ≤ a → a < 4150 + 200 → Tracked threeMappings.orderedBlocks a := by
    intro a h1 h2
    unfold Tracked InEntry
    rw [hentries]
    simp only [List.mem_cons, List.not_mem_nil, or_false, exists_eq_or_imp, exists_eq_left]
    omega
  refine ⟨hall, ?_, by decide +kernel⟩
  exact ((removal_exact noExemptions (by decide) hwf (by decide) (by decide) 7).2.1 hall).1

end Dtest
