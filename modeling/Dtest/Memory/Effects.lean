import Dtest.Memory.Calls

/-!
# What a call does to the books

The books of a tracker are all of it but the lock depth and the tracking flag.  `call_effect` says
once what a call can do to them: which inner update it makes, and under which conditions; what a
call preserves follows from that by cases on the `Effect`.
-/

universe u

namespace Dtest

variable {σ : Type u}

/-- Two trackers with the same books. -/
def SameBooks (m m' : Memory σ) : Prop :=
  ∃ tracking locked, m' = { m with tracking := tracking, locked := locked }

namespace Memory

/-- The two loops of `clear` add up the sizes and the number of the blocks. -/
theorem clearBlocks_eq (m : Memory σ) : m.clearBlocks =
    { m with
      blocks := .empty
      orderedBlocks := .empty
      freeSize := m.orderedBlocks.entries.foldl (fun n block => wadd n block.2.size)
        (m.blocks.entries.foldl (fun n block => wadd n block.2.size) m.freeSize)
      freeCount := m.blocks.entries.foldl (fun n _ => wadd n 1) m.freeCount } := by
  have h1 : ∀ (l : List (ℕ × Allocation σ)) (m : Memory σ), l.foldl (fun m block => { m with
      freeSize := wadd m.freeSize block.2.size, freeCount := wadd m.freeCount 1 }) m =
      { m with
        freeSize := l.foldl (fun n block => wadd n block.2.size) m.freeSize
        freeCount := l.foldl (fun n _ => wadd n 1) m.freeCount } := by
    intro l
    induction l with
    | nil => exact fun m => rfl
    | cons block l ih => exact fun m => ih _
  have h2 : ∀ (l : List (ℕ × Allocation σ)) (m : Memory σ), l.foldl (fun m block => { m with
      freeSize := wadd m.freeSize block.2.size }) m =
      { m with freeSize := l.foldl (fun n block => wadd n block.2.size) m.freeSize } := by
    intro l
    induction l with
    | nil => exact fun m => rfl
    | cons block l ih => exact fun m => ih _
  unfold clearBlocks
  dsimp only
  rw [h1, h2]

variable (ex : Exemptions σ) (m : Memory σ)

/-- The call changes the books. -/
def effective : Call σ → Bool
  | .track _ _ cs | .trackMapped _ _ cs => m.enter.isSome && ex.canTrackAlloc cs
  | .retrack ptr _ _ _ | .remove ptr _ => m.enter.isSome && (m.blocks.find? ptr).isSome
  | .retrackMapped .. | .removeMapped .. => m.enter.isSome
  | .clear => true

/-- The update of the books that a call makes. -/
inductive Effect : Call σ → Memory σ → Prop
  | idle {c : Call σ} (h : m.effective ex c = false) : Effect c m
  | track {ptr size : ℕ} {cs : σ} (enters : m.enter.isSome) (hex : ex.canTrackAlloc cs) :
      Effect (.track ptr size cs) (m.trackBlock ptr size cs)
  | trackMapped {ptr size : ℕ} {cs : σ} (enters : m.enter.isSome) (hex : ex.canTrackAlloc cs) :
      Effect (.trackMapped ptr size cs) (m.trackRange ptr size cs)
  | retrack {oldPtr newPtr newSize : ℕ} {cs : σ} {alloc : Allocation σ} (enters : m.enter.isSome)
      (hold : m.blocks.find? oldPtr = some alloc) :
      Effect (.retrack oldPtr newPtr newSize cs) (m.moveBlock oldPtr alloc newPtr newSize)
  | retrackMapped {oldPtr oldSize newPtr newSize : ℕ} {cs : σ} (enters : m.enter.isSome)
      (hsize : (m.removal oldPtr oldSize).size = 0) (hex : ex.canTrackAlloc cs) :
      Effect (.retrackMapped oldPtr oldSize newPtr newSize cs)
        ((m.afterRemoval (m.removal oldPtr oldSize)).trackRange newPtr newSize cs)
  | unmapped {oldPtr oldSize newPtr newSize : ℕ} {cs : σ} (enters : m.enter.isSome)
      (h : ¬ ((m.removal oldPtr oldSize).size = 0 ∧ ex.canTrackAlloc cs)) :
      Effect (.retrackMapped oldPtr oldSize newPtr newSize cs)
        (m.afterRemoval (m.removal oldPtr oldSize))
  | remove {ptr : ℕ} {cs : σ} {alloc : Allocation σ} (enters : m.enter.isSome)
      (hptr : m.blocks.find? ptr = some alloc) : Effect (.remove ptr cs) (m.removeBlock ptr alloc)
  | removeMapped {ptr size : ℕ} {cs : σ} (enters : m.enter.isSome) :
      Effect (.removeMapped ptr size cs) (m.afterRemoval (m.removal ptr size))
  | clear : Effect .clear m.clearBlocks

variable {m}

theorem enter_cases (m : Memory σ) :
    m.enter = none ∨ m.enter = some { m with locked := wadd m.locked 1 } := by
  unfold enter
  split_ifs
  exacts [Or.inl rfl, Or.inr rfl]

theorem sameBooks_fatal (ptr : ℕ) (cs : σ) {m' : Memory σ} (h : SameBooks m m') :
    SameBooks m (m'.fatal ex ptr cs).1 := by
  obtain ⟨tracking, locked, rfl⟩ := h
  unfold fatal
  split_ifs <;> exact ⟨_, _, rfl⟩

/-- What a call can do, whether it returns or ends in the fatal error. -/
theorem call_effect (m : Memory σ) (c : Call σ) :
    ∃ m', m.Effect ex c m' ∧ SameBooks m' (m.call ex c).1 := by
  rcases m.enter_cases with hm | hm
  · -- the call does not enter: only `clear` does anything
    cases c with
    | clear =>
      refine ⟨_, .clear, ?_⟩
      simp only [call, clear, hm, Option.getD_none]
      exact ⟨_, _, rfl⟩
    | track | trackMapped | retrack | retrackMapped | remove | removeMapped =>
      refine ⟨m, .idle (by simp [effective, hm]), ?_⟩
      simp only [call, Memory.track, Memory.trackMapped, Memory.retrack, Memory.retrackMapped,
        Memory.remove, Memory.removeMapped, hm]
      exact ⟨_, _, rfl⟩
  · have enters : m.enter.isSome := by rw [hm]; rfl
    cases c with
    | track ptr size cs =>
      simp only [call, Memory.track, hm]
      by_cases hex : ex.canTrackAlloc cs = true
      · rw [if_pos hex]
        exact ⟨_, .track enters hex, _, _, rfl⟩
      · rw [if_neg hex]
        exact ⟨m, .idle (by simp [effective, hex]), _, _, rfl⟩
    | trackMapped ptr size cs =>
      simp only [call, Memory.trackMapped, hm]
      by_cases hex : ex.canTrackAlloc cs = true
      · rw [if_pos hex]
        exact ⟨_, .trackMapped enters hex, _, _, rfl⟩
      · rw [if_neg hex]
        exact ⟨m, .idle (by simp [effective, hex]), _, _, rfl⟩
    | retrack oldPtr newPtr newSize cs =>
      simp only [call, Memory.retrack, hm]
      cases hold : m.blocks.find? oldPtr with
      | none =>
        refine ⟨m, .idle (by simp [effective, hold]), ?_⟩
        exact sameBooks_fatal ex oldPtr cs ⟨_, _, rfl⟩
      | some alloc => exact ⟨_, .retrack enters hold, _, _, rfl⟩
    | retrackMapped oldPtr oldSize newPtr newSize cs =>
      simp only [call, Memory.retrackMapped, hm]
      by_cases hsize : (m.removal oldPtr oldSize).size = 0
      · rw [if_neg (show ¬ 0 < (removal { m with locked := wadd m.locked 1 } oldPtr
          oldSize).size from hsize.not_gt)]
        by_cases hex : ex.canTrackAlloc cs = true
        · rw [if_pos hex]
          exact ⟨_, .retrackMapped enters hsize hex, _, _, rfl⟩
        · rw [if_neg hex]
          exact ⟨_, .unmapped enters fun h => hex h.2, _, _, rfl⟩
      · rw [if_pos (show 0 < (removal { m with locked := wadd m.locked 1 } oldPtr
          oldSize).size from Nat.pos_of_ne_zero hsize)]
        refine ⟨_, .unmapped enters fun h => hsize h.1, ?_⟩
        exact sameBooks_fatal ex _ cs ⟨_, _, rfl⟩
    | remove ptr cs =>
      simp only [call, Memory.remove, hm]
      cases hptr : m.blocks.find? ptr with
      | none =>
        refine ⟨m, .idle (by simp [effective, hptr]), ?_⟩
        exact sameBooks_fatal ex ptr cs ⟨_, _, rfl⟩
      | some alloc => exact ⟨_, .remove enters hptr, _, _, rfl⟩
    | removeMapped ptr size cs =>
      simp only [call, Memory.removeMapped, hm]
      refine ⟨_, .removeMapped enters, ?_⟩
      split_ifs
      exacts [sameBooks_fatal ex _ cs ⟨_, _, rfl⟩, ⟨_, _, rfl⟩]
    | clear =>
      refine ⟨_, .clear, ?_⟩
      simp only [call, Memory.clear, hm, Option.getD_some, clearBlocks_eq]
      exact ⟨_, _, rfl⟩

variable {ex}

/-! ## A block that moves -/

/-- The place a block moves to is free once the block has left its own. -/
theorem find?_erase_moved {oldPtr newPtr : ℕ} (hnew : newPtr = oldPtr ∨ FreshKey m.blocks newPtr) :
    (m.blocks.erase oldPtr).find? newPtr = none := by
  rw [SortedMap.find?_erase]
  rcases hnew with rfl | hnew
  · exact if_pos rfl
  · rw [Option.isNone_iff_eq_none.1 hnew.2.2, ite_self]

theorem size_moveBlock {oldPtr newPtr newSize : ℕ} {alloc : Allocation σ}
    (hold : m.blocks.find? oldPtr = some alloc)
    (hnew : newPtr = oldPtr ∨ FreshKey m.blocks newPtr) :
    (m.moveBlock oldPtr alloc newPtr newSize).liveCount = m.liveCount := by
  change ((m.blocks.erase oldPtr).insert newPtr ⟨newSize, alloc.callstack⟩).size = m.blocks.size
  rw [SortedMap.size_insert (find?_erase_moved hnew), SortedMap.size_erase hold]

/-! ## The flow of a call, and whether it allocates -/

theorem flow_of_idle {c : Call σ} (h : m.effective ex c = false) : m.flow ex c = {} := by
  cases c with
  | track ptr size cs | trackMapped ptr size cs => exact if_neg (Bool.eq_false_iff.1 h)
  | retrack ptr _ _ _ | remove ptr _ =>
    simp only [effective, Bool.and_eq_false_iff, Option.isSome_eq_false_iff,
      Option.isNone_iff_eq_none] at h
    rcases h with h | h <;> simp [flow, h]
  | retrackMapped | removeMapped => exact if_neg (Bool.eq_false_iff.1 h)
  | clear => exact Bool.noConfusion h

theorem allocates_of_idle {c : Call σ} (h : m.effective ex c = false) :
    m.allocates ex c = false := by
  cases c with
  | track | trackMapped | retrack => exact h
  | retrackMapped =>
    have hm : m.enter.isSome = false := h
    simp only [allocates, hm, Bool.false_and]
  | remove | removeMapped | clear => rfl

end Memory

end Dtest
