import Dtest.Memory.Locking
import Dtest.Memory.Removal

/-!
# What a removal that fails leaves behind

`remove` and `retrack` look their block up before they change anything, so a fatal error leaves the
tables as they were.  `remove_mapped` takes one block of the range out after the other and finds a
gap only when it gets there: `removeMapped_unchanged_iff` says for which ranges it fails without a
trace.  Ranges are any here, also those that run over the end of the address space.
-/

universe u

namespace Dtest

variable {σ : Type u} {m : Memory σ} {ex : Exemptions σ} {cs : σ}

namespace Memory

/-- The error path changes neither the tables nor their counters. -/
theorem fatal_unchanged (ex : Exemptions σ) (m : Memory σ) (ptr : ℕ) (cs : σ) :
    (m.fatal ex ptr cs).1.blocks = m.blocks ∧
    (m.fatal ex ptr cs).1.orderedBlocks = m.orderedBlocks ∧
      (m.fatal ex ptr cs).1.freeSize = m.freeSize := by
  unfold Memory.fatal
  split <;> exact ⟨rfl, rfl, rfl⟩

theorem enter_unchanged {m' : Memory σ} (h : m.enter = some m') :
    m'.blocks = m.blocks ∧ m'.orderedBlocks = m.orderedBlocks ∧ m'.freeSize = m.freeSize := by
  unfold Memory.enter at h
  split_ifs at h
  cases h
  exact ⟨rfl, rfl, rfl⟩

/-- A failed `remove` leaves `_blocks` and `_freeSize` alone. -/
theorem remove_unchanged (ptr : ℕ) (h : (m.remove ex ptr cs).2.isSome) :
    (m.remove ex ptr cs).1.blocks = m.blocks ∧ (m.remove ex ptr cs).1.freeSize = m.freeSize := by
  unfold Memory.remove at h ⊢
  split at h
  · cases h
  · rename_i m' hm'
    obtain ⟨hb, -, hf⟩ := enter_unchanged hm'
    split at h
    · obtain ⟨hb', -, hf'⟩ := fatal_unchanged ex m' ptr cs
      exact ⟨hb'.trans hb, hf'.trans hf⟩
    · cases h

/-- A failed `retrack` leaves `_blocks` and `_freeSize` alone. -/
theorem retrack_unchanged (oldPtr newPtr newSize : ℕ)
    (h : (m.retrack ex oldPtr newPtr newSize cs).2.isSome) :
    (m.retrack ex oldPtr newPtr newSize cs).1.blocks = m.blocks ∧
      (m.retrack ex oldPtr newPtr newSize cs).1.freeSize = m.freeSize := by
  unfold Memory.retrack at h ⊢
  split at h
  · cases h
  · rename_i m' hm'
    obtain ⟨hb, -, hf⟩ := enter_unchanged hm'
    split at h
    · obtain ⟨hb', -, hf'⟩ := fatal_unchanged ex m' oldPtr cs
      exact ⟨hb'.trans hb, hf'.trans hf⟩
    · cases h

end Memory

/-! ## The removal loop over any range -/

section Loop

variable {s s' : Removal σ}

/-- The byte `i` of a range, which may run over the end of the address space. -/
def byteAt (ptr i : ℕ) : ℕ := (ptr + i) % 2 ^ 64

/-- Every byte of the range is tracked. -/
def AllTracked (b : SortedMap ℕ (Allocation σ)) (ptr size : ℕ) : Prop :=
  ∀ i, i < size → Tracked b (byteAt ptr i)

theorem Tracked.lt {b : SortedMap ℕ (Allocation σ)} (hb : WellFormed b) {a : ℕ} (h : Tracked b a) :
    a < 2 ^ 64 := by
  obtain ⟨e, he, -, hle⟩ := h
  have := hb.word e he
  omega

/-- What one turn takes out does not run over the end of the address space. -/
theorem Removed.ptr_add_le (h : Removed s s') (hwf : WellFormed s.orderedBlocks)
    (hptr : s.ptr < 2 ^ 64) :
    s.ptr + (s.size - s'.size) ≤ 2 ^ 64 := by
  by_contra hlt
  have hlast := h.covered (2 ^ 64) (by omega) (by omega)
  exact absurd (hlast.lt hwf) (lt_irrefl _)

/-- The bytes that one turn leaves in the range are those of the old range behind the removed
ones. -/
theorem Removed.allTracked_iff (h : Removed s s') (hwf : WellFormed s.orderedBlocks)
    (hptr : s.ptr < 2 ^ 64) (hsize : s.size < 2 ^ 64) :
    AllTracked s'.orderedBlocks s'.ptr s'.size ↔ AllTracked s.orderedBlocks s.ptr s.size := by
  have hle := h.size_le
  have hend := h.ptr_add_le hwf hptr
  have hrest (i : ℕ) (hi : i < s'.size) :
      byteAt s'.ptr i = byteAt s.ptr (s.size - s'.size + i) ∧
        ¬ (s.ptr ≤ byteAt s'.ptr i ∧ byteAt s'.ptr i < s.ptr + (s.size - s'.size)) := by
    rw [h.ptr (by omega)]
    unfold byteAt wadd
    omega
  constructor
  · intro hall i hi
    by_cases hk : i < s.size - s'.size
    · have hbyte : byteAt s.ptr i = s.ptr + i := Nat.mod_eq_of_lt (by omega)
      rw [hbyte]
      exact h.covered _ (by omega) (by omega)
    · have htr := (h.tracked _).1 (hall (i - (s.size - s'.size)) (by omega))
      rw [(hrest _ (by omega)).1, Nat.add_sub_cancel' (by omega)] at htr
      exact htr.1
  · intro hall i hi
    obtain ⟨hbyte, hout⟩ := hrest i hi
    rw [h.tracked]
    refine ⟨?_, hout⟩
    rw [hbyte]
    exact hall _ (by omega)

theorem Removed.ptr_lt (h : Removed s s') (hpos : 0 < s'.size) : s'.ptr < 2 ^ 64 := by
  rw [h.ptr hpos]
  exact wadd_lt _ _

/-- A removal loop uses up its range exactly where every byte of it was tracked. -/
theorem run_size_eq_zero_iff (n : ℕ) (hn : s.size ≤ n) (hwf : WellFormed s.orderedBlocks)
    (hptr : s.ptr < 2 ^ 64) (hsize : s.size < 2 ^ 64) :
    (Loop.run removeStep n s).size = 0 ↔ AllTracked s.orderedBlocks s.ptr s.size := by
  induction n generalizing s with
  | zero =>
    have hzero : s.size = 0 := by omega
    exact ⟨fun _ i hi => by omega, fun _ => hzero⟩
  | succ n ih =>
    cases hs : removeStep s with
    | none =>
      rw [Loop.run_of_none hs]
      refine ⟨fun hzero i hi => by omega, fun hall => ?_⟩
      by_contra hne
      have hpos := Nat.pos_of_ne_zero hne
      apply not_tracked_of_step_eq_none hwf hpos hs
      have hfirst := hall 0 hpos
      rwa [byteAt, Nat.add_zero, Nat.mod_eq_of_lt hptr] at hfirst
    | some s' =>
      obtain ⟨hrem, hlt⟩ := removed_of_step hwf hs
      rw [Loop.run_succ_of_some hs, ← hrem.allTracked_iff hwf hptr hsize]
      rcases Nat.eq_zero_or_pos s'.size with hzero | hpos
      · rw [Loop.run_of_none (by unfold removeStep; exact if_pos hzero), hzero]
        exact ⟨fun _ i hi => absurd hi (Nat.not_lt_zero i), fun _ => rfl⟩
      · exact ih (by omega) hrem.wellFormed (hrem.ptr_lt hpos) (by omega)

/-- No turn brings a byte back. -/
theorem tracked_of_tracked_run (n : ℕ) (hwf : WellFormed s.orderedBlocks) {a : ℕ}
    (h : Tracked (Loop.run removeStep n s).orderedBlocks a) : Tracked s.orderedBlocks a := by
  have hinv := Loop.run_induction
    (P := fun t : Removal σ => WellFormed t.orderedBlocks ∧
      (Tracked t.orderedBlocks a → Tracked s.orderedBlocks a))
    (fun t t' ht hP => by
      obtain ⟨hrem, -⟩ := removed_of_step hP.1 ht
      exact ⟨hrem.wellFormed, fun htr => hP.2 ((hrem.tracked a).1 htr).1⟩) n ⟨hwf, id⟩
  exact hinv.2 h

/-- The first byte of a range that is not empty is gone after the loop. -/
theorem not_tracked_removeLoop (hwf : WellFormed s.orderedBlocks) (hpos : 0 < s.size) :
    ¬ Tracked (removeLoop s).orderedBlocks s.ptr := by
  obtain ⟨n, hn⟩ := Nat.exists_eq_succ_of_ne_zero (Nat.pos_iff_ne_zero.1 hpos)
  unfold removeLoop
  rw [hn]
  cases hs : removeStep s with
  | none =>
    rw [Loop.run_of_none hs]
    exact not_tracked_of_step_eq_none hwf hpos hs
  | some s' =>
    obtain ⟨hrem, hlt⟩ := removed_of_step hwf hs
    rw [Loop.run_succ_of_some hs]
    intro htr
    have := (hrem.tracked s.ptr).1 (tracked_of_tracked_run n hrem.wellFormed htr)
    exact this.2 ⟨le_rfl, by omega⟩

/-- A loop that finds its first byte untracked ends where it began. -/
theorem removeLoop_of_not_tracked (hwf : WellFormed s.orderedBlocks)
    (h : ¬ Tracked s.orderedBlocks s.ptr) :
    removeLoop s = s := by
  cases hs : removeStep s with
  | none => exact Loop.run_of_none hs _
  | some s' =>
    obtain ⟨hrem, hlt⟩ := removed_of_step hwf hs
    exact absurd (hrem.covered s.ptr le_rfl (by omega)) h

end Loop

namespace Memory

/-- When `remove_mapped` raises the error: tracking is on, the call stack is not exempt, and the
loop has left a part of the range. -/
theorem removeMapped_isSome_iff (ptr size : ℕ) :
    (m.removeMapped ex ptr size cs).2.isSome ↔
      m.Ready ∧ ex.canTrackDealloc cs ∧ 0 < (m.removal ptr size).size := by
  by_cases hready : m.Ready
  · rcases Nat.eq_zero_or_pos (m.removal ptr size).size with hzero | hpos
    · rw [hready.removeMapped hzero, hzero]
      exact ⟨fun h => (Bool.false_ne_true h).elim, fun h => absurd h.2.2 (lt_irrefl 0)⟩
    · by_cases hex : ex.canTrackDealloc cs
      · rw [hready.removeMapped_fatal hex hpos]
        exact ⟨fun _ => ⟨hready, hex, hpos⟩, fun _ => rfl⟩
      · refine ⟨fun h => ?_, fun h => absurd h.2.1 hex⟩
        unfold Memory.removeMapped at h
        rw [hready.enter] at h
        dsimp only at h
        rw [if_pos (show 0 < (Memory.removal { m with locked := wadd 0 1 } ptr size).size
          from hpos)] at h
        unfold Memory.fatal at h
        rw [if_neg hex] at h
        cases h
  · refine ⟨fun h => ?_, fun h => absurd h.1 hready⟩
    unfold Memory.removeMapped at h
    rw [enter_eq_none_iff.2 hready] at h
    cases h

/-- A failed `remove_mapped` leaves what its loop has left. -/
theorem removeMapped_of_isSome {ptr size : ℕ} (h : (m.removeMapped ex ptr size cs).2.isSome) :
    (m.removeMapped ex ptr size cs).1.orderedBlocks = (m.removal ptr size).orderedBlocks ∧
      (m.removeMapped ex ptr size cs).1.freeSize = (m.removal ptr size).freeSize := by
  obtain ⟨hready, hex, hpos⟩ := (removeMapped_isSome_iff ptr size).1 h
  unfold Memory.removeMapped
  rw [hready.enter]
  dsimp only
  rw [if_pos (show 0 < (Memory.removal { m with locked := wadd 0 1 } ptr size).size from hpos)]
  obtain ⟨-, hblocks, hfree⟩ := fatal_unchanged ex
    (afterRemoval { m with locked := wadd 0 1 } (m.removal ptr size)) (m.removal ptr size).ptr cs
  exact ⟨hblocks, hfree⟩

end Memory

/-- `remove_mapped` fails without having changed `_orderedBlocks` or `_freeSize` if and only if no
tracked byte at the beginning of the range comes before one that is not tracked. -/
theorem removeMapped_unchanged_iff (ex : Exemptions σ) (m : Memory σ) (cs : σ)
    (hwf : WellFormed m.orderedBlocks) {ptr size : ℕ} (hptr : ptr < 2 ^ 64)
    (hsize : size < 2 ^ 64) :
    ((m.removeMapped ex ptr size cs).2.isSome →
      (m.removeMapped ex ptr size cs).1.orderedBlocks = m.orderedBlocks ∧
        (m.removeMapped ex ptr size cs).1.freeSize = m.freeSize) ↔
    (m.Ready → ex.canTrackDealloc cs → Tracked m.orderedBlocks ptr →
      AllTracked m.orderedBlocks ptr size) := by
  let s : Removal σ := ⟨m.orderedBlocks, m.freeSize, ptr, size⟩
  have hdone : (m.removal ptr size).size = 0 ↔ AllTracked m.orderedBlocks ptr size :=
    run_size_eq_zero_iff (s := s) size (le_refl size) hwf hptr hsize
  constructor
  · intro hunchanged hready hex hfirst
    rw [← hdone]
    by_contra hne
    have hpos := Nat.pos_of_ne_zero hne
    have herror := (Memory.removeMapped_isSome_iff (m := m) ptr size).2 ⟨hready, hex, hpos⟩
    have hblocks := (Memory.removeMapped_of_isSome herror).1
    rw [(hunchanged herror).1] at hblocks
    -- the loop has taken the first byte out
    have hle : (m.removal ptr size).size ≤ size := (counted_removeLoop (s := s) hwf).1.size_le
    apply not_tracked_removeLoop (s := s) hwf (show 0 < size by omega)
    show Tracked (m.removal ptr size).orderedBlocks ptr
    rwa [← hblocks]
  · intro hrange herror
    obtain ⟨hready, hex, hpos⟩ := (Memory.removeMapped_isSome_iff ptr size).1 herror
    obtain ⟨hblocks, hfree⟩ := Memory.removeMapped_of_isSome herror
    have hnot : ¬ Tracked m.orderedBlocks ptr := by
      intro hfirst
      have := hdone.2 (hrange hready hex hfirst)
      omega
    have hsame : m.removal ptr size = s := removeLoop_of_not_tracked (s := s) hwf hnot
    rw [hblocks, hfree, hsame]
    exact ⟨rfl, rfl⟩

/-- One page of a mapping. -/
def onePage : Memory ℕ :=
  { tracking := true
    orderedBlocks := SortedMap.empty.insert 8191 ⟨4096, 0⟩ }

theorem wellFormed_onePage : WellFormed onePage.orderedBlocks :=
  (wellFormed_empty.insert (by decide) (by decide) (by decide) fun a _ => not_tracked_empty a).1

/-- A range that begins with the page and is longer: the error is raised and the page is gone. -/
theorem removeMapped_onePage :
    WellFormed onePage.orderedBlocks ∧ (onePage.removeMapped noExemptions 4096 8192 7).2.isSome ∧
    ¬ ((onePage.removeMapped noExemptions 4096 8192 7).1.orderedBlocks = onePage.orderedBlocks ∧
      (onePage.removeMapped noExemptions 4096 8192 7).1.freeSize = onePage.freeSize) := by
  refine ⟨wellFormed_onePage, by decide +kernel, ?_⟩
  intro h
  have hfree : (onePage.removeMapped noExemptions 4096 8192 7).1.freeSize = 4096 := by
    decide +kernel
  have h0 : onePage.freeSize = 0 := rfl
  rw [hfree, h0] at h
  exact absurd h.2 (by decide)

/-- The same page and a range that begins before it: the error is raised and the page is still
there. -/
theorem removeMapped_unchanged_before :
    (onePage.removeMapped noExemptions 0 8192 7).2.isSome ∧
      (onePage.removeMapped noExemptions 0 8192 7).1.orderedBlocks = onePage.orderedBlocks ∧
      (onePage.removeMapped noExemptions 0 8192 7).1.freeSize = onePage.freeSize := by
  have herror : (onePage.removeMapped noExemptions 0 8192 7).2.isSome := by decide +kernel
  refine ⟨herror, ?_⟩
  apply (removeMapped_unchanged_iff noExemptions onePage 7 wellFormed_onePage (by decide)
    (by decide)).2
  · rintro - - ⟨e, he, h1, h2⟩
    have hentries : onePage.orderedBlocks.entries = [(8191, ⟨4096, 0⟩)] := by decide +kernel
    rw [hentries, List.mem_singleton] at he
    subst he
    dsimp only at h1
    omega
  · exact herror

end Dtest
