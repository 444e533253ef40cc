import Dtest.Hooks.Heap

/-!
# The heap hooks mirror the allocator

Each of the hooks is a tracked allocation, a tracked move or a tracked removal, and each of these
keeps `_blocks` a mirror of the live blocks when the allocator makes the same change.
-/

universe u

namespace Dtest

variable {σ : Type u} {m : Memory σ} {heap : Heap} {cs : σ} {callocTmp : ℕ}

namespace Mirrors

variable {b : SortedMap ℕ (Allocation σ)}

theorem find?_eq_none_iff (h : Mirrors b heap) {ptr : ℕ} :
    b.find? ptr = none ↔ heap.find? ptr = none := by
  rw [← h ptr, Option.map_eq_none_iff]

theorem exists_of_isSome (h : Mirrors b heap) {ptr : ℕ} (hlive : (heap.find? ptr).isSome) :
    ∃ alloc, b.find? ptr = some alloc := by
  rw [← h ptr, Option.isSome_map] at hlive
  exact Option.isSome_iff_exists.1 hlive

theorem insert (h : Mirrors b heap) {ptr : ℕ} (hptr : heap.find? ptr = none) (v : Allocation σ) :
    Mirrors (b.insert ptr v) (heap.insert ptr v.size) := by
  intro q
  rw [SortedMap.find?_insert (h.find?_eq_none_iff.2 hptr), SortedMap.find?_insert hptr]
  split_ifs
  exacts [rfl, h q]

theorem erase (h : Mirrors b heap) (ptr : ℕ) : Mirrors (b.erase ptr) (heap.erase ptr) := by
  intro q
  rw [SortedMap.find?_erase, SortedMap.find?_erase]
  split_ifs
  exacts [rfl, h q]

/-- A new block is tracked as the allocator hands it out. -/
theorem trackNonNull (h : Mirrors m.blocks heap) (hm : m.Ready) {ptr : ℕ}
    (hptr : Libc.CanAlloc heap ptr) (size : ℕ) :
    Mirrors (trackNonNull noExemptions m ptr size cs).blocks (Libc.alloc heap size ptr) := by
  unfold Dtest.trackNonNull Libc.alloc
  split_ifs with h0
  · exact h
  · rw [hm.track rfl]
    rcases hptr with hptr | hptr
    exacts [absurd hptr h0, h.insert (Option.isNone_iff_eq_none.1 hptr.2.2) _]

/-- Reporting an address that is live already changes no entry. -/
theorem trackNonNull_of_live (h : Mirrors m.blocks heap) (hm : m.Ready) {ptr : ℕ}
    (hptr : ptr = 0 ∨ (heap.find? ptr).isSome) (size : ℕ) :
    Mirrors (Dtest.trackNonNull noExemptions m ptr size cs).blocks heap := by
  unfold Dtest.trackNonNull
  split_ifs with h0
  · exact h
  · rw [hm.track rfl]
    obtain ⟨alloc, halloc⟩ := h.exists_of_isSome (hptr.resolve_left h0)
    change Mirrors (m.blocks.insert ptr _) heap
    rwa [SortedMap.insert_eq_self halloc]

/-- A block is moved as the allocator resizes it, and no error is raised. -/
theorem realloc (h : Mirrors m.blocks heap) (hm : m.Ready) {oldPtr size ptr : ℕ}
    (hptr : Libc.CanRealloc heap oldPtr size ptr) (hsize : oldPtr = 0 ∨ size ≠ 0) :
    Mirrors (Hooks.realloc noExemptions m oldPtr size ptr cs).1.blocks
        (Libc.realloc heap oldPtr size ptr) ∧
      (Hooks.realloc noExemptions m oldPtr size ptr cs).2 = none := by
  unfold Hooks.realloc Libc.realloc
  unfold Libc.CanRealloc at hptr
  by_cases h0 : oldPtr = 0
  · rw [if_pos h0] at hptr
    rw [if_pos h0, if_pos h0]
    exact ⟨h.trackNonNull hm hptr size, rfl⟩
  · have hs : size ≠ 0 := hsize.resolve_left h0
    rw [if_neg h0, if_neg hs] at hptr
    rw [if_neg h0, if_neg h0, if_neg hs]
    split_ifs with h2
    · exact ⟨h, rfl⟩
    · obtain ⟨alloc, halloc⟩ := h.exists_of_isSome hptr.1
      rw [hm.retrack halloc]
      refine ⟨(h.erase oldPtr).insert ?_ ⟨size, alloc.callstack⟩, rfl⟩
      rw [SortedMap.find?_erase]
      split_ifs with heq
      · rfl
      · rcases hptr.2.resolve_left heq with hptr | hptr
        exacts [absurd hptr h2, Option.isNone_iff_eq_none.1 hptr.2.2]

end Mirrors

namespace HeapWorld

variable {w : HeapWorld σ}

/-- One call of a hook. -/
theorem call_faithful (h : Mirrors w.memory.blocks w.heap) (hm : w.memory.Ready) {c : HeapCall}
    (hspec : c.LibcSpec callocTmp w.heap) (hc : c.Sound callocTmp w.heap) :
    w.RaisesRightly callocTmp c cs ∧
      Mirrors (w.call noExemptions callocTmp cs c).1.memory.blocks
        (w.call noExemptions callocTmp cs c).1.heap := by
  cases c with
  | malloc size ptr | memalign _ size ptr | valloc size ptr | pvalloc size ptr
  | alignedAlloc _ size ptr => exact ⟨rfl, h.trackNonNull hm hspec size⟩
  | calloc resolved nmemb size ptr =>
    refine ⟨rfl, ?_⟩
    cases resolved with
    | false => exact h
    | true =>
      rcases hspec with rfl | ⟨hlt, hptr⟩
      · exact h
      · change Mirrors (trackNonNull noExemptions w.memory ptr (wmul nmemb size) cs).blocks
          (Libc.alloc w.heap (nmemb * size) ptr)
        rw [wmul_of_lt hlt]
        exact h.trackNonNull hm hptr (nmemb * size)
  | posixMemalign before alignment size retval ptr =>
    refine ⟨rfl, ?_⟩
    change if retval = 0 then Libc.CanAlloc w.heap ptr else ptr = before at hspec
    change Mirrors (trackNonNull noExemptions w.memory ptr size cs).blocks
      (if retval = 0 then Libc.alloc w.heap size ptr else w.heap)
    split_ifs at hspec ⊢ with hret
    · exact h.trackNonNull hm hspec size
    · rw [hspec]
      exact h.trackNonNull_of_live hm (Or.resolve_left hc hret) size
  | realloc oldPtr size ptr =>
    exact (h.realloc hm hspec hc).symm
  | reallocarray oldPtr nmemb size ptr =>
    change if nmemb * size < 2 ^ 64 then Libc.CanRealloc w.heap oldPtr (nmemb * size) ptr
      else ptr = 0 ∧ (oldPtr = 0 ∨ (w.heap.find? oldPtr).isSome) at hspec
    change (Hooks.realloc noExemptions w.memory oldPtr (wmul nmemb size) ptr cs).2 = none ∧
      Mirrors (Hooks.realloc noExemptions w.memory oldPtr (wmul nmemb size) ptr cs).1.blocks
        (if nmemb * size < 2 ^ 64 then Libc.realloc w.heap oldPtr (nmemb * size) ptr else w.heap)
    split_ifs at hspec ⊢ with hlt
    · rw [wmul_of_lt hlt]
      exact (h.realloc hm hspec hc).symm
    · -- the product overflows: libc has failed, and null is not tracked
      unfold Hooks.realloc trackNonNull
      simp only [hspec.1, if_true, ite_self]
      exact ⟨trivial, h⟩
  | free ptr =>
    have hfree : Hooks.free noExemptions w.memory callocTmp ptr cs =
        if ptr = 0 then some (w.memory, none) else some (w.memory.remove noExemptions ptr cs) :=
      if_neg hc
    unfold RaisesRightly call
    simp only [hfree]
    by_cases h0 : ptr = 0
    · simp only [h0, if_true, ne_eq, not_true_eq_false, false_and, if_false, Libc.free]
      exact ⟨trivial, h⟩
    · cases hlive : w.heap.find? ptr with
      | none =>
        have hremove : w.memory.remove noExemptions ptr cs =
            (w.memory.trackActivity false, some (noValidBlock ptr)) :=
          hm.remove_of_none rfl (h.find?_eq_none_iff.2 hlive)
        simp only [h0, if_false, hremove, ne_eq, not_false_eq_true, and_self, if_true]
        exact ⟨trivial, h⟩
      | some size =>
        obtain ⟨alloc, halloc⟩ := h.exists_of_isSome (Option.isSome_iff_exists.2 ⟨size, hlive⟩)
        simp only [if_neg h0, hm.remove halloc, Libc.free, reduceCtorEq, and_false, if_false]
        exact ⟨trivial, h.erase ptr⟩

theorem step_mirrors (h : Mirrors w.memory.blocks w.heap) {ev : HeapEvent σ}
    (hev : ((system callocTmp).restrict (HeapEvent.Sound callocTmp)).allowed w ev) :
    Mirrors ((system callocTmp).step w ev).memory.blocks ((system callocTmp).step w ev).heap := by
  cases ev with
  | call c cs => exact (call_faithful h hev.1.1 hev.1.2 hev.2).2
  | trackActivity val => exact h

end HeapWorld

/-- In every run whose calls are sound, the last call raises the fatal error exactly when it frees
what is neither null nor a live block, and leaves in `_blocks` exactly the live blocks with their
last requested sizes. -/
theorem heap_hooks_faithful (callocTmp : ℕ) (evs : List (HeapEvent σ)) (c : HeapCall) (cs : σ)
    (h : ((HeapWorld.system callocTmp).restrict (HeapEvent.Sound callocTmp)).Admissible {}
      (evs ++ [.call c cs])) :
    let w := (HeapWorld.system callocTmp).exec {} evs
    let w' := (HeapWorld.system callocTmp).exec {} (evs ++ [.call c cs])
    w.RaisesRightly callocTmp c cs ∧ Mirrors w'.memory.blocks w'.heap := by
  intro w w'
  obtain ⟨hrun, hlast⟩ := Guarded.admissible_snoc.1 h
  have hw : Mirrors w.memory.blocks w.heap :=
    hrun.invariant (I := fun w => Mirrors w.memory.blocks w.heap)
      (fun w ev hw hev => HeapWorld.step_mirrors hw hev) (fun ptr => rfl)
  have hw' : w' = (HeapWorld.system callocTmp).step w (.call c cs) := Guarded.exec_snoc _ _ _ _
  rw [hw']
  exact HeapWorld.call_faithful hw hlast.1.1 hlast.1.2 hlast.2

/-- A sound run: blocks of every kind, a block that moves and one that stays, a null answer, and the
free of an address that is not a block. -/
def soundHeapRun : List (HeapEvent Unit) :=
  [.trackActivity true, .call (.malloc 8 16) (), .call (.calloc true 4 4 32) (),
    .call (.posixMemalign 7 16 100 0 64) (), .call (.realloc 16 24 128) (),
    .call (.malloc 0 16) (), .call (.reallocarray 32 8 8 32) (), .call (.realloc 64 1000 0) (),
    .call (.free 64) (), .call (.free 0) (), .call (.free 48) (), .trackActivity true,
    .call (.posixMemalign 16 16 100 12 16) ()]

theorem heap_hooks_faithful_soundHeapRun :
    let w := (HeapWorld.system 4096).exec {} soundHeapRun
    let w' := (HeapWorld.system 4096).exec {} (soundHeapRun ++ [.call (.free 128) ()])
    w.RaisesRightly 4096 (.free 128) () ∧ Mirrors w'.memory.blocks w'.heap :=
  heap_hooks_faithful 4096 soundHeapRun (.free 128) () (by decide +kernel)

/-- `realloc (p, 0)` leaves the entry of the freed block in `_blocks`. -/
theorem realloc_zero_keeps_entry :
    ¬ ∀ (evs : List (HeapEvent Unit)) (c : HeapCall) (cs : Unit),
      (HeapWorld.system 4096).Admissible {} (evs ++ [.call c cs]) →
      let w := (HeapWorld.system 4096).exec {} evs
      let w' := (HeapWorld.system 4096).exec {} (evs ++ [.call c cs])
      w.RaisesRightly 4096 c cs ∧ Mirrors w'.memory.blocks w'.heap := by
  intro h
  have h16 := (h [.trackActivity true, .call (.malloc 8 16) ()] (.realloc 16 0 0) ()
    (by decide +kernel)).2 16
  revert h16
  decide +kernel

end Dtest
