import Dtest.Memory.Effects
import Mathlib.Order.Interval.Finset.Nat

/-!
# The counters of `Memory` over one call

`Accounts` says what the counters have to do with the two maps, and `Conserved` by how much a step
moves the byte counters and the live bytes.  Every call keeps the first and has its `Memory.flow`
for the second, also when it ends in the fatal error (`booked_call`).  An allocation event ends by
comparing the two maxima with the live amounts (`max_call`).
-/

universe u

namespace Dtest

variable {σ : Type u}

theorem not_tracked_of_freeRange {b : SortedMap ℕ (Allocation σ)} {ptr size : ℕ} (hpos : 0 < size)
    (hfits : ptr + size ≤ 2 ^ 64) (hfree : FreeRange b ptr size) {cs : σ} (a : ℕ)
    (ha : InEntry (lastByte ptr size, ⟨size, cs⟩) a) : ¬ Tracked b a := by
  rintro ⟨e, he, h1, h2⟩
  obtain ⟨h3, h4⟩ := ha
  rw [lastByte_eq hpos hfits] at h3 h4
  dsimp only at h3 h4
  have := hfree e he
  omega

/-- What the counters have to do with the maps. -/
structure Accounts (m : Memory σ) : Prop where
  wellFormed : WellFormed m.orderedBlocks
  pointers : ∀ e ∈ m.blocks.entries, 0 < e.1 ∧ e.1 < 2 ^ 64
  bytes : wsub m.allocateSize m.freeSize = m.liveBytes % 2 ^ 64
  count : wsub m.allocateCount m.freeCount = m.liveCount % 2 ^ 64

/-- The live bytes and the byte counters after a step with the given flow. -/
structure Conserved (m m' : Memory σ) (fl : Flow) : Prop where
  bytes : m'.liveBytes + (fl.freed + fl.shrunk) = m.liveBytes + fl.grown
  allocateSize : (m'.allocateSize + fl.shrunk) % 2 ^ 64 = (m.allocateSize + fl.grown) % 2 ^ 64
  freeSize : m'.freeSize % 2 ^ 64 = (m.freeSize + fl.freed) % 2 ^ 64

/-- The accounts after a step, and the flow of the step. -/
structure Booked (m m' : Memory σ) (fl : Flow) : Prop where
  accounts : Accounts m'
  conserved : Conserved m m' fl

theorem accounts_init : Accounts ({} : Memory σ) :=
  have hzero : wsub 0 0 = 0 % 2 ^ 64 := by decide +kernel
  ⟨wellFormed_empty, by simp [SortedMap.empty], hzero, hzero⟩

theorem Conserved.refl (m : Memory σ) : Conserved m m {} := ⟨rfl, rfl, rfl⟩

theorem Conserved.trans {m m' m'' : Memory σ} {f g : Flow} (h : Conserved m m' f)
    (h' : Conserved m' m'' g) : Conserved m m'' (f.add g) := by
  obtain ⟨h1, h2, h3⟩ := h
  obtain ⟨h1', h2', h3'⟩ := h'
  unfold Flow.add
  refine ⟨?_, ?_, ?_⟩ <;> dsimp only <;> omega

/-- The flow of a step that only adds to the allocated bytes. -/
theorem conserved_grown {m m' : Memory σ} {size : ℕ} (hbytes : m'.liveBytes = m.liveBytes + size)
    (hallocate : m'.allocateSize = wadd m.allocateSize size) (hfree : m'.freeSize = m.freeSize) :
    Conserved m m' { grown := size } := by
  refine ⟨hbytes, ?_, congrArg (· % 2 ^ 64) hfree⟩
  change m'.allocateSize % 2 ^ 64 = (m.allocateSize + size) % 2 ^ 64
  rw [hallocate]
  unfold wadd
  omega

theorem Booked.refl {m : Memory σ} (h : Accounts m) : Booked m m {} := ⟨h, Conserved.refl m⟩

theorem Booked.trans {m m' m'' : Memory σ} {f g : Flow} (h : Booked m m' f) (h' : Booked m' m'' g) :
    Booked m m'' (f.add g) :=
  ⟨h'.accounts, h.conserved.trans h'.conserved⟩

namespace Accounts

variable {m m' : Memory σ}

/-- The byte counters of a step follow from its flow. -/
theorem booked (h : Accounts m) {fl : Flow} (hc : Conserved m m' fl)
    (hwf : WellFormed m'.orderedBlocks)
    (hptr : ∀ e ∈ m'.blocks.entries, 0 < e.1 ∧ e.1 < 2 ^ 64)
    (hcount : wsub m'.allocateCount m'.freeCount = m'.liveCount % 2 ^ 64) : Booked m m' fl := by
  refine ⟨⟨hwf, hptr, ?_, hcount⟩, hc⟩
  obtain ⟨h1, h2, h3⟩ := hc
  have h4 := h.bytes
  unfold wsub at *
  omega

/-- There are fewer heap pointers than machine words. -/
theorem liveCount_lt (h : Accounts m) : m.liveCount < 2 ^ 64 := by
  have hle : m.liveCount ≤ (Finset.Ioo 0 (2 ^ 64)).card :=
    SortedMap.size_le_card fun e he => Finset.mem_Ioo.2 (h.pointers e he)
  rw [Nat.card_Ioo] at hle
  omega

theorem pointers_insert (h : Accounts m) {ptr : ℕ} (hptr : 0 < ptr ∧ ptr < 2 ^ 64)
    {b : SortedMap ℕ (Allocation σ)} (hb : ∀ e ∈ b.entries, e ∈ m.blocks.entries)
    (hfree : b.find? ptr = none) (v : Allocation σ) :
    ∀ e ∈ (b.insert ptr v).entries, 0 < e.1 ∧ e.1 < 2 ^ 64 := by
  intro e he
  rcases (SortedMap.mem_insert hfree).1 he with rfl | he
  exacts [hptr, h.pointers e (hb e he)]

theorem trackBlock (h : Accounts m) {ptr : ℕ} (hptr : FreshKey m.blocks ptr) (size : ℕ) (cs : σ) :
    Booked m (m.trackBlock ptr size cs) { grown := size } := by
  obtain ⟨h0, h1, hfresh⟩ := hptr
  have hfresh := Option.isNone_iff_eq_none.1 hfresh
  have hsum := SortedMap.sum_insert hfresh (v := ⟨size, cs⟩) Allocation.size
  have hsize := SortedMap.size_insert hfresh (v := ⟨size, cs⟩)
  refine h.booked (conserved_grown ?_ rfl rfl) h.wellFormed
    (h.pointers_insert ⟨h0, h1⟩ (fun e he => he) hfresh _) ?_
  · change (m.blocks.insert ptr ⟨size, cs⟩).sum Allocation.size + mappedSize m.orderedBlocks
      = m.liveBytes + size
    unfold Memory.liveBytes
    dsimp only at hsum
    omega
  · change wsub (wadd m.allocateCount 1) m.freeCount =
      (m.blocks.insert ptr ⟨size, cs⟩).size % 2 ^ 64
    rw [wsub_wadd_left, h.count, hsize]
    unfold Memory.liveCount
    omega

theorem trackRange (h : Accounts m) {ptr size : ℕ} (hpos : 0 < size) (hfits : ptr + size ≤ 2 ^ 64)
    (hfree : FreeRange m.orderedBlocks ptr size) (cs : σ) :
    Booked m (m.trackRange ptr size cs) { grown := size } := by
  have hkey := lastByte_eq hpos hfits
  obtain ⟨hwf, hnone, -⟩ := h.wellFormed.insert (k := lastByte ptr size) (v := ⟨size, cs⟩) hpos
    (by dsimp only; omega) (by omega) (not_tracked_of_freeRange hpos hfits hfree)
  have hsum := SortedMap.sum_insert hnone (v := ⟨size, cs⟩) Allocation.size
  refine h.booked (conserved_grown ?_ rfl rfl) hwf h.pointers h.count
  change m.blocks.sum Allocation.size +
    (m.orderedBlocks.insert (lastByte ptr size) ⟨size, cs⟩).sum Allocation.size = m.liveBytes + size
  unfold Memory.liveBytes mappedSize
  dsimp only at hsum
  omega

theorem moveBlock (h : Accounts m) {oldPtr newPtr : ℕ} {alloc : Allocation σ}
    (hold : m.blocks.find? oldPtr = some alloc) (hnew : newPtr = oldPtr ∨ FreshKey m.blocks newPtr)
    (newSize : ℕ) :
    Booked m (m.moveBlock oldPtr alloc newPtr newSize)
      { grown := newSize - alloc.size, shrunk := alloc.size - newSize } := by
  have hmem := SortedMap.find?_eq_some_iff.1 hold
  have hptr : 0 < newPtr ∧ newPtr < 2 ^ 64 := by
    rcases hnew with rfl | hnew
    exacts [h.pointers _ hmem, ⟨hnew.1, hnew.2.1⟩]
  have hfree := Memory.find?_erase_moved hnew
  have hsum := SortedMap.sum_erase hold Allocation.size
  have hsum' := SortedMap.sum_insert hfree (v := ⟨newSize, alloc.callstack⟩) Allocation.size
  refine h.booked ⟨?_, ?_, rfl⟩ h.wellFormed
    (h.pointers_insert hptr (fun e he => (SortedMap.mem_erase.1 he).1) hfree _) ?_
  · change ((m.blocks.erase oldPtr).insert newPtr ⟨newSize, alloc.callstack⟩).sum Allocation.size +
      mappedSize m.orderedBlocks + (0 + (alloc.size - newSize)) =
        m.liveBytes + (newSize - alloc.size)
    unfold Memory.liveBytes
    dsimp only at hsum'
    omega
  · change (wadd m.allocateSize (wsub newSize alloc.size) + (alloc.size - newSize)) % 2 ^ 64 =
      (m.allocateSize + (newSize - alloc.size)) % 2 ^ 64
    unfold wadd wsub
    omega
  · rw [Memory.size_moveBlock hold hnew]
    exact h.count

theorem afterRemoval (h : Accounts m) (ptr size : ℕ) :
    Booked m (m.afterRemoval (m.removal ptr size))
      { freed := size - (m.removal ptr size).size } := by
  obtain ⟨hc, -⟩ := counted_removeLoop (s := ⟨m.orderedBlocks, m.freeSize, ptr, size⟩) h.wellFormed
  refine h.booked ⟨?_, rfl, hc.freeSize⟩ hc.wellFormed h.pointers h.count
  have hsize := hc.mappedSize
  change m.blocks.sum Allocation.size + mappedSize (m.removal ptr size).orderedBlocks +
    (size - (m.removal ptr size).size + 0) = m.liveBytes + 0
  unfold Memory.liveBytes Memory.removal
  dsimp only at hsize
  omega

theorem removeBlock (h : Accounts m) {ptr : ℕ} {alloc : Allocation σ}
    (hptr : m.blocks.find? ptr = some alloc) :
    Booked m (m.removeBlock ptr alloc) { freed := alloc.size } := by
  have hsum := SortedMap.sum_erase hptr Allocation.size
  have hsize := SortedMap.size_erase hptr
  refine h.booked ⟨?_, rfl, ?_⟩ h.wellFormed
    (fun e he => h.pointers e (SortedMap.mem_erase.1 he).1) ?_
  · change (m.blocks.erase ptr).sum Allocation.size + mappedSize m.orderedBlocks +
      (alloc.size + 0) = m.liveBytes + 0
    unfold Memory.liveBytes
    omega
  · change wadd m.freeSize alloc.size % 2 ^ 64 = (m.freeSize + alloc.size) % 2 ^ 64
    unfold wadd
    omega
  · refine wsub_wadd_right _ _ _ _ (h.count.trans ?_)
    change m.blocks.size % 2 ^ 64 = ((m.blocks.erase ptr).size + 1) % 2 ^ 64
    rw [hsize]

end Accounts

theorem Accounts.clearBlocks {m : Memory σ} (h : Accounts m) :
    Booked m m.clearBlocks { freed := m.liveBytes } := by
  rw [Memory.clearBlocks_eq]
  refine h.booked ⟨?_, rfl, ?_⟩ wellFormed_empty (by simp [SortedMap.empty]) ?_
  · change 0 + (m.liveBytes + 0) = m.liveBytes + 0
    omega
  · dsimp only
    rw [foldl_wadd, Nat.add_mod, foldl_wadd, ← Nat.add_mod, Nat.add_assoc]
    rfl
  · refine wsub_foldl_wadd (fun _ => 1) _ _ _ 0 (h.count.trans ?_)
    rw [Nat.zero_add, List.map_const', List.sum_replicate_nat, Nat.mul_one]
    rfl

/-! ## One call -/

variable {m m' : Memory σ} {ex : Exemptions σ} {fl : Flow}

/-- The accounts do not see the lock depth and the tracking flag. -/
theorem Accounts.congr (h : Accounts m) (h1 : m'.blocks = m.blocks)
    (h2 : m'.orderedBlocks = m.orderedBlocks) (h3 : m'.allocateSize = m.allocateSize)
    (h4 : m'.freeSize = m.freeSize) (h5 : m'.allocateCount = m.allocateCount)
    (h6 : m'.freeCount = m.freeCount) : Accounts m' := by
  have hlive : m'.liveBytes = m.liveBytes := by
    unfold Memory.liveBytes
    rw [h1, h2]
  refine ⟨h2 ▸ h.wellFormed, h1 ▸ h.pointers, by rw [h3, h4, h.bytes, hlive], ?_⟩
  rw [h5, h6, h.count]
  unfold Memory.liveCount
  rw [h1]

theorem Booked.of_sameBooks {m'' : Memory σ} (h : Booked m m' fl) (hsame : SameBooks m' m'') :
    Booked m m'' fl := by
  obtain ⟨tracking, locked, rfl⟩ := hsame
  exact ⟨h.accounts.congr rfl rfl rfl rfl rfl rfl, h.conserved.1, h.conserved.2, h.conserved.3⟩

/-- Every call keeps the accounts and has its flow, also one that ends in the fatal error. -/
theorem booked_call (h : Accounts m) {c : Call σ} (hc : c.Allowed m) :
    Booked m (m.call ex c).1 (m.flow ex c) := by
  obtain ⟨m', heffect, hsame⟩ := Memory.call_effect ex m c
  apply Booked.of_sameBooks _ hsame
  cases heffect with
  | idle hidle =>
    rw [Memory.flow_of_idle hidle]
    exact Booked.refl h
  | @track ptr size cs enters hex =>
    simp only [Memory.flow, enters, hex, Bool.and_self, if_true]
    exact h.trackBlock hc size cs
  | @trackMapped ptr size cs enters hex =>
    simp only [Memory.flow, enters, hex, Bool.and_self, if_true]
    exact h.trackRange hc.1 hc.2.1 hc.2.2 cs
  | @retrack oldPtr newPtr newSize cs alloc enters hold =>
    simp only [Memory.flow, enters, if_true, hold]
    exact h.moveBlock hold hc newSize
  | @retrackMapped oldPtr oldSize newPtr newSize cs enters hsize hex =>
    have hbook := h.afterRemoval oldPtr oldSize
    have hboth := hbook.trans (hbook.accounts.trackRange hc.1 hc.2.1 hc.2.2 cs)
    simp only [Flow.add, Nat.zero_add, Nat.add_zero] at hboth
    simp only [Memory.flow, enters, if_true, if_pos (And.intro hsize hex)]
    exact hboth
  | @unmapped oldPtr oldSize newPtr newSize cs enters hsize =>
    simp only [Memory.flow, enters, if_true, if_neg hsize]
    exact h.afterRemoval oldPtr oldSize
  | @remove ptr cs alloc enters hptr =>
    simp only [Memory.flow, enters, if_true, hptr]
    exact h.removeBlock hptr
  | @removeMapped ptr size cs enters =>
    simp only [Memory.flow, enters, if_true]
    exact h.afterRemoval ptr size
  | clear => exact h.clearBlocks

theorem booked_event (h : Accounts m) {ev : Event σ} (hev : (Memory.system ex).allowed m ev) :
    Booked m (m.event ex ev) (m.eventFlow ex ev) := by
  cases ev with
  | call c => exact booked_call h hev
  | resetMaxAllocation | trackActivity _ | lock | unlock =>
    exact ⟨h.congr rfl rfl rfl rfl rfl rfl, rfl, rfl, rfl⟩

/-- The accounts and the flow of a run. -/
theorem booked_events (h : Accounts m) {evs : List (Event σ)}
    (hevs : (Memory.system ex).Admissible m evs) :
    Booked m (m.events ex evs) (m.flows ex evs) := by
  induction evs generalizing m with
  | nil => exact Booked.refl h
  | cons ev evs ih =>
    have hbook := booked_event h hevs.1
    exact hbook.trans (ih hbook.accounts hevs.2)

/-- The maxima after an allocation event take in the amounts that are live then. -/
def Peaked (m m' : Memory σ) : Prop :=
  m'.maxAllocate = max m.maxAllocate (wsub m'.allocateSize m'.freeSize) ∧
    m'.maxAllocateCount = max m.maxAllocateCount (wsub m'.allocateCount m'.freeCount)

/-- The maxima are as they were. -/
def Level (m m' : Memory σ) : Prop :=
  m'.maxAllocate = m.maxAllocate ∧ m'.maxAllocateCount = m.maxAllocateCount

/-- A call ends by comparing the maxima with the live amounts exactly when it is an allocation
event. -/
theorem max_call (m : Memory σ) (c : Call σ) :
    if m.allocates ex c then Peaked m (m.call ex c).1 else Level m (m.call ex c).1 := by
  obtain ⟨m', heffect, tracking, locked, hsame⟩ := Memory.call_effect ex m c
  rw [hsame]
  cases heffect with
  | idle hidle =>
    rw [Memory.allocates_of_idle hidle]
    exact ⟨rfl, rfl⟩
  | track enters hex | trackMapped enters hex =>
    simp only [Memory.allocates, enters, hex, Bool.and_self, if_true]
    exact ⟨rfl, rfl⟩
  | retrack enters hold =>
    simp only [Memory.allocates, enters, hold, Option.isSome_some, Bool.and_self, if_true]
    exact ⟨rfl, rfl⟩
  | retrackMapped enters hsize hex =>
    simp only [Memory.allocates, enters, hsize, hex, BEq.rfl, Bool.and_self, if_true]
    exact ⟨rfl, rfl⟩
  | @unmapped oldPtr oldSize newPtr newSize cs enters h =>
    have hnot : m.allocates ex (.retrackMapped oldPtr oldSize newPtr newSize cs) = false := by
      simpa [Memory.allocates, enters] using h
    rw [hnot]
    exact ⟨rfl, rfl⟩
  | remove | removeMapped => exact ⟨rfl, rfl⟩
  | clear =>
    rw [Memory.clearBlocks_eq]
    exact ⟨rfl, rfl⟩

end Dtest
