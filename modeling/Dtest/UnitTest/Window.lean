import Dtest.Memory.Ledger
import Dtest.Memory.Totals
import Dtest.UnitTest.Leak

/-!
# What the two snapshots of a test store

The second snapshot stores the differences of the four counters over the window
(`differences_exact_iff`) and the two maxima (`peaks_exact_iff`).  A difference is not the true
amount when `retrack` has shrunk blocks from before the window, and the maximum of the blocks is not
that of the window when there were more of them before: the first snapshot restarts only the other
one.
-/

universe u

namespace Dtest

variable {σ : Type u} {ex : Exemptions σ} {m : Memory σ}

/-! ## The differences -/

/-- The difference that the second snapshot stores for a counter that is not lower than at the
first. -/
theorem difference_of_le {a a' : ℕ} (ha' : a' < 2 ^ 64) (hle : a ≤ a') :
    wsub a' (wsub a 0) = a' - a := by
  rw [wsub_of_le (hle.trans_lt ha') (Nat.zero_le a), Nat.sub_zero, wsub_of_le ha' hle]

/-- The difference of a counter that has moved by `r` modulo `2 ^ 64` is `r` exactly if the counter
has not run over. -/
theorem difference_eq_iff {a a' r : ℕ} (ha' : a' < 2 ^ 64)
    (hmoved : a' % 2 ^ 64 = (a + r) % 2 ^ 64) :
    a ≤ a' ∧ wsub a' (wsub a 0) = r ↔ a + r < 2 ^ 64 := by
  constructor
  · rintro ⟨hle, heq⟩
    rw [difference_of_le ha' hle] at heq
    omega
  · intro hlt
    have hle : a ≤ a' := by omega
    exact ⟨hle, by rw [difference_of_le ha' hle]; omega⟩

/-- While fewer than `2 ^ 64` bytes have been recorded, none of the four counters is lower at the
second snapshot than at the first, and the four stored differences are the amounts of the window,
exactly if the shrinking `realloc`s of the window give up no more bytes than it adds and its blocks
do not overrun the two block counters. -/
theorem differences_exact_iff (ex : Exemptions σ) (n n' : NetworkCounters)
    (prior window : List (Event σ))
    (hadm : (Memory.system ex).Admissible {} (prior ++ .resetMaxAllocation :: window))
    (hbytes : (({} : Memory σ).flows ex (prior ++ .resetMaxAllocation :: window)).grown < 2 ^ 64) :
    let first := resourceSnapshot (({} : Memory σ).events ex prior) n {}
    let m₁ := first.1
    let m₂ := m₁.events ex window
    let second := (resourceSnapshot m₂ n' first.2).2
    let fl := m₁.flows ex window
    let t := m₁.turnovers ex window
    (m₁.allocateSize ≤ m₂.allocateSize ∧ m₁.freeSize ≤ m₂.freeSize ∧
      m₁.allocateCount ≤ m₂.allocateCount ∧ m₁.freeCount ≤ m₂.freeCount ∧
      second.allocate = ⟨fl.grown - fl.shrunk, t.recorded⟩ ∧
      second.deallocate = ⟨fl.freed, t.removed⟩) ↔
    fl.shrunk ≤ fl.grown ∧ m₁.allocateCount + t.recorded < 2 ^ 64 ∧
      m₁.freeCount + t.removed < 2 ^ 64 := by
  intro first m₁ m₂ second fl t
  obtain ⟨hprior, -, hwindow⟩ := Guarded.admissible_append.1 hadm
  -- the restart of the maximum at the first snapshot has no flow
  have hfl : (({} : Memory σ).events ex prior).flows ex (.resetMaxAllocation :: window) = fl := by
    ext <;> exact Nat.zero_add _
  obtain ⟨hgrown, hfree⟩ := byte_window hadm hbytes
  rw [hfl] at hgrown hfree
  have hgrown : m₂.allocateSize + fl.shrunk = m₁.allocateSize + fl.grown := hgrown
  have hfree : m₂.freeSize = m₁.freeSize + fl.freed := hfree
  have hwords₁ : Words m₁ := (words_init.events prior).congr rfl rfl rfl rfl
  have hwords₂ : Words m₂ := hwords₁.events window
  have htallied : Tallied m₁ m₂ t := tallied_events hwindow
  have hsize : m₁.allocateSize ≤ m₂.allocateSize ∧
      wsub m₂.allocateSize (wsub m₁.allocateSize 0) = fl.grown - fl.shrunk ↔
        fl.shrunk ≤ fl.grown := by
    have hle : m₁.allocateSize ≤ m₂.allocateSize ↔ fl.shrunk ≤ fl.grown := by omega
    rw [← hle]
    refine ⟨And.left, fun h => ⟨h, ?_⟩⟩
    rw [difference_of_le hwords₂.allocateSize h]
    omega
  have hfreed : m₁.freeSize ≤ m₂.freeSize ∧ wsub m₂.freeSize (wsub m₁.freeSize 0) = fl.freed :=
    (difference_eq_iff hwords₂.freeSize (congrArg (· % 2 ^ 64) hfree)).2
      (hfree ▸ hwords₂.freeSize)
  have hcount := difference_eq_iff hwords₂.allocateCount htallied.allocateCount
  have hremoved := difference_eq_iff hwords₂.freeCount htallied.freeCount
  have hallocate : second.allocate = ⟨wsub m₂.allocateSize (wsub m₁.allocateSize 0),
      wsub m₂.allocateCount (wsub m₁.allocateCount 0)⟩ := rfl
  have hdeallocate : second.deallocate = ⟨wsub m₂.freeSize (wsub m₁.freeSize 0),
      wsub m₂.freeCount (wsub m₁.freeCount 0)⟩ := rfl
  rw [← hsize, ← hcount, ← hremoved, hallocate, hdeallocate, Quantity.mk.injEq, Quantity.mk.injEq]
  constructor
  · rintro ⟨h1, -, h3, h4, ⟨h5, h6⟩, -, h8⟩
    exact ⟨⟨h1, h5⟩, ⟨h3, h6⟩, h4, h8⟩
  · rintro ⟨⟨h1, h5⟩, ⟨h3, h6⟩, h4, h8⟩
    exact ⟨h1, hfreed.1, h3, h4, ⟨h5, h6⟩, hfreed.2, h8⟩

/-- A window that moves a block from before it, maps, unmaps a part and frees. -/
theorem differences_exact_sample :
    let first := resourceSnapshot (({} : Memory ℕ).events noExemptions
      [.trackActivity true, .call (.track 16 100 0)]) {} {}
    let window := [.call (.retrack 16 32 40 0), .call (.trackMapped 4096 8192 0),
      .call (.removeMapped 4096 4096 0), .call (.track 64 8 0), .call (.remove 32 0)]
    let second := (resourceSnapshot (first.1.events noExemptions window) {} first.2).2
    second.allocate = ⟨8140, 1⟩ ∧ second.deallocate = ⟨4136, 1⟩ := by
  intro first window second
  have h := (differences_exact_iff noExemptions {} {}
    [.trackActivity true, .call (.track 16 100 0)] window (by decide +kernel)
    (by decide +kernel)).2 (by decide +kernel)
  exact ⟨h.2.2.2.2.1, h.2.2.2.2.2⟩

/-- A block of 100 bytes from before the window is shrunk to 40 in it: the counter of the allocated
bytes falls, and the stored difference wraps. -/
theorem differences_wrap :
    let first := resourceSnapshot (({} : Memory ℕ).events noExemptions
      [.trackActivity true, .call (.track 16 100 0)]) {} {}
    let m₂ := first.1.events noExemptions [.call (.retrack 16 16 40 0)]
    m₂.allocateSize < first.1.allocateSize ∧
      (resourceSnapshot m₂ {} first.2).2.allocate.size = 2 ^ 64 - 60 := by
  decide +kernel

/-! ## The maxima -/

namespace Ledger

/-- The states at the end of the allocation events of a run, the latest first. -/
def allocationsIn (ex : Exemptions σ) (m : Memory σ) (evs : List (Event σ)) : List (Memory σ) :=
  ((system ex).exec { memory := m } evs).allocations

theorem step_memory (l : Ledger σ) (ev : Event σ) :
    (step ex l ev).memory = l.memory.event ex ev := by
  cases ev with
  | call c =>
    unfold step
    dsimp only
    split_ifs <;> rfl
  | resetMaxAllocation | trackActivity _ | lock | unlock => rfl

theorem step_allocations (l : Ledger σ) (ev : Event σ) : (step ex l ev).allocations =
    (step ex { memory := l.memory } ev).allocations ++ l.allocations := by
  cases ev with
  | call c =>
    unfold step
    dsimp only
    split_ifs <;> rfl
  | resetMaxAllocation | trackActivity _ | lock | unlock => rfl

theorem step_sinceReset (l : Ledger σ) {ev : Event σ} (hev : ev ≠ .resetMaxAllocation) :
    (step ex l ev).sinceReset = (step ex { memory := l.memory } ev).allocations ++
      l.sinceReset := by
  cases ev with
  | call c =>
    unfold step
    dsimp only
    split_ifs <;> rfl
  | resetMaxAllocation => exact absurd rfl hev
  | trackActivity _ | lock | unlock => rfl

/-- The history does not matter for the tracker. -/
theorem step_memory_eq (l : Ledger σ) (ev : Event σ) : ((system ex).step l ev).memory =
    ((system ex).step { memory := l.memory } ev).memory :=
  (step_memory l ev).trans (step_memory { memory := l.memory } ev).symm

theorem exec_memory (l : Ledger σ) (evs : List (Event σ)) :
    ((system ex).exec l evs).memory = l.memory.events ex evs := by
  induction evs generalizing l with
  | nil => rfl
  | cons ev evs ih =>
    rw [Guarded.exec_cons, ih]
    exact congrArg (·.events ex evs) (step_memory l ev)

theorem exec_allocations (l : Ledger σ) (evs : List (Event σ)) :
    ((system ex).exec l evs).allocations = allocationsIn ex l.memory evs ++ l.allocations := by
  unfold allocationsIn
  induction evs generalizing l with
  | nil => rfl
  | cons ev evs ih =>
    rw [Guarded.exec_cons, Guarded.exec_cons, ih ((system ex).step l ev),
      ih ((system ex).step { memory := l.memory } ev), List.append_assoc]
    rw [step_memory_eq]
    exact congrArg _ (step_allocations l ev)

/-- Between two resets, the history is that of the allocation events. -/
theorem exec_sinceReset (l : Ledger σ) {evs : List (Event σ)} (hevs : .resetMaxAllocation ∉ evs) :
    ((system ex).exec l evs).sinceReset = allocationsIn ex l.memory evs ++ l.sinceReset := by
  induction evs generalizing l with
  | nil => rfl
  | cons ev evs ih =>
    rw [List.mem_cons, not_or] at hevs
    obtain ⟨hev, hevs⟩ := hevs
    rw [Guarded.exec_cons, ih _ hevs]
    have hsince : ((system ex).step l ev).sinceReset = _ := step_sinceReset l (Ne.symm hev)
    rw [hsince, ← List.append_assoc, step_memory_eq]
    exact congrArg (· ++ _) (exec_allocations ((system ex).step { memory := l.memory } ev) evs).symm

theorem admissible_iff (l : Ledger σ) (evs : List (Event σ)) :
    (system ex).Admissible l evs ↔ (Memory.system ex).Admissible l.memory evs := by
  induction evs generalizing l with
  | nil => exact Iff.rfl
  | cons ev evs ih =>
    refine and_congr Iff.rfl ((ih _).trans ?_)
    rw [show ((system ex).step l ev).memory = _ from step_memory l ev]
    exact Iff.rfl

end Ledger

theorem peak_append {α : Type u} (f : α → ℕ) (l l' : List α) :
    peak f (l ++ l') = max (peak f l) (peak f l') := by
  induction l with
  | nil => exact (Nat.zero_max _).symm
  | cons a l ih =>
    show max (f a) (peak f (l ++ l')) = max (max (f a) (peak f l)) (peak f l')
    rw [ih, max_assoc]

theorem peak_lt_iff {α : Type u} {f : α → ℕ} {l : List α} {b : ℕ} (hb : 0 < b) :
    peak f l < b ↔ ∀ a ∈ l, f a < b := by
  induction l with
  | nil => exact ⟨fun _ => List.forall_mem_nil _, fun _ => hb⟩
  | cons a l ih =>
    show max (f a) (peak f l) < b ↔ _
    rw [max_lt_iff, ih, List.forall_mem_cons]

/-- The largest of the remainders is the largest of the values exactly if no value is cut off. -/
theorem peak_mod_eq_iff {α : Type u} {f : α → ℕ} {l : List α} {b : ℕ} (hb : 0 < b) :
    peak (fun a => f a % b) l = peak f l ↔ peak f l < b := by
  constructor
  · intro heq
    rw [← heq, peak_lt_iff hb]
    exact fun a _ => Nat.mod_lt _ hb
  · intro hlt
    have hall := (peak_lt_iff hb).1 hlt
    unfold peak
    rw [List.map_congr_left fun a ha => Nat.mod_eq_of_lt (hall a ha)]

/-- The stored maximum of the bytes is that of the window as long as it fits into the counter, and
the stored maximum of the blocks is that of the window exactly if there were not more blocks at an
allocation event before the first snapshot. -/
theorem peaks_exact_iff (ex : Exemptions σ) (n n' : NetworkCounters) (prior window : List (Event σ))
    (hadm : (Memory.system ex).Admissible {} (prior ++ .resetMaxAllocation :: window))
    (hwindow : .resetMaxAllocation ∉ window) :
    let first := resourceSnapshot (({} : Memory σ).events ex prior) n {}
    let second := (resourceSnapshot (first.1.events ex window) n' first.2).2
    let before := Ledger.allocationsIn ex {} prior
    let inside := Ledger.allocationsIn ex first.1 window
    (second.max.size = peak Memory.liveBytes inside ↔ peak Memory.liveBytes inside < 2 ^ 64) ∧
    (second.max.count = peak Memory.liveCount inside ↔
      peak Memory.liveCount before ≤ peak Memory.liveCount inside) := by
  intro first second before inside
  let l := (Ledger.system ex).exec {} (prior ++ .resetMaxAllocation :: window)
  have hinv : LedgerInv l := ((Ledger.admissible_iff {} _).2 hadm).invariant
    (fun l ev hl hev => hl.step hev) ⟨accounts_init, rfl, rfl⟩
  let l₁ := (Ledger.system ex).step ((Ledger.system ex).exec {} prior) .resetMaxAllocation
  have hl : l = (Ledger.system ex).exec l₁ window := Guarded.exec_append ..
  have hfirst : l₁.memory = first.1 := by
    show (((Ledger.system ex).exec {} prior).memory).resetMaxAllocation = _
    rw [Ledger.exec_memory]
    rfl
  have hmemory : l.memory = first.1.events ex window := by
    rw [hl, Ledger.exec_memory, hfirst]
  have hallocations : l.allocations = inside ++ before := by
    rw [hl, Ledger.exec_allocations, hfirst]
    rfl
  have hsince : l.sinceReset = inside := by
    rw [hl, Ledger.exec_sinceReset _ hwindow, hfirst]
    exact List.append_nil _
  have hsize : second.max.size = peak (fun m => m.liveBytes % 2 ^ 64) inside := by
    show (first.1.events ex window).maxAllocate = _
    rw [← hmemory, hinv.maxBytes, hsince]
  have hcount : second.max.count = max (peak Memory.liveCount inside)
      (peak Memory.liveCount before) := by
    show (first.1.events ex window).maxAllocateCount = _
    rw [← hmemory, hinv.maxCount, hallocations, peak_append]
  rw [hsize, hcount]
  exact ⟨peak_mod_eq_iff (Nat.two_pow_pos 64), max_eq_left_iff⟩

/-- Two blocks before the window, one of them freed, and two more in it. -/
theorem peaks_exact_sample :
    let first := resourceSnapshot (({} : Memory ℕ).events noExemptions
      [.trackActivity true, .call (.track 16 100 0), .call (.track 32 100 0),
        .call (.remove 16 0)]) {} {}
    let window := [.call (.track 48 8 0), .call (.track 64 8 0), .call (.remove 48 0)]
    (resourceSnapshot (first.1.events noExemptions window) {} first.2).2.max.count =
      peak Memory.liveCount (Ledger.allocationsIn noExemptions first.1 window) := by
  intro first window
  exact (peaks_exact_iff noExemptions {} {} [.trackActivity true, .call (.track 16 100 0),
    .call (.track 32 100 0), .call (.remove 16 0)] window (by decide +kernel)
    (by simp [window])).2.2 (by decide +kernel)

/-- Two blocks are freed before the window and one is allocated in it: the stored maximum is two
blocks. -/
theorem peaks_carried_over :
    let first := resourceSnapshot (({} : Memory ℕ).events noExemptions
      [.trackActivity true, .call (.track 16 100 0), .call (.track 32 100 0),
        .call (.remove 16 0), .call (.remove 32 0)]) {} {}
    let window := [.call (.track 48 8 0)]
    let second := (resourceSnapshot (first.1.events noExemptions window) {} first.2).2
    second.max.size = 8 ∧ second.max.count = 2 ∧
      peak Memory.liveCount (Ledger.allocationsIn noExemptions first.1 window) = 1 := by
  decide +kernel

end Dtest
