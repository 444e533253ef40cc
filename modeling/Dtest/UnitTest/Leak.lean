import Dtest.Memory.Accounting
import Dtest.Memory.Tracking
import Dtest.UnitTest.Resources

/-!
# What the leak check compares

The check compares how much the two cumulative byte counters have moved in the window, which says
how the live bytes at the two ends of the window compare (`wsub_lt_wsub_iff`).  With the live blocks
at the second snapshot told apart by the call stacks they were allocated from, that is a statement
about what the window has allocated and left (`leak_reported_iff`).
-/

universe u

namespace Dtest

variable {σ : Type u} {ex : Exemptions σ} {m : Memory σ}

namespace UnitTest

/-- The events before the first snapshot. -/
def before (t : UnitTest) (prior onInit : List (Event σ)) : List (Event σ) :=
  if t.resourceSnapshotBodyOnly then prior ++ onInit else prior

/-- The events between the two snapshots. -/
def window (t : UnitTest) (onInit body onComplete : List (Event σ)) : List (Event σ) :=
  if t.resourceSnapshotBodyOnly then body else onInit ++ body ++ onComplete

end UnitTest

namespace Memory

/-- The bytes of the live blocks whose call stack satisfies `p`. -/
def bytesFrom (p : σ → Bool) (m : Memory σ) : ℕ :=
  m.blocks.sum (fun a => if p a.callstack then a.size else 0) +
    m.orderedBlocks.sum (fun a => if p a.callstack then a.size else 0)

theorem bytesFrom_add (p : σ → Bool) (m : Memory σ) :
    m.bytesFrom p + m.bytesFrom (fun cs => !p cs) = m.liveBytes := by
  have hsum : ∀ b : SortedMap ℕ (Allocation σ),
      b.sum (fun a => if p a.callstack then a.size else 0) +
        b.sum (fun a => if (fun cs => !p cs) a.callstack then a.size else 0) =
          b.sum Allocation.size := fun b => by
    rw [SortedMap.sum_add]
    congr 1
    funext a
    cases hp : p a.callstack <;> simp [hp]
  have h1 := hsum m.blocks
  have h2 := hsum m.orderedBlocks
  unfold bytesFrom liveBytes mappedSize
  omega

theorem bytesFrom_pos_iff (p : σ → Bool) (m : Memory σ) :
    0 < m.bytesFrom p ↔
      ∃ e ∈ m.blocks.entries ++ m.orderedBlocks.entries, p e.2.callstack ∧ 0 < e.2.size := by
  have hpos : ∀ a : Allocation σ, (0 < if p a.callstack then a.size else 0) ↔
      p a.callstack ∧ 0 < a.size := fun a => by
    cases p a.callstack <;> simp
  unfold bytesFrom
  rw [Nat.add_pos_iff_pos_or_pos, SortedMap.sum_pos_iff, SortedMap.sum_pos_iff]
  simp only [hpos, List.mem_append, or_and_right, exists_or]

end Memory

namespace UnitTest

/-- The check compares the differences of the byte counters between the two ends of the window. -/
theorem leakDetected_driverBody (t : UnitTest) (ht : t.ignoreMemoryLeak = false)
    (hfresh : t.usedResources = {}) (n n' : NetworkCounters)
    (prior onInit body onComplete : List (Event σ)) :
    let m₁ := (m.events ex (t.before prior onInit)).resetMaxAllocation
    let m₂ := m₁.events ex (t.window onInit body onComplete)
    (t.driverBody ex (m.events ex prior) n n' onInit body onComplete).2.leakDetected ↔
      wsub m₂.freeSize (wsub m₁.freeSize 0) < wsub m₂.allocateSize (wsub m₁.allocateSize 0) := by
  unfold leakDetected driverBody before window snapshot
  cases hbody : t.resourceSnapshotBodyOnly with
  | false =>
    simp only [ht, hfresh, Memory.events_append, Bool.not_false, Bool.false_eq_true,
      if_true, if_false, Bool.true_and, decide_eq_true_eq]
    rfl
  | true =>
    simp only [ht, hfresh, Memory.events_append, Bool.not_true, Bool.not_false, Bool.false_eq_true,
      if_true, if_false, Bool.true_and, decide_eq_true_eq]
    rfl

/-- Counter differences of a window whose flow does not wrap compare as the live bytes at its
ends. -/
theorem wsub_lt_wsub_iff {m' : Memory σ} {fl : Flow} (h : Conserved m m' fl)
    (hshrunk : fl.shrunk ≤ fl.grown) (hgrown : fl.grown - fl.shrunk < 2 ^ 64)
    (hfreed : fl.freed < 2 ^ 64) :
    wsub m'.freeSize (wsub m.freeSize 0) < wsub m'.allocateSize (wsub m.allocateSize 0) ↔
      m.liveBytes < m'.liveBytes := by
  obtain ⟨h1, h2, h3⟩ := h
  unfold wsub
  omega

end UnitTest

/-- In the window of a test that does not ignore leaks, let no counter wrap and let no more bytes be
given up by shrinking than are allocated.  Then a leak is reported if and only if the bytes still
tracked from inside the window, with those from before it, exceed those tracked when it opened; and
where the latter are what they were, if and only if some block from inside the window that is not
empty is still tracked.  `inside` tells the call stacks of the calls in the window from others. -/
theorem leak_reported_iff (ex : Exemptions σ) (inside : σ → Bool) (t : UnitTest)
    (ht : t.ignoreMemoryLeak = false) (hfresh : t.usedResources = {}) (n n' : NetworkCounters)
    (prior onInit body onComplete : List (Event σ))
    (hadm : (Memory.system ex).Admissible {} (t.before prior onInit ++
      .resetMaxAllocation :: t.window onInit body onComplete)) :
    let m₁ := (({} : Memory σ).events ex (t.before prior onInit)).resetMaxAllocation
    let m₂ := m₁.events ex (t.window onInit body onComplete)
    let fl := m₁.flows ex (t.window onInit body onComplete)
    let r := (t.driverBody ex (({} : Memory σ).events ex prior) n n' onInit body onComplete).2
    fl.shrunk ≤ fl.grown → fl.grown - fl.shrunk < 2 ^ 64 → fl.freed < 2 ^ 64 →
    (r.leakDetected ↔
      m₁.liveBytes < m₂.bytesFrom inside + m₂.bytesFrom fun cs => !inside cs) ∧
    ((m₂.bytesFrom fun cs => !inside cs) = m₁.liveBytes →
      (r.leakDetected ↔ ∃ e ∈ m₂.blocks.entries ++ m₂.orderedBlocks.entries,
        inside e.2.callstack ∧ 0 < e.2.size)) := by
  intro m₁ m₂ fl r hshrunk hgrown hfreed
  obtain ⟨hbefore, -, hwindow⟩ := Guarded.admissible_append.1 hadm
  have hm₁ : Accounts m₁ :=
    (booked_events accounts_init hbefore).accounts.congr rfl rfl rfl rfl rfl rfl
  have hbook : Booked m₁ m₂ fl := booked_events hm₁ hwindow
  have hleak : r.leakDetected ↔ m₁.liveBytes < m₂.liveBytes := by
    rw [← UnitTest.wsub_lt_wsub_iff hbook.conserved hshrunk hgrown hfreed]
    exact UnitTest.leakDetected_driverBody t ht hfresh n n' prior onInit body onComplete
  rw [hleak, ← Memory.bytesFrom_add inside m₂]
  refine ⟨Iff.rfl, fun heq => ?_⟩
  rw [heq, ← Memory.bytesFrom_pos_iff]
  omega

/-- A test over its body only, with a block from before the window that the body frees. -/
def freeingTest : UnitTest := { resourceSnapshotBodyOnly := true }

theorem leak_reported_freeingTest :
    let ex : Exemptions Bool := noExemptions
    let onInit := [.call (.track 16 1 false), .call (.track 32 8 false)]
    let body := [.call (.retrack 32 48 10 true), .call (.remove 16 true),
      .call (.trackMapped 4096 4096 true), .call (.removeMapped 4096 100 true)]
    let m₁ := (({} : Memory Bool).events ex
      (freeingTest.before [.trackActivity true] onInit)).resetMaxAllocation
    let m₂ := m₁.events ex (freeingTest.window onInit body [])
    let r := (freeingTest.driverBody ex (({} : Memory Bool).events ex [.trackActivity true]) {} {}
      onInit body []).2
    (r.leakDetected ↔ m₁.liveBytes < m₂.bytesFrom id + m₂.bytesFrom fun cs => !id cs) ∧
    ((m₂.bytesFrom fun cs => !id cs) = m₁.liveBytes →
      (r.leakDetected ↔ ∃ e ∈ m₂.blocks.entries ++ m₂.orderedBlocks.entries,
        id e.2.callstack ∧ 0 < e.2.size)) :=
  leak_reported_iff noExemptions id freeingTest rfl rfl {} {} [.trackActivity true]
    [.call (.track 16 1 false), .call (.track 32 8 false)]
    [.call (.retrack 32 48 10 true), .call (.remove 16 true),
      .call (.trackMapped 4096 4096 true), .call (.removeMapped 4096 100 true)] []
    (by decide +kernel) (by decide +kernel) (by decide +kernel) (by decide +kernel)

/-- The body frees a byte from before the window and leaves a byte of its own: the block allocated
in the window is still tracked, and no leak is reported. -/
theorem leak_offset_by_free :
    let ex : Exemptions Bool := noExemptions
    let onInit := [.call (.track 16 1 false)]
    let body := [.call (.remove 16 true), .call (.track 32 1 true)]
    let m₀ := ({} : Memory Bool).events ex [.trackActivity true]
    let r := freeingTest.driverBody ex m₀ {} {} onInit body []
    (Memory.system ex).Admissible {} (.trackActivity true :: onInit ++ body) ∧
    r.2.ignoreMemoryLeak = false ∧ r.2.leakDetected = false ∧
    ∃ e ∈ r.1.blocks.entries ++ r.1.orderedBlocks.entries, e.2.callstack = true := by
  refine ⟨by decide +kernel, rfl, by decide +kernel, (32, ⟨1, true⟩), by decide +kernel, rfl⟩

end Dtest
