import Dtest.Memory.Effects
import Dtest.Memory.Tracking
import Dtest.UnitTest.Resources

/-!
# Which tests are tracked

The counter of `Sandbox::enter` and `Sandbox::exit` over a sequence of tests.  A fatal error calls
`exitAll`, which resets the counter; when a test without a fork catches it and goes on, the `exit`
at its end raises the counter once more, and the counter is passed on to every test that the driver
runs or forks after it.  The depth of the locks is not passed on: it belongs to the thread, and
every test has a thread of its own.

`untracked_iff`: a test is not tracked if and only if a test in the driver's process has caught a
fatal error before, and no such test since has ended with an exception.
-/

universe u

namespace Dtest

variable {σ : Type u}

/-- The part of `Sandbox` that switches the tracking. -/
structure Sandbox (σ : Type u) where
  enabled : Bool := true
  counter : ℕ := 1
  memory : Memory σ := {}
  network : Bool := false

/-- What a test function does to the sandbox: calls of the tracker, and the locks of the library. -/
inductive SandboxEvent (σ : Type u)
  | call (c : Call σ)
  | lock
  | unlock

/-- A test that runs in the sandbox: whether it shares the driver's process, what its functions do,
and whether an exception leaves them. -/
structure SandboxedTest (σ : Type u) where
  inProcess : Bool
  events : List (SandboxEvent σ)
  throws : Bool

namespace Sandbox

variable (ex : Exemptions σ) (s : Sandbox σ)

/-- `trackActivity` of both trackers. -/
def trackActivity (val : Bool) : Sandbox σ :=
  { s with memory := s.memory.trackActivity val, network := val }

/-- `Sandbox::enter`. -/
def enter : Sandbox σ :=
  let s := { s with counter := wsub s.counter 1 }
  if s.counter = 0 then s.trackActivity s.enabled else s

/-- The thread of a test starts, with a `_locked` of its own, and calls `Sandbox::enter`. -/
def start : Sandbox σ := enter { s with memory := { s.memory with locked := 0 } }

/-- `Sandbox::exit`. -/
def exit : Sandbox σ :=
  let s := if s.counter = 0 then s.trackActivity false else s
  { s with counter := wadd s.counter 1 }

/-- `Sandbox::exitAll`. -/
def exitAll : Sandbox σ := { s.trackActivity false with counter := 1 }

/-- The call of the tracker raises a fatal error. -/
def raises : SandboxEvent σ → Bool
  | .call c => (s.memory.call ex c).2.isSome
  | _ => false

/-- An event; a fatal error has called `exitAll`. -/
def event (ev : SandboxEvent σ) : Sandbox σ :=
  match ev with
  | .call c =>
    let s' := { s with memory := (s.memory.call ex c).1 }
    if s.raises ex ev then s'.exitAll else s'
  | .lock => { s with memory := s.memory.lock }
  | .unlock => { s with memory := s.memory.unlock }

/-- A list of events. -/
def events (evs : List (SandboxEvent σ)) : Sandbox σ := evs.foldl (event ex) s

/-- A fatal error is raised in a list of events. -/
def raisesIn (s : Sandbox σ) : List (SandboxEvent σ) → Bool
  | [] => false
  | ev :: evs => s.raises ex ev || raisesIn (s.event ex ev) evs

/-- The sandbox at the end of the function that a test runs in it. -/
def afterFunction (t : SandboxedTest σ) : Sandbox σ :=
  let s := s.start.events ex t.events
  if t.throws then s.exitAll else s.exit

/-- The driver's sandbox after a test: a forked child has had a copy. -/
def runTest (t : SandboxedTest σ) : Sandbox σ := if t.inProcess then s.afterFunction ex t else s

/-- The driver's sandbox after a sequence of tests. -/
def runTests (ts : List (SandboxedTest σ)) : Sandbox σ := ts.foldl (runTest ex) s

/-- A test in the driver's process catches a fatal error and returns. -/
def Catches (t : SandboxedTest σ) : Prop :=
  t.inProcess = true ∧ t.throws = false ∧ s.start.raisesIn ex t.events = true

/-- A test in the driver's process ends with an exception. -/
def Throws (t : SandboxedTest σ) : Prop := t.inProcess = true ∧ t.throws = true

end Sandbox

/-! ## The tracker and its flag -/

namespace Memory

variable {m : Memory σ} {ex : Exemptions σ}

theorem enter_of_not_tracking (h : m.tracking = false) : m.enter = none := by
  unfold enter
  rw [h]
  rfl

theorem fatal_tracking (m : Memory σ) (ptr : ℕ) (cs : σ) :
    (m.fatal ex ptr cs).1.tracking =
      if (m.fatal ex ptr cs).2.isSome then false else m.tracking := by
  unfold fatal
  by_cases hex : ex.canTrackDealloc cs = true
  · rw [if_pos hex]
    rfl
  · rw [if_neg hex]
    rfl

/-- Only a fatal error switches the tracking off. -/
theorem call_tracking (ex : Exemptions σ) (m : Memory σ) (c : Call σ) :
    (m.call ex c).1.tracking = if (m.call ex c).2.isSome then false else m.tracking := by
  rcases m.enter_cases with hm | hm
  · cases c <;> simp [call, track, trackMapped, retrack, retrackMapped, remove, removeMapped, clear,
      clearBlocks_eq, exit, hm]
  · cases c with
    | track ptr size cs | trackMapped ptr size cs =>
      simp only [call, track, trackMapped, hm]
      by_cases hex : ex.canTrackAlloc cs = true
      · rw [if_pos hex]
        rfl
      · rw [if_neg hex]
        rfl
    | retrack oldPtr newPtr newSize cs =>
      simp only [call, retrack, hm]
      cases hold : m.blocks.find? oldPtr with
      | none => exact fatal_tracking _ oldPtr cs
      | some alloc => rfl
    | retrackMapped oldPtr oldSize newPtr newSize cs =>
      simp only [call, retrackMapped, hm]
      by_cases hsize : 0 < (removal { m with locked := wadd m.locked 1 } oldPtr oldSize).size
      · rw [if_pos hsize]
        exact fatal_tracking _ _ cs
      · rw [if_neg hsize]
        by_cases hex : ex.canTrackAlloc cs = true
        · rw [if_pos hex]
          rfl
        · rw [if_neg hex]
          rfl
    | remove ptr cs =>
      simp only [call, remove, hm]
      cases hptr : m.blocks.find? ptr with
      | none => exact fatal_tracking _ ptr cs
      | some alloc => rfl
    | removeMapped ptr size cs =>
      simp only [call, removeMapped, hm]
      by_cases hsize : 0 < (removal { m with locked := wadd m.locked 1 } ptr size).size
      · rw [if_pos hsize]
        exact fatal_tracking _ _ cs
      · rw [if_neg hsize]
        rfl
    | clear =>
      simp only [call, clear, hm, Option.getD_some, clearBlocks_eq]
      rfl

/-- Without tracking there is no fatal error, and nothing is recorded as allocated. -/
theorem call_of_not_tracking (ex : Exemptions σ) (h : m.tracking = false) (c : Call σ) :
    (m.call ex c).2 = none ∧ (m.call ex c).1.allocateSize = m.allocateSize ∧
      (m.call ex c).1.allocateCount = m.allocateCount := by
  have hm := enter_of_not_tracking h
  cases c <;> simp [call, track, trackMapped, retrack, retrackMapped, remove, removeMapped, clear,
    clearBlocks_eq, exit, hm]

end Memory

namespace Sandbox

variable {ex : Exemptions σ} {s : Sandbox σ}

/-! ## The counter within a test -/

/-- Nothing is tracked, and the counter is one or, after a fatal error that was caught, two. -/
structure Idle (s : Sandbox σ) : Prop where
  tracking : s.memory.tracking = false
  network : s.network = false
  counter : s.counter = 1 ∨ s.counter = 2

/-- The next test is tracked. -/
theorem Idle.start_of_one (h : s.counter = 1) : s.start =
    { s with
      counter := 0
      memory := { s.memory with locked := 0, tracking := s.enabled }
      network := s.enabled } := by
  unfold start enter
  dsimp only
  rw [h]
  rfl

/-- The next test is not tracked. -/
theorem Idle.start_of_two (h : s.counter = 2) :
    s.start = { s with counter := 1, memory := { s.memory with locked := 0 } } := by
  unfold start enter
  dsimp only
  rw [h]
  rfl

/-- Within a function that is tracked nothing changes until a fatal error, which leaves the counter
at one and the tracking off. -/
structure Within (val raised : Bool) (s : Sandbox σ) : Prop where
  enabled : s.enabled = val
  counter : s.counter = if raised then 1 else 0
  tracking : s.memory.tracking = if raised then false else val
  network : s.network = if raised then false else val

theorem raises_of_not_tracking (h : s.memory.tracking = false) (ev : SandboxEvent σ) :
    s.raises ex ev = false := by
  cases ev with
  | call c =>
    show (s.memory.call ex c).2.isSome = false
    rw [(Memory.call_of_not_tracking ex h c).1]
    rfl
  | lock => rfl
  | unlock => rfl

theorem Within.event (ex : Exemptions σ) {val raised : Bool} (h : s.Within val raised)
    (ev : SandboxEvent σ) :
    (s.event ex ev).Within val (raised || s.raises ex ev) := by
  cases ev with
  | call c =>
    unfold Sandbox.event
    dsimp only
    cases hraises : s.raises ex (.call c) with
    | true =>
      rw [if_pos rfl, Bool.or_true]
      exact ⟨h.enabled, rfl, rfl, rfl⟩
    | false =>
      have hcall := s.memory.call_tracking ex c
      rw [show (s.memory.call ex c).2.isSome = false from hraises] at hcall
      rw [if_neg Bool.false_ne_true, Bool.or_false]
      exact ⟨h.enabled, h.counter, hcall.trans h.tracking, h.network⟩
  | lock =>
    rw [show s.raises ex .lock = false from rfl, Bool.or_false]
    exact ⟨h.enabled, h.counter, h.tracking, h.network⟩
  | unlock =>
    rw [show s.raises ex .unlock = false from rfl, Bool.or_false]
    exact ⟨h.enabled, h.counter, h.tracking, h.network⟩

theorem Within.events (ex : Exemptions σ) {val raised : Bool} (h : s.Within val raised)
    (evs : List (SandboxEvent σ)) :
    (s.events ex evs).Within val (raised || s.raisesIn ex evs) := by
  induction evs generalizing s raised with
  | nil => rwa [show s.raisesIn ex [] = false from rfl, Bool.or_false]
  | cons ev evs ih =>
    have hrest := ih (h.event ex ev)
    rwa [Bool.or_assoc] at hrest

/-- A function that is not tracked changes neither the counter nor what is recorded as allocated. -/
structure Silent (s s' : Sandbox σ) : Prop where
  enabled : s'.enabled = s.enabled
  counter : s'.counter = s.counter
  tracking : s'.memory.tracking = false
  network : s'.network = s.network
  allocateSize : s'.memory.allocateSize = s.memory.allocateSize
  allocateCount : s'.memory.allocateCount = s.memory.allocateCount

theorem silent_event (ex : Exemptions σ) (h : s.memory.tracking = false) (ev : SandboxEvent σ) :
    Silent s (s.event ex ev) := by
  cases ev with
  | call c =>
    obtain ⟨hnone, hsize, hcount⟩ := Memory.call_of_not_tracking ex h c
    have htracking := s.memory.call_tracking ex c
    unfold Sandbox.event
    dsimp only
    rw [raises_of_not_tracking h, if_neg Bool.false_ne_true]
    refine ⟨rfl, rfl, ?_, rfl, hsize, hcount⟩
    rw [htracking, hnone]
    exact h
  | lock => exact ⟨rfl, rfl, h, rfl, rfl, rfl⟩
  | unlock => exact ⟨rfl, rfl, h, rfl, rfl, rfl⟩

theorem silent_events (ex : Exemptions σ) (h : s.memory.tracking = false)
    (evs : List (SandboxEvent σ)) :
    Silent s (s.events ex evs) ∧ s.raisesIn ex evs = false := by
  induction evs generalizing s with
  | nil => exact ⟨⟨rfl, rfl, h, rfl, rfl, rfl⟩, rfl⟩
  | cons ev evs ih =>
    have hstep := silent_event ex h ev
    obtain ⟨hrest, hnone⟩ := ih hstep.tracking
    refine ⟨⟨hrest.enabled.trans hstep.enabled, hrest.counter.trans hstep.counter, hrest.tracking,
      hrest.network.trans hstep.network, hrest.allocateSize.trans hstep.allocateSize,
      hrest.allocateCount.trans hstep.allocateCount⟩, ?_⟩
    unfold raisesIn
    rw [raises_of_not_tracking h, hnone]
    rfl

/-! ## The counter after a test -/

/-- The `exit` of a test. -/
theorem idle_exit {s : Sandbox σ}
    (htracking : s.counter = 0 ∨ s.memory.tracking = false ∧ s.network = false)
    (hcounter : s.counter = 0 ∨ s.counter = 1) :
    s.exit.Idle ∧ s.exit.enabled = s.enabled ∧ s.exit.counter = s.counter + 1 := by
  unfold Sandbox.exit
  dsimp only
  rcases hcounter with hzero | hone
  · rw [if_pos hzero]
    refine ⟨⟨rfl, rfl, Or.inl ?_⟩, rfl, ?_⟩ <;>
      · show wadd s.counter 1 = _
        rw [hzero]
        rfl
  · have hne : ¬ s.counter = 0 := by omega
    obtain ⟨hmemory, hnetwork⟩ := htracking.resolve_left hne
    rw [if_neg hne]
    refine ⟨⟨hmemory, hnetwork, Or.inr ?_⟩, rfl, ?_⟩ <;>
      · show wadd s.counter 1 = _
        rw [hone]
        rfl

/-- A test leaves the counter at one if an exception leaves it, and at two if it has caught a fatal
error or is not tracked. -/
theorem Idle.afterFunction (h : s.Idle) (t : SandboxedTest σ) :
    (s.afterFunction ex t).Idle ∧ (s.afterFunction ex t).enabled = s.enabled ∧
      (s.afterFunction ex t).counter =
        if t.throws then 1 else if s.start.raisesIn ex t.events then 2 else s.counter := by
  unfold Sandbox.afterFunction
  dsimp only
  rcases h.counter with hone | htwo
  · have hwithin : s.start.Within s.enabled false := by
      rw [Idle.start_of_one hone]
      exact ⟨rfl, rfl, rfl, rfl⟩
    have hend := hwithin.events ex t.events
    rw [Bool.false_or] at hend
    cases t.throws with
    | true => exact ⟨⟨rfl, rfl, Or.inl rfl⟩, hend.enabled, rfl⟩
    | false =>
      rw [if_neg Bool.false_ne_true, if_neg Bool.false_ne_true, hone]
      cases hraised : s.start.raisesIn ex t.events with
      | true =>
        rw [hraised] at hend
        obtain ⟨hidle, henabled, hcounter⟩ :=
          idle_exit (Or.inr ⟨hend.tracking, hend.network⟩) (Or.inr hend.counter)
        exact ⟨hidle, henabled.trans hend.enabled, by rw [hcounter, hend.counter]; rfl⟩
      | false =>
        rw [hraised] at hend
        obtain ⟨hidle, henabled, hcounter⟩ := idle_exit (Or.inl hend.counter) (Or.inl hend.counter)
        exact ⟨hidle, henabled.trans hend.enabled, by rw [hcounter, hend.counter]; rfl⟩
  · have htracking : s.start.memory.tracking = false := by
      rw [Idle.start_of_two htwo]
      exact h.tracking
    obtain ⟨hend, hnone⟩ := silent_events ex htracking t.events
    have hstart := Idle.start_of_two htwo
    have hcounter : (s.start.events ex t.events).counter = 1 := by rw [hend.counter, hstart]
    have henabled : (s.start.events ex t.events).enabled = s.enabled := by rw [hend.enabled, hstart]
    have hnetwork : (s.start.events ex t.events).network = false := by
      rw [hend.network, hstart]
      exact h.network
    cases t.throws with
    | true => exact ⟨⟨rfl, rfl, Or.inl rfl⟩, henabled, rfl⟩
    | false =>
      rw [if_neg Bool.false_ne_true, if_neg Bool.false_ne_true, hnone, htwo]
      obtain ⟨hidle, henabled', hcounter'⟩ :=
        idle_exit (Or.inr ⟨hend.tracking, hnetwork⟩) (Or.inr hcounter)
      exact ⟨hidle, henabled'.trans henabled, by rw [hcounter', hcounter]; rfl⟩

theorem Idle.runTest (ex : Exemptions σ) (h : s.Idle) (t : SandboxedTest σ) :
    (s.runTest ex t).Idle ∧ (s.runTest ex t).enabled = s.enabled := by
  unfold Sandbox.runTest
  split_ifs
  · exact ⟨(h.afterFunction t).1, (h.afterFunction t).2.1⟩
  · exact ⟨h, rfl⟩

theorem Idle.runTests (ex : Exemptions σ) (h : s.Idle) (ts : List (SandboxedTest σ)) :
    (s.runTests ex ts).Idle ∧ (s.runTests ex ts).enabled = s.enabled := by
  induction ts generalizing s with
  | nil => exact ⟨h, rfl⟩
  | cons t ts ih =>
    obtain ⟨hidle, henabled⟩ := h.runTest ex t
    obtain ⟨hrest, henabled'⟩ := ih hidle
    exact ⟨hrest, henabled'.trans henabled⟩

/-- What a test does to the counter. -/
theorem Idle.counter_runTest (h : s.Idle) (t : SandboxedTest σ) :
    (s.runTest ex t).counter = 2 ↔
      Catches ex s t ∨ s.counter = 2 ∧ ¬ Throws t := by
  obtain ⟨inProcess, events, throws⟩ := t
  unfold Sandbox.runTest Catches Throws
  cases inProcess with
  | false => simp
  | true =>
    rw [if_pos rfl, (h.afterFunction _).2.2]
    cases throws with
    | true => simp
    | false =>
      dsimp only
      cases s.start.raisesIn ex events <;> simp

/-- A test that has caught a fatal error, with no exception since. -/
def Left (ex : Exemptions σ) (s : Sandbox σ) (ts : List (SandboxedTest σ)) : Prop :=
  ∃ k t, ts[k]? = some t ∧ Catches ex (s.runTests ex (ts.take k)) t ∧
    ∀ j u, k < j → ts[j]? = some u → ¬ Throws u

theorem left_snoc {ts : List (SandboxedTest σ)} {t : SandboxedTest σ} :
    Left ex s (ts ++ [t]) ↔ Catches ex (s.runTests ex ts) t ∨ Left ex s ts ∧ ¬ Throws t := by
  constructor
  · rintro ⟨k, u, hk, hcatches, hafter⟩
    rcases Nat.lt_or_ge k ts.length with hlt | hge
    · rw [List.getElem?_append_left hlt] at hk
      rw [List.take_append_of_le_length hlt.le] at hcatches
      refine Or.inr ⟨⟨k, u, hk, hcatches, fun j v hj hv => hafter j v hj ?_⟩,
        hafter ts.length t hlt (by simp)⟩
      rw [List.getElem?_append_left (List.getElem?_eq_some_iff.1 hv).1, hv]
    · obtain rfl : k = ts.length := by
        have := (List.getElem?_eq_some_iff.1 hk).1
        rw [List.length_append, List.length_singleton] at this
        omega
      rw [List.getElem?_append_right le_rfl, Nat.sub_self] at hk
      obtain rfl : t = u := Option.some.inj hk
      rw [List.take_append_of_le_length le_rfl, List.take_length] at hcatches
      exact Or.inl hcatches
  · rintro (hcatches | ⟨⟨k, u, hk, hcatches, hafter⟩, hnot⟩)
    · refine ⟨ts.length, t, by simp, ?_, fun j v hj hv => ?_⟩
      · rwa [List.take_append_of_le_length le_rfl, List.take_length]
      · have := (List.getElem?_eq_some_iff.1 hv).1
        rw [List.length_append, List.length_singleton] at this
        omega
    · have hlt := (List.getElem?_eq_some_iff.1 hk).1
      refine ⟨k, u, ?_, ?_, fun j v hj hv => ?_⟩
      · rw [List.getElem?_append_left hlt, hk]
      · rwa [List.take_append_of_le_length hlt.le]
      · rcases Nat.lt_or_ge j ts.length with hjlt | hjge
        · rw [List.getElem?_append_left hjlt] at hv
          exact hafter j v hj hv
        · obtain rfl : j = ts.length := by
            have := (List.getElem?_eq_some_iff.1 hv).1
            rw [List.length_append, List.length_singleton] at this
            omega
          rw [List.getElem?_append_right le_rfl, Nat.sub_self] at hv
          obtain rfl : t = v := Option.some.inj hv
          exact hnot

/-- The counter after a sequence of tests. -/
theorem Idle.counter_runTests (h : s.Idle) (hone : s.counter = 1) (ts : List (SandboxedTest σ)) :
    (s.runTests ex ts).counter = 2 ↔ Left ex s ts := by
  induction ts using List.reverseRecOn with
  | nil =>
    refine iff_of_false (by rw [show s.runTests ex [] = s from rfl, hone]; decide) ?_
    rintro ⟨k, t, hk, -⟩
    cases hk
  | append_singleton ts t ih =>
    have hsnoc : s.runTests ex (ts ++ [t]) = (s.runTests ex ts).runTest ex t := by
      unfold Sandbox.runTests
      rw [List.foldl_append]
      rfl
    rw [hsnoc, (h.runTests ex ts).1.counter_runTest, left_snoc, ih]

end Sandbox

/-- A test starts untracked if and only if a test in the driver's process has caught a fatal error
before and no test in the driver's process has ended with an exception since, whatever locks the
tests have left open; a test that is not tracked, forked or not, gets no fatal error, and nothing is
recorded as allocated in it. -/
theorem untracked_iff {σ : Type u} (ex : Exemptions σ) (ts : List (SandboxedTest σ))
    (t : SandboxedTest σ) :
    let s := ({} : Sandbox σ).runTests ex ts
    (¬ s.start.memory.Ready ↔ Sandbox.Left ex {} ts) ∧
      (Sandbox.Left ex {} ts → s.start.raisesIn ex t.events = false ∧
        (s.start.events ex t.events).memory.allocateSize = s.memory.allocateSize ∧
        (s.start.events ex t.events).memory.allocateCount = s.memory.allocateCount) := by
  intro s
  have hinit : ({} : Sandbox σ).Idle := ⟨rfl, rfl, Or.inl rfl⟩
  obtain ⟨hidle, henabled⟩ := hinit.runTests ex ts
  have hleft : s.counter = 2 ↔ Sandbox.Left ex {} ts := hinit.counter_runTests rfl ts
  rw [← hleft]
  rcases hidle.counter with hone | htwo
  · refine ⟨iff_of_false (not_not_intro ?_) ?_, fun htwo => ?_⟩
    · rw [Sandbox.Idle.start_of_one hone]
      exact ⟨henabled, rfl⟩
    · rw [show s.counter = 1 from hone]
      decide
    · rw [show s.counter = 1 from hone] at htwo
      cases htwo
  · have htracking : s.start.memory.tracking = false := by
      rw [Sandbox.Idle.start_of_two htwo]
      exact hidle.tracking
    obtain ⟨hend, hnone⟩ := Sandbox.silent_events ex htracking t.events
    refine ⟨iff_of_true (fun hready => ?_) htwo, fun _ => ⟨hnone, ?_, ?_⟩⟩
    · rw [hready.1] at htracking
      cases htracking
    · rw [hend.allocateSize, Sandbox.Idle.start_of_two htwo]
    · rw [hend.allocateCount, Sandbox.Idle.start_of_two htwo]

/-- A test that catches the error for a pointer which is not that of a block. -/
example : Sandbox.Left noExemptions ({} : Sandbox ℕ) [⟨true, [.call (.remove 8 0)], false⟩] := by
  refine ⟨0, _, rfl, ⟨rfl, rfl, by decide⟩, fun j u hj hu => ?_⟩
  have hlt := (List.getElem?_eq_some_iff.1 hu).1
  rw [List.length_singleton] at hlt
  omega

end Dtest
