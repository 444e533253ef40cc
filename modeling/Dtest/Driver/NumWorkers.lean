import Dtest.Driver.Pool

/-!
# `Context::numWorkers`

The count of a test is kept by the registered object.  The driver runs a copy of it, in which `_run`
replaces a count of 0 by the default before the workers are allocated; a worker makes a copy of its
own, of the first registered object with the name of the RUN_TEST message, and leaves the count
alone.  `numWorkers_agree_iff` compares what the test reads on the two sides.
-/

namespace Dtest

universe u v

variable {α : Type u} {μ : Type v}

/-- The part of a `Test` that the number of its workers depends on. -/
structure DistributedTest extends Test where
  numWorkers : ℕ := 0

/-- `Test::_defaultNumWorkers`. -/
def defaultNumWorkers : ℕ := 4

/-- `Context`, while it runs a test: `_currentTest` points to a copy. -/
structure TestContext where
  currentTest : DistributedTest

/-- `Context::numWorkers`. -/
def TestContext.numWorkers (ctx : TestContext) : ℕ := ctx.currentTest.numWorkers

namespace DistributedTest

/-- The beginning of `_run`: the context in which the test is run, if it is not skipped. -/
def run (isDriver : Bool) (t : DistributedTest) : Option TestContext :=
  if t.enabled then
    if isDriver then
      some ⟨if t.numWorkers = 0 then { t with numWorkers := defaultNumWorkers } else t⟩
    else some ⟨t⟩
  else none

/-- The copy that a worker makes for a RUN_TEST message; `tests` is `__tests`. -/
def find (tests : String → List DistributedTest) (module name : String) : Option DistributedTest :=
  (tests module).find? fun t => t.name = name

/-- A worker that is sent RUN_TEST for the driver's test. -/
def runTest (tests : String → List DistributedTest) (t : DistributedTest) : Option TestContext :=
  (find tests t.module t.name).bind (run false)

theorem run_driver {t : DistributedTest} {ctx : TestContext} (h : t.run true = some ctx) :
    t.enabled ∧ ctx.numWorkers = if t.numWorkers = 0 then defaultNumWorkers else t.numWorkers := by
  unfold run at h
  split_ifs at h with henabled htrue hzero
  · obtain rfl := Option.some.inj h
    rw [if_pos hzero]
    exact ⟨henabled, rfl⟩
  · obtain rfl := Option.some.inj h
    rw [if_neg hzero]
    exact ⟨henabled, rfl⟩
  · exact absurd rfl htrue

theorem run_worker {t : DistributedTest} {ctx : TestContext} :
    t.run false = some ctx ↔ t.enabled ∧ ctx = ⟨t⟩ := by
  unfold run
  by_cases henabled : t.enabled = true
  · simp [henabled, eq_comm]
  · simp [henabled]

/-- What the workers read is the count of the object that they copy. -/
theorem runTest_numWorkers (tests : String → List DistributedTest) (t : DistributedTest) (n : ℕ) :
    (∀ ctx, runTest tests t = some ctx → ctx.numWorkers = n) ↔
      ∀ t', find tests t.module t.name = some t' → t'.enabled → t'.numWorkers = n := by
  unfold runTest
  constructor
  · intro h t' hfind henabled
    refine h ⟨t'⟩ ?_
    rw [hfind]
    exact run_worker.2 ⟨henabled, rfl⟩
  · intro h ctx hctx
    obtain ⟨t', hfind, hrun⟩ := Option.bind_eq_some_iff.1 hctx
    obtain ⟨henabled, rfl⟩ := run_worker.1 hrun
    exact h t' hfind henabled

end DistributedTest

/-- On the driver, `numWorkers` is the number of workers allocated, and it stays so while the test
runs.  On the participating workers it is the same exactly if the object that they copy, the first
one of that name in the module, was registered with that number; where that is the object of the
test, exactly if it was registered with a number other than 0. -/
theorem numWorkers_agree_iff {options : List ℕ} {c : DriverContext α μ}
    (h : PoolReachable options c) (tests : String → List DistributedTest) (t : DistributedTest)
    (driver : TestContext) (hdriver : t.run true = some driver) (fork : ℕ → ℤ) (order : List ℕ)
    (horder : (c.spawned fork driver.numWorkers).1.workers.Iterates order)
    (frames rest : List (SuperFrame α)) (c₁ : DriverContext α μ) (ids : List ℕ)
    (hrun : c.allocateWorkers fork driver.numWorkers order frames = some (c₁, ids, rest)) :
    (∀ events : List (TestEvent α μ),
      (events.foldl DriverContext.testStep c₁).allocatedWorkers.size = driver.numWorkers) ∧
    ((∀ worker, t.runTest tests = some worker → worker.numWorkers = driver.numWorkers) ↔
      ∀ t', DistributedTest.find tests t.module t.name = some t' → t'.enabled →
        t'.numWorkers = if t.numWorkers = 0 then defaultNumWorkers else t.numWorkers) ∧
    (DistributedTest.find tests t.module t.name = some t →
      ((∀ worker, t.runTest tests = some worker → worker.numWorkers = driver.numWorkers) ↔
        t.numWorkers ≠ 0)) := by
  obtain ⟨henabled, hnum⟩ := DistributedTest.run_driver hdriver
  have hagree := DistributedTest.runTest_numWorkers tests t driver.numWorkers
  refine ⟨fun events => ?_, ?_, fun hfirst => ?_⟩
  · obtain ⟨hs, -, hsize, -, -⟩ := h.idle.allocateWorkers horder hrun
    rw [← hsize]
    exact SortedMap.size_congr ((hs.testSteps events).2.allocatedWorkers)
  · rw [hagree, hnum]
  · rw [hagree, hnum]
    constructor
    · intro hall hzero
      have hdefault := hall t hfirst henabled
      rw [if_pos hzero, hzero] at hdefault
      exact absurd hdefault (by decide)
    · intro hzero t' ht' _
      obtain rfl := Option.some.inj (hfirst.symm.trans ht')
      rw [if_neg hzero]

/-- A test registered for three workers, in a pool of two. -/
def threeWorkersTest : DistributedTest :=
  { module := "unit-test", name := "worker-id", dependencies := ∅, numWorkers := 3 }

theorem numWorkers_agree_three :
    ∃ driver c₁ ids rest, threeWorkersTest.run true = some driver ∧
      (DriverContext.addWorkers ({} : DriverContext ℕ ℕ) 2).allocateWorkers (fun _ => 77)
        driver.numWorkers [3, 0, 1] [.workerStarted 0 100, .workerStarted 3 103,
          .workerStarted 1 101] = some (c₁, ids, rest) ∧
      c₁.allocatedWorkers.size = driver.numWorkers ∧
      ∀ worker, threeWorkersTest.runTest (fun _ => [threeWorkersTest]) = some worker →
        worker.numWorkers = driver.numWorkers := by
  have hstart : PoolReachable [2] (DriverContext.addWorkers ({} : DriverContext ℕ ℕ) 2) := .start
  have h := numWorkers_agree_iff hstart (fun _ => [threeWorkersTest]) threeWorkersTest
    ⟨threeWorkersTest⟩ rfl (fun _ => 77) [3, 0, 1] (by decide +kernel)
    [.workerStarted 0 100, .workerStarted 3 103, .workerStarted 1 101] _ _ _ rfl
  exact ⟨⟨threeWorkersTest⟩, _, _, _, rfl, rfl, h.1 [], (h.2.2 rfl).2 (by decide)⟩

/-- A test for which no number of workers is set: the driver allocates four, and every worker reads
0. -/
theorem numWorkers_default :
    let t : DistributedTest := { module := "unit-test", name := "hello", dependencies := ∅ }
    (t.run true).map (·.numWorkers) = some 4 ∧
      (t.runTest fun _ => [t]).map (·.numWorkers) = some 0 := by
  decide

end Dtest
