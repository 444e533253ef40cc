import Dtest.UnitTest.Run

/-!
# `DistributedUnitTest`

The worker's run is a copy of the driver's with a time field of its own, but it checks the driver's
field for the timeout.  `sides_decide_iff` compares what the two sides decide about a body that
completes.
-/

namespace Dtest

/-- `DistributedUnitTest`, up to its network. -/
structure DistributedUnitTest extends TimedTest where
  workerBodyTime : ℕ := 0

/-- What the test functions leave in a worker's test object. -/
structure WorkerMeasurement where
  usedResources : ResourceSnapshot := {}
  errors : List String := []
  workerBodyTime : ℕ := 0

namespace DistributedUnitTest

variable (tx : Texts) (t : DistributedUnitTest)

/-- `UnitTest::_driverRun`. -/
def driverRun (e : SandboxEnd) (l : Measurement) : DistributedUnitTest :=
  { t with toTimedTest := t.toTimedTest.driverRun tx e l }

/-- What the worker's function in the sandbox leaves of the test. -/
def afterWorkerBody (e : SandboxEnd) (l : WorkerMeasurement) : DistributedUnitTest :=
  { t with
    status := if e.completes then .pass else .fail
    usedResources := l.usedResources
    errors := l.errors
    workerBodyTime := l.workerBodyTime }

/-- The callbacks of `DistributedUnitTest::_workerRun`. -/
def workerCallbacks : Sandbox.Callbacks DistributedUnitTest where
  onComplete t :=
    { t with toTimedTest := (t.toTimedTest.checkMemoryLeak tx).checkTimeout tx t.bodyTime }
  onSuccess sent t :=
    { t with
      status := sent.status
      usedResources := sent.usedResources
      errors := sent.errors
      workerBodyTime := sent.workerBodyTime }
  onError error t := { t with toUnitTest := t.flag .fail error }

/-- `DistributedUnitTest::_workerRun`, when the run in the sandbox ends with `e` and the test
functions leave `l`. -/
def workerRun (e : SandboxEnd) (l : WorkerMeasurement) : DistributedUnitTest :=
  let r := Sandbox.run tx.formatDuration (workerCallbacks tx) (!t.inProcessSandbox) t.sandboxTimeout
    (t.afterWorkerBody e l) t e
  if r.2 then r.1 else { r.1 with status := .timeout }

/-- The worker's verdict is that on the time of the driver's body, which the worker does not run. -/
theorem workerRun_status (l : WorkerMeasurement) : (t.workerRun tx (.complete true) l).status =
    TimedTest.verdict { t.toTimedTest with usedResources := l.usedResources } t.bodyTime := by
  have hchecks := TimedTest.status_checks tx (t.afterWorkerBody (.complete true) l).toTimedTest rfl
    t.bodyTime
  unfold workerRun
  simp only [Sandbox.run, Sandbox.late, Bool.not_true, Bool.and_false, Bool.false_eq_true, if_false,
    if_true]
  exact hchecks

end DistributedUnitTest

theorem TimedTest.verdict_eq_timeout_iff (t : TimedTest) (time : ℕ) :
    t.verdict time = .timeout ↔ t.timeout < time := by
  unfold verdict
  split_ifs with h <;> simp [h]

theorem TimedTest.verdict_congr (t : TimedTest) {time time' : ℕ}
    (h : t.timeout < time ↔ t.timeout < time') : t.verdict time = t.verdict time' := by
  unfold verdict
  rw [if_congr h rfl rfl]

/-- For every configuration and every measurement of a body that completes within the deadline, the
driver decides the most severe of the verdicts on its measurement, and a worker does exactly if its
body has not taken longer than the timeout. -/
theorem sides_decide_iff (tx : Texts) (timeout memoryBytesLimit memoryBlocksLimit : ℕ)
    (ignoreMemoryLeak resourceSnapshotBodyOnly inProcessSandbox : Bool) (l : Measurement)
    (lw : WorkerMeasurement) :
    let t : DistributedUnitTest := { timeout, memoryBytesLimit, memoryBlocksLimit, ignoreMemoryLeak,
                                     resourceSnapshotBodyOnly, inProcessSandbox }
    IsGreatest (TimedTest.verdicts
      { t.toTimedTest with usedResources := l.usedResources } l.bodyTime)
      (t.driverRun tx (.complete true) l).status ∧
    (IsGreatest
        (TimedTest.verdicts { t.toTimedTest with usedResources := lw.usedResources }
          lw.workerBodyTime)
        (t.workerRun tx (.complete true) lw).status ↔
      lw.workerBodyTime ≤ timeout) := by
  intro t
  constructor
  · have hstatus : (t.driverRun tx (.complete true) l).status = _ :=
      TimedTest.driverRun_status tx t.toTimedTest (.complete true) l
    rw [hstatus]
    simp only [Bool.not_true, Bool.and_false, Bool.false_eq_true, if_false]
    exact TimedTest.isGreatest_verdict (t.toTimedTest.afterBody (.complete true) l) l.bodyTime
  · let seen : TimedTest := { t.toTimedTest with usedResources := lw.usedResources }
    rw [DistributedUnitTest.workerRun_status]
    show IsGreatest (seen.verdicts lw.workerBodyTime) (seen.verdict 0) ↔ _
    have hzero : ¬ seen.timeout < 0 := Nat.not_lt_zero _
    constructor
    · intro h
      by_contra hlt
      have htime : seen.timeout < lw.workerBodyTime := Nat.lt_of_not_le hlt
      have heq := h.unique (seen.isGreatest_verdict lw.workerBodyTime)
      rw [(seen.verdict_eq_timeout_iff _).2 htime, seen.verdict_eq_timeout_iff] at heq
      exact hzero heq
    · intro hle
      rw [seen.verdict_congr (iff_of_false hzero hle.not_gt)]
      exact seen.isGreatest_verdict lw.workerBodyTime

/-- A body of one and a half seconds under a timeout of one second, below the deadline of the
sandbox: the driver decides `TIMEOUT`, a worker `PASS`. -/
theorem slow_worker_passes :
    let tx : Texts := ⟨toString, toString, ""⟩
    let t : DistributedUnitTest := { timeout := 1000000000 }
    (t.driverRun tx (.complete true) { bodyTime := 1500000000 }).status = .timeout ∧
      (t.workerRun tx (.complete true) { workerBodyTime := 1500000000 }).status = .pass ∧
      1500000000 < t.sandboxTimeout := by
  exact ⟨rfl, rfl, by decide⟩

end Dtest
