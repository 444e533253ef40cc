import Dtest.UnitTest.Run

/-!
# `PerformanceTest`

A performance test runs the sandbox twice, and both runs write the same `_status`: the second one
starts from the status and the measurements that the first has left, and repeats the check of the
memory on them.  `severity_kept_iff` says when it does not lower the status.
-/

namespace Dtest

/-- A `_performanceMarginRatio` other than 0: whether a body time exceeds that ratio of a baseline
time, compared in `double`, and its text. -/
structure MarginRatio where
  exceeds : ℕ → ℕ → Bool
  text : String

/-- `PerformanceTest`; no ratio stands for the ratio 0. -/
structure PerformanceTest extends TimedTest where
  baselineTime : ℕ := 0
  performanceMargin : ℕ := 10 ^ 6
  performanceMarginRatio : Option MarginRatio := none

/-- What the baseline's run leaves in a test object. -/
structure BaselineMeasurement where
  errors : List String := []
  baselineTime : ℕ := 0

namespace PerformanceTest

variable (tx : Texts) (t : PerformanceTest)

/-- A status set together with an error. -/
def flag (status : Status) (msg : String) : PerformanceTest :=
  { t with toUnitTest := t.toUnitTest.flag status msg }

/-- The condition of `_checkPerformance`. -/
def tooSlow : Bool :=
  match t.performanceMarginRatio with
  | none => decide (t.baselineTime ≤ wadd t.bodyTime t.performanceMargin)
  | some ratio => ratio.exceeds t.bodyTime t.baselineTime

/-- `PerformanceTest::_checkPerformance`. -/
def checkPerformance : PerformanceTest :=
  match t.performanceMarginRatio with
  | none =>
    if t.tooSlow then
      t.flag .tooSlow ("Failed to meet performance requirements with a margin of "
        ++ tx.formatDuration t.performanceMargin)
    else t
  | some ratio =>
    if t.tooSlow then
      t.flag .tooSlow ("Failed to meet performance requirements of " ++ ratio.text
        ++ " of the baseline time")
    else t

/-- `UnitTest::_driverRun`, the first of the two runs. -/
def bodyRun (e : SandboxEnd) (l : Measurement) : PerformanceTest :=
  { t with toTimedTest := t.toTimedTest.driverRun tx e l }

/-- What the function of the second run leaves of the test. -/
def afterBaseline (l : BaselineMeasurement) : PerformanceTest :=
  { t with errors := l.errors, baselineTime := l.baselineTime }

/-- The callbacks of the second run. -/
def baselineCallbacks : Sandbox.Callbacks PerformanceTest where
  onComplete t := { t with toTimedTest := t.toTimedTest.checkMemoryLeak tx }.checkPerformance tx
  onSuccess sent t :=
    { t with status := sent.status, errors := sent.errors, baselineTime := sent.baselineTime }
  onError error t := t.flag .fail error

/-- The second run. -/
def baselineRun (e : SandboxEnd) (l : BaselineMeasurement) : PerformanceTest :=
  let r := Sandbox.run tx.formatDuration (baselineCallbacks tx) (!t.inProcessSandbox)
    t.sandboxTimeout (t.afterBaseline l) t e
  if r.2 then r.1 else { r.1 with status := .timeout }

/-- `PerformanceTest::_driverRun`. -/
def driverRun (e : SandboxEnd) (l : Measurement) (e' : SandboxEnd) (l' : BaselineMeasurement) :
    PerformanceTest :=
  (t.bodyRun tx e l).baselineRun tx e' l'

/-! ## The inputs that decide -/

/-- The body's run fails, as `UnitTest::_driverRun` reports it. -/
def bodyFails : SandboxEnd → Bool
  | .complete terminates => !t.inProcessSandbox && !terminates
  | .error _ _ => true
  | .unexpected _ | .timeout => false

/-- The body's run times out. -/
def bodyTimesOut (l : Measurement) : SandboxEnd → Bool
  | .complete terminates =>
    (t.inProcessSandbox || terminates) && decide (t.timeout < l.bodyTime)
  | .error _ _ => false
  | .unexpected _ | .timeout => true

/-- The measurements at the end of the second run. -/
def measured (e : SandboxEnd) (l : Measurement) (l' : BaselineMeasurement) : PerformanceTest :=
  { t with toTimedTest := t.toTimedTest.seen e l, baselineTime := l'.baselineTime }

/-- One of the checks after the second run has something to report. -/
def reported : Bool := t.tooSlow || t.limitExceeded || t.leakDetected

/-- The second run does not lower the status of a body that failed or timed out: it ends in an
error, or it completes in time with nothing to report, or it does not finish and the body had not
failed. -/
def SeverityKept (e : SandboxEnd) (l : Measurement) (l' : BaselineMeasurement) : SandboxEnd → Prop
  | .complete terminates => t.bodyFails e ∨ t.bodyTimesOut l e →
      (!t.inProcessSandbox && !terminates) = true ∨ (t.measured e l l').reported = false
  | .error _ _ => True
  | .unexpected _ | .timeout => t.bodyFails e = false

theorem status_checkPerformance :
    (t.checkPerformance tx).status = if t.tooSlow then .tooSlow else t.status := by
  unfold checkPerformance
  cases t.performanceMarginRatio <;> dsimp only <;> split_ifs <;> rfl

/-- The status after the second run. -/
theorem baselineRun_status (e : SandboxEnd) (l : BaselineMeasurement) :
    (t.baselineRun tx e l).status = match e with
      | .complete terminates =>
        if !t.inProcessSandbox && !terminates then .fail
        else if (t.afterBaseline l).tooSlow then .tooSlow
        else if t.limitExceeded then .memoryLimitExceeded
        else if t.leakDetected then .passWithMemoryLeak else t.status
      | .error _ _ => .fail
      | .unexpected _ | .timeout => .timeout := by
  unfold baselineRun
  cases e with
  | complete terminates =>
    simp only [Sandbox.run, Sandbox.late]
    by_cases hlate : (!t.inProcessSandbox && !terminates) = true
    · rw [if_pos hlate, if_pos hlate]
      rfl
    · rw [if_neg hlate, if_neg hlate]
      refine (status_checkPerformance tx _).trans ?_
      -- the check of the memory leaves the times alone
      show (if (t.afterBaseline l).tooSlow then Status.tooSlow
        else ((t.afterBaseline l).toUnitTest.checkMemoryLeak tx.formatSize
          tx.memoryReport).status) = _
      rw [UnitTest.status_checkMemoryLeak]
      rfl
  | error reason terminates =>
    cases hin : t.inProcessSandbox <;> cases terminates <;> rfl
  | unexpected terminates => rfl
  | timeout => rfl

/-- The status that the first run comes to. -/
def bodyStatus (fails timesOut limit leak : Bool) : Status :=
  if fails then .fail else if timesOut then .timeout else if limit then .memoryLimitExceeded
  else if leak then .passWithMemoryLeak else .pass

/-- The status after the body's run. -/
theorem bodyRun_status (e : SandboxEnd) (l : Measurement) : (t.bodyRun tx e l).status =
    bodyStatus (t.bodyFails e) (t.bodyTimesOut l e) (t.toTimedTest.seen e l).limitExceeded
      (t.toTimedTest.seen e l).leakDetected := by
  refine (TimedTest.driverRun_status tx t.toTimedTest e l).trans ?_
  cases e with
  | complete terminates =>
    unfold bodyStatus bodyFails bodyTimesOut TimedTest.verdict
    have htimeout : (t.toTimedTest.afterBody (.complete terminates) l).timeout = t.timeout := rfl
    rw [htimeout]
    cases t.inProcessSandbox <;> cases terminates <;> simp [TimedTest.seen, SandboxEnd.completes]
  | error reason terminates => rfl
  | unexpected terminates => rfl
  | timeout => rfl

theorem bodyStatus_le_fail : ∀ fails timesOut limit leak : Bool,
    bodyStatus fails timesOut limit leak ≤ .fail := by
  decide

theorem bodyStatus_le_timeout_iff : ∀ fails timesOut limit leak : Bool,
    bodyStatus fails timesOut limit leak ≤ .timeout ↔ fails = false := by
  decide

/-- The checks after the second run, on top of the status after the first. -/
theorem bodyStatus_le_checks_iff : ∀ fails timesOut limit leak slow late : Bool,
    bodyStatus fails timesOut limit leak ≤
        (if late then .fail else if slow then .tooSlow else if limit then .memoryLimitExceeded
          else if leak then .passWithMemoryLeak else bodyStatus fails timesOut limit leak) ↔
      (fails ∨ timesOut → late = true ∨ (slow || limit || leak) = false) := by
  decide

end PerformanceTest

/-- The final status is at least as severe as the status after the body's run exactly in these
cases: the baseline's run ends in an error; it does not finish, and the body had not failed; it
completes, and the body had neither failed nor timed out, or its child has to be killed, or there is
nothing to report on the measurements. -/
theorem severity_kept_iff (tx : Texts) (t : PerformanceTest) (e : SandboxEnd) (l : Measurement)
    (e' : SandboxEnd) (l' : BaselineMeasurement) :
    (t.bodyRun tx e l).status ≤ (t.driverRun tx e l e' l').status ↔ t.SeverityKept e l l' e' := by
  have hfinal := PerformanceTest.baselineRun_status tx (t.bodyRun tx e l) e' l'
  obtain ⟨status, errors, hbody⟩ := TimedTest.driverRun_eq tx t.toTimedTest e l
  have hbody : t.bodyRun tx e l = { t with
      toTimedTest := { t.toTimedTest.seen e l with status := status, errors := errors } } :=
    congrArg (fun u : TimedTest => { t with toTimedTest := u }) hbody
  have hslow : ((t.bodyRun tx e l).afterBaseline l').tooSlow = (t.measured e l l').tooSlow := by
    rw [hbody]
    rfl
  have hlimit : (t.bodyRun tx e l).limitExceeded = (t.measured e l l').limitExceeded := by
    rw [hbody]
    rfl
  have hleak : (t.bodyRun tx e l).leakDetected = (t.measured e l l').leakDetected := by
    rw [hbody]
    rfl
  have hfork : (t.bodyRun tx e l).inProcessSandbox = t.inProcessSandbox := by
    rw [hbody]
    exact t.toTimedTest.seen_inProcessSandbox e l
  unfold PerformanceTest.driverRun
  rw [PerformanceTest.bodyRun_status]
  cases e' with
  | complete terminates =>
    simp only [hslow, hlimit, hleak, hfork] at hfinal
    rw [hfinal, PerformanceTest.bodyRun_status]
    exact PerformanceTest.bodyStatus_le_checks_iff (t.bodyFails e) (t.bodyTimesOut l e)
      (t.measured e l l').limitExceeded (t.measured e l l').leakDetected
      (t.measured e l l').tooSlow (!t.inProcessSandbox && !terminates)
  | error reason terminates =>
    rw [hfinal]
    exact iff_of_true (PerformanceTest.bodyStatus_le_fail _ _ _ _) trivial
  | unexpected terminates =>
    rw [hfinal]
    exact PerformanceTest.bodyStatus_le_timeout_iff _ _ _ _
  | timeout =>
    rw [hfinal]
    exact PerformanceTest.bodyStatus_le_timeout_iff _ _ _ _

/-- A body that has failed is reported as too slow, since its time is 0 and the baseline takes no
more than the margin of a millisecond. -/
theorem failed_body_too_slow :
    let tx : Texts := ⟨toString, toString, ""⟩
    let t : PerformanceTest := {}
    let e := SandboxEnd.error "Detected uncaught exception: std::exception" true
    (t.bodyRun tx e {}).status = .fail ∧
      (t.driverRun tx e {} (.complete true) { baselineTime := 1000 }).status = .tooSlow := by
  exact ⟨rfl, rfl⟩

end Dtest
