import Dtest.Driver.Join
import Dtest.UnitTest.Resources

/-!
# The status after a run in the sandbox

`Sandbox.run` calls back with what comes of the function in the sandbox: the callbacks write to the
test object of the waiting process, which is the object the function has worked on only if there is
no fork.  `TimedTest.driverRun` is the run of a unit test by the driver; its status is the most
severe of the verdicts on the measurements (`driverRun_complete`), and `FAIL` or `TIMEOUT` if the
function does not complete (`driverRun_status`).
-/

namespace Dtest

universe u

/-- How a run of the sandbox ends for the waiting process; `terminates` tells whether the child is
gone before the deadline. -/
inductive SandboxEnd
  | complete (terminates : Bool)
  | error (reason : String) (terminates : Bool)
  | unexpected (terminates : Bool)
  | timeout

namespace Sandbox

variable {T : Type u}

/-- The callbacks of `Sandbox::run`.  A message is given by the object whose fields it carries. -/
structure Callbacks (T : Type u) where
  onComplete : T → T
  onSuccess : T → T → T
  onError : String → T → T

/-- A forked child that is not gone by the deadline is killed. -/
def late (formatDuration : ℕ → String) (cb : Callbacks T) (fork : Bool) (timeoutNanos : ℕ)
    (terminates : Bool) (t : T) : T :=
  if fork && !terminates then
    cb.onError ("Did not terminate properly after timeout of " ++ formatDuration timeoutNanos) t
  else t

/-- `Sandbox::run` for a function that leaves `left` of the object `t` it works on: the object of
the waiting process, and whether the run has finished. -/
def run (formatDuration : ℕ → String) (cb : Callbacks T) (fork : Bool) (timeoutNanos : ℕ)
    (left t : T) : SandboxEnd → T × Bool
  | .complete terminates =>
    let sent := cb.onComplete left
    let t := cb.onSuccess sent (if fork then t else sent)
    (late formatDuration cb fork timeoutNanos terminates t, true)
  | .error reason terminates =>
    let t := cb.onError reason (if fork then t else left)
    (late formatDuration cb fork timeoutNanos terminates t, true)
  | .unexpected terminates =>
    let t := cb.onError "An unexpected error has occurred" (if fork then t else left)
    (late formatDuration cb fork timeoutNanos terminates t, false)
  | .timeout =>
    (cb.onError ("Exceeded timeout of " ++ formatDuration timeoutNanos) (if fork then t else left),
      false)

end Sandbox

namespace UnitTest

/-- A limit on the largest amounts is exceeded. -/
def limitExceeded (t : UnitTest) : Bool :=
  decide (t.memoryBytesLimit < t.usedResources.max.size) ||
    decide (t.memoryBlocksLimit < t.usedResources.max.count)

/-- The last verdict of `_checkMemoryLeak` counts. -/
theorem status_checkMemoryLeak (formatSize : ℕ → String) (memoryReport : String) (t : UnitTest) :
    (t.checkMemoryLeak formatSize memoryReport).status =
      if t.limitExceeded then .memoryLimitExceeded
      else if t.leakDetected then .passWithMemoryLeak else t.status := by
  unfold checkMemoryLeak limitExceeded flag
  by_cases hbytes : t.memoryBytesLimit < t.usedResources.max.size <;>
    by_cases hblocks : t.memoryBlocksLimit < t.usedResources.max.count <;>
      cases t.leakDetected <;> simp [hbytes, hblocks]

/-- The check writes the status and the errors. -/
theorem checkMemoryLeak_eq (formatSize : ℕ → String) (memoryReport : String) (t : UnitTest) :
    ∃ status errors, t.checkMemoryLeak formatSize memoryReport =
      { t with status := status, errors := errors } := by
  unfold checkMemoryLeak flag
  dsimp only
  split_ifs <;> exact ⟨_, _, rfl⟩

end UnitTest

/-- A `UnitTest` with its times and the configuration of its sandbox. -/
structure TimedTest extends UnitTest where
  timeout : ℕ := 10 * 10 ^ 9
  inProcessSandbox : Bool := false
  initTime : ℕ := 0
  bodyTime : ℕ := 0
  completeTime : ℕ := 0

/-- What the test functions leave in a test object: the errors logged, and the measurements. -/
structure Measurement where
  usedResources : ResourceSnapshot := {}
  errors : List String := []
  initTime : ℕ := 0
  bodyTime : ℕ := 0
  completeTime : ℕ := 0

/-- The function run in the sandbox returns. -/
def SandboxEnd.completes : SandboxEnd → Bool
  | .complete _ => true
  | _ => false

/-- The texts that the verdicts are reported with. -/
structure Texts where
  formatSize : ℕ → String
  formatDuration : ℕ → String
  memoryReport : String

namespace TimedTest

variable (tx : Texts) (t : TimedTest)

/-- `UnitTest::_checkMemoryLeak`. -/
def checkMemoryLeak : TimedTest :=
  { t with toUnitTest := t.toUnitTest.checkMemoryLeak tx.formatSize tx.memoryReport }

/-- `UnitTest::_checkTimeout`. -/
def checkTimeout (time : ℕ) : TimedTest :=
  if t.timeout < time then
    { t with toUnitTest := t.flag .timeout ("Exceeded timeout of " ++ tx.formatDuration t.timeout) }
  else t

/-- The deadline that the sandbox is given. -/
def sandboxTimeout : ℕ := if t.timeout < 2000000000 then 2000000000 else t.timeout

/-- The callback for an error. -/
def onError (error : String) (t : TimedTest) : TimedTest :=
  { t with toUnitTest := t.flag .fail error }

/-- What the driver's function in the sandbox leaves of the test: `_status` is `FAIL` from before
the first test function to after the last. -/
def afterBody (e : SandboxEnd) (l : Measurement) : TimedTest :=
  { t with
    status := if e.completes then .pass else .fail
    usedResources := l.usedResources
    errors := l.errors
    initTime := l.initTime
    bodyTime := l.bodyTime
    completeTime := l.completeTime }

/-- The callbacks of `UnitTest::_driverRun`. -/
def driverCallbacks : Sandbox.Callbacks TimedTest where
  onComplete t := (t.checkMemoryLeak tx).checkTimeout tx t.bodyTime
  onSuccess sent t :=
    { t with
      status := sent.status
      usedResources := sent.usedResources
      errors := sent.errors
      initTime := sent.initTime
      bodyTime := sent.bodyTime
      completeTime := sent.completeTime }
  onError := onError

/-- `UnitTest::_driverRun`, when the run in the sandbox ends with `e` and the test functions leave
`l`. -/
def driverRun (e : SandboxEnd) (l : Measurement) : TimedTest :=
  let r := Sandbox.run tx.formatDuration (driverCallbacks tx) (!t.inProcessSandbox) t.sandboxTimeout
    (t.afterBody e l) t e
  if r.2 then r.1 else { r.1 with status := .timeout }

/-! ## The verdicts -/

/-- The verdicts on the measurements of a test, of which `time` is the duration of its body. -/
def verdicts (time : ℕ) : Set Status :=
  {s | s = .pass ∨ s = .passWithMemoryLeak ∧ t.leakDetected ∨
    s = .memoryLimitExceeded ∧ t.limitExceeded ∨ s = .timeout ∧ t.timeout < time}

/-- The most severe one. -/
def verdict (time : ℕ) : Status :=
  if t.timeout < time then .timeout else if t.limitExceeded then .memoryLimitExceeded
  else if t.leakDetected then .passWithMemoryLeak else .pass

theorem isGreatest_verdict (time : ℕ) : IsGreatest (t.verdicts time) (t.verdict time) := by
  unfold verdict
  constructor
  · unfold verdicts
    split_ifs with htime hlimit hleak
    · exact Or.inr (Or.inr (Or.inr ⟨rfl, htime⟩))
    · exact Or.inr (Or.inr (Or.inl ⟨rfl, hlimit⟩))
    · exact Or.inr (Or.inl ⟨rfl, hleak⟩)
    · exact Or.inl rfl
  · rintro s (rfl | ⟨rfl, h⟩ | ⟨rfl, h⟩ | ⟨rfl, h⟩) <;> split_ifs <;> decide

/-- The checks of a test that has passed come to the most severe verdict. -/
theorem status_checks (ht : t.status = .pass) (time : ℕ) :
    ((t.checkMemoryLeak tx).checkTimeout tx time).status = t.verdict time := by
  have hmemory : (t.checkMemoryLeak tx).status = _ :=
    t.toUnitTest.status_checkMemoryLeak tx.formatSize tx.memoryReport
  unfold checkTimeout verdict
  by_cases htime : t.timeout < time
  · rw [if_pos htime, if_pos (show (t.checkMemoryLeak tx).timeout < time from htime)]
    rfl
  · rw [if_neg htime, if_neg (show ¬ (t.checkMemoryLeak tx).timeout < time from htime), hmemory, ht]

/-! ## What a run leaves -/

/-- The measurements that the driver's object has after a run. -/
def seen (e : SandboxEnd) (l : Measurement) : TimedTest :=
  if e.completes || t.inProcessSandbox then t.afterBody e l else t

theorem seen_inProcessSandbox (e : SandboxEnd) (l : Measurement) :
    (t.seen e l).inProcessSandbox = t.inProcessSandbox := by
  unfold seen
  split_ifs <;> rfl

theorem checks_eq (time : ℕ) : ∃ status errors,
    (t.checkMemoryLeak tx).checkTimeout tx time =
      { t with status := status, errors := errors } := by
  obtain ⟨status, errors, h⟩ := t.toUnitTest.checkMemoryLeak_eq tx.formatSize tx.memoryReport
  unfold checkTimeout checkMemoryLeak UnitTest.flag
  rw [h]
  split_ifs <;> exact ⟨_, _, rfl⟩

/-- Whatever becomes of a run, only the status and the errors depend on more than on what the
driver's object has seen. -/
theorem driverRun_eq (e : SandboxEnd) (l : Measurement) : ∃ status errors,
    t.driverRun tx e l = { t.seen e l with status := status, errors := errors } := by
  unfold driverRun seen
  cases e with
  | complete terminates =>
    obtain ⟨status, errors, h⟩ := checks_eq tx (t.afterBody (.complete terminates) l) l.bodyTime
    simp only [Sandbox.run, Sandbox.late, driverCallbacks]
    rw [show (t.afterBody (.complete terminates) l).bodyTime = l.bodyTime from rfl, h]
    cases hin : t.inProcessSandbox <;> cases terminates <;> exact ⟨_, _, rfl⟩
  | error reason terminates =>
    cases hin : t.inProcessSandbox <;> cases terminates <;> exact ⟨_, _, rfl⟩
  | unexpected terminates =>
    cases hin : t.inProcessSandbox <;> cases terminates <;> exact ⟨_, _, rfl⟩
  | timeout => cases hin : t.inProcessSandbox <;> exact ⟨_, _, rfl⟩

/-- The status after a run. -/
theorem driverRun_status (e : SandboxEnd) (l : Measurement) : (t.driverRun tx e l).status =
    match e with
    | .complete terminates =>
      if !t.inProcessSandbox && !terminates then .fail else (t.afterBody e l).verdict l.bodyTime
    | .error _ _ => .fail
    | .unexpected _ | .timeout => .timeout := by
  unfold driverRun
  cases e with
  | complete terminates =>
    simp only [Sandbox.run, Sandbox.late]
    by_cases hlate : (!t.inProcessSandbox && !terminates) = true
    · rw [if_pos hlate, if_pos hlate]
      rfl
    · rw [if_neg hlate, if_neg hlate]
      exact status_checks tx (t.afterBody (.complete terminates) l) rfl l.bodyTime
  | error reason terminates =>
    cases hin : t.inProcessSandbox <;> cases terminates <;> rfl
  | unexpected terminates => rfl
  | timeout => rfl

end TimedTest

end Dtest
