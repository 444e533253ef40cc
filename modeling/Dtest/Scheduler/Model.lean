import Dtest.Lib.Loop
import Dtest.Lib.Word
import Mathlib.Data.Finset.Basic
import Mathlib.Data.Finset.Insert
import Mathlib.Logic.Function.Basic
import Mathlib.Order.Notation
import Mathlib.Data.Nat.Notation

/-!
# `Test::runAll`: registered tests, the ready queue and the main loop

The registered objects are named by `TestPtr`; `Registry.tests` lists them in one iteration order of
the hash map `__tests`, so a statement about every registry is one about every iteration order.  The
loop state follows the locals of `runAll`.  A copied test is named by the pointer of the test it was
copied from.

What a test body does is a parameter: `outcome i t` is the `_status` that running test `t` as the
`i`-th test leaves behind.  The field `taken` is a history variable, the pointers taken out of
`ready` in order; nothing the loop computes reads it.
-/

namespace Dtest

/-- `Test::Status`, in the order of the enumeration. -/
inductive Status
  | pass
  | skip
  | passWithMemoryLeak
  | memoryLimitExceeded
  | tooSlow
  | timeout
  | fail
  | pending
  deriving DecidableEq, Repr

/-- The part of a `Test` object that scheduling reads or writes. -/
structure Test where
  module : String
  name : String
  dependencies : Finset String
  remainingDependencies : Finset String := ∅
  enabled : Bool := true
  success : Bool := false
  status : Status := .pending
  expectedStatus : Status := .pass

namespace Test

/-- `Test::_skip`. -/
def skip (t : Test) : Test := { t with status := .skip, success := true }

/-- `Test::_run`; `outcome` is the `_status` after the driver's run and join. -/
def run (t : Test) (outcome : Status) : Test :=
  if t.enabled then
    { t with status := outcome, success := decide (outcome = t.expectedStatus) }
  else t.skip

/-- The branch of `runAll` on the module filter; an empty filter selects every module. -/
def take (t : Test) (modules : Finset String) (outcome : Status) : Test :=
  if modules = ∅ ∨ t.module ∈ modules then t.run outcome else t.skip

end Test

/-- A `Test *`. -/
abbrev TestPtr := ℕ

/-- The static registry `__tests` in an iteration order, with the objects it points to. -/
structure Registry where
  tests : List (String × List TestPtr)
  test : TestPtr → Test
  nodup_modules : (tests.map Prod.fst).Nodup
  nodup_tests : (tests.flatMap Prod.snd).Nodup
  module_eq : ∀ mt ∈ tests, ∀ t ∈ mt.2, (test t).module = mt.1

namespace Registry

variable (r : Registry)

/-- Every registered test. -/
def all : List TestPtr := r.tests.flatMap Prod.snd

/-- `t` is registered in module `d`. -/
def InModule (d : String) (t : TestPtr) : Prop := t ∈ r.all ∧ (r.test t).module = d

end Registry

/-- The locals of `runAll` that its main loop carries. -/
@[ext]
structure RunState where
  ready : List TestPtr := []
  blocked : String → List TestPtr := fun _ => []
  remaining : String → Finset TestPtr := fun _ => ∅
  test : TestPtr → Test
  success : Bool := true
  runCount : ℕ := 0
  skipCount : ℕ := 0
  successCount : ℕ := 0
  expectedStatusSummary : Status → ℕ := fun _ => 0
  unExpectedStatusSummary : Status → ℕ := fun _ => 0
  taken : List TestPtr := []

/-- `++summary[st]` on a map of `uint32_t`. -/
def bump (summary : Status → ℕ) (st : Status) : Status → ℕ :=
  Function.update summary st ((summary st + 1) % 2 ^ 32)

namespace RunState

/-- The set-up of one registered test: into `ready` or into the `blocked` list of each of its
dependencies, and into `remaining` of its module. -/
def enqueue (s : RunState) (t : TestPtr) : RunState :=
  let deps := (s.test t).dependencies
  let s := if deps = ∅ then { s with ready := s.ready ++ [t] }
    else { s with
      test := Function.update s.test t { s.test t with remainingDependencies := deps }
      blocked := fun d => if d ∈ deps then s.blocked d ++ [t] else s.blocked d }
  let m := (s.test t).module
  { s with remaining := Function.update s.remaining m (insert t (s.remaining m)) }

/-- The loop over `blocked[m]` when module `m` has completed: it returns the tests inserted in
front of `ready`, in order, and the test objects after the erasures. -/
def unblock (m : String) : List TestPtr → (TestPtr → Test) → List TestPtr × (TestPtr → Test)
  | [], test => ([], test)
  | tt :: rest, test =>
    let t := { test tt with remainingDependencies := (test tt).remainingDependencies.erase m }
    let r := unblock m rest (Function.update test tt t)
    if t.remainingDependencies = ∅ then (tt :: r.1, r.2) else r

/-- A successful test leaves `remaining` of its module and is counted. -/
def recordSuccess (s : RunState) (t : TestPtr) : RunState :=
  let m := (s.test t).module
  { s with
    remaining := Function.update s.remaining m ((s.remaining m).erase t)
    successCount := s.successCount + 1
    expectedStatusSummary := bump s.expectedStatusSummary (s.test t).status }

/-- The tests blocked on a module that has completed. -/
def completeModule (s : RunState) (m : String) : RunState :=
  let u := unblock m (s.blocked m) s.test
  { s with ready := u.1 ++ s.ready, test := u.2 }

/-- The branch of the loop body for a test that ended with `_success`. -/
def succeed (s : RunState) (t : TestPtr) : RunState :=
  let s := s.recordSuccess t
  let m := (s.test t).module
  if s.remaining m = ∅ then s.completeModule m else s

/-- The branch for a test that did not. -/
def failed (s : RunState) (t : TestPtr) : RunState :=
  { s with
    success := false
    unExpectedStatusSummary := bump s.unExpectedStatusSummary (s.test t).status }

/-- Running the test at the head of `ready`, up to the branch on its `_success`. -/
def runTest (modules : Finset String) (outcome : ℕ → TestPtr → Status) (s : RunState)
    (t : TestPtr) (ready : List TestPtr) : RunState :=
  let t' := (s.test t).take modules (outcome s.runCount t)
  { s with
    ready := ready
    test := Function.update s.test t t'
    skipCount := if t'.status = .skip then s.skipCount + 1 else s.skipCount
    runCount := s.runCount + 1
    taken := s.taken ++ [t] }

/-- One turn of `while (! ready.empty())`. -/
def step (modules : Finset String) (outcome : ℕ → TestPtr → Status) (s : RunState) :
    Option RunState :=
  match s.ready with
  | [] => none
  | t :: ready =>
    let s := s.runTest modules outcome t ready
    some (if (s.test t).success then s.succeed t else s.failed t)

/-- At most `n` turns of the main loop. -/
def loop (modules : Finset String) (outcome : ℕ → TestPtr → Status) (n : ℕ) (s : RunState) :
    RunState :=
  Loop.run (step modules outcome) n s

end RunState

namespace Registry

variable (r : Registry)

/-- `ready`, `blocked` and `remaining` before the main loop. -/
def setup : RunState :=
  r.tests.foldl (fun s moduleTests => moduleTests.2.foldl RunState.enqueue s) { test := r.test }

/-- `totalTestCount` after the set-up. -/
def totalTestCount : ℕ := r.tests.foldl (fun n moduleTests => n + moduleTests.2.length) 0

/-- The state in which `runAll` leaves its main loop: `totalTestCount` turns always suffice
(`Dtest.Registry.finish_ready`). -/
def finish (modules : Finset String) (outcome : ℕ → TestPtr → Status) : RunState :=
  r.setup.loop modules outcome r.totalTestCount

/-- The counts of the summary of `runAll`; the two differences are taken in `size_t`. -/
structure Summary where
  totalTestCount : ℕ
  runCount : ℕ
  skipCount : ℕ
  successCount : ℕ
  failedCount : ℕ
  blockedCount : ℕ
  expectedStatusSummary : Status → ℕ
  unExpectedStatusSummary : Status → ℕ

/-- The summary computed after the main loop. -/
def summary (modules : Finset String) (outcome : ℕ → TestPtr → Status) : Summary :=
  let s := r.finish modules outcome
  { totalTestCount := r.totalTestCount
    runCount := s.runCount
    skipCount := s.skipCount
    successCount := s.successCount
    failedCount := wsub s.runCount s.successCount
    blockedCount := wsub r.totalTestCount s.runCount
    expectedStatusSummary := s.expectedStatusSummary
    unExpectedStatusSummary := s.unExpectedStatusSummary }

/-- The verdict returned by `Test::runAll`. -/
def runAll (modules : Finset String) (outcome : ℕ → TestPtr → Status) : Bool :=
  (r.finish modules outcome).success

end Registry

/-- The last lines of `main`: what is printed about the verdict, and the exit status. -/
def mainVerdict (success : Bool) : String × ℕ :=
  if success then ("\nAll tests OK. See dtest.log.json for more details.\n\n", 0)
  else ("\nOne or more tests failed. See dtest.log.json for more details.\n\n", 1)

end Dtest
