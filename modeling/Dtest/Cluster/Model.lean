import Dtest.Driver.Pool
import Dtest.Lib.Progress

/-!
# The driver and the worker processes over a sequence of distributed tests

The driver's side is `Test::_run` with the loops of `_allocateWorkers`, `_run`, `_join` and
`_deallocateWorkers` taken one round at a time; a worker's side is `runWorker` with the RUN_TEST and
TERMINATE cases of `_waitForEvent`.  Processes are found under the addresses of their sockets.  The
connections to `_superSocket` carry one message each and are read in any order; a connection from
the driver to a worker is made once a test, is named by the number of that test, and is read in
order.

The messages of the tests themselves (NOTIFY and USER_MESSAGE) are not part of this system, the
function of a test always returns, and no process fails.  `ran` is the history of the tests that
workers have run, `joined` that of the tests the driver has collected.

`α` is the type of socket addresses and `τ` that of test names, of which `registered` are known to
the workers.
-/

namespace Dtest

variable {α τ : Type}

/-- The messages that start and end a worker's work. -/
inductive Command (τ : Type)
  | runTest (name : τ)
  | terminate
  deriving DecidableEq, Repr

/-- Where a worker process is: before its WORKER_STARTED message, in the `_waitForEvent` of
`runWorker`, in the `_run` of a test, or between its FINISHED_TEST message and `_inTest = false`. -/
inductive Activity (τ : Type)
  | starting
  | waiting
  | inTest (test : ℕ) (name : τ)
  | reported
  deriving DecidableEq, Repr

/-- The worker can be in `_waitForEvent`, which the functions of a test call too. -/
def Activity.reads : Activity τ → Bool
  | .waiting | .inTest _ _ => true
  | _ => false

/-- WORKER_STARTED is sent. -/
def Activity.start? : Activity τ → Option (Activity τ)
  | .starting => some .waiting
  | _ => none

/-- `_inTest = false` after a test. -/
def Activity.return? : Activity τ → Option (Activity τ)
  | .reported => some .waiting
  | _ => none

/-- A worker process.  Its `pid` is that by which the driver has forked it, or 0 if it has not.
`unread` lists what the driver has sent to it, each message with its connection. -/
structure WorkerProcess (τ : Type) where
  id : ℕ
  pid : ℤ := 0
  activity : Activity τ := .starting
  unread : List (ℕ × Command τ) := []
  deriving DecidableEq, Repr

/-- The cases RUN_TEST and TERMINATE of `WorkerContext::_waitForEvent`: a worker in a test drops a
RUN_TEST, an unknown test is not run, and TERMINATE exits. -/
def WorkerProcess.waitForEvent (registered : τ → Bool) (p : WorkerProcess τ) :
    ℕ × Command τ → Option (WorkerProcess τ)
  | (_, .terminate) => none
  | (test, .runTest name) =>
    match p.activity with
    | .waiting => some (if registered name then { p with activity := .inTest test name } else p)
    | _ => some p

/-- A worker's run of a test. -/
structure Ran (τ : Type) where
  test : ℕ
  worker : ℕ
  name : τ
  status : Status
  detailedReport : String
  deriving DecidableEq, Repr

/-- A test that the driver has collected: the status before `_join`, the workers in the order of
`_join`, and the outcome. -/
structure Collected (τ : Type) where
  test : ℕ
  name : τ
  numWorkers : ℕ
  status : Status
  order : List ℕ
  result : JoinedTest
  deriving DecidableEq, Repr

/-- The test that the driver runs. -/
structure RunningTest (τ : Type) where
  name : τ
  numWorkers : ℕ
  extraWorkers : List ℕ := []
  deriving DecidableEq, Repr

/-- Where the driver is in `Test::_run`. -/
inductive TestPhase
  /-- The first loop of `_allocateWorkers`. -/
  | spawning
  /-- The second loop of `_allocateWorkers`. -/
  | allocating (n : ℕ) (order : List ℕ)
  /-- `_run`. -/
  | sending (order : List ℕ)
  /-- `_driverRun`. -/
  | body
  /-- `_join`, for a test whose status was `status`, with the workers in `before` collected. -/
  | joining (status : Status) (before order : List ℕ) (result : JoinedTest)
  /-- `_deallocateWorkers`. -/
  | terminating (ids : List ℕ)
  /-- `waitpid` for worker `id`. -/
  | awaiting (id : ℕ) (ids : List ℕ)
  deriving DecidableEq, Repr

/-- The driver, its messages in flight, and the worker processes. -/
structure Cluster (α τ : Type) [LinearOrder α] where
  driver : DriverContext α Unit := {}
  test : ℕ := 0
  running : Option (RunningTest τ × TestPhase) := none
  superFrames : List (SuperFrame α) := []
  processes : SortedMap α (WorkerProcess τ) := .empty
  ran : List (Ran τ) := []
  joined : List (Collected τ) := []

/-- The moves of the driver and of the workers, with what the environment decides. -/
inductive ClusterMove (α τ : Type)
  | start (name : τ) (numWorkers : ℕ)
  | spawnWorker (addr : α) (pid : ℤ)
  | spawned (order : List ℕ)
  | allocate
  | allocated (order : List ℕ)
  | sendRunTest
  | runDriver
  | driverRan (status : Status) (order : List ℕ)
  | collect
  | joined
  | terminate
  | reap
  | deallocated
  | superEvent (i : ℕ)
  | workerStarts (addr : α)
  | workerReads (addr : α) (i : ℕ)
  | workerFinishes (addr : α) (status : Status) (detailedReport : String)
  | workerReturns (addr : α)

namespace Cluster

variable [LinearOrder α] (s : Cluster α τ)

/-- The handle of a worker in `_workers` has its `_running` set. -/
def isRunning (k : ℕ) : Bool := (s.driver.workers.find? k).any (·.running)

/-- The driver is in `_waitForSuperEvent`. -/
def awaitsSuper : Bool :=
  match s.running with
  | some (_, .allocating (_ + 1) (k :: _)) => !s.isRunning k
  | some (_, .joining _ _ (k :: _) _) => !s.driver.isDone k
  | _ => false

/-- The driver has a child with this pid, which has not exited. -/
def hasChild (pid : ℤ) : Bool := s.processes.entries.any fun e => e.2.pid == pid

/-- The driver's next phase. -/
def toPhase (t : RunningTest τ) (p : TestPhase) : Cluster α τ := { s with running := some (t, p) }

/-- `send` on the connection of a handle, which is made at the first message of a test. -/
def send (k : ℕ) (m : Command τ) : Option (Cluster α τ) := do
  let w ← s.driver.allocatedWorkers.find? k
  let addr ← w.connection
  let p ← s.processes.find? addr
  return { s with processes := s.processes.set addr { p with unread := p.unread ++ [(s.test, m)] } }

/-- One round of the loop in `_allocateWorkers` that spawns. -/
def spawnWorker (t : RunningTest τ) (addr : α) (pid : ℤ) : Option (Cluster α τ) := do
  let (driver, ids) ← DriverContext.spawnStep (fun _ => pid) t.numWorkers (s.driver, t.extraWorkers)
  return { s with
    driver
    running := some ({ t with extraWorkers := ids }, .spawning)
    processes := s.processes.insert addr { id := s.driver.workers.size + 1, pid } }

/-- The end of the loop of `_join` for worker `k`. -/
def collect (t : RunningTest τ) (status : Status) (before : List ℕ) (k : ℕ) (order : List ℕ)
    (result : JoinedTest) : Option (Cluster α τ) := do
  let w ← s.driver.allocatedWorkers.find? k
  if w.done then some (s.toPhase t (.joining status (before ++ [k]) order (result.add w))) else none

/-- `_deallocateWorkers` for worker `k`, up to `waitpid`. -/
def terminate (t : RunningTest τ) (k : ℕ) (ids : List ℕ) : Option (Cluster α τ) := do
  let s ← s.send k .terminate
  return s.toPhase t (.awaiting k ids)

/-- The end of `_deallocateWorkers` for worker `k`, when there is no child to wait for or the child
is gone. -/
def reap (t : RunningTest τ) (k : ℕ) (ids : List ℕ) : Option (Cluster α τ) := do
  let w ← s.driver.allocatedWorkers.find? k
  let (_, pid) ← w.terminate
  if pid.any s.hasChild then none
  else some { s with
    driver := { s.driver with workers := s.driver.workers.erase k }
    running := some (t, .terminating ids) }

/-- A message of the super socket is processed. -/
def superEvent (i : ℕ) : Option (Cluster α τ) := do
  let f ← s.superFrames[i]?
  return { s with
    driver := (s.driver.waitForSuperEvent f).1
    superFrames := s.superFrames.eraseIdx i }

/-- A worker reads a message, the first one of its connection. -/
def workerReads (registered : τ → Bool) (addr : α) (i : ℕ) : Option (Cluster α τ) := do
  let p ← s.processes.find? addr
  let m ← p.unread[i]?
  if p.activity.reads ∧ ∀ m' ∈ p.unread.take i, m'.1 ≠ m.1 then
    match { p with unread := p.unread.eraseIdx i }.waitForEvent registered m with
    | none => some { s with processes := s.processes.erase addr }
    | some p => some { s with processes := s.processes.set addr p }
  else none

/-- The process at `addr` moves on, where it is in an activity that `next` is defined for. -/
def advance (addr : α) (next : Activity τ → Option (Activity τ)) : Option (Cluster α τ) := do
  let p ← s.processes.find? addr
  let activity ← next p.activity
  return { s with processes := s.processes.set addr { p with activity } }

/-- A worker sends WORKER_STARTED. -/
def workerStarts (addr : α) : Option (Cluster α τ) := do
  let p ← s.processes.find? addr
  let s ← s.advance addr Activity.start?
  return { s with superFrames := s.superFrames ++ [.workerStarted p.id addr] }

/-- The test of a worker ends, and the worker sends FINISHED_TEST. -/
def workerFinishes (addr : α) (status : Status) (detailedReport : String) :
    Option (Cluster α τ) := do
  let p ← s.processes.find? addr
  match p.activity with
  | .inTest test name =>
    return { s with
      processes := s.processes.set addr { p with activity := .reported }
      superFrames := s.superFrames ++ [.finishedTest p.id status detailedReport]
      ran := s.ran ++ [⟨test, p.id, name, status, detailedReport⟩] }
  | _ => none

/-- A move, where it can be made. -/
def move (registered : τ → Bool) (s : Cluster α τ) : ClusterMove α τ → Option (Cluster α τ)
  | .start name numWorkers =>
    match s.running with
    | none => some { s with test := s.test + 1, running := some ({ name, numWorkers }, .spawning) }
    | some _ => none
  | .spawnWorker addr pid =>
    match s.running with
    | some (t, .spawning) =>
      if s.processes.find? addr = none ∧ 0 < pid ∧ s.hasChild pid = false then
        s.spawnWorker t addr pid
      else none
    | _ => none
  | .spawned order =>
    match s.running with
    | some (t, .spawning) =>
      if t.numWorkers ≤ s.driver.workers.size ∧ s.driver.workers.Iterates order then
        some (s.toPhase t (.allocating t.numWorkers order))
      else none
    | _ => none
  | .allocate =>
    match s.running with
    | some (t, .allocating (n + 1) (k :: order)) =>
      if s.isRunning k then
        some ({ s with driver := s.driver.allocate k }.toPhase t (.allocating n order))
      else none
    | _ => none
  | .allocated order' =>
    match s.running with
    | some (t, .allocating n order) =>
      if (n = 0 ∨ order = []) ∧ s.driver.allocatedWorkers.Iterates order' then
        some (s.toPhase t (.sending order'))
      else none
    | _ => none
  | .sendRunTest =>
    match s.running with
    | some (t, .sending (k :: order)) =>
      (s.send k (.runTest t.name)).map fun s => s.toPhase t (.sending order)
    | _ => none
  | .runDriver =>
    match s.running with
    | some (t, .sending []) => some (s.toPhase t .body)
    | _ => none
  | .driverRan status order =>
    match s.running with
    | some (t, .body) =>
      if s.driver.allocatedWorkers.Iterates order then
        some (s.toPhase t (.joining status [] order { status }))
      else none
    | _ => none
  | .collect =>
    match s.running with
    | some (t, .joining status before (k :: order) result) =>
      s.collect t status before k order result
    | _ => none
  | .joined =>
    match s.running with
    | some (t, .joining status before [] result) =>
      let c : Collected τ := ⟨s.test, t.name, t.numWorkers, status, before, result⟩
      some ({ s with joined := s.joined ++ [c] }.toPhase t (.terminating t.extraWorkers))
    | _ => none
  | .terminate =>
    match s.running with
    | some (t, .terminating (k :: ids)) => s.terminate t k ids
    | _ => none
  | .reap =>
    match s.running with
    | some (t, .awaiting k ids) => s.reap t k ids
    | _ => none
  | .deallocated =>
    match s.running with
    | some (_, .terminating []) =>
      some { s with driver := { s.driver with allocatedWorkers := .empty }, running := none }
    | _ => none
  | .superEvent i => if s.awaitsSuper then s.superEvent i else none
  | .workerStarts addr => s.workerStarts addr
  | .workerReads addr i => s.workerReads registered addr i
  | .workerFinishes addr status detailedReport => s.workerFinishes addr status detailedReport
  | .workerReturns addr => s.advance addr Activity.return?

/-- The driver started with `--workers` options and the workers started beside it. -/
def init (options : List ℕ) (external : SortedMap α ℕ) : Cluster α τ :=
  { driver := options.foldl DriverContext.addWorkers {}
    processes := external.map fun id => { id } }

end Cluster

end Dtest
