import Dtest.Lib.Loop
import Dtest.Lib.SortedMap
import Dtest.Scheduler.Model

/-!
# `DriverContext`: worker handles, event processing, allocation

A hash map is a `SortedMap`, and every loop over one takes the iteration order as an argument
(`SortedMap.Iterates`).  A message is what is left of it after the operation code and the worker id:
`SuperFrame` for the socket of the life cycle, `Frame` for the socket of the tests.  A loop that
waits for messages takes the messages in the order they are processed and is undefined where they
run out.

`α` is the type of socket addresses and `μ` that of user messages.
-/

namespace Dtest

universe u v

variable {α : Type u} {μ : Type v}

/-- The value `-1u` that `_waitForEvent` and `_waitForSuperEvent` return for an unknown worker. -/
def noWorker : ℕ := 2 ^ 32 - 1

/-- `DriverContext::WorkerHandle`.  `addr` is `none` while `_addr` is uninitialised; `socket` tells
whether the constructor of `_socket` connects to `_addr` or returns a null pointer. -/
structure WorkerHandle (α : Type u) where
  id : ℕ := noWorker
  addr : Option α := none
  pid : ℤ := 0
  running : Bool := false
  socket : Bool := false
  notifyCount : ℕ := 0
  done : Bool := false
  status : Status := .pending
  detailedReport : String := ""
  deriving DecidableEq, Repr

namespace WorkerHandle

/-- `WorkerHandle(id, pid)`. -/
def ofId (id : ℕ) (pid : ℤ := 0) : WorkerHandle α := { id, pid, socket := true }

/-- `operator=`: everything but the status and the report. -/
def assign (lhs rhs : WorkerHandle α) : WorkerHandle α :=
  { rhs with socket := true, status := lhs.status, detailedReport := lhs.detailedReport }

/-- `++_notifyCount`. -/
def increment (w : WorkerHandle α) : WorkerHandle α :=
  { w with notifyCount := (w.notifyCount + 1) % 2 ^ 32 }

/-- `--_notifyCount`. -/
def decrement (w : WorkerHandle α) : WorkerHandle α :=
  { w with notifyCount := (2 ^ 32 - 1 + w.notifyCount) % 2 ^ 32 }

@[simp] theorem decrement_id (w : WorkerHandle α) : w.decrement.id = w.id := rfl

/-- The connection that `_socket` holds once it is used; `none` where the program dereferences a
null pointer or connects to an uninitialised address. -/
def connection (w : WorkerHandle α) : Option α := if w.socket then w.addr else none

/-- `terminate`: the address the TERMINATE message goes to and the process waited for. -/
def terminate (w : WorkerHandle α) : Option (α × Option ℤ) :=
  w.connection.map fun addr => (addr, if w.pid ≠ 0 then some w.pid else none)

end WorkerHandle

/-- A message on `_superSocket`. -/
inductive SuperFrame (α : Type u)
  | workerStarted (id : ℕ) (addr : α)
  | finishedTest (id : ℕ) (status : Status) (detailedReport : String)
  | other (id : ℕ)

/-- A message on `_socket`. -/
inductive Frame (μ : Type v)
  | notify (id : ℕ)
  | userMessage (id : ℕ) (m : μ)
  | other (id : ℕ)

/-- The maps and the queue of `DriverContext`. -/
structure DriverContext (α : Type u) (μ : Type v) where
  workers : SortedMap ℕ (WorkerHandle α) := .empty
  allocatedWorkers : SortedMap ℕ (WorkerHandle α) := .empty
  userMessages : List μ := []

/-- `m[k] = w`: the assignment to an existing handle or to a default constructed one. -/
def assignAt (m : SortedMap ℕ (WorkerHandle α)) (k : ℕ) (w : WorkerHandle α) :
    SortedMap ℕ (WorkerHandle α) :=
  m.set k (((m.find? k).getD {}).assign w)

namespace DriverContext

/-- `addWorker`. -/
def addWorker (c : DriverContext α μ) (id : ℕ) : DriverContext α μ :=
  { c with workers := assignAt c.workers id (.ofId id) }

/-- The `--workers` option of `parseArguments`. -/
def addWorkers (c : DriverContext α μ) (numWorkers : ℕ) : DriverContext α μ :=
  (List.range numWorkers).foldl addWorker c

/-- `_waitForSuperEvent` for the message it receives, with the worker id it returns. -/
def waitForSuperEvent (c : DriverContext α μ) : SuperFrame α → DriverContext α μ × ℕ
  | .workerStarted id addr =>
    match c.workers.find? id with
    | none => (c, noWorker)
    | some w =>
      ({ c with workers := c.workers.set id { w with addr := some addr, running := true } }, id)
  | .finishedTest id status detailedReport =>
    match c.allocatedWorkers.find? id with
    | none => (c, noWorker)
    | some w =>
      ({ c with
          allocatedWorkers :=
            c.allocatedWorkers.set id { w with done := true, status, detailedReport } }, id)
  | .other id => (c, id)

/-- `_waitForEvent` for the message it receives, with the worker id it returns. -/
def waitForEvent (c : DriverContext α μ) : Frame μ → DriverContext α μ × ℕ
  | .notify id =>
    match c.allocatedWorkers.find? id with
    | none => (c, noWorker)
    | some w => ({ c with allocatedWorkers := c.allocatedWorkers.set id w.increment }, id)
  | .userMessage id m => ({ c with userMessages := c.userMessages ++ [m] }, id)
  | .other id => (c, id)

/-- `while (! cond) _waitForSuperEvent();` with the messages left over. -/
def superEventsUntil (cond : DriverContext α μ → Bool) :
    List (SuperFrame α) → DriverContext α μ → Option (DriverContext α μ × List (SuperFrame α))
  | [], c => if cond c then some (c, []) else none
  | f :: frames, c =>
    if cond c then some (c, f :: frames)
    else superEventsUntil cond frames (c.waitForSuperEvent f).1

/-- `_spawnWorker`; `fork` is the process id of the worker forked with an id.  The id is below the
number of workers of a test, a `uint16_t`, plus one, so that it fits its type. -/
def spawnWorker (fork : ℕ → ℤ) (c : DriverContext α μ) : DriverContext α μ × WorkerHandle α :=
  let id := c.workers.size + 1
  let w := .ofId id (fork id)
  ({ c with workers := assignAt c.workers id w }, w)

/-- One round of the spawning loop of `_allocateWorkers`. -/
def spawnStep (fork : ℕ → ℤ) (n : ℕ) (s : DriverContext α μ × List ℕ) :
    Option (DriverContext α μ × List ℕ) :=
  if s.1.workers.size < n then
    let (c, w) := s.1.spawnWorker fork
    some ({ c with workers := assignAt c.workers w.id w }, s.2 ++ [w.id])
  else none

/-- The handle of a worker is reset and copied into `_allocatedWorkers`. -/
def allocate (c : DriverContext α μ) (k : ℕ) : DriverContext α μ :=
  match c.workers.find? k with
  | none => c
  | some w =>
    let w := { w with notifyCount := 0, done := false }
    { c with
      workers := c.workers.set k w
      allocatedWorkers := assignAt c.allocatedWorkers w.id w }

/-- The second loop of `_allocateWorkers`, over `_workers` in the given order. -/
def allocateLoop : List ℕ → ℕ → DriverContext α μ → List (SuperFrame α) →
    Option (DriverContext α μ × List (SuperFrame α))
  | [], _, c, frames => some (c, frames)
  | k :: order, n, c, frames =>
    if n = 0 then some (c, frames)
    else do
      let (c, frames) ← superEventsUntil (fun c => (c.workers.find? k).any (·.running)) frames c
      allocateLoop order (n - 1) (c.allocate k) frames

/-- The state in which the second loop of `_allocateWorkers` starts and the spawned ids. -/
def spawned (fork : ℕ → ℤ) (n : ℕ) (c : DriverContext α μ) : DriverContext α μ × List ℕ :=
  Loop.run (spawnStep fork n) n (c, [])

/-- `_allocateWorkers`: the context, the spawned ids, and the messages left over. -/
def allocateWorkers (fork : ℕ → ℤ) (n : ℕ) (order : List ℕ) (frames : List (SuperFrame α))
    (c : DriverContext α μ) :
    Option (DriverContext α μ × List ℕ × List (SuperFrame α)) :=
  let s := c.spawned fork n
  (allocateLoop order n s.1 frames).map fun r => (r.1, s.2, r.2)

/-- `_deallocateWorkers`, with the results of `terminate`; undefined where `terminate` is. -/
def deallocateWorkers : List ℕ → DriverContext α μ →
    Option (DriverContext α μ × List (α × Option ℤ))
  | [], c => some ({ c with allocatedWorkers := .empty }, [])
  | w :: spawnedWorkers, c =>
    -- `operator[]` creates a handle where there is none
    let h := (c.allocatedWorkers.find? w).getD {}
    match h.terminate with
    | none => none
    | some r =>
      let c := { c with
        allocatedWorkers := c.allocatedWorkers.set w h
        workers := c.workers.erase w }
      (deallocateWorkers spawnedWorkers c).map fun s => (s.1, r :: s.2)

end DriverContext

end Dtest
