import Dtest.Lib.Guarded
import Mathlib.Algebra.Order.Ring.Nat
import Mathlib.Data.Finset.Basic
import Mathlib.Logic.Function.Basic

/-!
# A driver and its pool over a sequence of distributed tests

The parties are the driver and the workers of the pool.  The state keeps what outlives a test: the
`_notifyCount` and `_userMessages` of every process, the connections a worker has not read to their
end, and the connections at the driver's socket that it has not read.  A test that is not in-process
runs in a forked child, which starts from a copy of the counters and queues and takes it along when
it ends; the connections are shared with the child, except those that the child accepted itself.

Everything sent is marked with the number of the test it was sent in.  A `uint32_t` counter of
notifications is the list of these numbers: its value is the length of the list, and counting one
more than `2 ^ 32 - 1` leaves it at 0.  `consumed` is the history of what `wait` counted and what
`getUserMessage` returned: the running test and the test it was sent in.
-/

namespace Dtest

/-- `++_notifyCount` for a notification sent in test `k`. -/
def countOne (count : List ℕ) (k : ℕ) : List ℕ :=
  if count.length + 1 = 2 ^ 32 then [] else count ++ [k]

/-- What a party sends to another. -/
inductive Item
  | runTest
  | notify
  | userMessage
  deriving DecidableEq

/-- A message with the test it was sent in. -/
structure Sent where
  item : Item
  test : ℕ
  deriving DecidableEq

/-- `_notifyCount` and `_userMessages` of a process running a `WorkerContext`. -/
structure WorkerInbox where
  notifyCount : List ℕ := []
  userMessages : List ℕ := []
  deriving DecidableEq

/-- The cases NOTIFY and USER_MESSAGE of `WorkerContext::_waitForEvent`. -/
def WorkerInbox.receive (b : WorkerInbox) (m : Sent) : WorkerInbox :=
  match m.item with
  | .runTest => b
  | .notify => { b with notifyCount := countOne b.notifyCount m.test }
  | .userMessage => { b with userMessages := b.userMessages ++ [m.test] }

/-- A worker.  `inTest` is the test that its `RUN_TEST` case runs, `child` the copy in the forked
process of that test, and `unread` lists the connections from the driver with their unread
messages. -/
structure WorkerParty where
  inbox : WorkerInbox := {}
  child : Option WorkerInbox := none
  inTest : Option ℕ := none
  unread : List (List Sent) := []
  deriving DecidableEq

namespace WorkerParty

/-- The inbox of the process that reads the socket. -/
def active (w : WorkerParty) : WorkerInbox := w.child.getD w.inbox

def setActive (w : WorkerParty) (b : WorkerInbox) : WorkerParty :=
  match w.child with
  | some _ => { w with child := some b }
  | none => { w with inbox := b }

/-- `WorkerContext::_waitForEvent` for the message it receives.  A RUN_TEST during a test is
dropped. -/
def handle (w : WorkerParty) (inProcess : Bool) (m : Sent) : WorkerParty :=
  match m.item, w.inTest with
  | .runTest, none =>
    { w with inTest := some m.test, child := if inProcess then none else some w.inbox }
  | .runTest, some _ => w
  | _, _ => w.setActive (w.active.receive m)

/-- The first message of connection `i` and the connections without it. -/
def pop : ℕ → List (List Sent) → Option (Sent × List (List Sent))
  | _, [] => none
  | 0, [] :: _ => none
  | 0, (m :: c) :: cs => some (m, c :: cs)
  | i + 1, c :: cs => (pop i cs).map fun r => (r.1, c :: r.2)

/-- The first message of connection `i` is read and handled. -/
def read (w : WorkerParty) (inProcess : Bool) (i : ℕ) : WorkerParty :=
  match pop i w.unread with
  | none => w
  | some (m, unread) => { w with unread }.handle inProcess m

end WorkerParty

/-- The counters of `_allocatedWorkers` and `_userMessages` of a process running the
`DriverContext`. -/
structure DriverInbox where
  notifyCount : ℕ → List ℕ := fun _ => []
  userMessages : List ℕ := []

/-- A connection to the driver's socket that has not been read: a worker opens one for each message.
`accepted` is `none` while it waits at the listening socket and tells afterwards whether a forked
test accepted it. -/
structure Incoming where
  worker : ℕ
  item : Item
  test : ℕ
  accepted : Option Bool := none
  deriving DecidableEq

/-- Where the driver is: between two tests, in the body of a test, or in `_join`. -/
inductive Phase
  | idle
  | body
  | joining
  deriving DecidableEq

/-- The driver and the pool. -/
structure Session where
  phase : Phase := .idle
  test : ℕ := 0
  inProcess : Bool := false
  allocated : Finset ℕ := ∅
  done : Finset ℕ := ∅
  inbox : DriverInbox := {}
  child : Option DriverInbox := none
  unread : List Incoming := []
  workers : ℕ → WorkerParty := fun _ => {}
  consumed : List (ℕ × ℕ) := []

/-- The steps of the parties. -/
inductive SessionStep
  /-- `_allocateWorkers` and `_run`. -/
  | start (workers : Finset ℕ) (inProcess : Bool)
  | driverSends (item : Item)
  | driverAccepts (i : ℕ)
  | driverReads (i : ℕ)
  /-- A `wait` of the driver counts a worker. -/
  | driverPulls (worker : ℕ)
  | driverGets
  | driverBodyEnds
  /-- `_join` and `_deallocateWorkers`. -/
  | finish
  | workerReads (worker i : ℕ)
  | workerSends (worker : ℕ) (item : Item)
  /-- A `wait(n)` of a worker returns. -/
  | workerWaits (worker n : ℕ)
  | workerGets (worker : ℕ)
  | workerEnds (worker : ℕ)

namespace Session

/-- The inbox of the driver process that reads the socket. -/
def active (s : Session) : DriverInbox := s.child.getD s.inbox

def setActive (s : Session) (b : DriverInbox) : Session :=
  match s.child with
  | some _ => { s with child := some b }
  | none => { s with inbox := b }

def updateWorker (s : Session) (w : ℕ) (p : WorkerParty) : Session :=
  { s with workers := Function.update s.workers w p }

/-- The driver's message on the connections of this test, which are the last ones. -/
def appendToLast (m : Sent) : List (List Sent) → List (List Sent)
  | [] => []
  | [c] => [c ++ [m]]
  | c :: d :: cs => c :: appendToLast m (d :: cs)

/-- `DriverContext::_waitForEvent` for the message of a connection. -/
def receive (s : Session) (c : Incoming) : Session :=
  match c.item with
  | .notify =>
    if c.worker ∈ s.allocated then
      s.setActive { s.active with
        notifyCount := Function.update s.active.notifyCount c.worker
          (countOne (s.active.notifyCount c.worker) c.test) }
    else s
  | .userMessage =>
    s.setActive { s.active with userMessages := s.active.userMessages ++ [c.test] }
  | .runTest => s

/-- Something sent in test `k` is consumed in test `now`. -/
def consume (s : Session) (now k : ℕ) : Session := { s with consumed := s.consumed ++ [(now, k)] }

/-- A new test: the counters of the allocated workers start from 0, each worker gets a new
connection with the RUN_TEST message, and the test forks unless it is in-process. -/
def startTest (s : Session) (ws : Finset ℕ) (inProcess : Bool) : Session :=
  let inbox := { s.inbox with notifyCount := fun _ => [] }
  { s with
    phase := .body
    test := s.test + 1
    inProcess
    allocated := ws
    done := ∅
    inbox
    child := if inProcess then none else some inbox
    workers := fun w =>
      if w ∈ ws then
        { s.workers w with unread := (s.workers w).unread ++ [[⟨.runTest, s.test + 1⟩]] }
      else s.workers w }

def step (s : Session) : SessionStep → Session
  | .start ws inProcess => s.startTest ws inProcess
  | .driverSends item =>
    { s with workers := fun w =>
        if w ∈ s.allocated then
          { s.workers w with unread := appendToLast ⟨item, s.test⟩ (s.workers w).unread }
        else s.workers w }
  | .driverAccepts i =>
    { s with unread := s.unread.modify i fun c => { c with accepted := some s.child.isSome } }
  | .driverReads i =>
    match s.unread[i]? with
    | none => s
    | some c => { s with unread := s.unread.eraseIdx i }.receive c
  | .driverPulls w =>
    match s.active.notifyCount w with
    | [] => s
    | k :: ks =>
      (s.setActive { s.active with
        notifyCount := Function.update s.active.notifyCount w ks }).consume s.test k
  | .driverGets =>
    match s.active.userMessages with
    | [] => s
    | k :: ks => (s.setActive { s.active with userMessages := ks }).consume s.test k
  | .driverBodyEnds =>
    -- the connections that the child accepted are closed with it
    { s with
      phase := .joining
      child := none
      unread := if s.child.isSome then s.unread.filter (·.accepted ≠ some true) else s.unread }
  | .finish => { s with phase := .idle, allocated := ∅, done := ∅ }
  | .workerReads w i => s.updateWorker w ((s.workers w).read s.inProcess i)
  | .workerSends w item =>
    match (s.workers w).inTest with
    | none => s
    | some k => { s with unread := s.unread ++ [⟨w, item, k, none⟩] }
  | .workerWaits w n =>
    match (s.workers w).inTest with
    | none => s
    | some k =>
      let b := (s.workers w).active
      { s.updateWorker w ((s.workers w).setActive
        { b with notifyCount := b.notifyCount.drop n }) with
        consumed := s.consumed ++ (b.notifyCount.take n).map (k, ·) }
  | .workerGets w =>
    match (s.workers w).inTest, (s.workers w).active.userMessages with
    | some k, m :: ms =>
      (s.updateWorker w ((s.workers w).setActive
        { (s.workers w).active with userMessages := ms })).consume k m
    | _, _ => s
  | .workerEnds w =>
    { s.updateWorker w { s.workers w with inTest := none, child := none } with
      done := insert w s.done }

/-- When a step can be taken: the driver's calls in the body of its test, the workers' calls in
theirs, and `_join` until every allocated worker has finished. -/
def Allowed (s : Session) : SessionStep → Prop
  | .start _ _ => s.phase = .idle
  | .driverSends item => s.phase = .body ∧ item ≠ .runTest
  | .driverAccepts i => s.phase = .body ∧ (s.unread[i]?).map (·.accepted) = some none
  | .driverReads i => s.phase = .body ∧ ((s.unread[i]?).bind (·.accepted)).isSome
  | .driverPulls w => s.phase = .body ∧ w ∈ s.allocated ∧ s.active.notifyCount w ≠ []
  | .driverGets => s.phase = .body ∧ s.active.userMessages ≠ []
  | .driverBodyEnds => s.phase = .body
  | .finish => s.phase = .joining ∧ s.allocated ⊆ s.done
  | .workerReads w i => (WorkerParty.pop i (s.workers w).unread).isSome
  | .workerSends w item => (s.workers w).inTest.isSome ∧ item ≠ .runTest
  | .workerWaits w n =>
    (s.workers w).inTest.isSome ∧ n ≤ (s.workers w).active.notifyCount.length
  | .workerGets w => (s.workers w).inTest.isSome ∧ (s.workers w).active.userMessages ≠ []
  | .workerEnds w => (s.workers w).inTest.isSome

instance (s : Session) : ∀ e, Decidable (s.Allowed e)
  | .start .. => inferInstanceAs (Decidable (_ = _))
  | .driverSends _ => inferInstanceAs (Decidable (_ ∧ _))
  | .driverAccepts _ => inferInstanceAs (Decidable (_ ∧ _))
  | .driverReads _ => inferInstanceAs (Decidable (_ ∧ _))
  | .driverPulls _ => inferInstanceAs (Decidable (_ ∧ _ ∧ _))
  | .driverGets => inferInstanceAs (Decidable (_ ∧ _))
  | .driverBodyEnds => inferInstanceAs (Decidable (_ = _))
  | .finish => inferInstanceAs (Decidable (_ ∧ _))
  | .workerReads .. => inferInstanceAs (Decidable (_ = true))
  | .workerSends .. => inferInstanceAs (Decidable (_ ∧ _))
  | .workerWaits .. => inferInstanceAs (Decidable (_ ∧ _))
  | .workerGets _ => inferInstanceAs (Decidable (_ ∧ _))
  | .workerEnds _ => inferInstanceAs (Decidable (_ = true))

/-- The system of the driver and its pool. -/
def system : Guarded Session SessionStep := ⟨Allowed, step⟩

instance (s : Session) (e : SessionStep) : Decidable (system.allowed s e) :=
  inferInstanceAs (Decidable (s.Allowed e))

end Session

end Dtest
