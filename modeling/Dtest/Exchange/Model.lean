import Dtest.Driver.Wait
import Dtest.Lib.Progress

/-!
# The bodies of a distributed test

The driver and the workers that it has allocated run their parts of one test at the same time.  A
body is the list of its calls of `Context`.  Every party reads its socket in `wait` and
`getUserMessage` only: a worker what the driver has sent on the one connection of its handle, in
that order, and the driver the messages of all workers, each of which comes on a connection of its
own, in any order.

The driver's `wait` and `getUserMessage` are those of `WaitRun`.  The loops of its `notify` and
`sendUserMessage` over `_allocatedWorkers` send to one worker after the other, so that the workers
go on in between.

A body is a fixed list of calls: one that branches on a message it has received is not modelled.  Of
the tests before only the counts and the queues are left, in the driver's context and in the
processes of the workers.  Their messages have all been read: nothing of them waits at the driver's
socket or at an old connection of a worker.
-/

namespace Dtest

universe u v

variable {α : Type u} {μ : Type v}

/-- A call of `Context` in a body. -/
inductive BodyCall (μ : Type v)
  | notify
  | sendUserMessage (message : μ)
  | wait (n : ℕ)
  | getUserMessage
  deriving DecidableEq

/-- A message of the driver to a worker. -/
inductive WorkerItem (μ : Type v)
  | notify
  | userMessage (message : μ)
  deriving DecidableEq

/-- A step of the driver's body. -/
inductive DriverStep (μ : Type v)
  | send (id : ℕ) (item : WorkerItem μ)
  | wait (n : ℕ)
  | getUserMessage
  deriving DecidableEq

/-- The steps of a call of the driver, with the iteration order of `_allocatedWorkers`. -/
def BodyCall.driverSteps (order : List ℕ) : BodyCall μ → List (DriverStep μ)
  | .notify => order.map (DriverStep.send · .notify)
  | .sendUserMessage message => order.map (DriverStep.send · (.userMessage message))
  | .wait n => [.wait n]
  | .getUserMessage => [.getUserMessage]

/-- A distributed test of the driver with the workers of `ctx`: the fixed calls of every party.  The
last two functions are what the processes of the workers have left from earlier tests. -/
structure Bodies (α : Type u) (μ : Type v) where
  ctx : DriverContext α μ
  order : List ℕ
  fresh : ctx.Fresh
  iterates : ctx.allocatedWorkers.Iterates order
  body : List (BodyCall μ)
  workerBody : ℕ → List (BodyCall μ)
  notifyCount : ℕ → ℕ := fun _ => 0
  userMessages : ℕ → List μ := fun _ => []

/-- The steps of the driver's body. -/
def Bodies.steps (t : Bodies α μ) : List (DriverStep μ) :=
  t.body.flatMap (BodyCall.driverSteps t.order)

/-! ## The workers -/

/-- A worker in its body.  `pc` counts the calls that have returned, `unread` is the connection from
the driver, and `received` what the calls of `getUserMessage` have returned. -/
structure WorkerSide (μ : Type v) where
  pc : ℕ := 0
  notifyCount : ℕ := 0
  userMessages : List μ := []
  unread : List (WorkerItem μ) := []
  received : List μ := []
  deriving DecidableEq

namespace WorkerSide

/-- The cases NOTIFY and USER_MESSAGE of `_waitForEvent`. -/
def waitForEvent (w : WorkerSide μ) : WorkerItem μ → WorkerSide μ
  | .notify => { w with notifyCount := (w.notifyCount + 1) % 2 ^ 32 }
  | .userMessage message => { w with userMessages := w.userMessages ++ [message] }

/-- The number of notifications that `wait(n)` of a worker waits for. -/
def waitCount (n : ℕ) : ℕ := if n = 2 ^ 32 - 1 then 1 else n

/-- The loop of a call reads another message. -/
def reads (w : WorkerSide μ) : BodyCall μ → Bool
  | .wait n => w.notifyCount < waitCount n
  | .getUserMessage => w.userMessages.isEmpty
  | _ => false

/-- A call of worker `id` returns, with what it sends to the driver. -/
def call (w : WorkerSide μ) (id : ℕ) : BodyCall μ → WorkerSide μ × List (Frame μ)
  | .notify => ({ w with pc := w.pc + 1 }, [.notify id])
  | .sendUserMessage message => ({ w with pc := w.pc + 1 }, [.userMessage id message])
  | .wait n => ({ w with pc := w.pc + 1, notifyCount := w.notifyCount - waitCount n }, [])
  | .getUserMessage =>
    match w.userMessages with
    | [] => (w, [])
    | message :: rest =>
      ({ w with pc := w.pc + 1, userMessages := rest, received := w.received ++ [message] }, [])

end WorkerSide

/-! ## The system -/

/-- The calls of the driver that read the socket. -/
def DriverCall.reads : DriverCall → Bool
  | .waiting .. => true
  | .getting => true
  | _ => false

/-- The driver is in no call. -/
def DriverCall.returned : DriverCall → Bool
  | .idle => true
  | _ => false

/-- The driver and its workers in a test.  `pc` counts the steps of the driver's body that are done,
and `inFlight` is what the workers have sent and the driver has not read. -/
structure Exchange (α : Type u) (μ : Type v) where
  driver : WaitRun α μ
  pc : ℕ := 0
  inFlight : List (Frame μ) := []
  workers : ℕ → WorkerSide μ

/-- A move of a party.  `driverReads i` reads the `i`-th of the messages in flight. -/
inductive ExchangeMove
  | driverStep
  | driverReads (i : ℕ)
  | workerCall (id : ℕ)
  | workerReads (id : ℕ)
  deriving DecidableEq

namespace Exchange

variable (t : Bodies α μ) (s : Exchange α μ)

/-- The state in which all parties enter their bodies, with every message of the earlier tests
read. -/
def init : Exchange α μ where
  driver := { ctx := t.ctx }
  workers id := { notifyCount := t.notifyCount id, userMessages := t.userMessages id }

def setWorker (id : ℕ) (w : WorkerSide μ) : Exchange α μ :=
  { s with workers := Function.update s.workers id w }

/-- The driver goes on, and is done with its step if its call has returned. -/
def setDriver (driver : WaitRun α μ) : Exchange α μ :=
  { s with driver, pc := if driver.call.returned then s.pc + 1 else s.pc }

def move : ExchangeMove → Option (Exchange α μ)
  | .driverStep =>
    if s.driver.call.returned then
      match t.steps[s.pc]? with
      | none => none
      | some (.send id item) =>
        let w := s.workers id
        some { s.setWorker id { w with unread := w.unread ++ [item] } with pc := s.pc + 1 }
      | some (.wait n) => some (s.setDriver (s.driver.step (.wait n t.order)))
      | some .getUserMessage => some (s.setDriver (s.driver.step .getUserMessage))
    else none
  | .driverReads i =>
    if s.driver.call.reads then
      match s.inFlight[i]? with
      | none => none
      | some f =>
        some { s.setDriver (s.driver.step (.frame f)) with inFlight := s.inFlight.eraseIdx i }
    else none
  | .workerCall id =>
    if id ∈ t.order then
      match (t.workerBody id)[(s.workers id).pc]? with
      | none => none
      | some c =>
        if (s.workers id).reads c then none
        else
          let r := (s.workers id).call id c
          some { s.setWorker id r.1 with inFlight := s.inFlight ++ r.2 }
    else none
  | .workerReads id =>
    if id ∈ t.order then
      match (t.workerBody id)[(s.workers id).pc]?, (s.workers id).unread with
      | some c, item :: unread =>
        if (s.workers id).reads c then
          some (s.setWorker id ({ s.workers id with unread }.waitForEvent item))
        else none
      | _, _ => none
    else none

/-- The bodies as a system. -/
def system : Guarded (Exchange α μ) ExchangeMove := Guarded.ofMove (move t)

instance (m : ExchangeMove) : Decidable ((system t).allowed s m) :=
  inferInstanceAs (Decidable (_ = true))

/-- The numbers of steps of the parties, `none` the driver. -/
def progress : Option ℕ → ℕ
  | none => s.pc
  | some id => (s.workers id).pc

end Exchange

/-! ## What the parties have sent -/

/-- What a step of the driver sends to worker `id`. -/
def DriverStep.item? (id : ℕ) : DriverStep μ → Option (WorkerItem μ)
  | .send id' item => if id' = id then some item else none
  | _ => none

/-- The number of workers that a step waits for. -/
def DriverStep.waitCount? (c : DriverContext α μ) : DriverStep μ → Option ℕ
  | .wait n => some (c.waitCount n)
  | _ => none

/-- A step that takes a user message. -/
def DriverStep.gets : DriverStep μ → Bool
  | .getUserMessage => true
  | _ => false

/-- What a call of worker `id` sends. -/
def BodyCall.frame? (id : ℕ) : BodyCall μ → Option (Frame μ)
  | .notify => some (.notify id)
  | .sendUserMessage message => some (.userMessage id message)
  | _ => none

/-- A call that takes a user message. -/
def BodyCall.gets : BodyCall μ → Bool
  | .getUserMessage => true
  | _ => false

/-- The number of notifications that a call of a worker takes. -/
def BodyCall.taken : BodyCall μ → ℕ
  | .wait n => WorkerSide.waitCount n
  | _ => 0

/-- The user message carried. -/
def WorkerItem.message? : WorkerItem μ → Option μ
  | .userMessage message => some message
  | .notify => none

/-- The number of notifications among messages to a worker. -/
def notifications (items : List (WorkerItem μ)) : ℕ :=
  items.countP fun item => item.message?.isNone

namespace Bodies

variable (t : Bodies α μ)

/-- What the driver sends to worker `id` in its first `pc` steps. -/
def toWorker (id pc : ℕ) : List (WorkerItem μ) := (t.steps.take pc).filterMap (DriverStep.item? id)

/-- What worker `id` sends in its first `pc` calls. -/
def fromWorker (id pc : ℕ) : List (Frame μ) :=
  ((t.workerBody id).take pc).filterMap (BodyCall.frame? id)

/-- The notifications that worker `id` takes in its first `pc` calls. -/
def taken (id pc : ℕ) : ℕ := (((t.workerBody id).take pc).map BodyCall.taken).sum

/-- The numbers of workers that the waits among the driver's first `pc` steps wait for. -/
def waits (pc : ℕ) : List ℕ := (t.steps.take pc).filterMap (DriverStep.waitCount? t.ctx)

/-- All messages to the driver. -/
def frames (c : Option ℕ → ℕ) : List (Frame μ) :=
  t.order.flatMap fun id => t.fromWorker id (c (some id))

/-- No `_notifyCount` can overflow. -/
structure Fits : Prop where
  toDriver : ∀ id ∈ t.order, notifiesFrom id (t.fromWorker id (t.workerBody id).length) < 2 ^ 32
  toWorker : ∀ id ∈ t.order,
    t.notifyCount id + notifications (t.toWorker id t.steps.length) < 2 ^ 32

end Bodies

end Dtest
