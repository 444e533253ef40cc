import Dtest.Driver.Join
import Dtest.Driver.Wait
import Dtest.Lib.Interactive
import Dtest.Net.Writer

/-!
# The calls of a test on its `Context`

`createUserMessage`, `sendUserMessage`, `getUserMessage`, `notify` and `wait` of `DriverContext` and
of `WorkerContext`, on the thread that makes the call.  What the calls of the network code inside
them do is met in order, as `SocketOutcome`s.  A socket is the address of its peer, and an exception
is the text of the `std::runtime_error`.

A worker that waits runs a test that the driver sends it, unless it is in a test.  Such a test runs
in a thread of its own: what it does to this one is that `Test::_run` returns or raises an
exception, with the `WorkerContext` that it leaves.
-/

namespace Dtest

/-- `DriverContext::OpCode`, by its bytes. -/
inductive OpCode where
  | nop
  | workerStarted
  | runTest
  | finishedTest
  | notify
  | terminate
  | userMessage

def OpCode.value : OpCode → ℕ
  | .nop => 0
  | .workerStarted => 1
  | .runTest => 2
  | .finishedTest => 3
  | .notify => 4
  | .terminate => 5
  | .userMessage => 6

/-- The bytes that `<<` writes for an operation code, a worker id, a status and a string. -/
def OpCode.bytes (op : OpCode) : List UInt8 := LittleEndian.encode 2 op.value

def idBytes (id : ℕ) : List UInt8 := LittleEndian.encode 4 id

def Status.bytes (status : Status) : List UInt8 := LittleEndian.encode 4 status.rank

def stringBytes (s : String) : List UInt8 := s.toUTF8.toList ++ [0]

/-- `Memory::_locked` and `Network::_locked` of the thread. -/
structure Locked where
  memory : UInt64
  network : UInt64
  deriving DecidableEq

/-- `Sandbox::lock`. -/
def Locked.lock (l : Locked) : Locked := ⟨l.memory + 1, l.network + 1⟩

/-- `Sandbox::unlock`. -/
def Locked.unlock (l : Locked) : Locked := ⟨l.memory - 1, l.network - 1⟩

/-- `WorkerContext`. -/
structure WorkerContext where
  id : ℕ := noWorker
  notifyCount : ℕ := 0
  userMessages : List Message := []
  inTest : Bool := false

/-- A message on the socket of a worker. -/
inductive WorkerFrame where
  | runTest (module name : String)
  | notify
  | terminate
  | userMessage (m : Message)
  | other

/-- What a call of the network code does: the constructor of `Socket` connects, or `socket` or
`connect` fails; `Socket::send` sends all or fails; the next message of the listening socket is one
of the given, or one that `recv` does not get; `Test::_run` ends.  An error is its `strerror`. -/
inductive SocketOutcome where
  | connected
  | socketFailed (error : String)
  | connectFailed (error : String)
  | sent
  | sendFailed (error : String)
  | noMessage
  | driverFrame (f : Frame Message)
  | workerFrame (f : WorkerFrame)
  | testRan (worker : WorkerContext) (result : Except String (Status × String))

/-- A constructor of `Socket`, a `Socket::send` or a run of a test raises an exception. -/
def SocketOutcome.Fails : SocketOutcome → Prop
  | .socketFailed _ | .connectFailed _ | .sendFailed _ | .testRan _ (.error _) => True
  | _ => False

instance : ∀ o : SocketOutcome, Decidable o.Fails
  | .socketFailed _ | .connectFailed _ | .sendFailed _ | .testRan _ (.error _) => isTrue trivial
  | .connected | .sent | .noMessage | .driverFrame _ | .workerFrame _ | .testRan _ (.ok _) =>
    isFalse id

/-- The process of the calling thread, with the lock depths of the thread.  Both contexts exist in
every process; `connected` are the handles in `_allocatedWorkers` whose `_socket` has been
constructed, and `sentFrames` is what has been sent to whom. -/
structure Process (α : Type) where
  locked : Locked
  driver : DriverContext α Message
  worker : WorkerContext
  address : α
  superAddress : α
  connected : List ℕ := []
  sentFrames : List (α × List UInt8) := []

/-- Why a thread does not go on. -/
inductive Halt where
  | exited
  | crashed

/-- What the calls take from around them: which sizes `malloc` and `realloc` serve, the names of the
registered tests of each module, and the iteration order of `_allocatedWorkers`. -/
structure Surroundings where
  alloc : ℕ → Bool
  tests : String → List String
  order : List ℕ

abbrev Action (α A : Type) : Type := Interactive (Process α) SocketOutcome Halt String A

open Interactive

variable {α : Type} (env : Surroundings)

namespace Process

def lock (p : Process α) : Process α := { p with locked := p.locked.lock }

def unlock (p : Process α) : Process α := { p with locked := p.locked.unlock }

/-- The destructor of a `Message`, between `_enter` and `_exit`. -/
def destroyMessage (p : Process α) : Process α := p.lock.unlock

end Process

/-! ## Messages and sockets -/

/-- A `Message` operation between `_enter` and `_exit`. -/
def entered {A : Type} (result : Option A) : Action α A := do
  update Process.lock
  let a ← demand .crashed result
  update Process.unlock
  pure a

namespace Message

/-- `operator<<`. -/
def append (m : Message) (bytes : List UInt8) : Action α Message := entered (m.put env.alloc bytes)

/-- `Message(Message &&rhs)`. -/
def moved (rhs : Message) : Action α Message := entered (some rhs.moveConstruct.1)

/-- `Message(const Message &rhs)`. -/
def copied (rhs : Message) : Action α Message := entered (rhs.copyConstruct env.alloc)

/-- `Message::send`. -/
def sendTo (m : Message) (peer : α) : Action α Message := do
  let (m, bytes) ← demand .crashed m.send
  match ← meet with
  | .sent =>
    update fun p => { p with sentFrames := p.sentFrames ++ [(peer, bytes)] }
    pure m
  | .sendFailed error => raise ("Failed to send. " ++ error)
  | _ => undefined

end Message

/-- `Socket(const sockaddr &addr)`. -/
def connectTo (addr : α) : Action α α := do
  match ← meet with
  | .connected => pure addr
  | .socketFailed error => raise ("Failed to create socket. " ++ error)
  | .connectFailed error => raise ("Failed to connect. " ++ error)
  | _ => undefined

/-- `_socket` of the handle `w` with the key `k`, constructed on its first use. -/
def handleSocket (k : ℕ) (w : WorkerHandle α) : Action α α := do
  let addr ← demand .crashed w.connection
  if k ∈ (← state).connected then pure addr
  else
    let peer ← connectTo addr
    update fun p => { p with connected := k :: p.connected }
    pure peer

/-! ## `DriverContext` -/

namespace DriverContext

/-- The move of a user message into `_userMessages`. -/
def moveFrame : Frame Message → Action α (Frame Message)
  | .userMessage id m => do
    let m ← m.moved
    pure (.userMessage id m)
  | f => pure f

/-- The switch of `_waitForEvent`. -/
def event (f : Frame Message) : Action α ℕ := do
  let f ← moveFrame f
  let (c, id) := (← state).driver.waitForEvent f
  update fun p => { p with driver := c }
  pure id

/-- `_waitForEvent` after `recv`. -/
def received : SocketOutcome → Action α (Unit ⊕ ℕ)
  | .noMessage => pure (.inl ())
  | .driverFrame f => do
    let id ← event f
    pure (.inr id)
  | _ => undefined

/-- A round of the loop of `_waitForEvent`. -/
def eventRound (_ : Unit) : Action α (Unit ⊕ ℕ) := within Process.destroyMessage (meet >>= received)

/-- `_waitForEvent`. -/
def nextEvent : Action α ℕ := loop eventRound ()

/-- The loop of `sendUserMessage`. -/
def sendLoop : List ℕ → Message → Action α Unit
  | [], _ => pure ()
  | k :: order, m => do
    match (← state).driver.allocatedWorkers.find? k with
    | none => sendLoop order m
    | some w =>
      let peer ← handleSocket k w
      let m ← m.sendTo peer
      sendLoop order m

/-- `WorkerHandle::notify`. -/
def notifyHandle (k : ℕ) (w : WorkerHandle α) : Action α Unit := within Process.destroyMessage do
  let m ← (Message.init env.alloc).append env OpCode.notify.bytes
  let peer ← handleSocket k w
  let _ ← m.sendTo peer

/-- The loop of `notify`. -/
def notifyLoop : List ℕ → Action α Unit
  | [] => pure ()
  | k :: order => do
    match (← state).driver.allocatedWorkers.find? k with
    | none => notifyLoop order
    | some w =>
      notifyHandle env k w
      notifyLoop order

/-- The body of the second loop of `wait` after `_waitForEvent`. -/
def pull (pulled : Finset ℕ) (id : ℕ) : Action α (Finset ℕ ⊕ Unit) := do
  let (c, pulled) ← demand .crashed ((← state).driver.pullEvent id pulled)
  update fun p => { p with driver := c }
  pure (.inl pulled)

/-- A round of the second loop of `wait`. -/
def waitRound (n : ℕ) (pulled : Finset ℕ) : Action α (Finset ℕ ⊕ Unit) :=
  if pulled.card = n then pure (.inr ()) else nextEvent >>= pull pulled

def createUserMessage : Action α Message := bracket Process.lock Process.unlock do
  (Message.init env.alloc).append env OpCode.userMessage.bytes

def sendUserMessage (message : Message) : Action α Unit := bracket Process.lock Process.unlock do
  sendLoop env.order message

def getUserMessage : Action α Message := bracket Process.lock Process.unlock do
  whileDo (fun p => p.driver.userMessages.isEmpty) (nextEvent : Action α ℕ)
  match (← state).driver.userMessages with
  | [] => undefined
  | front :: rest =>
    let m ← front.moved
    update fun p => { p with driver.userMessages := rest }
    update Process.destroyMessage
    pure m

def notify : Action α Unit := bracket Process.lock Process.unlock do
  notifyLoop env env.order

def wait (n : ℕ) : Action α Unit := bracket Process.lock Process.unlock do
  let c := (← state).driver
  let n := c.waitCount n
  let (c, pulled) := c.firstPass n env.order ∅
  update fun p => { p with driver := c }
  loop (waitRound n) pulled

end DriverContext

/-! ## `WorkerContext` -/

namespace WorkerContext

/-- `Test::_run` of a copy of a test. -/
def runTest : Action α (Status × String) := do
  match ← meet with
  | .testRan worker (.ok result) =>
    update fun p => { p with worker }
    pure result
  | .testRan worker (.error error) =>
    update fun p => { p with worker }
    raise error
  | _ => undefined

/-- A test is run and the driver is told of its end. -/
def runAndReport : Action α Unit := do
  let (status, detailedReport) ← runTest
  let superDriverSocket ← connectTo (← state).superAddress
  within Process.destroyMessage do
    let m ← (Message.init env.alloc).append env OpCode.finishedTest.bytes
    let m ← m.append env (idBytes (← state).worker.id)
    let m ← m.append env status.bytes
    let m ← m.append env (stringBytes detailedReport)
    let _ ← m.sendTo superDriverSocket

/-- The switch of `_waitForEvent`. -/
def event : WorkerFrame → Action α Unit
  | .runTest module name => do
    if (← state).worker.inTest then pure ()
    else
      update fun p => { p with worker.inTest := true }
      if name ∈ env.tests module then runAndReport env
      update fun p => { p with worker.inTest := false }
  | .notify =>
    update fun p => { p with worker.notifyCount := (p.worker.notifyCount + 1) % 2 ^ 32 }
  | .terminate => halt .exited
  | .userMessage m => do
    let m ← m.moved
    update fun p => { p with worker.userMessages := p.worker.userMessages ++ [m] }
  | .other => pure ()

/-- `_waitForEvent` after `recv`. -/
def received : SocketOutcome → Action α (Unit ⊕ Unit)
  | .noMessage => pure (.inl ())
  | .workerFrame f => do
    event env f
    pure (.inr ())
  | _ => undefined

/-- A round of the loop of `_waitForEvent`. -/
def eventRound (_ : Unit) : Action α (Unit ⊕ Unit) :=
  within Process.destroyMessage (meet >>= received env)

/-- `_waitForEvent`. -/
def nextEvent : Action α Unit := loop (eventRound env) ()

def createUserMessage : Action α Message := bracket Process.lock Process.unlock do
  let m ← (Message.init env.alloc).append env OpCode.userMessage.bytes
  m.append env (idBytes (← state).worker.id)

def sendUserMessage (message : Message) : Action α Unit := bracket Process.lock Process.unlock do
  let driverSocket ← connectTo (← state).address
  let _ ← message.sendTo driverSocket

def getUserMessage : Action α Message := bracket Process.lock Process.unlock do
  whileDo (fun p => p.worker.userMessages.isEmpty) (nextEvent env : Action α Unit)
  match (← state).worker.userMessages with
  | [] => undefined
  | front :: rest =>
    let m ← front.copied env
    update fun p => { p with worker.userMessages := rest }
    update Process.destroyMessage
    pure m

def notify : Action α Unit := bracket Process.lock Process.unlock do
  let driverSocket ← connectTo (← state).address
  within Process.destroyMessage do
    let m ← (Message.init env.alloc).append env OpCode.notify.bytes
    let m ← m.append env (idBytes (← state).worker.id)
    let _ ← m.sendTo driverSocket

def wait (n : ℕ) : Action α Unit := bracket Process.lock Process.unlock do
  let n := if n = 2 ^ 32 - 1 then 1 else n
  whileDo (fun p => decide (p.worker.notifyCount < n)) (nextEvent env : Action α Unit)
  update fun p => { p with worker.notifyCount := p.worker.notifyCount - n }

end WorkerContext

/-! ## `Context` -/

/-- The contexts of a process. -/
inductive Context where
  | driver
  | worker

/-- The calls of a test on its context. -/
inductive ContextCall where
  | createUserMessage
  | sendUserMessage (message : Message)
  | getUserMessage
  | notify
  | wait (n : ℕ)

/-- A call on a context, with the message that it returns. -/
def Context.call : Context → ContextCall → Action α (Option Message)
  | .driver, .createUserMessage => some <$> DriverContext.createUserMessage env
  | .driver, .sendUserMessage message =>
    (fun _ => none) <$> DriverContext.sendUserMessage env message
  | .driver, .getUserMessage => some <$> DriverContext.getUserMessage
  | .driver, .notify => (fun _ => none) <$> DriverContext.notify env
  | .driver, .wait n => (fun _ => none) <$> DriverContext.wait env n
  | .worker, .createUserMessage => some <$> WorkerContext.createUserMessage env
  | .worker, .sendUserMessage message => (fun _ => none) <$> WorkerContext.sendUserMessage message
  | .worker, .getUserMessage => some <$> WorkerContext.getUserMessage env
  | .worker, .notify => (fun _ => none) <$> WorkerContext.notify env
  | .worker, .wait n => (fun _ => none) <$> WorkerContext.wait env n

end Dtest
