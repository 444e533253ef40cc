import Dtest.Lib.Progress
import Dtest.UnitTest.Run

/-!
# The processes of a run in the sandbox

`Sandbox::run` as a system of the waiting process, the child and the kernel: the loop over `poll`,
the loop over `waitpid`, the deadline on a clock, and the connection of `_clientSocket` with what is
written to it.  Without a fork the child is the thread that is joined before the first `poll`.

A message is written to the connection and read from it as a whole: it fits the buffers of the
socket, and the child neither dies nor stops inside it.  `Message.recv` waits for the rest of a
message without a look at the clock, and takes what has come of it for the whole when the child is
gone (`Dtest.Net.Truncated`); neither of the two happens here.

What the function has come to and what it has written to the socket are recorded beside the state.
-/

namespace Dtest

universe u

/-- What the function in the sandbox throws. -/
inductive Thrown
  | sandbox (what : String)
  | exception (what : String)
  | unknown
  deriving DecidableEq, Repr

/-- The text sent for an exception. -/
def Thrown.reason : Thrown → String
  | .sandbox what => what
  | .exception what => "Detected uncaught exception: " ++ what
  | .unknown => "Unknown exception thrown"

/-- The signals after which `__signalHandler` sends a message. -/
inductive FatalSignal
  | segv
  | abrt
  deriving DecidableEq, Repr

/-- The text sent for a signal. -/
def FatalSignal.reason (trace : String) : FatalSignal → String
  | .segv => "Detected segmentation fault. Caused by:\n" ++ trace
  | .abrt => "Caught abort signal. Caused by:\n" ++ trace

/-- A message by its code: `COMPLETE` with the fields of an object, `ERROR`, or any other. -/
inductive SandboxMessage (T : Type u)
  | complete (sent : T)
  | error (reason : String)
  | unexpected
  deriving DecidableEq

/-- What the function has come to, and what it has left of its object. -/
inductive SandboxOutcome (T : Type u)
  | returned (left : T)
  | failed (reason : String) (left : T)
  deriving DecidableEq

/-- Where the child is: before its message, after it, gone, or gone and waited for. -/
inductive ChildActivity
  | running
  | replied
  | exited
  | reaped
  deriving DecidableEq, Repr

/-- Where the connection of `_clientSocket` is. -/
inductive ClientLink
  | unmade
  | queued
  | accepted
  | disposed
  deriving DecidableEq, Repr

/-- Where `Sandbox::run` is: in `t.join()`, the loop over `poll`, the loop over `waitpid`, or the
`waitpid` after a `kill`, which `report` is reported after. -/
inductive SandboxPhase
  | joining
  | polling
  | waiting (finished : Bool)
  | killing (report : String) (finished : Bool)
  | returned (finished : Bool)
  deriving DecidableEq, Repr

/-- The waiting process with its object, its clock (nanoseconds since `start`, as last read) and its
child.  `outcome` and `spoiled` record what the function has come to and that it has written
something of its own to the socket. -/
structure SandboxState (T : Type u) where
  phase : SandboxPhase
  object : T
  now : ℕ := 0
  activity : ChildActivity := .running
  killed : Bool := false
  link : ClientLink := .unmade
  frames : List (SandboxMessage T) := []
  outcome : Option (SandboxOutcome T) := none
  spoiled : Bool := false

/-- The arguments of `Sandbox::run`. -/
structure SandboxArgs (T : Type u) where
  formatDuration : ℕ → String
  callbacks : Sandbox.Callbacks T
  fork : Bool
  timeoutNanos : ℕ

/-- The moves of the child, of the kernel (`dies`, which is never inside a message) and of the
waiting process. -/
inductive SandboxMove (T : Type u)
  | connect
  | writeOther
  | returns (left : T)
  | throws (e : Thrown) (left : T)
  | crashes (signal : FatalSignal) (trace : String) (left : T)
  | exits
  | dies
  | join
  | pollTimeout (elapsed : ℕ)
  | accept
  | receive
  | dispose
  | waitpid (elapsed : ℕ)
  | waitKilled

namespace SandboxArgs

variable {T : Type u} (a : SandboxArgs T)

/-- The error of the loop over `poll`. -/
def exceeded : String := "Exceeded timeout of " ++ a.formatDuration a.timeoutNanos

/-- The error of the loop over `waitpid`. -/
def overdue : String :=
  "Did not terminate properly after timeout of " ++ a.formatDuration a.timeoutNanos

/-- What the object is when the message is sent. -/
def worked : SandboxOutcome T → T
  | .returned left => a.callbacks.onComplete left
  | .failed _ left => left

/-- The message for an outcome. -/
def message : SandboxOutcome T → SandboxMessage T
  | .returned left => .complete (a.callbacks.onComplete left)
  | .failed reason _ => .error reason

end SandboxArgs

namespace SandboxState

variable {T : Type u} (a : SandboxArgs T) (s : SandboxState T)

/-- `poll` has something to report. -/
def ready : Bool :=
  match s.link with
  | .queued => true
  | .accepted => !s.frames.isEmpty || s.activity == .exited
  | _ => false

/-- The thread of the sandbox sends its message, all of which fits the buffers of the socket;
without a fork it has worked on the object of the waiting process. -/
def reply (o : SandboxOutcome T) : Option (SandboxState T) :=
  if s.activity = .running ∧ s.link ≠ .unmade then
    some { s with
      activity := .replied
      frames := s.frames ++ [a.message o]
      outcome := some o
      object := if a.fork then s.object else a.worked o }
  else none

/-- The round of the loop over `poll` that reads the clock. -/
def pollTimeout (elapsed : ℕ) : Option (SandboxState T) :=
  if s.phase = .polling ∧ s.ready = false then
    if a.timeoutNanos < s.now + elapsed then
      if a.fork then
        some { s with now := s.now + elapsed, killed := true, phase := .killing a.exceeded false }
      else
        some { s with
          now := s.now + elapsed
          object := a.callbacks.onError a.exceeded s.object
          phase := .returned false }
    else some { s with now := s.now + elapsed }
  else none

/-- After the callback for a message. -/
def afterMessage (finished : Bool) (t : T) : SandboxState T :=
  { s with object := t, phase := if a.fork then .waiting finished else .returned finished }

/-- A message, all of which is there, is received and dispatched by its code. -/
def receive : Option (SandboxState T) :=
  match s.phase, s.link, s.frames with
  | .polling, .accepted, m :: frames =>
    let s := { s with frames }
    match m with
    | .complete sent => some (s.afterMessage a true (a.callbacks.onSuccess sent s.object))
    | .error reason => some (s.afterMessage a true (a.callbacks.onError reason s.object))
    | .unexpected =>
      some ({ s with killed := s.killed || a.fork }.afterMessage a false
        (a.callbacks.onError "An unexpected error has occurred" s.object))
  | _, _, _ => none

/-- A round of the loop over `waitpid`. -/
def waitpid (elapsed : ℕ) : Option (SandboxState T) :=
  match s.phase, s.activity with
  | .waiting _, .reaped => none
  | .waiting finished, .exited => some { s with activity := .reaped, phase := .returned finished }
  | .waiting finished, _ =>
    if a.timeoutNanos < s.now + elapsed then
      some { s with now := s.now + elapsed, killed := true, phase := .killing a.overdue finished }
    else some { s with now := s.now + elapsed }
  | _, _ => none

/-- The `waitpid` after a `kill`. -/
def waitKilled : Option (SandboxState T) :=
  match s.phase, s.activity with
  | .killing report finished, .exited =>
    some { s with
      activity := .reaped
      object := a.callbacks.onError report s.object
      phase := .returned finished }
  | _, _ => none

/-- A move, where it can be made. -/
def move (s : SandboxState T) : SandboxMove T → Option (SandboxState T)
  | .connect =>
    if s.activity = .running ∧ s.link = .unmade then some { s with link := .queued } else none
  | .writeOther =>
    if s.activity = .running ∧ s.link ≠ .unmade ∧ s.spoiled = false then
      some { s with frames := s.frames ++ [.unexpected], spoiled := true }
    else none
  | .returns left => s.reply a (.returned left)
  | .throws e left => s.reply a (.failed e.reason left)
  | .crashes signal trace left =>
    if a.fork then s.reply a (.failed (signal.reason trace) left) else none
  | .exits => if a.fork ∧ s.activity = .replied then some { s with activity := .exited } else none
  | .dies =>
    if a.fork ∧ (s.activity = .running ∨ s.activity = .replied) then
      some { s with activity := .exited }
    else none
  | .join =>
    if s.phase = .joining ∧ s.activity = .replied then
      some { s with phase := .polling, activity := .exited }
    else none
  | .pollTimeout elapsed => s.pollTimeout a elapsed
  | .accept =>
    if s.phase = .polling ∧ s.link = .queued then some { s with link := .accepted } else none
  | .receive => s.receive a
  | .dispose =>
    if s.phase = .polling ∧ s.link = .accepted ∧ s.frames = [] ∧ s.activity = .exited then
      some { s with link := .disposed }
    else none
  | .waitpid elapsed => s.waitpid a elapsed
  | .waitKilled => s.waitKilled a

/-- The start, after the fork or with the thread started. -/
def init (t : T) : SandboxState T :=
  { phase := if a.fork then .polling else .joining, object := t }

end SandboxState

end Dtest
