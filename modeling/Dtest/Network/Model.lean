import Dtest.Lib.Progress
import Dtest.Random
import Dtest.UnitTest.Resources

/-!
# `Network` and the hooks of the socket calls

The counters of the network traffic and the faulty network, under the calls of any number of
threads.  A hook asks `canSend`, makes the call or not, and reports to `trackSend`; other threads
can come in between.  The clock and the seeds of `frand` are given with the call; `scaled` is the
conversion of `_holeDuration * frand()` to `uint64_t`.  A time is a number of nanoseconds in a
signed word, so the end of a hole is what the conversion to such a word and the addition leave of
it.

`calls` is the history of what `canSend` has been asked and has answered.
-/

namespace Dtest

/-- `SO_TYPE`. -/
inductive SocketType
  | stream
  | dgram
  | raw
  | rdm
  | seqpacket
  deriving DecidableEq, Repr

/-- The sockets whose messages are not dropped, and the descriptors that `getsockopt` fails for. -/
def SocketType.reliable : Option SocketType → Bool
  | none | some .stream | some .seqpacket | some .rdm => true
  | some .dgram | some .raw => false

/-- What `canSend` reads: the clock when it is entered and when it decides, and the clock's ticks
for `frand`. -/
structure SendClock where
  entry : ℤ
  now : ℤ
  seed : ℕ := 0
  seed' : ℕ := 0
  deriving DecidableEq, Repr

/-- A call of `canSend`: whether it has come to the decision, the random number and the chance, the
end of the hole it has opened, and the answer. -/
structure SendCall where
  thread : ℕ
  type : Option SocketType
  clock : SendClock
  counted : Bool
  draw : Option ℚ := none
  chance : ℚ
  opened : Option ℤ := none
  ok : Bool
  deriving DecidableEq

/-- The thread-local variables: `_locked`, `_holeEndTime` and the state of `frand`; `sending` is the
length and the answer for a hook that has asked `canSend`. -/
structure NetworkThread where
  locked : ℕ := 0
  holeEnd : Option ℤ := none
  state : UInt32 := 0
  sending : Option (ℕ × Bool) := none
  deriving DecidableEq

/-- `Network`. -/
structure Network extends NetworkCounters where
  tracking : Bool := false
  probabilistic : Bool := false
  chance : ℚ := 1
  holeDuration : ℕ := 0
  threads : ℕ → NetworkThread := fun _ => {}
  calls : List SendCall := []

/-- The calls of a thread.  `none` is the result −1 of a system call. -/
inductive NetworkMove
  | lock (thread : ℕ)
  | unlock (thread : ℕ)
  | trackActivity (val : Bool)
  | dropSendRequests (chance : ℚ) (duration : ℕ)
  | dontDropSendRequests
  | frand (thread now : ℕ)
  | send (thread : ℕ) (type : Option SocketType) (len : ℕ) (clock : SendClock)
  | sent (thread : ℕ) (result : Option ℕ)
  | recv (thread : ℕ) (result : Option ℕ)

namespace Network

variable (scaled : ℕ → ℚ → ℕ) (n : Network)

def setThread (thread : ℕ) (th : NetworkThread) : Network :=
  { n with threads := Function.update n.threads thread th }

/-- `_enter` succeeds. -/
def enters (thread : ℕ) : Bool := n.tracking && (n.threads thread).locked == 0

/-- `canSend`: the thread afterwards, and the call. -/
def canSend (thread : ℕ) (type : Option SocketType) (clock : SendClock) :
    NetworkThread × SendCall :=
  let th := n.threads thread
  let holeEnd := th.holeEnd.getD clock.entry
  let th := { th with holeEnd := some holeEnd }
  let call : SendCall := { thread, type, clock, counted := false, chance := n.chance, ok := true }
  if SocketType.reliable type then (th, call)
  else if !n.probabilistic || !n.enters thread then (th, call)
  else if holeEnd < clock.now then
    let r := Dtest.frand clock.seed th.state
    let th := { th with state := r.state }
    let call := { call with counted := true, draw := some r.retval }
    if r.retval < n.chance then (th, call)
    else
      let r' := Dtest.frand clock.seed' th.state
      let holeEnd := signedWord (clock.now + signedWord (scaled n.holeDuration r'.retval))
      ({ th with state := r'.state, holeEnd := some holeEnd },
        { call with opened := some holeEnd, ok := false })
  else (th, { call with counted := true, ok := false })

/-- `trackSend`. -/
def trackSend (thread size : ℕ) : Network :=
  if n.enters thread then
    { n with
      sendSize := wadd n.sendSize size
      sendCount := wadd n.sendCount 1 }
  else n

/-- `trackRecv`. -/
def trackRecv (thread size : ℕ) : Network :=
  if n.enters thread then
    { n with
      recvSize := wadd n.recvSize size
      recvCount := wadd n.recvCount 1 }
  else n

/-- `(res == -1) ? 0 : res`, where `res` is `len` for a call that has been dropped. -/
def countedSize (len : ℕ) (ok : Bool) (result : Option ℕ) : ℕ :=
  if ok then result.getD 0 else if len = 2 ^ 64 - 1 then 0 else len

/-- A move, where it can be made. -/
def move (n : Network) : NetworkMove → Option Network
  | .lock thread =>
    let th := n.threads thread
    some (n.setThread thread { th with locked := wadd th.locked 1 })
  | .unlock thread =>
    let th := n.threads thread
    some (n.setThread thread { th with locked := wsub th.locked 1 })
  | .trackActivity val => some { n with tracking := val }
  | .dropSendRequests chance duration =>
    some { n with chance, holeDuration := duration, probabilistic := true }
  | .dontDropSendRequests => some { n with probabilistic := false }
  | .frand thread now =>
    let th := n.threads thread
    some (n.setThread thread { th with state := (Dtest.frand now th.state).state })
  | .send thread type len clock =>
    match (n.threads thread).sending with
    | some _ => none
    | none =>
      let (th, call) := n.canSend scaled thread type clock
      some { n.setThread thread { th with sending := some (len, call.ok) } with
        calls := n.calls ++ [call] }
  | .sent thread result =>
    let th := n.threads thread
    match th.sending with
    | none => none
    | some (len, ok) =>
      some ((n.setThread thread { th with sending := none }).trackSend thread
        (countedSize len ok result))
  | .recv thread result => some (n.trackRecv thread (result.getD 0))

/-- The threads and their calls. -/
def system : Guarded Network NetworkMove := .ofMove (move scaled)

/-- No hole that a call can open ends out of the range of the clock. -/
def Fits (n : Network) : NetworkMove → Prop
  | .send _ _ _ clock =>
    -2 ^ 63 ≤ clock.now ∧
      ∀ r : ℚ, 0 ≤ r → r ≤ 1 → clock.now + scaled n.holeDuration r < 2 ^ 63
  | _ => True

end Network

end Dtest
