import Dtest.Lib.Arrivals
import Dtest.Lib.Word

/-!
# Receiving on a socket

`Socket::recv` on a socket that was accepted with `SOCK_NONBLOCK`.  A `Socket` is the receiving side
of the connection, as the program will meet it.  `Socket.recv_eq` reduces the loop of `recv` to
`Arrival.await`; `Socket.recv_null` is the same call with a buffer that is not mapped.
-/

namespace Dtest

open Arrival

/-- The receiving side of a connection: what the reader will meet, and whether the peer then
closes. -/
structure Socket where
  arrivals : List (Arrival UInt8)
  closed : Bool

/-- `errno` after a failed read. -/
inductive Errno where
  | again
  | intr
  | other

/-- What `sys::recv` returns: the bytes it stored, none of them at the end of the stream, or
`-1`. -/
inductive SysRecv where
  | stored (bytes : List UInt8)
  | error (errno : Errno)

/-- How `Socket::recv` ends: it returns a `size_t`, with the bytes it stored, or it throws, or it
never ends. -/
inductive Recv where
  | returned (r : ℕ) (stored : List UInt8) (sock : Socket)
  | threw
  | spins

/-- The result of a call that has already stored `bytes`. -/
def Recv.prepend (bytes : List UInt8) : Recv → Recv
  | .returned r stored sock => .returned r (bytes ++ stored) sock
  | .threw => .threw
  | .spins => .spins

/-- `-1lu`. -/
def neg1lu : ℕ := 2 ^ 64 - 1

/-- `-1u`. -/
def neg1u : ℕ := 2 ^ 32 - 1

/-- `_INITIAL_SYSCALL_SIZE`. -/
def initialSyscallSize : ℕ := 64 * 1024

namespace Socket

/-- `sys::recv` of at most `n` bytes; `writable` says whether the buffer is mapped. -/
def sysRecv (writable closed : Bool) (n : ℕ) :
    List (Arrival UInt8) → SysRecv × List (Arrival UInt8)
  | [] => (if closed then .stored [] else .error .again, [])
  | .datum b :: l =>
    if writable then (.stored (ready n (.datum b :: l)), unread n (.datum b :: l))
    else (.error .other, .datum b :: l)
  | .cut :: l => sysRecv writable closed n l
  | .wouldBlock :: l => (.error .again, l)
  | .interrupted :: l => (.error .intr, l)
  | .failed :: l => (.error .other, l)

/-- The loop of `Socket::recv`, for at most the given number of iterations. -/
def recvLoop (writable returnOnBlock : Bool) : ℕ → Socket → ℕ → Recv
  | 0, _, _ => .spins
  | fuel + 1, sock, len =>
    if 0 < len then
      let maxLen := initialSyscallSize
      let (recvd, arrivals) :=
        sysRecv writable sock.closed (if len < maxLen then len else maxLen) sock.arrivals
      let sock := { sock with arrivals }
      match recvd with
      | .stored [] => .returned neg1lu [] sock
      | .stored bytes =>
        (recvLoop writable returnOnBlock fuel sock (len - bytes.length)).prepend bytes
      | .error .again =>
        if returnOnBlock then .returned len [] sock
        else recvLoop writable returnOnBlock fuel sock len
      | .error .intr => recvLoop writable returnOnBlock fuel sock len
      | .error .other => .threw
    else .returned len [] sock

/-- `Socket::recv`.  Every iteration that does not end the loop takes something from the socket,
unless nothing will ever come; so a loop that has not ended by then never ends. -/
def recv (sock : Socket) (writable : Bool) (len : ℕ) (returnOnBlock : Bool) : Recv :=
  recvLoop writable returnOnBlock (sock.arrivals.length + 1) sock len

end Socket

/-- The outcome of a reading of `len` bytes, as `Socket::recv` reports it. -/
def Recv.ofOutcome (closed : Bool) (len : ℕ) : Outcome UInt8 → Recv
  | .got read rest => .returned 0 read ⟨rest, closed⟩
  | .ended read => .returned neg1lu read ⟨[], closed⟩
  | .failed => .threw
  | .blocked read rest => .returned (len - read.length) read ⟨rest, closed⟩
  | .starved => .spins

theorem Recv.ofOutcome_prepend (closed : Bool) (len : ℕ) (bytes : List UInt8) (o : Outcome UInt8) :
    Recv.ofOutcome closed len (o.prepend bytes) =
      (Recv.ofOutcome closed (len - bytes.length) o).prepend bytes := by
  cases o with
  | blocked read rest =>
    simp only [Outcome.prepend, Recv.ofOutcome, Recv.prepend, List.length_append, Nat.sub_sub]
  | got | ended | failed | starved => rfl

namespace Socket

variable {closed : Bool}

/-- A read of at least one byte finds at least the first one. -/
theorem ready_syscall {len : ℕ} (b : UInt8) (l : List (Arrival UInt8)) (h : 0 < len) :
    ∃ k, (if len < initialSyscallSize then len else initialSyscallSize) = k + 1 ∧ k + 1 ≤ len ∧
      ready (k + 1) (.datum b :: l) = b :: ready k l ∧
      unread (k + 1) (.datum b :: l) = unread k l := by
  unfold initialSyscallSize
  split_ifs with hlt
  · exact ⟨len - 1, by omega, by omega, rfl, rfl⟩
  · exact ⟨64 * 1024 - 1, rfl, by omega, rfl, rfl⟩

/-- On an open connection on which nothing will ever come, the patient loop does not end. -/
theorem recvLoop_starved (writable : Bool) (fuel len : ℕ) :
    recvLoop writable false fuel ⟨[], false⟩ (len + 1) = .spins := by
  induction fuel with
  | zero => rfl
  | succ fuel ih => exact ih

/-- The loop of `Socket::recv` reads `len` bytes, patiently unless it returns when it would
block. -/
theorem recvLoop_eq (returnOnBlock : Bool) {fuel : ℕ} {l : List (Arrival UInt8)}
    (hfuel : l.length < fuel) (len : ℕ) :
    recvLoop true returnOnBlock fuel ⟨l, closed⟩ len =
      Recv.ofOutcome closed len (await (!returnOnBlock) closed len l) := by
  -- a cut takes no iteration of its own, so the induction is on what is left on the socket
  induction hn : l.length using Nat.strongRecOn generalizing l fuel len with | _ n ih
  subst hn
  obtain ⟨fuel, rfl⟩ := Nat.exists_eq_succ_of_ne_zero (Nat.ne_zero_of_lt hfuel)
  rcases Nat.eq_zero_or_pos len with rfl | hlen
  · rw [await_zero]
    rfl
  obtain ⟨len, rfl⟩ := Nat.exists_eq_succ_of_ne_zero (Nat.pos_iff_ne_zero.mp hlen)
  cases l with
  | nil =>
    cases closed with
    | true => rfl
    | false =>
      cases returnOnBlock with
      | true => rfl
      | false => exact recvLoop_starved true (fuel + 1) len
  | cons x l =>
    have hl : l.length < fuel := Nat.lt_of_succ_lt_succ hfuel
    cases x with
    | datum b =>
      obtain ⟨k, hk, hle, hready, hunread⟩ := ready_syscall b l hlen
      have hlt : (unread k l).length < (l.length + 1) := Nat.lt_succ_of_le (length_unread_le k l)
      rw [await_ready _ _ hle, hready, hunread, Recv.ofOutcome_prepend]
      rw [← ih _ hlt (Nat.lt_of_le_of_lt (length_unread_le k l) hl) _ rfl]
      simp only [recvLoop, if_pos hlen, sysRecv, if_true, hk, hready, hunread]
    | cut =>
      exact ih _ (Nat.lt_succ_self _) (Nat.lt_of_succ_lt hfuel) (len + 1) rfl
    | wouldBlock =>
      cases returnOnBlock with
      | true => rfl
      | false => exact ih _ (Nat.lt_succ_self _) hl _ rfl
    | interrupted => exact ih _ (Nat.lt_succ_self _) hl _ rfl
    | failed => rfl

theorem recv_eq (sock : Socket) (len : ℕ) (returnOnBlock : Bool) :
    sock.recv true len returnOnBlock =
      Recv.ofOutcome sock.closed len (await (!returnOnBlock) sock.closed len sock.arrivals) :=
  recvLoop_eq returnOnBlock (Nat.lt_succ_self _) len

/-- With a buffer that is not mapped, the first byte that arrives is an error. -/
theorem recvLoop_null {fuel : ℕ} {l : List (Arrival UInt8)} (hfuel : l.length < fuel) (len : ℕ) :
    recvLoop false false fuel ⟨l, closed⟩ (len + 1) =
      if data l = [] ∧ .failed ∉ l then
        if closed then .returned neg1lu [] ⟨[], closed⟩ else .spins
      else .threw := by
  induction l generalizing fuel with
  | nil =>
    cases closed with
    | true =>
      obtain ⟨fuel, rfl⟩ := Nat.exists_eq_succ_of_ne_zero (Nat.ne_zero_of_lt hfuel)
      rfl
    | false => exact recvLoop_starved false fuel len
  | cons x l ih =>
    obtain ⟨fuel, rfl⟩ := Nat.exists_eq_succ_of_ne_zero (Nat.ne_zero_of_lt hfuel)
    have hl : l.length < fuel := Nat.lt_of_succ_lt_succ hfuel
    cases x with
    | datum b => rw [if_neg fun h => List.cons_ne_nil _ _ h.1]; rfl
    | failed => rw [if_neg fun h => h.2 List.mem_cons_self]; rfl
    | cut =>
      apply (ih (Nat.lt_of_succ_lt hfuel)).trans
      simp only [data, List.mem_cons, reduceCtorEq, false_or]
    | wouldBlock | interrupted =>
      apply (ih hl).trans
      simp only [data, List.mem_cons, reduceCtorEq, false_or]

theorem recv_null (sock : Socket) (len : ℕ) :
    sock.recv false (len + 1) false =
      if data sock.arrivals = [] ∧ .failed ∉ sock.arrivals then
        if sock.closed then .returned neg1lu [] ⟨[], sock.closed⟩ else .spins
      else .threw :=
  recvLoop_null (Nat.lt_succ_self _) len

end Socket

end Dtest
