import Dtest.Lib.LittleEndian
import Dtest.Lib.Word
import Dtest.Net.Socket

/-!
# Messages

The buffer of a `Message`, `Message::send` and `Message::recv`.  The allocator is a parameter: it
says which sizes `malloc` and `realloc` serve.  The results on `recv` say how it ends for each state
of the connection: with a readable header (`recv_of_header`), on a short one (`recv_of_short`) and
when a read of the header finds nothing (`recv_of_not_passable`); the three results on `recvPayload`
do the same for the payload.
-/

namespace Dtest

open Arrival

/-- A message: its block, null where the allocator has failed, the size of it, and `_buf` as an
offset into the block. -/
structure Message where
  allocBuf : Option (ℕ → UInt8)
  allocLen : ℕ
  buf : ℕ
  hasData : Bool

/-- `_DEFAULT_BUFFER_SIZE`. -/
def defaultBufferSize : ℕ := 1024

/-- `sizeof(size_t)`. -/
def sizeofSizeT : ℕ := 8

/-- A block after `bytes` have been stored from offset `off` on. -/
def storeAt (off : ℕ) (bytes : List UInt8) (block : ℕ → UInt8) (i : ℕ) : UInt8 :=
  if off ≤ i then bytes.getD (i - off) (block i) else block i

/-- How `Message::recv` ends. -/
inductive Received where
  | returned (m : Message) (sock : Socket)
  | threw
  | spins

namespace Message

/-- The constructor `Message()`. -/
def init (alloc : ℕ → Bool) : Message where
  allocBuf := if alloc defaultBufferSize then some fun _ => 0 else none
  allocLen := defaultBufferSize
  buf := sizeofSizeT
  hasData := false

/-- `_fit`. -/
def fit (alloc : ℕ → Bool) (m : Message) (sz : ℕ) : Message :=
  let len := m.buf
  let rem := wsub m.allocLen len
  if rem < sz then
    let allocLen := wadd m.allocLen (if sz < defaultBufferSize then defaultBufferSize else sz)
    { m with
      allocBuf := if alloc allocLen then some (m.allocBuf.getD fun _ => 0) else none
      allocLen
      buf := len }
  else m

/-- Stores bytes at `_buf`. -/
def store (m : Message) (bytes : List UInt8) : Message :=
  { m with allocBuf := m.allocBuf.map (storeAt m.buf bytes) }

/-- `put`; there is no result if the block is null. -/
def put (alloc : ℕ → Bool) (m : Message) (bytes : List UInt8) : Option Message :=
  let m := m.fit alloc bytes.length
  m.allocBuf.map fun block =>
    { m with
      allocBuf := some (storeAt m.buf bytes block)
      buf := m.buf + bytes.length }

/-- `Message::send`, with the bytes it hands to the socket; there are none if the block is null. -/
def send (m : Message) : Option (Message × List UInt8) :=
  m.allocBuf.map fun block =>
    let len := m.buf
    let block := storeAt 0 (LittleEndian.encode sizeofSizeT len) block
    ({ m with allocBuf := some block }, (List.range len).map block)

/-- `Message::recv` after the header. -/
def recvPayload (alloc : ℕ → Bool) (m : Message) (header : List UInt8) (sock : Socket) : Received :=
  let len := wsub (LittleEndian.decode header) sizeofSizeT
  let m := m.fit alloc len
  match sock.recv m.allocBuf.isSome len false with
  | .spins => .spins
  | .threw => .threw
  | .returned r payload sock =>
    let m := m.store payload
    if r = neg1u then .threw
    else .returned { m with hasData := true } sock

/-- `Message::recv`. -/
def recv (alloc : ℕ → Bool) (m : Message) (sock : Socket) : Received :=
  match sock.recv true sizeofSizeT true with
  | .spins => .spins
  | .threw => .threw
  | .returned r header sock =>
    if r = 0 then m.recvPayload alloc header sock
    else if r = neg1lu ∨ r ≠ sizeofSizeT then .threw
    else .returned m sock

variable {alloc : ℕ → Bool} {m : Message} {sock : Socket}

theorem buf_fit (alloc : ℕ → Bool) (m : Message) (sz : ℕ) : (m.fit alloc sz).buf = m.buf := by
  simp only [fit]
  by_cases h : wsub m.allocLen m.buf < sz
  · rw [if_pos h]
  · rw [if_neg h]

/-- A message with a block and room for the header in front of what is written to it. -/
structure Ready (m : Message) : Prop where
  mapped : m.allocBuf.isSome = true
  header_le : 8 ≤ m.buf

theorem Ready.init (h : alloc defaultBufferSize = true) : (init alloc).Ready where
  mapped := by rw [Message.init, h]; rfl
  header_le := Nat.le_refl _

theorem Ready.put {m' : Message} {bytes : List UInt8} (h : m.Ready)
    (hput : m.put alloc bytes = some m') : m'.Ready := by
  obtain ⟨block, -, rfl⟩ := Option.map_eq_some_iff.mp hput
  refine ⟨rfl, ?_⟩
  show 8 ≤ (m.fit alloc bytes.length).buf + bytes.length
  rw [buf_fit]
  exact Nat.le_add_right_of_le h.header_le

/-! ### The header -/

theorem recv_of_header (h : 8 ≤ (data sock.arrivals).length)
    (hp : Passable false (upTo 8 sock.arrivals)) :
    m.recv alloc sock =
      m.recvPayload alloc ((data sock.arrivals).take 8) ⟨beyond 8 sock.arrivals, sock.closed⟩ := by
  have hr : sock.recv true sizeofSizeT true = _ := Socket.recv_eq sock 8 true
  rw [Bool.not_true, await_of_passable h hp] at hr
  rw [recv, hr]
  rfl

/-- A header of which some bytes are missing, on a connection that does not interrupt it. -/
theorem recv_of_short (h : (data sock.arrivals).length < 8) (hp : Passable false sock.arrivals) :
    m.recv alloc sock =
      if sock.closed = false ∧ data sock.arrivals = [] then .returned m ⟨[], false⟩
        else .threw := by
  have hr : sock.recv true sizeofSizeT true = _ := Socket.recv_eq sock 8 true
  rw [Bool.not_true, await_of_short h hp] at hr
  rw [recv, hr]
  cases sock.closed with
  | true => rfl
  | false =>
    cases hd : data sock.arrivals with
    | nil => rfl
    | cons b l =>
      rw [hd, List.length_cons] at h
      have h0 : 8 - (l.length + 1) ≠ 0 := by omega
      have h8 : 8 - (l.length + 1) ≠ 8 := by omega
      simp only [Bool.false_eq_true, if_false, Recv.ofOutcome, List.length_cons, h0,
        sizeofSizeT, h8, ne_eq, not_false_eq_true, or_true, if_true, reduceCtorEq, and_false]

/-- A header in which something stops the reader: a read that finds nothing is an error unless it
comes before the first byte. -/
theorem recv_of_not_passable (hp : ¬ Passable false (upTo 8 sock.arrivals)) :
    (.failed ∈ sock.arrivals ∨ .wouldBlock ∈ upTo 7 (beyond 1 sock.arrivals)) ∧
        m.recv alloc sock = .threw ∨
      ∃ front rest, sock.arrivals = front ++ .wouldBlock :: rest ∧ data front = [] ∧
        m.recv alloc sock = .returned m ⟨rest, sock.closed⟩ := by
  have hr : sock.recv true sizeofSizeT true = _ := Socket.recv_eq sock 8 true
  rw [Bool.not_true] at hr
  rcases await_of_not_passable hp with ⟨hf, ha⟩ | ⟨-, front, rest, hl, hlt, ha⟩
  · rw [ha] at hr
    exact .inl ⟨.inl hf, by rw [recv, hr]; rfl⟩
  rw [ha] at hr
  cases hd : data front with
  | nil =>
    rw [hd] at hr
    exact .inr ⟨front, rest, hl, hd, by rw [recv, hr]; rfl⟩
  | cons b l =>
    rw [hd, List.length_cons] at hlt
    have h0 : 8 - (l.length + 1) ≠ 0 := by omega
    have h8 : 8 - (l.length + 1) ≠ 8 := by omega
    refine .inl ⟨.inr ?_, ?_⟩
    · rw [hl]
      refine mem_upTo_beyond ?_ ?_ <;> rw [hd, List.length_cons] <;> omega
    · rw [recv, hr]
      simp only [Recv.ofOutcome, hd, List.length_cons, h0, sizeofSizeT, h8, ne_eq,
        not_false_eq_true, or_true, if_true, if_false]

/-! ### The payload -/

variable {header : List UInt8} {len : ℕ}

/-- The payload is all there: it is stored, unless the block is null or a read fails. -/
theorem recvPayload_of_complete (hlen : wsub (LittleEndian.decode header) sizeofSizeT = len)
    (h : len ≤ (data sock.arrivals).length) :
    m.recvPayload alloc header sock =
      if .failed ∉ upTo len sock.arrivals ∧ (len = 0 ∨ (m.fit alloc len).allocBuf.isSome) then
        .returned { (m.fit alloc len).store ((data sock.arrivals).take len) with hasData := true }
          ⟨beyond len sock.arrivals, sock.closed⟩
      else .threw := by
  cases hw : (m.fit alloc len).allocBuf.isSome with
  | true =>
    have hr := Socket.recv_eq sock len false
    by_cases hf : .failed ∈ upTo len sock.arrivals
    · rw [Bool.not_false, await_of_failed hf] at hr
      simp only [recvPayload, hlen, hw, hr, hf, not_true, false_and, if_false, Recv.ofOutcome]
    · rw [Bool.not_false, await_of_passable h (passable_true_iff.mpr hf)] at hr
      rw [if_pos ⟨hf, .inr rfl⟩]
      simp only [recvPayload, hlen, hw, hr, Recv.ofOutcome]
      rfl
  | false =>
    cases len with
    | zero =>
      rw [if_pos ⟨fun hf => absurd (upTo_zero sock.arrivals ▸ hf) List.not_mem_nil, .inl rfl⟩,
        beyond_zero, List.take_zero]
      simp only [recvPayload, hlen, hw]
      rfl
    | succ len =>
      have hd : data sock.arrivals ≠ [] := List.ne_nil_of_length_pos (Nat.zero_lt_of_lt h)
      rw [if_neg fun h' => h'.2.elim (Nat.succ_ne_zero _) Bool.noConfusion]
      simp only [recvPayload, hlen, hw, Socket.recv_null, hd, false_and, if_false]

/-- Some of the payload is missing.  The end of the connection is not told apart from success. -/
theorem recvPayload_of_short (hlen : wsub (LittleEndian.decode header) sizeofSizeT = len)
    (h : (data sock.arrivals).length < len) :
    m.recvPayload alloc header sock =
      if .failed ∉ sock.arrivals ∧ (data sock.arrivals = [] ∨
        (m.fit alloc len).allocBuf.isSome) then
        if sock.closed then
          .returned { (m.fit alloc len).store (data sock.arrivals) with hasData := true } ⟨[], true⟩
        else .spins
      else .threw := by
  cases hw : (m.fit alloc len).allocBuf.isSome with
  | true =>
    have hr := Socket.recv_eq sock len false
    by_cases hf : .failed ∈ sock.arrivals
    · rw [Bool.not_false, await_of_failed (by rwa [upTo_of_length_lt h])] at hr
      simp only [recvPayload, hlen, hw, hr, hf, not_true, false_and, if_false, Recv.ofOutcome]
    · rw [Bool.not_false, await_of_short h (passable_true_iff.mpr hf)] at hr
      rw [if_pos ⟨hf, .inr rfl⟩]
      simp only [recvPayload, hlen, hw, hr]
      cases sock.closed <;> rfl
  | false =>
    obtain ⟨len, rfl⟩ := Nat.exists_eq_succ_of_ne_zero (Nat.ne_zero_of_lt h)
    simp only [recvPayload, hlen, hw, Socket.recv_null, Bool.false_eq_true, or_false]
    by_cases hd : data sock.arrivals = [] ∧ .failed ∉ sock.arrivals
    · rw [if_pos hd, if_pos hd.symm, hd.1]
      cases sock.closed <;> rfl
    · rw [if_neg hd, if_neg fun h' => hd h'.symm]

end Message

end Dtest
