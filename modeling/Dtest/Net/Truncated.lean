import Dtest.Net.Message

/-!
# Connections that end inside a message

`RecvSafe` says what a receiver relies on when it decodes a message: the bytes are all there, and a
connection that ends inside a message makes `Message::recv` throw.  `recv_safe_iff` says that this
holds of a connection unless it ends inside the payload after a readable header: `Socket::recv` then
returns `-1lu`, which `Message::recv` compares with `-1u`.
-/

namespace Dtest

open Arrival

/-- The value of the header of the next message. -/
def headerValue (sock : Socket) : ℕ := LittleEndian.decode ((data sock.arrivals).take 8)

/-- The next call of `Message::recv` finds something to read, and the end of the connection inside
the header or the payload. -/
def EndsInMessage (sock : Socket) : Prop :=
  sock.closed = true ∧ .wouldBlock ∉ upTo 1 sock.arrivals ∧
    ((data sock.arrivals).length < 8 ∨ (data sock.arrivals).length < headerValue sock)

instance (sock : Socket) : Decidable (EndsInMessage sock) := by
  unfold EndsInMessage
  infer_instance

/-- What a receiver relies on. -/
structure RecvSafe (alloc : ℕ → Bool) (sock : Socket) : Prop where
  complete : ∀ m sock', (Message.init alloc).recv alloc sock = .returned m sock' →
    m.hasData = true →
    ∃ header payload, data sock.arrivals = header ++ payload ++ data sock'.arrivals ∧
      header.length = 8 ∧ LittleEndian.decode header = 8 + payload.length
  throws : EndsInMessage sock → (Message.init alloc).recv alloc sock = .threw

/-- The allocator gives a fresh message a block for a payload of `len` bytes. -/
def Served (alloc : ℕ → Bool) (len : ℕ) : Prop :=
  alloc (if len ≤ 1016 then 1024 else wadd 1024 (if len < 1024 then 1024 else len)) = true

/-- The connection ends inside the payload: all of the header is read at once, no read fails, and
the block is there if any byte of the payload comes. -/
structure EndsInPayload (alloc : ℕ → Bool) (sock : Socket) : Prop where
  closed : sock.closed = true
  header : 8 ≤ (data sock.arrivals).length
  ready : .wouldBlock ∉ upTo 8 sock.arrivals
  noError : .failed ∉ sock.arrivals
  short : (data sock.arrivals).length < headerValue sock
  served : (data sock.arrivals).length = 8 ∨ Served alloc (headerValue sock - 8)

section

variable {alloc : ℕ → Bool} {sock : Socket}

theorem isSome_fit_init (alloc : ℕ → Bool) (len : ℕ) :
    ((Message.init alloc).fit alloc len).allocBuf.isSome = true ↔ Served alloc len := by
  have hrem : wsub defaultBufferSize sizeofSizeT = 1016 := wsub_of_le (by decide) (by decide)
  have hsome : ∀ (b : Bool) (block : ℕ → UInt8),
      (if b then some block else none).isSome = true ↔ b = true := by
    intro b block
    cases b <;> simp
  unfold Message.fit Served
  simp only [Message.init, hrem]
  by_cases h : len ≤ 1016
  · rw [if_neg (by omega), if_pos h]
    exact hsome _ _
  · rw [if_pos (by omega), if_neg h]
    exact hsome _ _

/-- The payload that the header announces, as the machine computes its length. -/
theorem wsub_header (h8 : 8 ≤ headerValue sock) (h : 8 ≤ (data sock.arrivals).length) :
    wsub (LittleEndian.decode ((data sock.arrivals).take 8)) sizeofSizeT =
      headerValue sock - 8 := by
  have hlt := LittleEndian.decode_lt ((data sock.arrivals).take 8)
  rw [List.length_take_of_le h] at hlt
  exact wsub_of_le hlt h8

/-- A connection that ends inside the payload is taken for one that has delivered it. -/
theorem recv_of_endsInPayload (h8 : 8 ≤ headerValue sock) (h : EndsInPayload alloc sock) :
    ∃ m, (Message.init alloc).recv alloc sock = .returned m ⟨[], true⟩ ∧ m.hasData = true := by
  have hp : Passable false (upTo 8 sock.arrivals) :=
    ⟨fun hf => h.noError (mem_of_mem_upTo hf), fun hw => absurd hw h.ready⟩
  have hshort : (data (beyond 8 sock.arrivals)).length < headerValue sock - 8 := by
    have := h.header
    have := h.short
    rw [length_data_beyond]
    omega
  have hserved : data (beyond 8 sock.arrivals) = [] ∨
      ((Message.init alloc).fit alloc (headerValue sock - 8)).allocBuf.isSome = true := by
    rw [isSome_fit_init]
    refine h.served.imp_left fun he => List.eq_nil_of_length_eq_zero ?_
    rw [length_data_beyond, he]
  refine ⟨{ ((Message.init alloc).fit alloc (headerValue sock - 8)).store
    (data (beyond 8 sock.arrivals)) with hasData := true }, ?_, rfl⟩
  rw [Message.recv_of_header h.header hp,
    Message.recvPayload_of_short (wsub_header h8 h.header) hshort,
    if_pos ⟨fun hf => h.noError (mem_of_mem_beyond hf), hserved⟩, if_pos h.closed]

/-- With a readable header, a payload that is not all there and no error, the connection has ended
inside the payload. -/
theorem endsInPayload_of_short (h : 8 ≤ (data sock.arrivals).length)
    (hp : Passable false (upTo 8 sock.arrivals))
    (hshort : (data (beyond 8 sock.arrivals)).length < headerValue sock - 8)
    (hclosed : sock.closed = true) (hf : .failed ∉ beyond 8 sock.arrivals)
    (hserved : data (beyond 8 sock.arrivals) = [] ∨
      ((Message.init alloc).fit alloc (headerValue sock - 8)).allocBuf.isSome = true) :
    EndsInPayload alloc sock where
  closed := hclosed
  header := h
  ready := fun hw => Bool.noConfusion (hp.2 hw)
  noError := by
    rw [← upTo_append_beyond 8 sock.arrivals, List.mem_append, not_or]
    exact ⟨hp.1, hf⟩
  short := by
    rw [length_data_beyond] at hshort
    omega
  served := by
    rw [isSome_fit_init] at hserved
    apply hserved.imp_left
    intro he
    have hlen := congrArg List.length he
    rw [length_data_beyond, List.length_nil] at hlen
    omega

/-- Outside of that case, a message with data has arrived in full. -/
theorem complete_of_not_endsInPayload (h8 : 8 ≤ (data sock.arrivals).length → 8 ≤ headerValue sock)
    (hne : ¬ EndsInPayload alloc sock) {m : Message} {sock' : Socket}
    (hr : (Message.init alloc).recv alloc sock = .returned m sock') (hm : m.hasData = true) :
    ∃ header payload, data sock.arrivals = header ++ payload ++ data sock'.arrivals ∧
      header.length = 8 ∧ LittleEndian.decode header = 8 + payload.length := by
  by_cases hp : Passable false (upTo 8 sock.arrivals)
  swap
  · rcases Message.recv_of_not_passable hp with ⟨-, ht⟩ | ⟨_, _, -, -, ht⟩
    · exact Received.noConfusion (ht.symm.trans hr)
    · obtain ⟨rfl, -⟩ := Received.returned.inj (ht.symm.trans hr)
      exact Bool.noConfusion hm
  by_cases h : 8 ≤ (data sock.arrivals).length
  swap
  · have hlt := Nat.lt_of_not_le h
    have ht := (Message.recv_of_short hlt (upTo_of_length_lt hlt ▸ hp)).symm.trans hr
    split_ifs at ht
    obtain ⟨rfl, -⟩ := Received.returned.inj ht
    exact Bool.noConfusion hm
  have hlen := wsub_header (h8 h) h
  have ht := (Message.recv_of_header h hp).symm.trans hr
  by_cases hc : headerValue sock - 8 ≤ (data (beyond 8 sock.arrivals)).length
  · rw [Message.recvPayload_of_complete hlen hc] at ht
    split_ifs at ht
    obtain ⟨-, rfl⟩ := Received.returned.inj ht
    refine ⟨(data sock.arrivals).take 8,
      (data (beyond 8 sock.arrivals)).take (headerValue sock - 8), ?_, List.length_take_of_le h, ?_⟩
    · rw [data_beyond _ (beyond 8 _), List.append_assoc, List.take_append_drop, data_beyond,
        List.take_append_drop]
    · rw [List.length_take_of_le hc]
      exact (Nat.add_sub_of_le (h8 h)).symm
  · have hshort := Nat.lt_of_not_le hc
    rw [Message.recvPayload_of_short hlen hshort] at ht
    split_ifs at ht with hs hclosed
    exact absurd (endsInPayload_of_short h hp hshort hclosed hs.1 hs.2) hne

/-- Outside of that case, a connection that ends inside a message makes the call throw. -/
theorem threw_of_not_endsInPayload (h8 : 8 ≤ (data sock.arrivals).length → 8 ≤ headerValue sock)
    (hne : ¬ EndsInPayload alloc sock) (he : EndsInMessage sock) :
    (Message.init alloc).recv alloc sock = .threw := by
  obtain ⟨hclosed, hfirst, hend⟩ := he
  by_cases hp : Passable false (upTo 8 sock.arrivals)
  swap
  · rcases Message.recv_of_not_passable hp with ⟨-, ht⟩ | ⟨front, rest, hl, hd, -⟩
    · exact ht
    · have hmem : .wouldBlock ∈ upTo 1 (beyond 0 (front ++ .wouldBlock :: rest)) :=
        mem_upTo_beyond (Nat.zero_le _) (by rw [hd]; exact Nat.one_pos)
      rw [beyond_zero, ← hl] at hmem
      exact absurd hmem hfirst
  by_cases h : 8 ≤ (data sock.arrivals).length
  swap
  · have hlt := Nat.lt_of_not_le h
    rw [Message.recv_of_short hlt (upTo_of_length_lt hlt ▸ hp), hclosed, if_neg]
    exact fun hf => Bool.noConfusion hf.1
  have hshort : (data (beyond 8 sock.arrivals)).length < headerValue sock - 8 := by
    rw [length_data_beyond]
    omega
  rw [Message.recv_of_header h hp,
    Message.recvPayload_of_short (wsub_header (h8 h) h) hshort, if_neg]
  exact fun hs => hne (endsInPayload_of_short h hp hshort hclosed hs.1 hs.2)

end

/-- What a receiver relies on holds of every connection that does not end inside the payload. -/
theorem recv_safe_iff (alloc : ℕ → Bool) (sock : Socket)
    (h8 : 8 ≤ (data sock.arrivals).length → 8 ≤ headerValue sock) :
    RecvSafe alloc sock ↔ ¬ EndsInPayload alloc sock := by
  constructor
  · intro hs he
    have hend : EndsInMessage sock :=
      ⟨he.closed, fun hw => he.ready (upTo_subset_upTo (by omega) _ hw), .inr he.short⟩
    obtain ⟨m, hr, -⟩ := recv_of_endsInPayload (h8 he.header) he
    exact Received.noConfusion ((hs.throws hend).symm.trans hr)
  · intro hne
    exact ⟨fun m sock' => complete_of_not_endsInPayload h8 hne, threw_of_not_endsInPayload h8 hne⟩

/-- A message of 16 bytes of which all arrive, in three pieces. -/
def wholeMessage : Socket where
  arrivals :=
    ([16, 0, 0, 0] : List UInt8).map .datum ++ .cut :: ([0, 0, 0, 0] : List UInt8).map .datum ++
    .wouldBlock :: ([1, 2, 3, 4, 5, 6, 7, 8] : List UInt8).map .datum
  closed := true

theorem recv_safe_iff_wholeMessage : RecvSafe (fun _ => true) wholeMessage :=
  (recv_safe_iff (fun _ => true) wholeMessage (by decide)).mpr fun h => absurd h.short (by decide)

/-- A header with the value 16, then 3 bytes and the end of the connection. -/
def truncatedMessage : Socket where
  arrivals := ([16, 0, 0, 0, 0, 0, 0, 0, 1, 2, 3] : List UInt8).map .datum
  closed := true

/-- The message is handed on although five bytes of its payload are missing. -/
theorem truncated_message_accepted :
    8 ≤ headerValue truncatedMessage ∧ ¬ RecvSafe (fun _ => true) truncatedMessage := by
  have h : EndsInPayload (fun _ => true) truncatedMessage :=
    ⟨rfl, by decide, by decide, by decide, by decide, .inr rfl⟩
  refine ⟨by decide, fun hs => ?_⟩
  obtain ⟨m, hr, -⟩ := recv_of_endsInPayload (by decide) h
  exact Received.noConfusion ((hs.throws (by decide)).symm.trans hr)

end Dtest
