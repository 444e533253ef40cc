import Dtest.Net.Truncated
import Mathlib.Data.List.Forall2
import Mathlib.Data.List.GetD

/-!
# Delivery of the messages of a connection

The receiving loops of the driver and the workers, on one connection: `pollOrAccept`,
`Message::recv`, `continue` when there is no data, `dispose` when `recv` throws.  `delivered_iff`
says that they hand over exactly the messages sent, in order and with their payloads, unless a read
finds the connection empty inside one of the headers: the bytes read by then are dropped with the
connection.
-/

namespace Dtest

open Arrival

/-- What is readable once `poll` reports the connection; `none` if it never does. -/
def readable (closed : Bool) : List (Arrival UInt8) → Option (List (Arrival UInt8))
  | [] => if closed then some [] else none
  | .datum b :: l => some (.datum b :: l)
  | .cut :: l => readable closed l
  | .wouldBlock :: l => readable closed l
  | .interrupted :: l => readable closed l
  | .failed :: l => some (.failed :: l)

/-- `Socket::pollOrAccept` on an open connection. -/
def Socket.pollOrAccept (sock : Socket) : Option Socket :=
  (readable sock.closed sock.arrivals).map fun arrivals => { sock with arrivals }

/-- The receiving loop: the messages it hands over in at most the given number of rounds.  The first
round follows the `accept`, without a `poll` of the connection itself. -/
def receivingLoop (alloc : ℕ → Bool) : ℕ → Socket → List Message
  | 0, _ => []
  | fuel + 1, conn =>
    match (Message.init alloc).recv alloc conn with
    | .spins => []
    -- dispose
    | .threw => []
    | .returned m conn =>
      let next :=
        match conn.pollOrAccept with
        | none => []
        | some conn => receivingLoop alloc fuel conn
      if !m.hasData then next else m :: next

namespace Message

/-- The bytes written to a message. -/
def payload (m : Message) : List UInt8 :=
  match m.allocBuf with
  | none => []
  | some block => (List.range (m.buf - sizeofSizeT)).map fun i => block (sizeofSizeT + i)

/-- The bytes that `send` hands to the socket. -/
def frame (m : Message) : List UInt8 := (m.send.map Prod.snd).getD []

/-- A message from which the given bytes can be read. -/
def Carries (m : Message) (bytes : List UInt8) : Prop :=
  m.hasData = true ∧ ∃ block, m.allocBuf = some block ∧
    ∀ i (h : i < bytes.length), block (m.buf + i) = bytes[i]

/-- What `Message::send` writes on the connection: the length in the header, then the payload. -/
theorem Ready.frame_eq {m : Message} (h : m.Ready) :
    m.frame = LittleEndian.encode 8 m.buf ++ m.payload := by
  obtain ⟨block, hm⟩ := Option.isSome_iff_exists.mp h.mapped
  have h8 := h.header_le
  simp only [frame, send, payload, hm, Option.map_some, Option.getD_some, sizeofSizeT]
  refine List.ext_getElem ?_ fun i hi _ => ?_
  · rw [List.length_append, List.length_map, List.length_map, List.length_range, List.length_range,
      LittleEndian.length_encode]
    omega
  rw [List.getElem_map, List.getElem_range, storeAt, if_pos (Nat.zero_le _), Nat.sub_zero]
  by_cases h : i < 8
  · rw [List.getD_eq_getElem _ _ (by rwa [LittleEndian.length_encode]), List.getElem_append_left]
  · rw [List.getD_eq_default _ _ (by rw [LittleEndian.length_encode]; omega),
      List.getElem_append_right (by rw [LittleEndian.length_encode]; omega), List.getElem_map,
      List.getElem_range, LittleEndian.length_encode, Nat.add_sub_of_le (Nat.le_of_not_lt h)]

theorem Ready.length_payload {m : Message} (h : m.Ready) : m.payload.length = m.buf - 8 := by
  obtain ⟨block, hm⟩ := Option.isSome_iff_exists.mp h.mapped
  rw [payload, hm, List.length_map, List.length_range]
  rfl

theorem Ready.length_frame {m : Message} (h : m.Ready) : m.frame.length = m.buf := by
  rw [h.frame_eq, List.length_append, LittleEndian.length_encode, h.length_payload]
  exact Nat.add_sub_of_le h.header_le

/-- Bytes that have been stored can be read. -/
theorem carries_store {m : Message} (hm : m.allocBuf.isSome = true) (bytes : List UInt8) :
    Carries { m.store bytes with hasData := true } bytes := by
  obtain ⟨block, hblock⟩ := Option.isSome_iff_exists.mp hm
  refine ⟨rfl, storeAt m.buf bytes block, by rw [store, hblock]; rfl, fun i h => ?_⟩
  show storeAt m.buf bytes block (m.buf + i) = bytes[i]
  rw [storeAt, if_pos (Nat.le_add_right _ _), Nat.add_sub_cancel_left, List.getD_eq_getElem _ _ h]

end Message

/-- No read finds the connection empty between the first and the last byte of a header; the messages
`sent` are the next ones. -/
def HeadersUnbroken : List Message → List (Arrival UInt8) → Prop
  | [], _ => True
  | s :: sent, l => .wouldBlock ∉ upTo 7 (beyond 1 l) ∧ HeadersUnbroken sent (beyond s.buf l)

/-- A message that was built with `put` and `<<`, and that the receiver has the memory for. -/
structure Sendable (alloc : ℕ → Bool) (s : Message) : Prop extends s.Ready where
  buf_lt : s.buf < 2 ^ 64
  served : Served alloc (s.buf - 8)

/-- The connection holds the bytes of the given messages, and no read of it fails. -/
structure Holds (sock : Socket) (sent : List Message) : Prop where
  bytes : data sock.arrivals = sent.flatMap Message.frame
  noError : .failed ∉ sock.arrivals

section

variable {alloc : ℕ → Bool} {sock sock' : Socket} {sent : List Message} {s : Message}

/-! ### What comes before the next byte does not matter -/

theorem HeadersUnbroken.skip (hs : ∀ s ∈ sent, Sendable alloc s) {front : List (Arrival UInt8)}
    (hf : data front = []) (l : List (Arrival UInt8)) :
    HeadersUnbroken sent (front ++ l) ↔ HeadersUnbroken sent l := by
  cases sent with
  | nil => exact Iff.rfl
  | cons s sent =>
    have h8 := (hs s List.mem_cons_self).header_le
    obtain ⟨k, hk⟩ := Nat.exists_eq_succ_of_ne_zero (Nat.ne_zero_of_lt h8)
    rw [HeadersUnbroken, HeadersUnbroken, hk, beyond_succ_append 0 hf, beyond_succ_append k hf]

theorem Holds.skip {front l : List (Arrival UInt8)} (h : Holds sock sent)
    (hl : sock.arrivals = front ++ l) (hf : data front = []) (closed : Bool) :
    Holds ⟨l, closed⟩ sent where
  bytes := by rw [← h.bytes, hl, data_append, hf, List.nil_append]
  noError := fun hmem => h.noError (hl ▸ List.mem_append_right _ hmem)

/-- Every message takes at least its header. -/
theorem Holds.eq_nil (h : Holds sock sent) (hs : ∀ s ∈ sent, Sendable alloc s)
    (hd : data sock.arrivals = []) : sent = [] := by
  cases sent with
  | nil => rfl
  | cons s sent =>
    have hhead := hs s List.mem_cons_self
    have hlen := congrArg List.length (h.bytes.symm.trans hd)
    rw [List.flatMap_cons, List.length_append, hhead.toReady.length_frame, List.length_nil] at hlen
    have := hhead.header_le
    omega

/-- A `poll` skips to the next byte. -/
theorem of_readable_eq_some {closed : Bool} {l l' : List (Arrival UInt8)}
    (h : readable closed l = some l') : ∃ front, l = front ++ l' ∧ data front = [] := by
  induction l with
  | nil =>
    cases closed with
    | true => exact ⟨[], Option.some.inj h, rfl⟩
    | false => cases h
  | cons x l ih =>
    cases x with
    | datum b | failed => exact ⟨[], Option.some.inj h, rfl⟩
    | cut | wouldBlock | interrupted =>
      obtain ⟨front, rfl, hf⟩ := ih h
      exact ⟨_ :: front, rfl, hf⟩

theorem of_readable_eq_none {closed : Bool} {l : List (Arrival UInt8)}
    (h : readable closed l = none) :
    data l = [] := by
  induction l with
  | nil => rfl
  | cons x l ih =>
    cases x with
    | datum b | failed => cases h
    | cut | wouldBlock | interrupted => exact ih h

/-! ### One round -/

/-- The rounds that follow a `recv` that has returned. -/
def resume (alloc : ℕ → Bool) (fuel : ℕ) (conn : Socket) : List Message :=
  match conn.pollOrAccept with
  | none => []
  | some conn => receivingLoop alloc fuel conn

theorem receivingLoop_of_threw {fuel : ℕ} (h : (Message.init alloc).recv alloc sock = .threw) :
    receivingLoop alloc fuel sock = [] := by
  cases fuel with
  | zero => rfl
  | succ fuel => rw [receivingLoop, h]

theorem receivingLoop_of_returned {fuel : ℕ} {m : Message}
    (h : (Message.init alloc).recv alloc sock = .returned m sock') :
    receivingLoop alloc (fuel + 1) sock =
      if !m.hasData then resume alloc fuel sock' else m :: resume alloc fuel sock' := by
  rw [receivingLoop, h]
  rfl

/-- What follows a `recv` is another round at the next byte, or nothing when there is none. -/
theorem resume_cases (alloc : ℕ → Bool) (fuel : ℕ) (conn : Socket) :
    resume alloc fuel conn = [] ∧ data conn.arrivals = [] ∨
      ∃ front l, conn.arrivals = front ++ l ∧ data front = [] ∧
        resume alloc fuel conn = receivingLoop alloc fuel ⟨l, conn.closed⟩ := by
  unfold resume Socket.pollOrAccept
  cases h : readable conn.closed conn.arrivals with
  | none => exact .inl ⟨rfl, of_readable_eq_none h⟩
  | some l =>
    obtain ⟨front, hl, hf⟩ := of_readable_eq_some h
    exact .inr ⟨front, l, hl, hf, rfl⟩

/-- Nothing is handed over when there is nothing left to read. -/
theorem receivingLoop_of_no_data (fuel : ℕ) (hd : data sock.arrivals = [])
    (hf : .failed ∉ sock.arrivals) : receivingLoop alloc fuel sock = [] := by
  induction fuel generalizing sock with
  | zero => rfl
  | succ fuel ih =>
    have hresume : ∀ conn : Socket, data conn.arrivals = [] → .failed ∉ conn.arrivals →
        resume alloc fuel conn = [] := by
      intro conn hd hf
      rcases resume_cases alloc fuel conn with ⟨hr, -⟩ | ⟨front, l, hl, hfront, hr⟩
      · exact hr
      · rw [hl] at hd hf
        rw [data_append, hfront, List.nil_append] at hd
        exact hr.trans (ih hd fun hmem => hf (List.mem_append_right _ hmem))
    have hlt : (data sock.arrivals).length < 8 := by rw [hd]; decide
    by_cases hp : Passable false (upTo 8 sock.arrivals)
    · have hr : (Message.init alloc).recv alloc sock = _ :=
        Message.recv_of_short hlt (upTo_of_length_lt hlt ▸ hp)
      split_ifs at hr
      · rw [receivingLoop_of_returned hr]
        exact hresume ⟨[], false⟩ rfl List.not_mem_nil
      · exact receivingLoop_of_threw hr
    · rcases Message.recv_of_not_passable hp with ⟨-, hr⟩ | ⟨front, rest, hl, hfront, hr⟩
      · exact receivingLoop_of_threw hr
      · rw [hl] at hd hf
        rw [data_append, hfront, List.nil_append] at hd
        rw [receivingLoop_of_returned hr]
        exact hresume _ hd fun hmem => hf (List.mem_append_right _ (List.mem_cons_of_mem _ hmem))

/-- What the receiver makes of the message `s`. -/
def received (alloc : ℕ → Bool) (s : Message) : Message :=
  { ((Message.init alloc).fit alloc (s.buf - 8)).store s.payload with hasData := true }

/-- A message whose header is read at once is received, and the next ones are left on the
connection. -/
theorem recv_head (hs : Sendable alloc s) (h : Holds sock (s :: sent))
    (hp : Passable false (upTo 8 sock.arrivals)) :
    (Message.init alloc).recv alloc sock =
        .returned (received alloc s) ⟨beyond s.buf sock.arrivals, sock.closed⟩ ∧
      (received alloc s).Carries s.payload ∧
      Holds ⟨beyond s.buf sock.arrivals, sock.closed⟩ sent := by
  have h8 := hs.header_le
  have hbytes := h.bytes
  rw [List.flatMap_cons, hs.toReady.frame_eq, List.append_assoc] at hbytes
  have hlen8 := LittleEndian.length_encode 8 s.buf
  have hheader : (data sock.arrivals).take 8 = LittleEndian.encode 8 s.buf := by
    rw [hbytes, List.take_left' hlen8]
  have hrest : data (beyond 8 sock.arrivals) = s.payload ++ sent.flatMap Message.frame := by
    rw [data_beyond, hbytes, List.drop_left' hlen8]
  have hpayload : (data (beyond 8 sock.arrivals)).take (s.buf - 8) = s.payload := by
    rw [hrest, List.take_left' hs.toReady.length_payload]
  have hbeyond : beyond (s.buf - 8) (beyond 8 sock.arrivals) = beyond s.buf sock.arrivals := by
    rw [← beyond_add, Nat.add_sub_of_le h8]
  have hlen : wsub (LittleEndian.decode ((data sock.arrivals).take 8)) sizeofSizeT = s.buf - 8 := by
    rw [hheader, LittleEndian.decode_encode_of_lt (k := 8) hs.buf_lt]
    exact wsub_of_le hs.buf_lt h8
  have hcomplete : s.buf - 8 ≤ (data (beyond 8 sock.arrivals)).length := by
    rw [hrest, List.length_append, hs.toReady.length_payload]
    exact Nat.le_add_right _ _
  have hheader_le : 8 ≤ (data sock.arrivals).length := by
    rw [hbytes, List.length_append, hlen8]
    exact Nat.le_add_right _ _
  have hserved := (isSome_fit_init alloc (s.buf - 8)).mpr hs.served
  refine ⟨?_, Message.carries_store hserved s.payload, ?_, ?_⟩
  · rw [received, Message.recv_of_header hheader_le hp,
      Message.recvPayload_of_complete hlen hcomplete,
      if_pos ⟨fun hf => h.noError (mem_of_mem_beyond (mem_of_mem_upTo hf)), .inr hserved⟩, hpayload,
      hbeyond]
  · rw [← hbeyond, data_beyond, hrest, List.drop_left' hs.toReady.length_payload]
  · exact fun hf => h.noError (mem_of_mem_beyond hf)

/-- A header that is read at once is not broken. -/
theorem not_mem_header_of_passable {l : List (Arrival UInt8)} (hp : Passable false (upTo 8 l)) :
    .wouldBlock ∉ upTo 7 (beyond 1 l) := by
  intro hw
  have hmem : .wouldBlock ∈ upTo (1 + 7) l := by
    rw [upTo_add]
    exact List.mem_append_right _ hw
  exact Bool.noConfusion (hp.2 hmem)

end

/-- The receiving loop hands over exactly the messages sent, each with its payload and in order,
unless a read finds the connection empty inside a header. -/
theorem delivered_iff (alloc : ℕ → Bool) (sent : List Message) (sock : Socket) (fuel : ℕ)
    (hs : ∀ s ∈ sent, Sendable alloc s) (h : Holds sock sent)
    (hfuel : sock.arrivals.length ≤ fuel) :
    List.Forall₂ (fun m s => m.Carries s.payload) (receivingLoop alloc fuel sock) sent ↔
      HeadersUnbroken sent sock.arrivals := by
  induction fuel generalizing sent sock with
  | zero =>
    have hl := List.length_eq_zero_iff.mp (Nat.le_zero.mp hfuel)
    rw [h.eq_nil hs (by rw [hl]; rfl)]
    exact iff_of_true .nil trivial
  | succ fuel ih =>
    -- the rounds that follow, with fewer arrivals left
    have hresume : ∀ (sent : List Message) (conn : Socket), (∀ s ∈ sent, Sendable alloc s) →
        Holds conn sent → conn.arrivals.length ≤ fuel →
        (List.Forall₂ (fun m s => m.Carries s.payload) (resume alloc fuel conn) sent ↔
          HeadersUnbroken sent conn.arrivals) := by
      intro sent conn hs h hfuel
      rcases resume_cases alloc fuel conn with ⟨hr, hd⟩ | ⟨front, l, hl, hfront, hr⟩
      · rw [hr, h.eq_nil hs hd]
        exact iff_of_true .nil trivial
      · rw [hr, hl, HeadersUnbroken.skip hs hfront]
        refine ih sent ⟨l, conn.closed⟩ hs (h.skip hl hfront _) ?_
        rw [hl, List.length_append] at hfuel
        exact Nat.le_trans (Nat.le_add_left _ _) hfuel
    cases sent with
    | nil =>
      rw [receivingLoop_of_no_data _ h.bytes h.noError]
      exact iff_of_true .nil trivial
    | cons s sent =>
      have hss : ∀ s ∈ sent, Sendable alloc s := fun t ht => hs t (List.mem_cons_of_mem _ ht)
      have hhead := hs s List.mem_cons_self
      have hpos : 0 < (data sock.arrivals).length :=
        List.length_pos_of_ne_nil fun hd => List.cons_ne_nil _ _ (h.eq_nil hs hd)
      by_cases hp : Passable false (upTo 8 sock.arrivals)
      · obtain ⟨hr, hm, hrest⟩ := recv_head hhead h hp
        have hlt := length_beyond_lt (Nat.zero_lt_of_lt hhead.header_le) hpos
        rw [receivingLoop_of_returned hr, hm.1, HeadersUnbroken,
          ← hresume sent _ hss hrest (Nat.le_of_lt_succ (Nat.lt_of_lt_of_le hlt hfuel))]
        simp only [Bool.not_true, Bool.false_eq_true, if_false, List.forall₂_cons]
        exact and_congr_left fun _ => iff_of_true hm (not_mem_header_of_passable hp)
      · rcases Message.recv_of_not_passable hp with ⟨hw, hr⟩ | ⟨front, rest, hl, hfront, hr⟩
        · rw [receivingLoop_of_threw hr]
          exact iff_of_false (fun h => nomatch h) fun hu => hu.1 (hw.resolve_left h.noError)
        · have hl' : sock.arrivals = (front ++ [.wouldBlock]) ++ rest := by
            rw [hl, List.append_assoc]
            rfl
          have hfront' : data (front ++ [.wouldBlock]) = [] := by
            rw [data_append, hfront]
            rfl
          rw [receivingLoop_of_returned hr, hl', HeadersUnbroken.skip hs hfront']
          refine hresume (s :: sent) ⟨rest, sock.closed⟩ hs (h.skip hl' hfront' _) ?_
          rw [hl', List.length_append, List.length_append, List.length_singleton] at hfuel
          show rest.length ≤ fuel
          omega

/-- A message with a payload of three bytes. -/
def threeBytes : Message where
  allocBuf := some fun i => ([0, 0, 0, 0, 0, 0, 0, 0, 1, 2, 3] : List UInt8).getD i 0
  allocLen := 1024
  buf := 11
  hasData := false

theorem sendable_threeBytes : Sendable (fun _ => true) threeBytes :=
  ⟨⟨rfl, by decide⟩, by decide, rfl⟩

/-- The message twice, in pieces that end between the headers and the payloads. -/
def piecewise : Socket where
  arrivals := [.wouldBlock] ++ ([11, 0, 0] : List UInt8).map .datum ++ [.cut, .interrupted] ++
    ([0, 0, 0, 0, 0] : List UInt8).map .datum ++ [.wouldBlock] ++
      ([1, 2] : List UInt8).map .datum ++
    [.wouldBlock, .wouldBlock] ++ ([3, 11, 0, 0, 0, 0, 0, 0, 0] : List UInt8).map .datum ++
    [.wouldBlock] ++ ([1, 2, 3] : List UInt8).map .datum
  closed := true

theorem delivered_iff_piecewise :
    List.Forall₂ (fun m s => m.Carries s.payload)
      (receivingLoop (fun _ => true) 40 piecewise) [threeBytes, threeBytes] := by
  refine (delivered_iff (fun _ => true) [threeBytes, threeBytes] piecewise 40 ?_ ?_ ?_).mpr ?_
  · intro s hs
    rw [List.mem_cons, List.mem_singleton, or_self] at hs
    exact hs ▸ sendable_threeBytes
  · exact ⟨by decide, by decide⟩
  · decide
  · exact ⟨by decide, by decide, trivial⟩

/-- The message once; a read comes after the third byte of its header. -/
def brokenHeader : Socket where
  arrivals := ([11, 0, 0] : List UInt8).map .datum ++ [.wouldBlock] ++
    ([0, 0, 0, 0, 0, 1, 2, 3] : List UInt8).map .datum
  closed := false

/-- The message is lost. -/
theorem broken_header_lost :
    (∀ s ∈ [threeBytes], Sendable (fun _ => true) s) ∧ Holds brokenHeader [threeBytes] ∧
      ∀ fuel, ¬ List.Forall₂ (fun m s => m.Carries s.payload)
        (receivingLoop (fun _ => true) fuel brokenHeader) [threeBytes] := by
  refine ⟨?_, ⟨by decide, by decide⟩, fun fuel => ?_⟩
  · intro s hs
    exact List.mem_singleton.mp hs ▸ sendable_threeBytes
  · have hr : (Message.init fun _ => true).recv (fun _ => true) brokenHeader = .threw := rfl
    rw [receivingLoop_of_threw hr]
    exact fun h => nomatch h

end Dtest
