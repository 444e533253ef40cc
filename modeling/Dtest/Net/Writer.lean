import Dtest.Net.Codec

/-!
# Building a message

A sequence of `put` and `<<` on a default-constructed `Message`, with copies and moves in between
after which the program goes on with the target.  A `Writer` is the message it goes on with and the
accesses made so far to blocks, each against the size that the block has at that time.  An operation
has no result where it would access a null block.  `writer_delivers` is about all such sequences.
-/

namespace Dtest

/-- An access to the bytes from `off` on of a block of `size` bytes. -/
structure Access where
  off : ℕ
  len : ℕ
  size : ℕ

/-- The access stays inside the block. -/
def Access.Inside (a : Access) : Prop := a.off + a.len ≤ a.size

namespace Message

/-- `_dispose`: the block is given back. -/
def dispose (m : Message) : Message := { m with allocBuf := none }

/-- `_invalidate`. -/
def invalidate (m : Message) : Message :=
  { m with allocBuf := none, allocLen := 0, buf := 0, hasData := false }

/-- `_move`. -/
def move (m rhs : Message) : Message :=
  { m with
    allocBuf := rhs.allocBuf
    allocLen := rhs.allocLen
    buf := rhs.buf
    hasData := rhs.hasData }

/-- `_copy`; there is no result if one of the blocks is null, unless there is nothing to copy. -/
def copy (alloc : ℕ → Bool) (m rhs : Message) : Option Message :=
  if rhs.allocLen = 0 ∨ (alloc rhs.allocLen ∧ rhs.allocBuf.isSome) then
    some { m with
      allocBuf :=
        if alloc rhs.allocLen then
          some fun i => if i < rhs.allocLen then (rhs.allocBuf.getD fun _ => 0) i else 0
        else none
      allocLen := rhs.allocLen
      buf := rhs.buf
      hasData := rhs.hasData }
  else none

/-- The members before a copying or moving constructor runs. -/
def blank : Message := ⟨none, 0, 0, false⟩

/-- `Message(Message &&rhs)`: the new message, and what is left of `rhs`. -/
def moveConstruct (rhs : Message) : Message × Message := (blank.move rhs, rhs.invalidate)

/-- `Message(const Message &rhs)`. -/
def copyConstruct (alloc : ℕ → Bool) (rhs : Message) : Option Message := blank.copy alloc rhs

/-- `operator=(Message &&rhs)` of another message. -/
def moveAssign (m rhs : Message) : Message × Message := (m.dispose.move rhs, rhs.invalidate)

/-- `operator=(const Message &rhs)` of another message. -/
def copyAssign (alloc : ℕ → Bool) (m rhs : Message) : Option Message := m.dispose.copy alloc rhs

end Message

/-- The message that the program goes on with, and the accesses made to blocks. -/
structure Writer where
  message : Message
  accesses : List Access

/-- What the program does with its message. -/
inductive WriterOp where
  | put (bytes : List UInt8)
  | write (f : Field)
  | copyConstruct
  | moveConstruct
  | copyAssign (target : Message)
  | moveAssign (target : Message)

/-- What one operand of `<<` stores, one store after the other. -/
def Field.puts : Field → List (List UInt8)
  | ⟨.scalar t, x⟩ => [t.encode x]
  | ⟨.vector t, x⟩ => LittleEndian.encode 8 x.length :: x.map t.encode
  | ⟨.list t, x⟩ => LittleEndian.encode 8 x.length :: x.map t.encode

/-- The bytes that an operation appends. -/
def WriterOp.bytes : WriterOp → List UInt8
  | .put bytes => bytes
  | .write f => f.encode
  | .copyConstruct | .moveConstruct | .copyAssign _ | .moveAssign _ => []

/-- The encodings of all operations in order. -/
def written (ops : List WriterOp) : List UInt8 := ops.flatMap WriterOp.bytes

namespace Writer

/-- `put`, or one store of `<<`. -/
def put (alloc : ℕ → Bool) (w : Writer) (bytes : List UInt8) : Option Writer :=
  (w.message.put alloc bytes).map fun m =>
    { message := m
      accesses :=
        w.accesses ++ [⟨w.message.buf, bytes.length, (w.message.fit alloc bytes.length).allocLen⟩] }

/-- After a copy: it has stored as many bytes as the block of the source has into a block of that
size. -/
def copied (w : Writer) (m : Message) : Writer :=
  { message := m
    accesses := w.accesses ++ [⟨0, w.message.allocLen, m.allocLen⟩] }

def step (alloc : ℕ → Bool) (w : Writer) : WriterOp → Option Writer
  | .put bytes => w.put alloc bytes
  | .write f => f.puts.foldlM (put alloc) w
  | .copyConstruct => (w.message.copyConstruct alloc).map w.copied
  | .copyAssign target => (target.copyAssign alloc w.message).map w.copied
  | .moveConstruct => some { w with message := w.message.moveConstruct.1 }
  | .moveAssign target => some { w with message := (target.moveAssign w.message).1 }

/-- The operations on a default-constructed message. -/
def run (alloc : ℕ → Bool) (ops : List WriterOp) : Option Writer :=
  ops.foldlM (step alloc) ⟨Message.init alloc, []⟩

/-- `Message::send`: it stores the header and hands the socket the bytes in front of `_buf`. -/
def send (w : Writer) : Option (Writer × List UInt8) :=
  w.message.send.map fun (m, frame) =>
    ({ message := m
       accesses := w.accesses ++
        [⟨0, sizeofSizeT, w.message.allocLen⟩, ⟨0, w.message.buf, w.message.allocLen⟩] },
      frame)

end Writer

/-! ## The stores of `<<` -/

theorem flatten_puts (f : Field) : f.puts.flatten = f.encode := by
  obtain ⟨ty, x⟩ := f
  cases ty with
  | scalar t => exact List.append_nil _
  | vector t | list t =>
    show LittleEndian.encode 8 x.length ++ (x.map t.encode).flatten = _
    rw [← List.flatMap_def]
    rfl

/-- The stores of an operand make up `operator<<`. -/
theorem write_eq_puts (alloc : ℕ → Bool) (m : Message) (f : Field) :
    m.write alloc f = f.puts.foldlM (Message.put alloc) m := by
  obtain ⟨ty, x⟩ := f
  cases ty with
  | scalar t =>
    show m.writeScalar alloc t x = [t.encode x].foldlM (Message.put alloc) m
    rw [Message.writeScalar_eq, List.foldlM_cons]
    cases m.put alloc (t.encode x) <;> rfl
  | vector t | list t =>
    show m.writeContainer alloc t x = (LittleEndian.encode 8 x.length :: x.map t.encode).foldlM _ m
    simp only [List.foldlM_cons, List.foldlM_map, ← Message.writeScalar_eq]
    rfl

namespace Writer

variable {alloc : ℕ → Bool} {w w' : Writer} {bytes bytes' : List UInt8}

/-- Recording the accesses does not change what the message becomes. -/
theorem message_foldlM_put (alloc : ℕ → Bool) (w : Writer) (l : List (List UInt8)) :
    (l.foldlM (put alloc) w).map message = l.foldlM (Message.put alloc) w.message := by
  induction l generalizing w with
  | nil => rfl
  | cons bytes l ih =>
    rw [List.foldlM_cons, List.foldlM_cons]
    unfold put
    cases w.message.put alloc bytes with
    | none => rfl
    | some m => exact ih _

theorem message_write (alloc : ℕ → Bool) (w : Writer) (f : Field) :
    (w.step alloc (.write f)).map message = w.message.write alloc f := by
  rw [write_eq_puts]
  exact message_foldlM_put alloc w f.puts

/-! ## Growth -/

/-- Either the block has room for `sz` more bytes and stays, or it grows by at least `sz`. -/
theorem fit_cases (alloc : ℕ → Bool) {m : Message} {sz : ℕ} (hroom : m.buf ≤ m.allocLen)
    (hsmall : m.allocLen < 2 ^ 63) (hsz : sz < 2 ^ 63) :
    (m.buf + sz ≤ m.allocLen ∧ m.fit alloc sz = m) ∨
      ∃ grow, m.allocLen < m.buf + sz ∧ sz ≤ grow ∧ grow ≤ sz + 1024 ∧
        m.fit alloc sz = { m with
          allocBuf := if alloc (m.allocLen + grow) then some (m.allocBuf.getD fun _ => 0) else none
          allocLen := m.allocLen + grow } := by
  have hrem : wsub m.allocLen m.buf = m.allocLen - m.buf := wsub_of_le (by omega) hroom
  unfold Message.fit
  dsimp only
  rw [hrem]
  by_cases hgrow : m.allocLen - m.buf < sz
  · rw [if_pos hgrow]
    right
    have hstep : sz ≤ (if sz < defaultBufferSize then defaultBufferSize else sz) ∧
        (if sz < defaultBufferSize then defaultBufferSize else sz) ≤ sz + 1024 ∧
        (if sz < defaultBufferSize then defaultBufferSize else sz) < 2 ^ 63 := by
      unfold defaultBufferSize
      split <;> omega
    refine ⟨_, by omega, hstep.1, hstep.2.1, ?_⟩
    rw [wadd_of_lt (by omega)]
  · rw [if_neg hgrow]
    exact .inl ⟨by omega, rfl⟩

/-- Growth under an allocator that serves no request of `2 ^ 63` bytes: there is room for what is
written next, and the block is at most about twice as long as what is in it. -/
theorem fit_spec {m : Message} {sz : ℕ} (hmax : ∀ n, alloc n = true → n < 2 ^ 63)
    (hroom : m.buf ≤ m.allocLen) (hsmall : m.allocLen < 2 ^ 63)
    (hgrowth : m.allocLen ≤ 2 * m.buf + 1024) (hsz : sz < 2 ^ 63)
    (hmapped : (m.fit alloc sz).allocBuf.isSome) :
    m.buf + sz ≤ (m.fit alloc sz).allocLen ∧ (m.fit alloc sz).allocLen < 2 ^ 63 ∧
      (m.fit alloc sz).allocLen ≤ 2 * (m.buf + sz) + 1024 := by
  rcases fit_cases alloc hroom hsmall hsz with ⟨hfits, hsame⟩ | ⟨grow, hfull, hlo, hhi, hgrown⟩
  · rw [hsame]
    omega
  · rw [hgrown] at hmapped ⊢
    have hserved : alloc (m.allocLen + grow) = true := by
      by_contra hnot
      rw [if_neg hnot] at hmapped
      cases hmapped
    have := hmax _ hserved
    dsimp only
    omega

/-- An allocator that serves what growth asks for. -/
theorem fit_isSome {m : Message} {sz : ℕ} (hroom : m.buf ≤ m.allocLen)
    (hsmall : m.allocLen < 2 ^ 63) (hsz : sz < 2 ^ 63)
    (hserve : ∀ n, n ≤ 2 * (m.buf + sz) + 1024 → alloc n = true) (hmapped : m.allocBuf.isSome) :
    (m.fit alloc sz).allocBuf.isSome := by
  rcases fit_cases alloc hroom hsmall hsz with ⟨-, hsame⟩ | ⟨grow, hfull, hlo, hhi, hgrown⟩
  · rw [hsame]
    exact hmapped
  · rw [hgrown, if_pos (hserve _ (by omega))]
    rfl

/-! ## The invariant -/

/-- What holds of a message after `bytes` have been written to it. -/
structure Inv (w : Writer) (bytes : List UInt8) : Prop where
  inside : ∀ a ∈ w.accesses, a.Inside
  buf : w.message.buf = 8 + bytes.length
  room : w.message.buf ≤ w.message.allocLen
  small : w.message.allocLen < 2 ^ 63
  growth : w.message.allocLen ≤ 2 * w.message.buf + 1024
  payload : w.message.payload = bytes

theorem inv_init (alloc : ℕ → Bool) : Inv ⟨Message.init alloc, []⟩ [] where
  inside := fun _ ha => absurd ha List.not_mem_nil
  buf := rfl
  room := show 8 ≤ 1024 by decide
  small := show 1024 < 2 ^ 63 by decide
  growth := show 1024 ≤ 2 * 8 + 1024 by decide
  payload := by
    unfold Message.init Message.payload
    split <;> rfl

/-- Where the first block was refused, the next request may still be served. -/
theorem put_of_null {m m' : Message} (hnull : m.allocBuf = none) (h : m.put alloc bytes = some m') :
    Message.put alloc { m with allocBuf := some fun _ => 0 } bytes = some m' := by
  rw [← h]
  unfold Message.put Message.fit at h ⊢
  simp only [hnull] at h ⊢
  split
  · rfl
  · rename_i hrem
    rw [if_neg hrem] at h
    rw [hnull] at h
    cases h

theorem payload_put {m m' : Message} (h8 : m.buf = 8 + m.payload.length)
    (h : m.put alloc bytes = some m') : m'.payload = m.payload ++ bytes := by
  cases hblock : m.allocBuf with
  | some block => exact (Message.wrote_put ⟨by rw [hblock]; rfl, by omega⟩ h).payload
  | none =>
    have hnil : m.payload = [] := by
      rw [Message.payload, hblock]
    rw [hnil, List.length_nil] at h8
    have hw := Message.wrote_put ⟨rfl, by show 8 ≤ m.buf; omega⟩ (put_of_null hblock h)
    rw [hw.payload, hnil, Message.payload_eq rfl]
    have hzero : m.buf - 8 = 0 := by omega
    simp only [hzero]
    rfl

theorem inv_put (hmax : ∀ n, alloc n = true → n < 2 ^ 63) (hw : w.Inv bytes)
    (hsz : bytes'.length < 2 ^ 63) (h : w.put alloc bytes' = some w') :
    w'.Inv (bytes ++ bytes') := by
  obtain ⟨m, hput, rfl⟩ := Option.map_eq_some_iff.1 h
  have hlen : w.message.buf = 8 + w.message.payload.length := by rw [hw.buf, hw.payload]
  have hpayload := payload_put hlen hput
  obtain ⟨block, hblock, rfl⟩ := Option.map_eq_some_iff.1 hput
  obtain ⟨hroom, hsmall, hgrowth⟩ :=
    fit_spec hmax hw.room hw.small hw.growth hsz (by rw [hblock]; rfl)
  have hbuf := Message.buf_fit alloc w.message bytes'.length
  refine ⟨fun a ha => ?_, ?_, ?_, hsmall, ?_, by rw [hpayload, hw.payload]⟩
  · rcases List.mem_append.1 ha with ha | ha
    · exact hw.inside a ha
    · obtain rfl := List.mem_singleton.1 ha
      exact hroom
  · show (w.message.fit alloc bytes'.length).buf + bytes'.length = _
    rw [hbuf, hw.buf, List.length_append, Nat.add_assoc]
  · show (w.message.fit alloc bytes'.length).buf + bytes'.length ≤ _
    rw [hbuf]
    exact hroom
  · show _ ≤ 2 * ((w.message.fit alloc bytes'.length).buf + bytes'.length) + 1024
    rw [hbuf]
    exact hgrowth

theorem inv_puts (hmax : ∀ n, alloc n = true → n < 2 ^ 63) (l : List (List UInt8))
    (hw : w.Inv bytes) (hsz : l.flatten.length < 2 ^ 63) (h : l.foldlM (put alloc) w = some w') :
    w'.Inv (bytes ++ l.flatten) := by
  induction l generalizing w bytes with
  | nil =>
    obtain rfl := Option.some.inj h
    rwa [List.flatten_nil, List.append_nil]
  | cons x l ih =>
    rw [List.flatten_cons, List.length_append] at hsz
    rw [List.foldlM_cons] at h
    obtain ⟨w₁, h₁, h₂⟩ := Option.bind_eq_some_iff.1 h
    have := ih (inv_put hmax hw (by omega) h₁) (by omega) h₂
    rwa [List.append_assoc] at this

/-- A copy has the bytes in front of `_buf`, which are all in the block. -/
theorem payload_copy {m rhs m' : Message} (hroom : rhs.buf ≤ rhs.allocLen) (h8 : 8 ≤ rhs.buf)
    (h : m.copy alloc rhs = some m') :
    m'.payload = rhs.payload ∧ m'.buf = rhs.buf ∧ m'.allocLen = rhs.allocLen := by
  unfold Message.copy at h
  split at h
  case isFalse => cases h
  case isTrue hcopy =>
  have hserved : alloc rhs.allocLen = true ∧ rhs.allocBuf.isSome = true :=
    hcopy.resolve_left (by omega)
  obtain rfl := Option.some.inj h
  obtain ⟨block, hblock⟩ := Option.isSome_iff_exists.1 hserved.2
  refine ⟨?_, rfl, rfl⟩
  rw [Message.payload_eq (if_pos hserved.1), Message.payload_eq hblock]
  apply List.map_congr_left
  intro i hi
  have hlt := List.mem_range.1 hi
  dsimp only at hlt ⊢
  rw [if_pos (by omega), hblock, Option.getD_some]

theorem inv_copied {m m' : Message} (hw : w.Inv bytes) (h : m.copy alloc w.message = some m') :
    (w.copied m').Inv bytes := by
  have h8 : 8 ≤ w.message.buf := by rw [hw.buf]; omega
  obtain ⟨hpayload, hbuf, hlen⟩ := payload_copy hw.room h8 h
  refine ⟨fun a ha => ?_, ?_, ?_, ?_, ?_, hpayload.trans hw.payload⟩
  · rcases List.mem_append.1 ha with ha | ha
    · exact hw.inside a ha
    · obtain rfl := List.mem_singleton.1 ha
      show 0 + w.message.allocLen ≤ m'.allocLen
      rw [hlen, Nat.zero_add]
  · exact hbuf.trans hw.buf
  · show m'.buf ≤ m'.allocLen
    rw [hbuf, hlen]
    exact hw.room
  · show m'.allocLen < 2 ^ 63
    rw [hlen]
    exact hw.small
  · show m'.allocLen ≤ 2 * m'.buf + 1024
    rw [hbuf, hlen]
    exact hw.growth

theorem inv_step (hmax : ∀ n, alloc n = true → n < 2 ^ 63) {op : WriterOp} (hw : w.Inv bytes)
    (hsz : op.bytes.length < 2 ^ 63) (h : w.step alloc op = some w') :
    w'.Inv (bytes ++ op.bytes) := by
  cases op with
  | put bytes' => exact inv_put hmax hw hsz h
  | write f =>
    have hflat : f.puts.flatten = (WriterOp.write f).bytes := flatten_puts f
    rw [← hflat] at hsz ⊢
    exact inv_puts hmax f.puts hw hsz h
  | copyConstruct =>
    obtain ⟨m, hm, rfl⟩ := Option.map_eq_some_iff.1 h
    rw [WriterOp.bytes, List.append_nil]
    exact inv_copied hw hm
  | copyAssign target =>
    obtain ⟨m, hm, rfl⟩ := Option.map_eq_some_iff.1 h
    rw [WriterOp.bytes, List.append_nil]
    exact inv_copied hw hm
  | moveConstruct | moveAssign =>
    obtain rfl := Option.some.inj h
    rw [WriterOp.bytes, List.append_nil]
    exact hw

/-- The run lemma. -/
theorem inv_foldlM (hmax : ∀ n, alloc n = true → n < 2 ^ 63) (ops : List WriterOp)
    (hw : w.Inv bytes) (hsz : ∀ op ∈ ops, op.bytes.length < 2 ^ 63)
    (h : ops.foldlM (step alloc) w = some w') :
    w'.Inv (bytes ++ written ops) := by
  induction ops generalizing w bytes with
  | nil =>
    obtain rfl := Option.some.inj h
    rwa [written, List.flatMap_nil, List.append_nil]
  | cons op ops ih =>
    obtain ⟨hop, hops⟩ := List.forall_mem_cons.1 hsz
    rw [List.foldlM_cons] at h
    obtain ⟨w₁, h₁, h₂⟩ := Option.bind_eq_some_iff.1 h
    have := ih (inv_step hmax hw hop h₁) hops h₂
    rwa [List.append_assoc] at this

/-! ## Nothing fails while the allocator serves -/

theorem exists_put (hw : w.Inv bytes) (hmapped : w.message.allocBuf.isSome)
    (hsz : bytes'.length < 2 ^ 63)
    (hserve : ∀ n, n ≤ 2 * (w.message.buf + bytes'.length) + 1024 → alloc n = true) :
    ∃ w', w.put alloc bytes' = some w' ∧ w'.message.allocBuf.isSome := by
  have hfit := fit_isSome hw.room hw.small hsz hserve hmapped
  obtain ⟨block, hblock⟩ := Option.isSome_iff_exists.1 hfit
  unfold put Message.put
  dsimp only
  rw [hblock]
  exact ⟨_, rfl, rfl⟩

theorem exists_puts (hmax : ∀ n, alloc n = true → n < 2 ^ 63) (l : List (List UInt8))
    (hw : w.Inv bytes) (hmapped : w.message.allocBuf.isSome) (hsz : l.flatten.length < 2 ^ 63)
    (hserve : ∀ n, n ≤ 2 * (w.message.buf + l.flatten.length) + 1024 → alloc n = true) :
    ∃ w', l.foldlM (put alloc) w = some w' ∧ w'.message.allocBuf.isSome := by
  induction l generalizing w bytes with
  | nil => exact ⟨w, rfl, hmapped⟩
  | cons x l ih =>
    rw [List.flatten_cons, List.length_append] at hsz hserve
    have hsz₁ : x.length < 2 ^ 63 := by omega
    obtain ⟨w₁, h₁, hmapped₁⟩ := exists_put hw hmapped hsz₁ fun n hn => hserve n (by omega)
    have hw₁ := inv_put hmax hw (by omega) h₁
    have hbuf : w₁.message.buf = w.message.buf + x.length := by
      rw [hw₁.buf, hw.buf, List.length_append, Nat.add_assoc]
    obtain ⟨w', h', hmapped'⟩ := ih hw₁ hmapped₁ (by omega) fun n hn => hserve n (by omega)
    refine ⟨w', ?_, hmapped'⟩
    rw [List.foldlM_cons, h₁]
    exact h'

theorem exists_copy (m : Message) (hw : w.Inv bytes) (hmapped : w.message.allocBuf.isSome)
    (hserve : ∀ n, n ≤ 2 * w.message.buf + 1024 → alloc n = true) :
    ∃ m', m.copy alloc w.message = some m' ∧ m'.allocBuf.isSome := by
  have hserved := hserve _ hw.growth
  unfold Message.copy
  rw [if_pos (.inr ⟨hserved, hmapped⟩), if_pos hserved]
  exact ⟨_, rfl, rfl⟩

theorem exists_step (hmax : ∀ n, alloc n = true → n < 2 ^ 63) {op : WriterOp} (hw : w.Inv bytes)
    (hmapped : w.message.allocBuf.isSome) (hsz : op.bytes.length < 2 ^ 63)
    (hserve : ∀ n, n ≤ 2 * (w.message.buf + op.bytes.length) + 1024 → alloc n = true) :
    ∃ w', w.step alloc op = some w' ∧ w'.message.allocBuf.isSome := by
  cases op with
  | put bytes' => exact exists_put hw hmapped hsz hserve
  | write f =>
    have hflat : f.puts.flatten = (WriterOp.write f).bytes := flatten_puts f
    rw [← hflat] at hsz hserve
    exact exists_puts hmax f.puts hw hmapped hsz hserve
  | copyConstruct =>
    obtain ⟨m', hm', hmapped'⟩ := exists_copy Message.blank hw hmapped hserve
    exact ⟨w.copied m', by rw [step, Message.copyConstruct, hm']; rfl, hmapped'⟩
  | copyAssign target =>
    obtain ⟨m', hm', hmapped'⟩ := exists_copy target.dispose hw hmapped hserve
    exact ⟨w.copied m', by rw [step, Message.copyAssign, hm']; rfl, hmapped'⟩
  | moveConstruct | moveAssign => exact ⟨_, rfl, hmapped⟩

theorem exists_foldlM (hmax : ∀ n, alloc n = true → n < 2 ^ 63) (ops : List WriterOp)
    (hw : w.Inv bytes) (hmapped : w.message.allocBuf.isSome)
    (hsz : ∀ op ∈ ops, op.bytes.length < 2 ^ 63)
    (hserve : ∀ n, n ≤ 2 * (w.message.buf + (written ops).length) + 1024 → alloc n = true) :
    ∃ w', ops.foldlM (step alloc) w = some w' ∧ w'.message.allocBuf.isSome := by
  induction ops generalizing w bytes with
  | nil => exact ⟨w, rfl, hmapped⟩
  | cons op ops ih =>
    obtain ⟨hop, hops⟩ := List.forall_mem_cons.1 hsz
    rw [written, List.flatMap_cons, List.length_append] at hserve
    obtain ⟨w₁, h₁, hmapped₁⟩ := exists_step hmax hw hmapped hop fun n hn => hserve n (by omega)
    have hw₁ := inv_step hmax hw hop h₁
    have hbuf : w₁.message.buf = w.message.buf + op.bytes.length := by
      rw [hw₁.buf, hw.buf, List.length_append, Nat.add_assoc]
    obtain ⟨w', h', hmapped'⟩ := ih hw₁ hmapped₁ hops fun n hn => hserve n (by
      rw [written] at hn
      omega)
    refine ⟨w', ?_, hmapped'⟩
    rw [List.foldlM_cons, h₁]
    exact h'

/-! ## Sending -/

theorem send_spec {frame : List UInt8} (hw : w.Inv bytes) (h : w.send = some (w', frame)) :
    (∀ a ∈ w'.accesses, a.Inside) ∧ frame = LittleEndian.encode 8 (8 + bytes.length) ++ bytes := by
  have hroom := hw.room
  have hbuf := hw.buf
  obtain ⟨⟨m, frame'⟩, hsend, heq⟩ := Option.map_eq_some_iff.1 h
  obtain ⟨rfl, rfl⟩ := Prod.mk.inj heq
  constructor
  · intro a ha
    rcases List.mem_append.1 ha with ha | ha
    · exact hw.inside a ha
    · simp only [List.mem_cons, List.not_mem_nil, or_false] at ha
      rcases ha with rfl | rfl
      · show 0 + 8 ≤ w.message.allocLen
        omega
      · show 0 + w.message.buf ≤ w.message.allocLen
        omega
  · have hmapped : w.message.allocBuf.isSome := by
      obtain ⟨block, hblock, -⟩ := Option.map_eq_some_iff.1 hsend
      rw [hblock]
      rfl
    have hready : w.message.Ready := ⟨hmapped, by omega⟩
    have hframe := hready.frame_eq
    rw [Message.frame, hsend, hw.payload, hbuf] at hframe
    exact hframe

end Writer

/-- Whatever is written, copied and moved: every access stays inside its block, the message has the
encodings in order, and `send` hands the socket their length and 8 as the header, and then the
encodings; and nothing of this fails while the allocator serves requests of about twice that
size. -/
theorem writer_delivers {alloc : ℕ → Bool} (hmax : ∀ n, alloc n = true → n < 2 ^ 63)
    (ops : List WriterOp) (hsz : ∀ op ∈ ops, op.bytes.length < 2 ^ 63) :
    (∀ w, Writer.run alloc ops = some w →
      (∀ a ∈ w.accesses, a.Inside) ∧ w.message.payload = written ops ∧
      ∀ w' frame, w.send = some (w', frame) →
        (∀ a ∈ w'.accesses, a.Inside) ∧ 8 + (written ops).length < 2 ^ 64 ∧
        frame = LittleEndian.encode 8 (8 + (written ops).length) ++ written ops) ∧
    ((∀ n, n ≤ 2 * (8 + (written ops).length) + 1024 → alloc n = true) →
      ∃ w w' frame, Writer.run alloc ops = some w ∧ w.send = some (w', frame)) := by
  constructor
  · intro w hrun
    have hw := Writer.inv_foldlM hmax ops (Writer.inv_init alloc) hsz hrun
    rw [List.nil_append] at hw
    refine ⟨hw.inside, hw.payload, fun w' frame hsend => ?_⟩
    obtain ⟨hinside, hframe⟩ := Writer.send_spec hw hsend
    have hroom := hw.room
    have hsmall := hw.small
    rw [hw.buf] at hroom
    exact ⟨hinside, by omega, hframe⟩
  · intro hserve
    have hinit : (Message.init alloc).allocBuf.isSome := by
      rw [Message.init, if_pos (hserve defaultBufferSize (by unfold defaultBufferSize; omega))]
      rfl
    obtain ⟨w, hrun, hmapped⟩ :=
      Writer.exists_foldlM hmax ops (Writer.inv_init alloc) hinit hsz hserve
    obtain ⟨block, hblock⟩ := Option.isSome_iff_exists.1 hmapped
    have hsome : w.send.isSome := by
      unfold Writer.send Message.send
      rw [hblock]
      rfl
    obtain ⟨⟨w', frame⟩, hsend⟩ := Option.isSome_iff_exists.1 hsome
    exact ⟨w, w', frame, hrun, hsend⟩

/-- Copies and moves between small writes and one that is larger than a step of growth. -/
def sampleOps : List WriterOp :=
  [.put [1, 2], .copyConstruct, .write ⟨.scalar .string, [104, 105]⟩, .moveAssign Message.blank,
    .put (List.replicate 2000 7), .copyAssign (Message.init fun _ => true), .moveConstruct, .put []]

theorem writer_delivers_sample :
    ∃ w w' frame, Writer.run (fun n => decide (n < 2 ^ 63)) sampleOps = some w ∧
      w.send = some (w', frame) ∧ w.message.payload = written sampleOps ∧
      frame = LittleEndian.encode 8 2013 ++ written sampleOps := by
  have hlen : (written sampleOps).length = 2005 := by decide +kernel
  have hsz : ∀ op ∈ sampleOps, op.bytes.length < 2 ^ 63 := by
    intro op hop
    have hall : sampleOps.all (fun op => decide (op.bytes.length < 2 ^ 63)) = true := by
      decide +kernel
    exact of_decide_eq_true (List.all_eq_true.1 hall op hop)
  obtain ⟨hruns, hserved⟩ := writer_delivers (fun n hn => of_decide_eq_true hn) sampleOps hsz
  obtain ⟨w, w', frame, hrun, hsend⟩ := hserved fun n hn => decide_eq_true (by omega)
  obtain ⟨-, hpayload, hsent⟩ := hruns w hrun
  obtain ⟨-, -, hframe⟩ := hsent w' frame hsend
  rw [hlen] at hframe
  exact ⟨w, w', frame, hrun, hsend, hpayload, hframe⟩

end Dtest
