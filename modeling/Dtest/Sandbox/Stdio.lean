import Dtest.Lib.Loop
import Dtest.Lib.Pipe

/-!
# The pipes of a sandboxed run

`_sandbox_stdio` writes the whole input of a test into the pipe of its stdin before there is a
reader, and `_unsandbox_stdio` reads the pipes of stdout and stderr after the test has ended.  Both
ends of the pipes are non-blocking.  So the input must fit into the pipe for `_sandbox_stdio` to
return (`input_written_iff`), and the output is captured only if the pipes accept every write of it
as a whole (`output_captured_iff`).
-/

namespace Dtest

namespace Buffer

/-- `Buffer::resize`; `fill` is what is found in the bytes that are added. -/
def resize (fill : ℕ → UInt8) (buf : List UInt8) (size : ℕ) : List UInt8 :=
  buf.take size ++ ((List.range size).drop buf.length).map fill

/-- Bytes stored from position `pos` on. -/
def store (buf : List UInt8) (pos : ℕ) (bytes : List UInt8) : List UInt8 :=
  buf.take pos ++ bytes ++ buf.drop (pos + bytes.length)

variable {fill : ℕ → UInt8} {buf bytes : List UInt8} {pos size : ℕ}

theorem length_resize : (resize fill buf size).length = size := by
  simp only [resize, List.length_append, List.length_take, List.length_map, List.length_drop,
    List.length_range]
  omega

theorem take_resize (h : pos ≤ buf.length) (h' : pos ≤ size) :
    (resize fill buf size).take pos = buf.take pos := by
  unfold resize
  rw [List.take_append_of_le_length, List.take_take, Nat.min_eq_left h']
  rw [List.length_take]
  exact Nat.le_min.2 ⟨h', h⟩

theorem resize_of_le (h : size ≤ buf.length) : resize fill buf size = buf.take size := by
  unfold resize
  rw [List.drop_of_length_le, List.map_nil, List.append_nil]
  rwa [List.length_range]

theorem take_store (h : pos ≤ buf.length) :
    (store buf pos bytes).take (pos + bytes.length) = buf.take pos ++ bytes := by
  unfold store
  apply List.take_left'
  rw [List.length_append, List.length_take, Nat.min_eq_left h]

theorem le_length_store (h : pos ≤ buf.length) :
    pos + bytes.length ≤ (store buf pos bytes).length := by
  unfold store
  rw [List.length_append, List.length_append, List.length_take, Nat.min_eq_left h]
  exact Nat.le_add_right _ _

end Buffer

/-! ## `writeFully` -/

/-- The locals of `writeFully`, with the number of calls of `write` so far. -/
structure WriteState where
  calls : ℕ := 0
  pos : ℕ := 0
  pipe : Pipe UInt8

namespace WriteState

variable (ws : ℕ → NonBlockingWrite) (buf : List UInt8)

/-- One turn of the loop of `writeFully`; `ws i` is the behaviour of call `i`. -/
def step (s : WriteState) : Option WriteState :=
  if s.pos < buf.length then
    let r := s.pipe.write (ws s.calls).toPartialWrite (buf.drop s.pos)
    some ⟨s.calls + 1, s.pos + r.1, r.2⟩
  else none

/-- The invariant of the loop. -/
structure Inv (p : Pipe UInt8) (s : WriteState) : Prop where
  capacity : s.pipe.capacity = p.capacity
  content : s.pipe.content = p.content ++ buf.take s.pos
  pos_le : s.pos ≤ buf.length

variable {ws buf} {p : Pipe UInt8} {s s' : WriteState}

theorem inv_step (hstep : step ws buf s = some s') (h : Inv buf p s) : Inv buf p s' := by
  unfold step at hstep
  split_ifs at hstep
  obtain rfl := Option.some.inj hstep
  have hle := s.pipe.write_le (ws s.calls).toPartialWrite (buf.drop s.pos)
  rw [List.length_drop] at hle
  refine ⟨h.capacity, ?_, ?_⟩
  · show (s.pipe.write (ws s.calls).toPartialWrite (buf.drop s.pos)).2.content = _
    rw [Pipe.content_write, h.content, List.append_assoc, List.take_add]
  · have hpos := h.pos_le
    show s.pos + (s.pipe.write (ws s.calls).toPartialWrite (buf.drop s.pos)).1 ≤ buf.length
    omega

/-- A turn makes progress while all the data fits into the pipe. -/
theorem progress (hfits : p.content.length + buf.length ≤ p.capacity) (h : Inv buf p s)
    (hstep : step ws buf s = some s') : buf.length - s'.pos < buf.length - s.pos := by
  unfold step at hstep
  split_ifs at hstep with hlt
  obtain rfl := Option.some.inj hstep
  have hcontent := congrArg List.length h.content
  rw [List.length_append, List.length_take, Nat.min_eq_left h.pos_le] at hcontent
  have hpos : 0 < (s.pipe.write (ws s.calls).toPartialWrite (buf.drop s.pos)).1 := by
    apply Pipe.write_pos
    · exact List.ne_nil_of_length_pos (by rw [List.length_drop]; omega)
    · rw [List.length_drop, h.capacity]
      omega
  show buf.length - (s.pos + (s.pipe.write (ws s.calls).toPartialWrite (buf.drop s.pos)).1) < _
  omega

end WriteState

/-- `writeFully`, if it returns after at most `n` calls of `write`: the pipe after it. -/
def writeFully (ws : ℕ → NonBlockingWrite) (buf : List UInt8) (n : ℕ) (p : Pipe UInt8) :
    Option (Pipe UInt8) :=
  let s := Loop.run (WriteState.step ws buf) n { pipe := p }
  if s.pos < buf.length then none else some s.pipe

section WriteFully

variable {ws : ℕ → NonBlockingWrite} {buf : List UInt8} {n : ℕ} {p p' : Pipe UInt8}

theorem writeFully_inv (ws : ℕ → NonBlockingWrite) (buf : List UInt8) (n : ℕ) (p : Pipe UInt8) :
    WriteState.Inv buf p (Loop.run (WriteState.step ws buf) n { pipe := p }) := by
  apply Loop.run_induction fun s s' hstep h => WriteState.inv_step hstep h
  exact ⟨rfl, (List.append_nil _).symm, Nat.zero_le _⟩

/-- Where `writeFully` returns, all the data is in the pipe. -/
theorem writeFully_content (h : writeFully ws buf n p = some p') :
    p'.content = p.content ++ buf ∧ p'.capacity = p.capacity := by
  have hinv := writeFully_inv ws buf n p
  unfold writeFully at h
  dsimp only at h
  split_ifs at h with hlt
  obtain rfl := Option.some.inj h
  refine ⟨?_, hinv.capacity⟩
  rw [hinv.content, List.take_of_length_le (Nat.le_of_not_lt hlt)]

/-- `writeFully` returns exactly if the data fits into the pipe. -/
theorem writeFully_returns_iff : (∃ n p', writeFully ws buf n p = some p') ↔
    p.content.length + buf.length ≤ p.capacity := by
  constructor
  · rintro ⟨n, p', h⟩
    obtain ⟨hcontent, hcapacity⟩ := writeFully_content h
    have hfits := p'.fits
    rwa [hcontent, hcapacity, List.length_append] at hfits
  · intro hfits
    have hdone : WriteState.step ws buf (Loop.run (WriteState.step ws buf) buf.length { pipe := p })
        = none := by
      apply Loop.step_run_eq_none (P := WriteState.Inv buf p)
        (fun s s' hstep h => WriteState.inv_step hstep h) (fun s => buf.length - s.pos)
        (fun s s' h hstep => WriteState.progress hfits h hstep)
      · exact writeFully_inv ws buf 0 p
      · exact Nat.sub_le _ _
    unfold WriteState.step at hdone
    split_ifs at hdone with hlt
    exact ⟨buf.length, _, if_neg hlt⟩

end WriteFully

/-! ## `readFully` -/

/-- The locals of `readFully`, with the number of calls of `read` so far; `ended` tells that the
last call has returned no bytes. -/
structure ReadState where
  calls : ℕ := 0
  pos : ℕ := 0
  buf : List UInt8
  pipe : Pipe UInt8
  ended : Bool := false

namespace ReadState

variable (fill : ℕ → UInt8) (rs : ℕ → NonBlockingRead)

/-- The buffer with room for another 1024 bytes. -/
def room (s : ReadState) : List UInt8 :=
  if s.buf.length < s.pos + 1024 then Buffer.resize fill s.buf (s.pos + 1024) else s.buf

/-- One turn of the loop of `readFully`; `rs i` is the behaviour of call `i`. -/
def step (s : ReadState) : Option ReadState :=
  if s.ended then none
  else
    let r := s.pipe.read (rs s.calls) 1024
    some
      { calls := s.calls + 1
        pos := s.pos + r.1.length
        buf := Buffer.store (s.room fill) s.pos r.1
        pipe := r.2
        ended := r.1.isEmpty }

/-- The invariant of the loop: the bytes read are in the buffer, the others still in the pipe. -/
structure Inv (p : Pipe UInt8) (s : ReadState) : Prop where
  pos_le : s.pos ≤ s.buf.length
  content : s.buf.take s.pos ++ s.pipe.content = p.content
  ended : s.ended = true → s.pipe.content = []

/-- The bytes still to be read and the call that finds none. -/
def variant (s : ReadState) : ℕ := s.pipe.content.length + if s.ended then 0 else 1

variable {fill rs} {p : Pipe UInt8} {s s' : ReadState}

theorem room_spec (fill : ℕ → UInt8) (s : ReadState) (h : s.pos ≤ s.buf.length) :
    s.pos + 1024 ≤ (s.room fill).length ∧ (s.room fill).take s.pos = s.buf.take s.pos := by
  unfold room
  split_ifs with hlt
  · exact ⟨Buffer.length_resize.ge, Buffer.take_resize h (Nat.le_add_right _ _)⟩
  · exact ⟨Nat.le_of_not_lt hlt, rfl⟩

theorem inv_step (hstep : step fill rs s = some s') (h : Inv p s) : Inv p s' := by
  unfold step at hstep
  split_ifs at hstep
  obtain rfl := Option.some.inj hstep
  obtain ⟨hroom, htake⟩ := s.room_spec fill h.pos_le
  have hpos : s.pos ≤ (s.room fill).length := (Nat.le_add_right _ _).trans hroom
  refine ⟨Buffer.le_length_store hpos, ?_, fun hended => ?_⟩
  · dsimp only
    rw [Buffer.take_store hpos, htake, List.append_assoc, Pipe.read_append_content, h.content]
  · have hnil := List.isEmpty_iff.1 hended
    have hempty := (s.pipe.read_eq_nil_iff (rs s.calls) (by decide)).1 hnil
    have happend := s.pipe.read_append_content (rs s.calls) 1024
    rwa [hnil, List.nil_append, hempty] at happend

theorem variant_step (hstep : step fill rs s = some s') : s'.variant < s.variant := by
  unfold step at hstep
  split_ifs at hstep with hended
  obtain rfl := Option.some.inj hstep
  have happend := congrArg List.length (s.pipe.read_append_content (rs s.calls) 1024)
  rw [List.length_append] at happend
  unfold variant
  rw [if_neg hended]
  by_cases hnil : (s.pipe.read (rs s.calls) 1024).1 = []
  · simp only [hnil, List.isEmpty_nil, if_true]
    omega
  · have hpos := List.length_pos_of_ne_nil hnil
    simp only [List.isEmpty_eq_false_iff.2 hnil, Bool.false_eq_true, if_false]
    omega

end ReadState

/-- `readFully`: the buffer, and the pipe after it.  There is a turn for every byte in the pipe and
one more, which is always enough (`readFully_stops`). -/
def readFully (fill : ℕ → UInt8) (rs : ℕ → NonBlockingRead) (p : Pipe UInt8) (buf : List UInt8) :
    List UInt8 × Pipe UInt8 :=
  let s := Loop.run (ReadState.step fill rs) (p.content.length + 1) { buf := buf, pipe := p }
  (Buffer.resize fill s.buf s.pos, s.pipe)

section ReadFully

variable (fill : ℕ → UInt8) (rs : ℕ → NonBlockingRead) (p : Pipe UInt8) (buf : List UInt8)

theorem readFully_inv (n : ℕ) :
    ReadState.Inv p (Loop.run (ReadState.step fill rs) n { buf := buf, pipe := p }) := by
  apply Loop.run_induction fun s s' hstep h => ReadState.inv_step hstep h
  exact ⟨Nat.zero_le _, rfl, nofun⟩

theorem readFully_stops : ReadState.step fill rs
    (Loop.run (ReadState.step fill rs) (p.content.length + 1) { buf := buf, pipe := p }) =
      none := by
  apply Loop.step_run_eq_none (P := fun _ => True) (fun _ _ _ _ => trivial) ReadState.variant
    (fun s s' _ hstep => ReadState.variant_step hstep) _ trivial
  exact le_rfl

/-- However the calls of `read` cut the data, the buffer is the content of the pipe. -/
theorem readFully_eq : (readFully fill rs p buf).1 = p.content := by
  have hinv := readFully_inv fill rs p buf (p.content.length + 1)
  have hstops := readFully_stops fill rs p buf
  unfold ReadState.step at hstops
  split_ifs at hstops with hended
  have hcontent := hinv.content
  rw [hinv.ended hended, List.append_nil] at hcontent
  exact (Buffer.resize_of_le hinv.pos_le).trans hcontent

end ReadFully

/-! ## A run -/

/-- The pipes in the place of the standard descriptors. -/
structure Stdio where
  stdin : Pipe UInt8
  stdout : Pipe UInt8
  stderr : Pipe UInt8

/-- `Sandbox::_sandbox_stdio`, if it returns after at most `n` calls of `write`. -/
def sandboxStdio (capacity : ℕ) (ws : ℕ → NonBlockingWrite) (input : List UInt8) (n : ℕ) :
    Option Stdio :=
  (writeFully ws input n (.empty capacity)).map fun stdin =>
    ⟨stdin, .empty capacity, .empty capacity⟩

/-- What the test body writes to its stdout and stderr, one call of `write` for each list of bytes.
The ends it writes to are non-blocking: what a call does not accept is not in the pipe. -/
def Stdio.body (outWrites errWrites : ℕ → PartialWrite) (out err : List (List UInt8))
    (s : Stdio) : Stdio :=
  { s with stdout := s.stdout.writes outWrites 0 out, stderr := s.stderr.writes errWrites 0 err }

/-- `Sandbox::_unsandbox_stdio`: the buffers `out` and `err` after it. -/
def unsandboxStdio (fill : ℕ → UInt8) (outReads errReads : ℕ → NonBlockingRead) (s : Stdio)
    (out err : List UInt8) : List UInt8 × List UInt8 :=
  ((readFully fill outReads s.stdout out).1, (readFully fill errReads s.stderr err).1)

/-- What is read of a sequence of writes to a new pipe is their concatenation exactly if every one
of them is accepted as a whole. -/
theorem captured_iff (ws : ℕ → PartialWrite) (fill : ℕ → UInt8) (rs : ℕ → NonBlockingRead)
    (capacity : ℕ) (datas : List (List UInt8)) (buf : List UInt8) :
    (readFully fill rs ((Pipe.empty capacity).writes ws 0 datas) buf).1 = datas.flatten ↔
      Pipe.AcceptedWhole ws 0 capacity datas := by
  have h := Pipe.content_writes_iff ws 0 datas (.empty capacity)
  rwa [Pipe.content_empty, List.nil_append, Pipe.free_empty, ← readFully_eq fill rs _ buf] at h

/-- Whatever the calls of `write` accept, `_sandbox_stdio` returns with the input in the pipe of
stdin exactly if the input is not longer than the pipe. -/
theorem input_written_iff (capacity : ℕ) (ws : ℕ → NonBlockingWrite) (input : List UInt8) :
    (∃ n s, sandboxStdio capacity ws input n = some s ∧ s.stdin.content = input) ↔
      input.length ≤ capacity := by
  have hreturns : (∃ n p', writeFully ws input n (.empty capacity) = some p') ↔
      input.length ≤ capacity := by
    rw [writeFully_returns_iff, Pipe.content_empty, List.length_nil, Nat.zero_add,
      Pipe.capacity_empty]
  rw [← hreturns]
  constructor
  · rintro ⟨n, s, h, -⟩
    obtain ⟨stdin, hstdin, -⟩ := Option.map_eq_some_iff.1 h
    exact ⟨n, stdin, hstdin⟩
  · rintro ⟨n, stdin, hstdin⟩
    refine ⟨n, ⟨stdin, .empty capacity, .empty capacity⟩, ?_, (writeFully_content hstdin).1⟩
    unfold sandboxStdio
    rw [hstdin]
    rfl

/-- One byte more than the pipe of stdin holds: `_sandbox_stdio` does not return. -/
theorem input_too_long :
    ¬ ∃ n s, sandboxStdio 65536 (fun _ => .most) (List.replicate 65537 120) n = some s := by
  rintro ⟨n, s, h⟩
  obtain ⟨stdin, hstdin, -⟩ := Option.map_eq_some_iff.1 h
  have hfits := writeFully_returns_iff.1 ⟨n, stdin, hstdin⟩
  rw [List.length_replicate] at hfits
  exact absurd hfits (by decide)

/-- After a run, the buffer of the output is the concatenation of what the test body has written to
stdout exactly if the pipe has accepted each of these writes as a whole, however the calls of `read`
cut it; and so it is with the other buffer and stderr. -/
theorem output_captured_iff (capacity : ℕ) (ws : ℕ → NonBlockingWrite) (input : List UInt8) (n : ℕ)
    (s : Stdio) (hs : sandboxStdio capacity ws input n = some s)
    (outWrites errWrites : ℕ → PartialWrite) (outReads errReads : ℕ → NonBlockingRead)
    (fill : ℕ → UInt8) (out err : List (List UInt8)) (outBuf errBuf : List UInt8) :
    let r := unsandboxStdio fill outReads errReads
      (s.body outWrites errWrites out err) outBuf errBuf
    (r.1 = out.flatten ↔ Pipe.AcceptedWhole outWrites 0 capacity out) ∧
      (r.2 = err.flatten ↔ Pipe.AcceptedWhole errWrites 0 capacity err) := by
  obtain ⟨stdin, -, rfl⟩ := Option.map_eq_some_iff.1 hs
  exact ⟨captured_iff outWrites fill outReads capacity out outBuf,
    captured_iff errWrites fill errReads capacity err errBuf⟩

/-- A test that writes twice to stdout, read one byte after the other. -/
theorem output_captured_sample :
    let reads : NonBlockingRead := ⟨fun a len => min 1 (min a len), by omega, by omega, by omega⟩
    let writes : ℕ → PartialWrite := fun _ => NonBlockingWrite.most.toPartialWrite
    (unsandboxStdio (fun _ => 0) (fun _ => reads) (fun _ => .most)
      (Stdio.body writes writes [[84, 104], [105, 115]] [] ⟨.empty 4, .empty 4, .empty 4⟩)
      [] []).1 = [84, 104, 105, 115] := by
  intro reads writes
  have hcaptured := output_captured_iff 4 (fun _ => .most) [] 0 ⟨.empty 4, .empty 4, .empty 4⟩ rfl
    writes writes (fun _ => reads) (fun _ => .most) (fun _ => 0) [[84, 104], [105, 115]] [] [] []
  apply hcaptured.1.2
  exact Pipe.acceptedWhole_of_fits (fun _ => NonBlockingWrite.whole_most) (by decide)

/-- A pipe full of output and one more byte: the byte is lost. -/
theorem output_lost :
    let out : List (List UInt8) := [List.replicate 65536 120, [121]]
    let writes : ℕ → PartialWrite := fun _ => NonBlockingWrite.most.toPartialWrite
    (unsandboxStdio (fun _ => 0) (fun _ => .most) (fun _ => .most)
      (Stdio.body writes writes out [] ⟨.empty 65536, .empty 65536, .empty 65536⟩)
      [] []).1 ≠ out.flatten := by
  intro out writes h
  have hfits := ((captured_iff writes (fun _ => 0) (fun _ => .most) 65536 out []).1 h).length_le
  rw [List.length_flatten, List.map_cons, List.map_cons, List.map_nil,
    List.length_replicate] at hfits
  exact absurd hfits (by decide)

end Dtest
