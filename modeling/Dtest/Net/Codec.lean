import Dtest.Net.Delivery

/-!
# Values in messages

`Message::operator<<` and `operator>>` for trivially copyable values, strings, and vectors and lists
of these.  A message is a sequence of `Field`s, each a type with a value of it.  `Message.Ahead`
says which bytes the next reads will find; `payload_writeAll` and `readAll_of_ahead` follow the
bytes of the fields through the writer and the reader, and `roundtrip_iff` puts them together with
the connection.
-/

namespace Dtest

open Arrival

/-- The types of single values: trivially copyable ones of a given size, and strings. -/
inductive ScalarTy where
  | raw (size : ℕ) (pos : 0 < size)
  | string

/-- A trivially copyable value is its bytes; a string is its characters. -/
abbrev ScalarTy.Val : ScalarTy → Type
  | .raw size _ => { bytes : List UInt8 // bytes.length = size }
  | .string => List UInt8

/-- The types that the message operators support. -/
inductive Ty where
  | scalar (t : ScalarTy)
  | vector (t : ScalarTy)
  | list (t : ScalarTy)

abbrev Ty.Val : Ty → Type
  | .scalar t => t.Val
  | .vector t => List t.Val
  | .list t => List t.Val

/-- One operand of `<<` or `>>`. -/
structure Field where
  ty : Ty
  val : ty.Val

namespace Message

/-! ### Writing -/

/-- `operator<<` for single values; a string is written with its terminator. -/
def writeScalar (alloc : ℕ → Bool) (m : Message) : (t : ScalarTy) → t.Val → Option Message
  | .raw _ _, x => m.put alloc x.1
  | .string, x => m.put alloc (x ++ [0])

/-- `operator<<` for vectors and lists. -/
def writeContainer (alloc : ℕ → Bool) (m : Message) (t : ScalarTy) (x : List t.Val) :
    Option Message := do
  let m ← m.put alloc (LittleEndian.encode sizeofSizeT x.length)
  x.foldlM (fun m xx => m.writeScalar alloc t xx) m

def write (alloc : ℕ → Bool) (m : Message) (f : Field) : Option Message :=
  match f with
  | ⟨.scalar t, x⟩ => m.writeScalar alloc t x
  | ⟨.vector t, x⟩ => m.writeContainer alloc t x
  | ⟨.list t, x⟩ => m.writeContainer alloc t x

def writeAll (alloc : ℕ → Bool) (m : Message) (fields : List Field) : Option Message :=
  fields.foldlM (fun m f => m.write alloc f) m

/-! ### Reading -/

/-- The byte at the given distance from `_buf`; none outside of the block. -/
def peek (m : Message) (i : ℕ) : Option UInt8 :=
  if m.buf + i < m.allocLen then m.allocBuf.map fun block => block (m.buf + i) else none

/-- `_buf += len`. -/
def advance (m : Message) (len : ℕ) : Message := { m with buf := m.buf + len }

/-- The next `len` bytes. -/
def copyBytes (m : Message) : ℕ → Option (List UInt8)
  | 0 => pure []
  | len + 1 => do
    let c ← m.peek 0
    let bytes ← (m.advance 1).copyBytes len
    pure (c :: bytes)

/-- `get`. -/
def get (m : Message) (len : ℕ) : Option (List UInt8 × Message) := do
  let bytes ← m.copyBytes len
  pure (bytes, m.advance len)

/-- The characters up to the terminator, looked for in at most `n` bytes. -/
def cString (m : Message) : ℕ → Option (List UInt8)
  | 0 => none
  | n + 1 => do
    let c ← m.peek 0
    if c = 0 then pure []
    else
      let s ← (m.advance 1).cString n
      pure (c :: s)

/-- `operator>>` for single values. -/
def readScalar (m : Message) : (t : ScalarTy) → Option (t.Val × Message)
  | .raw size _ => do
    let (bytes, m) ← m.get size
    if h : bytes.length = size then pure (⟨bytes, h⟩, m) else none
  | .string => do
    let x ← m.cString (m.allocLen - m.buf)
    pure (x, m.advance (x.length + 1))

/-- The elements of a vector or list. -/
def readElements (t : ScalarTy) : ℕ → Message → Option (List t.Val × Message)
  | 0, m => pure ([], m)
  | sz + 1, m => do
    let (xx, m) ← m.readScalar t
    let (x, m) ← readElements t sz m
    pure (xx :: x, m)

/-- `operator>>` for vectors and lists. -/
def readContainer (m : Message) (t : ScalarTy) : Option (List t.Val × Message) := do
  let (sz, m) ← m.get sizeofSizeT
  readElements t (LittleEndian.decode sz) m

def read (m : Message) : (ty : Ty) → Option (ty.Val × Message)
  | .scalar t => m.readScalar t
  | .vector t => m.readContainer t
  | .list t => m.readContainer t

def readAll : List Ty → Message → Option (List Field × Message)
  | [], m => pure ([], m)
  | ty :: types, m => do
    let (x, m) ← m.read ty
    let (fields, m) ← readAll types m
    pure (⟨ty, x⟩ :: fields, m)

end Message

/-! ### The bytes of the values -/

def ScalarTy.encode : (t : ScalarTy) → t.Val → List UInt8
  | .raw _ _, x => x.1
  | .string, x => x ++ [0]

def encodeContainer (t : ScalarTy) (x : List t.Val) : List UInt8 :=
  LittleEndian.encode 8 x.length ++ x.flatMap t.encode

def Field.encode : Field → List UInt8
  | ⟨.scalar t, x⟩ => t.encode x
  | ⟨.vector t, x⟩ => encodeContainer t x
  | ⟨.list t, x⟩ => encodeContainer t x

/-- A string without the terminator among its characters. -/
def ScalarTy.NulFree : (t : ScalarTy) → t.Val → Prop
  | .raw _ _, _ => True
  | .string, x => 0 ∉ x

def Field.NulFree : Field → Prop
  | ⟨.scalar t, x⟩ => t.NulFree x
  | ⟨.vector t, x⟩ => ∀ xx ∈ x, t.NulFree xx
  | ⟨.list t, x⟩ => ∀ xx ∈ x, t.NulFree xx

namespace Message

variable {alloc : ℕ → Bool} {m m' m'' : Message} {bytes bytes' : List UInt8}

/-- Writing has appended the given bytes. -/
structure Wrote (m m' : Message) (bytes : List UInt8) : Prop where
  ready : m'.Ready
  payload : m'.payload = m.payload ++ bytes

theorem Wrote.refl (h : m.Ready) : Wrote m m [] := ⟨h, (List.append_nil _).symm⟩

theorem Wrote.trans (h : Wrote m m' bytes) (h' : Wrote m' m'' bytes') :
    Wrote m m'' (bytes ++ bytes') :=
  ⟨h'.ready, by rw [h'.payload, h.payload, List.append_assoc]⟩

/-- Growing the block keeps its bytes. -/
theorem fit_allocBuf {block block' : ℕ → UInt8} {sz : ℕ} (h : m.allocBuf = some block)
    (h' : (m.fit alloc sz).allocBuf = some block') : block' = block := by
  simp only [fit, h, Option.getD_some] at h'
  by_cases hrem : wsub m.allocLen m.buf < sz
  · rw [if_pos hrem] at h'
    obtain ⟨-, hb⟩ := Option.ite_none_right_eq_some.mp h'
    exact (Option.some.inj hb).symm
  · rw [if_neg hrem, h] at h'
    exact (Option.some.inj h').symm

theorem of_put {block : ℕ → UInt8} (h : m.allocBuf = some block)
    (hput : m.put alloc bytes = some m') :
    m'.allocBuf = some (storeAt m.buf bytes block) ∧ m'.buf = m.buf + bytes.length := by
  obtain ⟨block', hblock', rfl⟩ := Option.map_eq_some_iff.mp hput
  obtain rfl := fit_allocBuf h hblock'
  rw [buf_fit]
  exact ⟨rfl, rfl⟩

theorem payload_eq {block : ℕ → UInt8} (h : m.allocBuf = some block) :
    m.payload = (List.range (m.buf - 8)).map fun i => block (8 + i) := by
  rw [payload, h]
  rfl

theorem wrote_put (h : m.Ready) (hput : m.put alloc bytes = some m') : Wrote m m' bytes := by
  have hready := h.put hput
  refine ⟨hready, ?_⟩
  obtain ⟨block, hblock⟩ := Option.isSome_iff_exists.mp h.mapped
  obtain ⟨hblock', hbuf⟩ := of_put hblock hput
  have h8 := h.header_le
  refine List.ext_getElem ?_ fun i hi _ => ?_
  · rw [hready.length_payload, hbuf, List.length_append, h.length_payload]
    omega
  rw [hready.length_payload, hbuf] at hi
  simp only [payload_eq hblock', payload_eq hblock, List.getElem_map, List.getElem_range]
  by_cases hlt : i < m.buf - 8
  · rw [List.getElem_append_left (by rwa [List.length_map, List.length_range]), List.getElem_map,
      List.getElem_range, storeAt, if_neg (by omega)]
  · rw [List.getElem_append_right (by rw [List.length_map, List.length_range]; omega), storeAt,
      if_pos (by omega), List.getD_eq_getElem _ _ (by omega)]
    congr 1
    rw [List.length_map, List.length_range]
    omega

theorem writeScalar_eq (alloc : ℕ → Bool) (m : Message) (t : ScalarTy) (x : t.Val) :
    m.writeScalar alloc t x = m.put alloc (t.encode x) := by
  cases t <;> rfl

/-- A loop whose steps append bytes appends the bytes of all of them. -/
theorem wrote_foldlM {β : Type} {step : Message → β → Option Message} {enc : β → List UInt8}
    (hstep : ∀ m m' x, m.Ready → step m x = some m' → Wrote m m' (enc x)) (l : List β)
    (h : m.Ready) (hl : l.foldlM step m = some m') : Wrote m m' (l.flatMap enc) := by
  induction l generalizing m with
  | nil =>
    obtain rfl := Option.some.inj hl
    exact Wrote.refl h
  | cons x l ih =>
    rw [List.foldlM_cons] at hl
    obtain ⟨m₁, h₁, h₂⟩ := Option.bind_eq_some_iff.mp hl
    have hw := hstep m m₁ x h h₁
    exact hw.trans (ih hw.ready h₂)

theorem wrote_writeContainer {t : ScalarTy} {x : List t.Val} (h : m.Ready)
    (hx : m.writeContainer alloc t x = some m') : Wrote m m' (encodeContainer t x) := by
  obtain ⟨m₁, h₁, h₂⟩ := Option.bind_eq_some_iff.mp hx
  have hw := wrote_put h h₁
  refine hw.trans (wrote_foldlM (fun m m' xx hm hxx => ?_) x hw.ready h₂)
  rw [writeScalar_eq] at hxx
  exact wrote_put hm hxx

theorem wrote_write {f : Field} (h : m.Ready) (hf : m.write alloc f = some m') :
    Wrote m m' f.encode := by
  obtain ⟨ty, x⟩ := f
  cases ty with
  | scalar t => exact wrote_put h ((writeScalar_eq alloc m t x).symm.trans hf)
  | vector t | list t => exact wrote_writeContainer h hf

theorem wrote_writeAll {fields : List Field} (h : m.Ready)
    (hf : m.writeAll alloc fields = some m') : Wrote m m' (fields.flatMap Field.encode) :=
  wrote_foldlM (fun _ _ _ hm hx => wrote_write hm hx) fields h hf

/-! ### What the reads find -/

/-- The next bytes to be read, all of them inside the block. -/
def Ahead (m : Message) (bytes : List UInt8) : Prop :=
  m.buf + bytes.length ≤ m.allocLen ∧ ∃ block, m.allocBuf = some block ∧
    ∀ i (h : i < bytes.length), block (m.buf + i) = bytes[i]

theorem advance_advance (m : Message) (k n : ℕ) : (m.advance k).advance n = m.advance (k + n) := by
  show ({ m with buf := m.buf + k + n } : Message) = { m with buf := m.buf + (k + n) }
  rw [Nat.add_assoc]

theorem peek_of_ahead (h : m.Ahead bytes) {i : ℕ} (hi : i < bytes.length) :
    m.peek i = some bytes[i] := by
  obtain ⟨hle, block, hblock, hbytes⟩ := h
  rw [peek, if_pos (by omega), hblock, Option.map_some, hbytes i hi]

theorem Ahead.of_append (h : m.Ahead (bytes ++ bytes')) : m.Ahead bytes := by
  obtain ⟨hle, block, hblock, hbytes⟩ := h
  rw [List.length_append] at hle
  refine ⟨by omega, block, hblock, fun i hi => ?_⟩
  rw [hbytes i (by rw [List.length_append]; omega), List.getElem_append_left hi]

theorem Ahead.advance (h : m.Ahead (bytes ++ bytes')) : (m.advance bytes.length).Ahead bytes' := by
  obtain ⟨hle, block, hblock, hbytes⟩ := h
  rw [List.length_append] at hle
  refine ⟨by show m.buf + bytes.length + bytes'.length ≤ m.allocLen; omega, block, hblock,
    fun i hi => ?_⟩
  show block (m.buf + bytes.length + i) = bytes'[i]
  rw [Nat.add_assoc, hbytes _ (by rw [List.length_append]; omega),
    List.getElem_append_right (Nat.le_add_right _ _)]
  congr 1
  exact Nat.add_sub_cancel_left _ _

theorem Ahead.tail {c : UInt8} (h : m.Ahead (c :: bytes)) : (m.advance 1).Ahead bytes := by
  have h' : m.Ahead ([c] ++ bytes) := h
  exact h'.advance

theorem copyBytes_of_ahead (h : m.Ahead bytes) : m.copyBytes bytes.length = some bytes := by
  induction bytes generalizing m with
  | nil => rfl
  | cons c bytes ih =>
    have hpeek : m.peek 0 = some c := peek_of_ahead h (Nat.succ_pos _)
    rw [List.length_cons, copyBytes, hpeek]
    simp only [Option.bind_eq_bind, Option.bind_some, ih h.tail]
    rfl

theorem get_of_ahead (h : m.Ahead bytes) :
    m.get bytes.length = some (bytes, m.advance bytes.length) := by
  rw [get, copyBytes_of_ahead h]
  rfl

/-- The characters of a string are found up to its terminator. -/
theorem cString_of_ahead {x : List UInt8} (h : m.Ahead (x ++ [0])) (hx : 0 ∉ x) {n : ℕ}
    (hn : x.length < n) : m.cString n = some x := by
  induction x generalizing m n with
  | nil =>
    obtain ⟨n, rfl⟩ := Nat.exists_eq_succ_of_ne_zero (Nat.ne_zero_of_lt hn)
    have hpeek : m.peek 0 = some 0 := peek_of_ahead h Nat.one_pos
    rw [cString, hpeek]
    rfl
  | cons c x ih =>
    obtain ⟨n, rfl⟩ := Nat.exists_eq_succ_of_ne_zero (Nat.ne_zero_of_lt hn)
    have hpeek : m.peek 0 = some c := peek_of_ahead h (Nat.succ_pos _)
    have hc : c ≠ 0 := fun h0 => hx (h0 ▸ List.mem_cons_self)
    rw [cString, hpeek]
    simp only [Option.bind_eq_bind, Option.bind_some, if_neg hc,
      ih h.tail (fun h0 => hx (List.mem_cons_of_mem _ h0)) (Nat.lt_of_succ_lt_succ hn)]
    rfl

theorem readScalar_of_ahead {t : ScalarTy} {x : t.Val} (h : m.Ahead (t.encode x))
    (hx : t.NulFree x) :
    m.readScalar t = some (x, m.advance (t.encode x).length) := by
  cases t with
  | raw size pos =>
    obtain ⟨x, rfl⟩ := x
    have hget : m.get x.length = _ := get_of_ahead h
    simp only [readScalar, hget, Option.bind_eq_bind, Option.bind_some, dif_pos]
    rfl
  | string =>
    have hle := h.1
    simp only [ScalarTy.encode, List.length_append, List.length_singleton] at hle ⊢
    rw [readScalar, cString_of_ahead h hx (by omega)]
    rfl

theorem readElements_of_ahead {t : ScalarTy} {x : List t.Val} (h : m.Ahead (x.flatMap t.encode))
    (hx : ∀ xx ∈ x, t.NulFree xx) :
    readElements t x.length m = some (x, m.advance (x.flatMap t.encode).length) := by
  induction x generalizing m with
  | nil => rfl
  | cons xx x ih =>
    rw [List.flatMap_cons] at h
    have hhead := readScalar_of_ahead h.of_append (hx xx List.mem_cons_self)
    have htail := ih h.advance fun y hy => hx y (List.mem_cons_of_mem _ hy)
    rw [List.length_cons, readElements, hhead]
    simp only [Option.bind_eq_bind, Option.bind_some, htail, advance_advance, List.flatMap_cons,
      List.length_append]
    rfl

theorem one_le_length_encode (t : ScalarTy) (x : t.Val) : 1 ≤ (t.encode x).length := by
  cases t with
  | raw size pos => exact pos.trans_eq x.2.symm
  | string => exact List.length_append ▸ Nat.le_add_left _ _

theorem length_le_length_flatMap (t : ScalarTy) (x : List t.Val) :
    x.length ≤ (x.flatMap t.encode).length := by
  induction x with
  | nil => exact Nat.le_refl _
  | cons xx x ih =>
    have := one_le_length_encode t xx
    rw [List.flatMap_cons, List.length_append, List.length_cons]
    omega

theorem readContainer_of_ahead {t : ScalarTy} {x : List t.Val} (h : m.Ahead (encodeContainer t x))
    (hx : ∀ xx ∈ x, t.NulFree xx) (hlen : (encodeContainer t x).length < 2 ^ 64) :
    m.readContainer t = some (x, m.advance (encodeContainer t x).length) := by
  have hle := length_le_length_flatMap t x
  rw [encodeContainer, List.length_append] at hlen
  have hsize := LittleEndian.length_encode 8 x.length
  have hget := get_of_ahead h.of_append
  have helems := readElements_of_ahead h.advance hx
  rw [hsize] at hget helems
  have hdecode : LittleEndian.decode (LittleEndian.encode 8 x.length) = x.length :=
    LittleEndian.decode_encode_of_lt (k := 8) (show x.length < 2 ^ 64 by omega)
  have hget' : m.get sizeofSizeT = _ := hget
  rw [readContainer, hget']
  simp only [Option.bind_eq_bind, Option.bind_some, hdecode, helems, advance_advance,
    encodeContainer, List.length_append, hsize]

theorem read_of_ahead {f : Field} (h : m.Ahead f.encode) (hf : f.NulFree)
    (hlen : f.encode.length < 2 ^ 64) : m.read f.ty = some (f.val, m.advance f.encode.length) := by
  obtain ⟨ty, x⟩ := f
  cases ty with
  | scalar t => exact readScalar_of_ahead h hf
  | vector t | list t => exact readContainer_of_ahead h hf hlen

theorem readAll_of_ahead {fields : List Field} (h : m.Ahead (fields.flatMap Field.encode))
    (hf : ∀ f ∈ fields, f.NulFree) (hlen : (fields.flatMap Field.encode).length < 2 ^ 64) :
    readAll (fields.map Field.ty) m =
      some (fields, m.advance (fields.flatMap Field.encode).length) := by
  induction fields generalizing m with
  | nil => rfl
  | cons f fields ih =>
    rw [List.flatMap_cons] at h hlen
    rw [List.length_append] at hlen
    have hhead := read_of_ahead h.of_append (hf f List.mem_cons_self) (by omega)
    have htail := ih h.advance (fun g hg => hf g (List.mem_cons_of_mem _ hg)) (by omega)
    rw [List.map_cons, readAll, hhead]
    simp only [Option.bind_eq_bind, Option.bind_some, htail, advance_advance, List.flatMap_cons,
      List.length_append]
    rfl

/-! ### What the reads return -/

theorem not_mem_of_cString {n : ℕ} {x : List UInt8} (h : m.cString n = some x) : 0 ∉ x := by
  induction n generalizing m x with
  | zero => cases h
  | succ n ih =>
    obtain ⟨c, -, h⟩ := Option.bind_eq_some_iff.mp h
    by_cases hc : c = 0
    · rw [if_pos hc] at h
      obtain rfl := Option.some.inj h
      exact List.not_mem_nil
    · rw [if_neg hc] at h
      obtain ⟨s, hs, h⟩ := Option.bind_eq_some_iff.mp h
      obtain rfl := Option.some.inj h
      exact List.not_mem_cons_of_ne_of_not_mem (Ne.symm hc) (ih hs)

theorem nulFree_of_readScalar {t : ScalarTy} {x : t.Val} (h : m.readScalar t = some (x, m')) :
    t.NulFree x := by
  cases t with
  | raw size pos => trivial
  | string =>
    obtain ⟨s, hs, h⟩ := Option.bind_eq_some_iff.mp h
    obtain ⟨rfl, -⟩ := Prod.mk.inj (Option.some.inj h)
    exact not_mem_of_cString hs

theorem nulFree_of_readElements {t : ScalarTy} {sz : ℕ} {x : List t.Val}
    (h : readElements t sz m = some (x, m')) : ∀ xx ∈ x, t.NulFree xx := by
  induction sz generalizing m x with
  | zero =>
    obtain ⟨rfl, -⟩ := Prod.mk.inj (Option.some.inj h)
    exact fun _ hxx => absurd hxx List.not_mem_nil
  | succ sz ih =>
    obtain ⟨⟨y, m₁⟩, hy, h⟩ := Option.bind_eq_some_iff.mp h
    obtain ⟨⟨ys, m₂⟩, hys, h⟩ := Option.bind_eq_some_iff.mp h
    obtain ⟨rfl, rfl⟩ := Prod.mk.inj (Option.some.inj h)
    intro xx hxx
    rcases List.mem_cons.mp hxx with rfl | hxx
    · exact nulFree_of_readScalar hy
    · exact ih hys xx hxx

theorem nulFree_of_read {ty : Ty} {x : ty.Val} (h : m.read ty = some (x, m')) :
    Field.NulFree ⟨ty, x⟩ := by
  cases ty with
  | scalar t => exact nulFree_of_readScalar h
  | vector t | list t =>
    obtain ⟨⟨sz, m₁⟩, -, h⟩ := Option.bind_eq_some_iff.mp h
    exact nulFree_of_readElements h

/-- No string that is read contains the terminator. -/
theorem nulFree_of_readAll {types : List Ty} {fields : List Field}
    (h : readAll types m = some (fields, m')) : ∀ f ∈ fields, f.NulFree := by
  induction types generalizing m fields with
  | nil =>
    obtain ⟨rfl, -⟩ := Prod.mk.inj (Option.some.inj h)
    exact fun _ hf => absurd hf List.not_mem_nil
  | cons ty types ih =>
    obtain ⟨⟨x, m₁⟩, hx, h⟩ := Option.bind_eq_some_iff.mp h
    obtain ⟨⟨rest, m₂⟩, hrest, h⟩ := Option.bind_eq_some_iff.mp h
    obtain ⟨rfl, rfl⟩ := Prod.mk.inj (Option.some.inj h)
    intro f hf
    rcases List.mem_cons.mp hf with rfl | hf
    · exact nulFree_of_read hx
    · exact ih hrest f hf

end Message

section

variable {alloc : ℕ → Bool} {s : Message}

theorem buf_received (alloc : ℕ → Bool) (s : Message) : (received alloc s).buf = 8 :=
  Message.buf_fit alloc (Message.init alloc) (s.buf - 8)

/-- The block of the receiver holds the payload. -/
theorem le_allocLen_received (hs : s.buf + 1024 ≤ 2 ^ 64) (h8 : 8 ≤ s.buf) :
    s.buf ≤ (received alloc s).allocLen := by
  show s.buf ≤ ((Message.init alloc).fit alloc (s.buf - 8)).allocLen
  have hrem : wsub defaultBufferSize sizeofSizeT = 1016 := wsub_of_le (by decide) (by decide)
  simp only [Message.fit, Message.init, hrem]
  by_cases h : 1016 < s.buf - 8
  · rw [if_pos h]
    show s.buf ≤ wadd 1024 (if s.buf - 8 < 1024 then 1024 else s.buf - 8)
    by_cases hlt : s.buf - 8 < 1024
    · rw [if_pos hlt, wadd_of_lt (by decide)]
      omega
    · rw [if_neg hlt, wadd_of_lt (by omega)]
      omega
  · rw [if_neg h]
    show s.buf ≤ 1024
    omega

theorem ahead_received (hs : Sendable alloc s) (hsize : s.buf + 1024 ≤ 2 ^ 64)
    (hc : (received alloc s).Carries s.payload) : (received alloc s).Ahead s.payload := by
  refine ⟨?_, hc.2⟩
  rw [buf_received, hs.toReady.length_payload, Nat.add_sub_of_le hs.header_le]
  exact le_allocLen_received hsize hs.header_le

end

/-- Values written with `<<`, sent on a connection and read with `>>` come back, with all of the
bytes consumed, if and only if no string among them contains the character NUL. -/
theorem roundtrip_iff (alloc : ℕ → Bool) (fields : List Field) (m : Message)
    (halloc : alloc defaultBufferSize = true)
    (hm : (Message.init alloc).writeAll alloc fields = some m) (hsize : m.buf < 2 ^ 63)
    (hserved : Served alloc (m.buf - 8)) (sock : Socket) (h : Holds sock [m])
    (hp : Passable false (upTo 8 sock.arrivals)) :
    ∃ r sock', (Message.init alloc).recv alloc sock = .returned r sock' ∧
      (Message.readAll (fields.map Field.ty) r = some (fields, { r with buf := m.buf }) ↔
        ∀ f ∈ fields, f.NulFree) := by
  have hw := Message.wrote_writeAll (Message.Ready.init halloc) hm
  have hs : Sendable alloc m := ⟨hw.ready, by omega, hserved⟩
  have hpayload : m.payload = fields.flatMap Field.encode := by
    have hinit : (Message.init alloc).payload = [] := by
      rw [Message.payload, Message.init, halloc]
      rfl
    rw [hw.payload, hinit, List.nil_append]
  have hlen := hw.ready.length_payload
  obtain ⟨hr, hc, -⟩ := recv_head hs h hp
  refine ⟨_, _, hr, ?_, ?_⟩
  · intro hread
    exact Message.nulFree_of_readAll hread
  · intro hf
    have hahead := ahead_received hs (by omega) hc
    rw [hpayload] at hahead hlen
    rw [Message.readAll_of_ahead hahead hf (by omega), hlen]
    have hbuf : (received alloc m).buf + (m.buf - 8) = m.buf := by
      rw [buf_received, Nat.add_sub_of_le hs.header_le]
    rw [Message.advance, hbuf]

/-- A number of four bytes, a string, an empty string, a vector of strings and a list of numbers. -/
def sampleFields : List Field :=
  [⟨.scalar (.raw 4 (by decide)), ⟨[1, 2, 3, 4], rfl⟩⟩, ⟨.scalar .string, [104, 105]⟩,
    ⟨.scalar .string, ([] : List UInt8)⟩, ⟨.vector .string, [([97] : List UInt8), [98, 99]]⟩,
    ⟨.list (.raw 2 (by decide)), [⟨[0, 0], rfl⟩, ⟨[7, 0], rfl⟩]⟩]

/-- A connection on which the bytes of a message are ready. -/
def readyConnection (m : Message) : Socket := ⟨m.frame.map .datum, true⟩

theorem data_map_datum (l : List UInt8) : data (l.map .datum) = l := by
  induction l with
  | nil => rfl
  | cons b l ih => rw [List.map_cons, data, ih]

theorem holds_readyConnection (m : Message) : Holds (readyConnection m) [m] where
  bytes := by
    rw [readyConnection, data_map_datum, List.flatMap_cons, List.flatMap_nil, List.append_nil]
  noError := fun h => by
    obtain ⟨_, -, h⟩ := List.mem_map.mp h
    cases h

theorem passable_readyConnection (m : Message) (n : ℕ) :
    Passable false (upTo n (readyConnection m).arrivals) := by
  refine ⟨fun h => ?_, fun h => ?_⟩ <;>
    · obtain ⟨_, -, h⟩ := List.mem_map.mp (mem_of_mem_upTo h)
      cases h

theorem roundtrip_iff_sampleFields :
    ∃ m r sock', (Message.init fun _ => true).writeAll (fun _ => true) sampleFields = some m ∧
      (Message.init fun _ => true).recv (fun _ => true) (readyConnection m) = .returned r sock' ∧
      Message.readAll (sampleFields.map Field.ty) r =
        some (sampleFields, { r with buf := m.buf }) := by
  have hsome :
      ((Message.init fun _ => true).writeAll (fun _ => true) sampleFields).map Message.buf =
        some 41 := by
    decide +kernel
  obtain ⟨m, hm, hbuf⟩ := Option.map_eq_some_iff.mp hsome
  obtain ⟨r, sock', hr, hread⟩ := roundtrip_iff (fun _ => true) sampleFields m rfl hm
    (by rw [hbuf]; decide) rfl (readyConnection m) (holds_readyConnection m)
    (passable_readyConnection m 8)
  refine ⟨m, r, sock', hm, hr, hread.mpr ?_⟩
  simp [sampleFields, Field.NulFree, ScalarTy.NulFree]

/-- A string with NUL as its second character. -/
def nulString : Field := ⟨.scalar .string, [97, 0, 98]⟩

/-- It is not read back. -/
theorem nul_string_truncated :
    ∃ m r sock', (Message.init fun _ => true).writeAll (fun _ => true) [nulString] = some m ∧
      (Message.init fun _ => true).recv (fun _ => true) (readyConnection m) = .returned r sock' ∧
      ∀ m', Message.readAll [nulString.ty] r ≠ some ([nulString], m') := by
  have hsome : ((Message.init fun _ => true).writeAll (fun _ => true) [nulString]).map Message.buf =
      some 12 := by decide +kernel
  obtain ⟨m, hm, hbuf⟩ := Option.map_eq_some_iff.mp hsome
  have hw := Message.wrote_writeAll (Message.Ready.init rfl) hm
  have hs : Sendable (fun _ => true) m := ⟨hw.ready, by rw [hbuf]; decide, rfl⟩
  obtain ⟨hr, -⟩ := recv_head hs (holds_readyConnection m) (passable_readyConnection m 8)
  refine ⟨m, _, _, hm, hr, fun m' h => ?_⟩
  have hf := Message.nulFree_of_readAll h nulString List.mem_cons_self
  exact hf (List.mem_cons_of_mem _ List.mem_cons_self)

end Dtest
