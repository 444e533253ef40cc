import Mathlib.Data.List.Basic
import Dtest.Lib.Loop
import Dtest.Net.Socket

/-!
# Sending on a socket

The loop of `Socket::send` and the limit `_MTU` that it lowers when the kernel refuses a packet.
What the kernel answers is a parameter: it may depend on how many calls came before, on the bytes
offered to it and on `MSG_MORE`.  `socketSend_delivers` is the whole call.
-/

namespace Dtest

/-- `_MAX_MTU`. -/
def maxMTU : ℕ := 8192

/-- `errno` after a failed send. -/
inductive SendErrno where
  | again
  | intr
  | msgsize
  | other
  deriving DecidableEq

/-- What `sys::send` returns: the number of bytes it took, or `-1`. -/
inductive SysSend where
  | sent (n : ℕ)
  | error (errno : SendErrno)
  deriving DecidableEq

/-- The answer to the `call`-th `sys::send`, which offers `bytes` with or without `MSG_MORE`. -/
abbrev SendKernel := (call : ℕ) → (bytes : List UInt8) → (more : Bool) → SysSend

/-- `_resizeMTU`: the new value of `_MTU`. -/
def resizeMTU (oldMTU mtu : ℕ) : ℕ :=
  if oldMTU > mtu then mtu
  else
    let newMTU := mtu
    if (newMTU ≤ maxMTU ∧ newMTU > 8000) ∨ newMTU ≤ 512 then wsub newMTU 1 else 512

/-- `Socket::send` in progress: `data` is what `data` and `len` still point at, `accepted` what the
kernel took so far. -/
structure SendState where
  data : List UInt8
  maxLen : ℕ
  mtu : ℕ
  calls : ℕ
  accepted : List UInt8
  threw : Bool

/-- `Socket::send` as it is entered. -/
def SendState.start (data : List UInt8) (mtu : ℕ) : SendState :=
  { data, maxLen := initialSyscallSize, mtu, calls := 0, accepted := [], threw := false }

/-- What the next `sys::send` is offered. -/
def SendState.offer (s : SendState) : List UInt8 :=
  if s.data.length ≤ s.maxLen then s.data else s.data.take s.maxLen

/-- Whether the next `sys::send` has the flag `MSG_MORE`. -/
def SendState.more (s : SendState) : Bool := !decide (s.data.length ≤ s.maxLen)

/-- One iteration of the loop of `Socket::send`. -/
def sendStep (kernel : SendKernel) (s : SendState) : Option SendState :=
  if s.threw then none
  else if 0 < s.data.length then
    let sent := kernel s.calls s.offer s.more
    let s := { s with calls := s.calls + 1 }
    match sent with
    | .sent n => some { s with data := s.data.drop n, accepted := s.accepted ++ s.data.take n }
    | .error .again | .error .intr => some s
    | .error .msgsize =>
      let mtu := resizeMTU s.maxLen s.mtu
      some { s with mtu, maxLen := mtu }
    | .error .other => some { s with threw := true }
  else none

/-- A connection whose path carries at most `P` bytes at a time: a larger offer, and no other, fails
with `EMSGSIZE`; any other is taken in part or whole, or fails for the moment, but not for ever. -/
structure PathLimit (kernel : SendKernel) (P : ℕ) : Prop where
  msgsize : ∀ call bytes more, kernel call bytes more = .error .msgsize ↔ P < bytes.length
  sent : ∀ call bytes more n, bytes ≠ [] → kernel call bytes more = .sent n →
    1 ≤ n ∧ n ≤ bytes.length
  other : ∀ call bytes more, kernel call bytes more ≠ .error .other
  moves : ∀ call bytes more, bytes ≠ [] → ∃ later, call ≤ later ∧
    kernel later bytes more ≠ .error .again ∧ kernel later bytes more ≠ .error .intr

/-- Lowering a limit of at least two leaves a smaller one that is not zero. -/
theorem resizeMTU_lt {mtu : ℕ} (h : 2 ≤ mtu) (hmax : mtu ≤ maxMTU) :
    1 ≤ resizeMTU mtu mtu ∧ resizeMTU mtu mtu < mtu := by
  unfold maxMTU at hmax
  unfold resizeMTU
  rw [if_neg (lt_irrefl _)]
  dsimp only
  split
  · rw [wsub_of_le (by omega) (by omega)]
    omega
  · omega

theorem resizeMTU_of_lt {oldMTU mtu : ℕ} (h : mtu < oldMTU) : resizeMTU oldMTU mtu = mtu := by
  unfold resizeMTU
  exact if_pos h

/-! ## The loop -/

namespace SendState

/-- What holds at the head of the loop, for a call that sends `data` from a limit `mtu`. -/
structure Inv (data : List UInt8) (mtu : ℕ) (s : SendState) : Prop where
  threw : s.threw = false
  whole : s.accepted ++ s.data = data
  limit : s.maxLen = initialSyscallSize ∨ s.maxLen = s.mtu
  pos : 1 ≤ s.mtu
  le : s.mtu ≤ mtu

variable {kernel : SendKernel} {P mtu : ℕ} {data : List UInt8} {s s' : SendState}

theorem Inv.maxLen_pos (h : Inv data mtu s) : 1 ≤ s.maxLen := by
  have := h.pos
  rcases h.limit with hl | hl
  · rw [hl]; decide
  · omega

theorem length_offer (s : SendState) : s.offer.length = min s.maxLen s.data.length := by
  unfold offer
  split
  · omega
  · exact List.length_take

theorem offer_ne_nil (h : Inv data mtu s) (hd : s.data ≠ []) : s.offer ≠ [] := by
  have := h.maxLen_pos
  have := List.length_pos_iff.2 hd
  rw [← List.length_pos_iff, length_offer]
  omega

/-- The refused offer was longer than the path allows, so the limit it was cut to is at least
two. -/
theorem Inv.resize (h : Inv data mtu s) (hmax : mtu ≤ maxMTU) (hlong : 2 ≤ s.maxLen) :
    1 ≤ resizeMTU s.maxLen s.mtu ∧ resizeMTU s.maxLen s.mtu ≤ s.mtu ∧
      resizeMTU s.maxLen s.mtu < s.maxLen := by
  have hpos := h.pos
  have hle := h.le
  rcases h.limit with hl | hl
  · have hlt : s.mtu < s.maxLen := by
      rw [hl]
      unfold maxMTU at hmax
      unfold initialSyscallSize
      omega
    rw [resizeMTU_of_lt hlt]
    omega
  · rw [hl] at hlong ⊢
    have := resizeMTU_lt hlong (hle.trans hmax)
    omega

/-- Everything one iteration can do on such a path. -/
theorem sendStep_cases (hk : PathLimit kernel P) (hP : 1 ≤ P) (h : Inv data mtu s)
    (hs : sendStep kernel s = some s') :
    s.data ≠ [] ∧
    ((∃ n, 1 ≤ n ∧ n ≤ s.data.length ∧
        s' = { s with
          calls := s.calls + 1
          data := s.data.drop n
          accepted := s.accepted ++ s.data.take n }) ∨
      ((kernel s.calls s.offer s.more = .error .again ∨
        kernel s.calls s.offer s.more = .error .intr) ∧
        s' = { s with calls := s.calls + 1 }) ∨
      (2 ≤ s.maxLen ∧
        s' = { s with calls := s.calls + 1, mtu := resizeMTU s.maxLen s.mtu,
                      maxLen := resizeMTU s.maxLen s.mtu })) := by
  unfold sendStep at hs
  rw [if_neg (by rw [h.threw]; exact Bool.false_ne_true)] at hs
  split at hs
  case isFalse => cases hs
  case isTrue hlen =>
  have hd : s.data ≠ [] := List.length_pos_iff.1 hlen
  have hoffer := length_offer s
  refine ⟨hd, ?_⟩
  dsimp only at hs
  split at hs
  case h_1 n hsent =>
    obtain ⟨h1, hn⟩ := hk.sent _ _ _ _ (offer_ne_nil h hd) hsent
    exact .inl ⟨n, h1, by omega, (Option.some.inj hs).symm⟩
  case h_2 hsent => exact .inr (.inl ⟨.inl hsent, (Option.some.inj hs).symm⟩)
  case h_3 hsent => exact .inr (.inl ⟨.inr hsent, (Option.some.inj hs).symm⟩)
  case h_4 hsent =>
    have := (hk.msgsize _ _ _).1 hsent
    exact .inr (.inr ⟨by omega, (Option.some.inj hs).symm⟩)
  case h_5 hsent => exact absurd hsent (hk.other _ _ _)

theorem inv_sendStep (hk : PathLimit kernel P) (hP : 1 ≤ P) (hmax : mtu ≤ maxMTU)
    (hs : sendStep kernel s = some s') (h : Inv data mtu s) : Inv data mtu s' := by
  obtain ⟨-, ⟨n, -, -, rfl⟩ | ⟨-, rfl⟩ | ⟨hlong, rfl⟩⟩ := sendStep_cases hk hP h hs
  · refine { h with whole := ?_ }
    show s.accepted ++ s.data.take n ++ s.data.drop n = data
    rw [List.append_assoc, List.take_append_drop, h.whole]
  · exact { h with }
  · obtain ⟨hpos, hle, -⟩ := h.resize hmax hlong
    exact {
      threw := h.threw
      whole := h.whole
      limit := .inr rfl
      pos := hpos
      le := hle.trans h.le }

/-- The loop is over when nothing is left to send. -/
theorem data_eq_nil (h : Inv data mtu s) (hs : sendStep kernel s = none) : s.data = [] := by
  unfold sendStep at hs
  rw [if_neg (by rw [h.threw]; exact Bool.false_ne_true)] at hs
  split at hs
  case isTrue =>
    dsimp only at hs
    split at hs <;> cases hs
  case isFalse hlen => exact List.length_eq_zero_iff.1 (Nat.eq_zero_of_not_pos hlen)

/-- The bytes that are left and the limit: an iteration that is not put off makes their sum
smaller. -/
def variant (s : SendState) : ℕ := s.data.length + s.maxLen

theorem variant_lt_or (hk : PathLimit kernel P) (hP : 1 ≤ P) (hmax : mtu ≤ maxMTU)
    (h : Inv data mtu s) (hs : sendStep kernel s = some s') :
    variant s' < variant s ∨
      (kernel s.calls s.offer s.more = .error .again ∨
        kernel s.calls s.offer s.more = .error .intr) ∧
        s' = { s with calls := s.calls + 1 } := by
  obtain ⟨-, ⟨n, hn, hle, rfl⟩ | hdeferred | ⟨hlong, rfl⟩⟩ := sendStep_cases hk hP h hs
  · left
    show (s.data.drop n).length + s.maxLen < s.data.length + s.maxLen
    rw [List.length_drop]
    omega
  · exact .inr hdeferred
  · left
    have := h.resize hmax hlong
    show s.data.length + resizeMTU s.maxLen s.mtu < s.data.length + s.maxLen
    omega

/-- Whatever is put off is taken up again, with the same offer. -/
theorem exists_variant_lt (hk : PathLimit kernel P) (hP : 1 ≤ P) (hmax : mtu ≤ maxMTU)
    (h : Inv data mtu s) (hs : sendStep kernel s = some s') :
    ∃ n, variant (Loop.run (sendStep kernel) n s) < variant s := by
  have hd := (sendStep_cases hk hP h hs).1
  obtain ⟨later, hle, hmoves⟩ := hk.moves s.calls s.offer s.more (offer_ne_nil h hd)
  obtain ⟨k, rfl⟩ := Nat.exists_eq_add_of_le hle
  clear hle
  -- `k` bounds the calls that the kernel still puts off
  induction k generalizing s s' with
  | zero =>
    rcases variant_lt_or hk hP hmax h hs with hlt | ⟨hagain | hintr, -⟩
    · exact ⟨1, by rwa [Loop.run_succ_of_some hs]⟩
    · exact absurd hagain hmoves.1
    · exact absurd hintr hmoves.2
  | succ k ih =>
    rcases variant_lt_or hk hP hmax h hs with hlt | ⟨-, rfl⟩
    · exact ⟨1, by rwa [Loop.run_succ_of_some hs]⟩
    · have h' := inv_sendStep hk hP hmax hs h
      cases hs' : sendStep kernel { s with calls := s.calls + 1 } with
      | none => exact absurd (data_eq_nil h' hs') hd
      | some s'' =>
        have hcall : s.calls + 1 + k = s.calls + (k + 1) := by omega
        obtain ⟨n, hn⟩ := ih h' hs' hd (by rw [hcall]; exact hmoves)
        exact ⟨n + 1, by rwa [Loop.run_succ_of_some hs]⟩

theorem inv_start (data : List UInt8) {mtu : ℕ} (hpos : 1 ≤ mtu) :
    Inv data mtu (start data mtu) where
  threw := rfl
  whole := rfl
  limit := .inl rfl
  pos := hpos
  le := le_refl mtu

end SendState

/-- On such a path `Socket::send` returns: it does not throw, the kernel has taken the bytes of the
buffer in order and each once, and the limit is no larger than before and not zero. -/
theorem socketSend_delivers {kernel : SendKernel} {P mtu : ℕ} (hP : 1 ≤ P) (hk : PathLimit kernel P)
    (hpos : 1 ≤ mtu) (hmax : mtu ≤ maxMTU) (data : List UInt8) :
    ∃ n, let s := Loop.run (sendStep kernel) n (SendState.start data mtu)
      sendStep kernel s = none ∧ s.threw = false ∧ s.data = [] ∧ s.accepted = data ∧
        1 ≤ s.mtu ∧ s.mtu ≤ maxMTU ∧ s.mtu ≤ mtu := by
  have hinv := SendState.inv_start data hpos
  have hstep (s s' : SendState) (hs : sendStep kernel s = some s') (h : s.Inv data mtu) :=
    SendState.inv_sendStep hk hP hmax hs h
  obtain ⟨n, hstop⟩ := Loop.exists_stop hstep SendState.variant
    (fun _ _ h hs => SendState.exists_variant_lt hk hP hmax h hs) hinv
  have h := Loop.run_induction hstep n hinv
  have hdata := SendState.data_eq_nil h hstop
  have hwhole := h.whole
  rw [hdata, List.append_nil] at hwhole
  exact ⟨n, hstop, h.threw, hdata, hwhole, h.pos, h.le.trans hmax, h.le⟩

/-- A path for 3 bytes at a time that takes one byte at each second call. -/
def narrowPath : SendKernel := fun call bytes _ =>
  if 3 < bytes.length then .error .msgsize else if call % 2 = 0 then .error .again else .sent 1

theorem narrowPath_pathLimit : PathLimit narrowPath 3 where
  msgsize call bytes more := by
    unfold narrowPath
    split
    case isTrue h => exact ⟨fun _ => h, fun _ => rfl⟩
    case isFalse h => split <;> exact ⟨nofun, fun h' => absurd h' h⟩
  sent call bytes more n hne h := by
    have := List.length_pos_iff.2 hne
    unfold narrowPath at h
    split at h
    · cases h
    split at h
    · cases h
    · cases h
      omega
  other call bytes more := by
    unfold narrowPath
    split
    · nofun
    split <;> nofun
  moves call bytes more _ := by
    refine ⟨2 * call + 1, by omega, ?_⟩
    unfold narrowPath
    rw [if_neg (by omega : ¬(2 * call + 1) % 2 = 0)]
    split <;> exact ⟨nofun, nofun⟩

theorem socketSend_delivers_narrow :
    ∃ n, let s := Loop.run (sendStep narrowPath) n (SendState.start [1, 2, 3, 4] 8192)
      sendStep narrowPath s = none ∧ s.threw = false ∧ s.data = [] ∧ s.accepted = [1, 2, 3, 4] ∧
        1 ≤ s.mtu ∧ s.mtu ≤ maxMTU ∧ s.mtu ≤ 8192 :=
  socketSend_delivers (by decide : 1 ≤ 3) narrowPath_pathLimit (by decide) (by decide) [1, 2, 3, 4]

end Dtest
