import Dtest.Network.Model

/-!
# The holes of the faulty network

A thread's `_holeEndTime` is the end of the last hole that one of its calls has opened.  As long as
no hole ends out of the range of the clock (`Network.Fits`), the holes of a thread lie one after the
other (`Decided`), so that a call is in the last hole if it is in any.

* `network_drops`: in every state that the threads can get to, a call is dropped if and only if it
  comes to the decision and its time is in a hole of its thread or the random number is against it.
* `network_holes`: the holes of a thread do not meet.
* `canSend_of_long`: a hole of `2 ^ 63` nanoseconds or more ends before it begins.
-/

namespace Dtest

/-- The time that a thread's first call has been entered at. -/
def SendCall.start (history : List SendCall) (c : SendCall) : ℤ :=
  ((history.find? fun c' => c'.thread == c.thread).getD c).clock.entry

/-- The time of a call is in a hole that an earlier call of its thread has opened; up to the time
its first call has been entered at, a thread is in a hole of its own. -/
def SendCall.InHole (history : List SendCall) (c : SendCall) : Prop :=
  c.clock.now ≤ c.start history ∨
    ∃ c' ∈ history, c'.thread = c.thread ∧ ∃ e, c'.opened = some e ∧ c.clock.now ≤ e

/-- `_holeEndTime` of a thread after a history of calls. -/
def holeEndAfter (thread : ℕ) (history : List SendCall) : Option ℤ :=
  history.foldl (fun h c =>
    if c.thread = thread then some (c.opened.getD (h.getD c.clock.entry)) else h) none

theorem holeEndAfter_snoc (thread : ℕ) (history : List SendCall) (c : SendCall) :
    holeEndAfter thread (history ++ [c]) =
      if c.thread = thread then
        some (c.opened.getD ((holeEndAfter thread history).getD c.clock.entry))
      else holeEndAfter thread history := by
  unfold holeEndAfter
  rw [List.foldl_append]
  rfl

/-- A call that opens a hole comes after the hole before. -/
def Decided (history : List SendCall) : Prop :=
  ∀ i c e, history[i]? = some c → c.opened = some e →
    ((holeEndAfter c.thread (history.take i)).getD c.clock.entry) < c.clock.now ∧ c.clock.now ≤ e

theorem decided_nil : Decided [] := by
  intro i c e h
  cases h

theorem Decided.snoc {history : List SendCall} {c : SendCall} (h : Decided history)
    (hc : ∀ e, c.opened = some e →
      (holeEndAfter c.thread history).getD c.clock.entry < c.clock.now ∧ c.clock.now ≤ e) :
    Decided (history ++ [c]) := by
  intro i c' e hi hopened
  rcases Nat.lt_trichotomy i history.length with hlt | rfl | hgt
  · rw [List.getElem?_append_left hlt] at hi
    rw [List.take_append_of_le_length hlt.le]
    exact h i c' e hi hopened
  · rw [List.getElem?_append_right le_rfl, Nat.sub_self] at hi
    obtain rfl : c = c' := Option.some.inj hi
    rw [List.take_append_of_le_length le_rfl, List.take_length]
    exact hc e hopened
  · have hnone : (history ++ [c])[i]? = none := by
      refine List.getElem?_eq_none ?_
      rw [List.length_append]
      exact hgt
    rw [hnone] at hi
    cases hi

theorem Decided.of_snoc {history : List SendCall} {c : SendCall} (h : Decided (history ++ [c])) :
    Decided history ∧ ∀ e, c.opened = some e →
      (holeEndAfter c.thread history).getD c.clock.entry < c.clock.now ∧ c.clock.now ≤ e := by
  constructor
  · intro i c' e hi hopened
    have hlt : i < history.length := (List.getElem?_eq_some_iff.1 hi).1
    have hstep := h i c' e (by rw [List.getElem?_append_left hlt, hi]) hopened
    rwa [List.take_append_of_le_length hlt.le] at hstep
  · intro e hopened
    have hstep := h history.length c e
      (by rw [List.getElem?_append_right le_rfl, Nat.sub_self]; rfl) hopened
    rwa [List.take_append_of_le_length le_rfl, List.take_length] at hstep

theorem Decided.take {history : List SendCall} (h : Decided history) (j : ℕ) :
    Decided (history.take j) := by
  intro i c e hi hopened
  obtain ⟨hlt, -⟩ := List.getElem?_eq_some_iff.1 hi
  have hij : i < j := hlt.trans_le (List.length_take_le j history)
  have hstep := h i c e (by rw [← hi, List.getElem?_take_of_lt hij]) hopened
  rwa [List.take_take, Nat.min_eq_left hij.le]

/-- The first call of a thread and the end of its last hole, which is after all others, and is one
of the history unless the thread has not opened any. -/
structure LastHole (thread : ℕ) (history : List SendCall) (first : SendCall) (last : ℤ) : Prop where
  find : (history.find? fun c => c.thread == thread) = some first
  holeEnd : holeEndAfter thread history = some last
  entry_le : first.clock.entry ≤ last
  opened_le : ∀ c ∈ history, c.thread = thread → ∀ e, c.opened = some e → e ≤ last
  opened : last = first.clock.entry ∨ ∃ c ∈ history, c.thread = thread ∧ c.opened = some last

namespace LastHole

variable {thread : ℕ} {last : ℤ} {history : List SendCall} {c first : SendCall}

theorem of_first (hnone : (history.find? fun c' => c'.thread == c.thread) = none)
    (hend : holeEndAfter c.thread history = none)
    (hc : ∀ e, c.opened = some e → c.clock.entry < c.clock.now ∧ c.clock.now ≤ e) :
    LastHole c.thread (history ++ [c]) c (c.opened.getD c.clock.entry) := by
  have hnot : ∀ c' ∈ history, c'.thread ≠ c.thread := fun c' hc' heq =>
    absurd (List.find?_eq_none.1 hnone c' hc') (by simp [heq])
  refine ⟨?_, ?_, ?_, List.forall_mem_append.2 ⟨fun c' hc' hsame => absurd hsame (hnot c' hc'),
    List.forall_mem_singleton.2 fun _ e he => ?_⟩, ?_⟩
  · rw [List.find?_append, hnone]
    simp
  · rw [holeEndAfter_snoc, if_pos rfl, hend]
    rfl
  · cases hopened : c.opened with
    | none => exact le_rfl
    | some e =>
      have hlt := hc e hopened
      exact hlt.1.le.trans hlt.2
  · rw [he]
    exact le_rfl
  · cases hopened : c.opened with
    | none => exact Or.inl rfl
    | some e => exact Or.inr ⟨c, by simp, rfl, hopened⟩

theorem next (h : LastHole c.thread history first last)
    (hc : ∀ e, c.opened = some e → last < c.clock.now ∧ c.clock.now ≤ e) :
    LastHole c.thread (history ++ [c]) first (c.opened.getD last) := by
  have hle : last ≤ c.opened.getD last := by
    cases hopened : c.opened with
    | none => exact le_rfl
    | some e =>
      have hlt := hc e hopened
      exact hlt.1.le.trans hlt.2
  refine ⟨?_, ?_, h.entry_le.trans hle, List.forall_mem_append.2
    ⟨fun c' hc' hsame e he => (h.opened_le c' hc' hsame e he).trans hle,
      List.forall_mem_singleton.2 fun _ e he => ?_⟩, ?_⟩
  · rw [List.find?_append, h.find]
    rfl
  · rw [holeEndAfter_snoc, if_pos rfl, h.holeEnd]
    rfl
  · rw [he]
    exact le_rfl
  · cases hopened : c.opened with
    | none =>
      rcases h.opened with heq | ⟨c', hc', hlast⟩
      · exact Or.inl heq
      · exact Or.inr ⟨c', List.mem_append_left _ hc', hlast⟩
    | some e => exact Or.inr ⟨c, by simp, rfl, hopened⟩

theorem other (h : LastHole thread history first last) (hne : c.thread ≠ thread) :
    LastHole thread (history ++ [c]) first last := by
  refine ⟨?_, ?_, h.entry_le, List.forall_mem_append.2 ⟨h.opened_le,
    List.forall_mem_singleton.2 fun hsame => absurd hsame hne⟩, ?_⟩
  · rw [List.find?_append, h.find]
    rfl
  · rw [holeEndAfter_snoc, if_neg hne, h.holeEnd]
  · rcases h.opened with heq | ⟨c', hc', hlast⟩
    · exact Or.inl heq
    · exact Or.inr ⟨c', List.mem_append_left _ hc', hlast⟩

end LastHole

/-- A thread has not called yet, or it has a last hole. -/
theorem holeEndAfter_spec (thread : ℕ) {history : List SendCall} (h : Decided history) :
    (history.find? fun c => c.thread == thread) = none ∧ holeEndAfter thread history = none ∨
      ∃ first last, LastHole thread history first last := by
  induction history using List.reverseRecOn with
  | nil => exact Or.inl ⟨rfl, rfl⟩
  | append_singleton history c ih =>
    obtain ⟨hbefore, hc⟩ := h.of_snoc
    by_cases hthread : c.thread = thread
    · subst hthread
      right
      rcases ih hbefore with ⟨hnone, hend⟩ | ⟨first, last, hlast⟩
      · rw [hend] at hc
        exact ⟨_, _, LastHole.of_first hnone hend hc⟩
      · rw [hlast.holeEnd] at hc
        exact ⟨_, _, hlast.next hc⟩
    · rcases ih hbefore with ⟨hnone, hend⟩ | ⟨first, last, hlast⟩
      · refine Or.inl ⟨?_, ?_⟩
        · rw [List.find?_append, hnone]
          simp [hthread]
        · rw [holeEndAfter_snoc, if_neg hthread, hend]
      · exact Or.inr ⟨_, _, hlast.other hthread⟩

/-- A call is in a hole if it is not after the last one. -/
theorem SendCall.inHole_iff {history : List SendCall} (h : Decided history) (c : SendCall) :
    c.InHole history ↔ c.clock.now ≤ (holeEndAfter c.thread history).getD c.clock.entry := by
  unfold SendCall.InHole SendCall.start
  rcases holeEndAfter_spec c.thread h with ⟨hnone, hend⟩ | ⟨first, last, hlast⟩
  · rw [hnone, hend]
    refine or_iff_left ?_
    rintro ⟨c', hc', hsame, -⟩
    exact absurd (List.find?_eq_none.1 hnone c' hc') (by simp [hsame])
  · rw [hlast.find, hlast.holeEnd]
    simp only [Option.getD_some]
    constructor
    · rintro (hstart | ⟨c', hc', hsame, e, he, hnow⟩)
      · exact hstart.trans hlast.entry_le
      · exact hnow.trans (hlast.opened_le c' hc' hsame e he)
    · intro hnow
      rcases hlast.opened with rfl | ⟨c', hc', hsame, hopened⟩
      · exact Or.inl hnow
      · exact Or.inr ⟨c', hc', hsame, last, hopened, hnow⟩

/-! ## What a call does -/

namespace Network

variable {scaled : ℕ → ℚ → ℕ} {n n' : Network} {thread : ℕ} {type : Option SocketType}
  {clock : SendClock}

/-- A call comes to the decision. -/
def Counts (n : Network) (thread : ℕ) (type : Option SocketType) : Prop :=
  SocketType.reliable type = false ∧ n.probabilistic = true ∧ n.tracking = true ∧
    (n.threads thread).locked = 0

theorem canSend_cases (scaled : ℕ → ℚ → ℕ) (n : Network) (thread : ℕ) (type : Option SocketType)
    (clock : SendClock) :
    let holeEnd := (n.threads thread).holeEnd.getD clock.entry
    let r := n.canSend scaled thread type clock
    r.2.thread = thread ∧ r.2.clock = clock ∧ r.1.holeEnd = some (r.2.opened.getD holeEnd) ∧
      (¬ n.Counts thread type ∧ r.2.ok = true ∧ r.2.opened = none ∨
        n.Counts thread type ∧ clock.now ≤ holeEnd ∧ r.2.ok = false ∧ r.2.opened = none ∨
        n.Counts thread type ∧ holeEnd < clock.now ∧
          (Dtest.frand clock.seed (n.threads thread).state).retval < n.chance ∧ r.2.ok = true ∧
          r.2.opened = none ∨
        n.Counts thread type ∧ holeEnd < clock.now ∧
          n.chance ≤ (Dtest.frand clock.seed (n.threads thread).state).retval ∧ r.2.ok = false ∧
          ∃ length : ℚ, 0 ≤ length ∧ length ≤ 1 ∧ r.2.opened =
            some (signedWord (clock.now + signedWord (scaled n.holeDuration length)))) := by
  intro holeEnd
  have hcounts : n.Counts thread type ↔
      ¬ SocketType.reliable type = true ∧ ¬ (!n.probabilistic || !n.enters thread) = true := by
    simp [Counts, enters]
  unfold canSend
  dsimp only
  by_cases htype : SocketType.reliable type = true
  · rw [if_pos htype]
    exact ⟨rfl, rfl, rfl, Or.inl ⟨fun hc => (hcounts.1 hc).1 htype, rfl, rfl⟩⟩
  · rw [if_neg htype]
    by_cases henters : (!n.probabilistic || !n.enters thread) = true
    · rw [if_pos henters]
      exact ⟨rfl, rfl, rfl, Or.inl ⟨fun hc => (hcounts.1 hc).2 henters, rfl, rfl⟩⟩
    · have hc := hcounts.2 ⟨htype, henters⟩
      rw [if_neg henters]
      by_cases hnow : holeEnd < clock.now
      · rw [if_pos hnow]
        by_cases hdraw : (Dtest.frand clock.seed (n.threads thread).state).retval < n.chance
        · rw [if_pos hdraw]
          exact ⟨rfl, rfl, rfl, Or.inr (Or.inr (Or.inl ⟨hc, hnow, hdraw, rfl, rfl⟩))⟩
        · rw [if_neg hdraw]
          exact ⟨rfl, rfl, rfl, Or.inr (Or.inr (Or.inr ⟨hc, hnow, not_lt.1 hdraw, rfl, _,
            frand_retval_nonneg _ _, frand_retval_le_one _ _, rfl⟩))⟩
      · rw [if_neg hnow]
        exact ⟨rfl, rfl, rfl, Or.inr (Or.inl ⟨hc, not_lt.1 hnow, rfl, rfl⟩)⟩

/-- A hole that fits ends at the time and the length that the clock adds up. -/
theorem holeEnd_of_fits {now : ℤ} {length : ℕ} (h : -2 ^ 63 ≤ now) (h' : now + length < 2 ^ 63) :
    signedWord (now + signedWord length) = now + length := by
  rw [signedWord_add_signedWord]
  exact signedWord_of_lt (by omega) h'

/-- A hole whose length has the sign bit of its word set is over when it opens. -/
theorem canSend_of_long (hcounts : n.Counts thread type)
    (hafter : (n.threads thread).holeEnd.getD clock.entry < clock.now) (hnow : 0 ≤ clock.now)
    (hclock : clock.now < 2 ^ 63)
    (hdraw : n.chance ≤ (Dtest.frand clock.seed (n.threads thread).state).retval)
    (hlong : ∀ r : ℚ, 0 ≤ r → r ≤ 1 →
      2 ^ 63 ≤ scaled n.holeDuration r ∧ scaled n.holeDuration r < 2 ^ 64) :
    ∃ e, (n.canSend scaled thread type clock).2.opened = some e ∧ e < clock.now := by
  obtain ⟨-, -, -, hcases⟩ := canSend_cases scaled n thread type clock
  rcases hcases with ⟨hnot, -⟩ | ⟨-, hle, -⟩ | ⟨-, -, hlt, -⟩ | ⟨-, -, -, -, r, hr, hr', hopened⟩
  · exact absurd hcounts hnot
  · exact absurd hafter (not_lt_of_ge hle)
  · exact absurd hlt (not_lt_of_ge hdraw)
  · obtain ⟨hle, hlt⟩ := hlong r hr hr'
    have hlength : signedWord (scaled n.holeDuration r) = scaled n.holeDuration r - 2 ^ 64 :=
      signedWord_of_le (by omega) (by omega)
    refine ⟨_, hopened, ?_⟩
    rw [hlength, signedWord_of_lt (by omega) (by omega)]
    omega

/-! ## The invariant -/

/-- The thread-local variables agree with the history. -/
structure HoleInv (n : Network) : Prop where
  holeEnd : ∀ thread, (n.threads thread).holeEnd = holeEndAfter thread n.calls
  decided : Decided n.calls

theorem holeInv_init : HoleInv {} := ⟨fun _ => rfl, decided_nil⟩

theorem HoleInv.congr (h : n.HoleInv) (hcalls : n'.calls = n.calls)
    (hholes : ∀ thread, (n'.threads thread).holeEnd = (n.threads thread).holeEnd) : n'.HoleInv :=
  ⟨fun thread => by rw [hholes, hcalls, h.holeEnd], hcalls ▸ h.decided⟩

theorem HoleInv.setThread (h : n.HoleInv) {th : NetworkThread}
    (hth : th.holeEnd = (n.threads thread).holeEnd) : (n.setThread thread th).HoleInv := by
  refine h.congr rfl fun thread' => ?_
  show (Function.update n.threads thread th thread').holeEnd = _
  rw [Function.update_apply]
  split_ifs with heq
  · rw [hth, heq]
  · rfl

theorem HoleInv.trackSend (h : n.HoleInv) (size : ℕ) : (n.trackSend thread size).HoleInv := by
  unfold Network.trackSend
  split_ifs
  · exact h.congr rfl fun _ => rfl
  · exact h

theorem HoleInv.trackRecv (h : n.HoleInv) (size : ℕ) : (n.trackRecv thread size).HoleInv := by
  unfold Network.trackRecv
  split_ifs
  · exact h.congr rfl fun _ => rfl
  · exact h

/-- `canSend` and its entry in the history. -/
theorem HoleInv.send (h : n.HoleInv) {len : ℕ} (hfits : n.Fits scaled (.send thread type len clock))
    (sending : Option (ℕ × Bool)) :
    HoleInv { n.setThread thread { (n.canSend scaled thread type clock).1 with sending } with
      calls := n.calls ++ [(n.canSend scaled thread type clock).2] } := by
  obtain ⟨hthread, hclock, hhole, hcases⟩ := canSend_cases scaled n thread type clock
  rw [h.holeEnd] at hhole hcases
  constructor
  · intro thread'
    show (Function.update n.threads thread _ thread').holeEnd = _
    rw [holeEndAfter_snoc, Function.update_apply, hthread, hclock]
    by_cases heq : thread' = thread
    · subst heq
      rw [if_pos rfl, if_pos rfl]
      exact hhole
    · rw [if_neg heq, if_neg (Ne.symm heq)]
      exact h.holeEnd thread'
  · refine h.decided.snoc fun e hopened => ?_
    rw [hthread, hclock]
    rcases hcases with ⟨-, -, hnone⟩ | ⟨-, -, -, hnone⟩ | ⟨-, -, -, -, hnone⟩ |
      ⟨-, hnow, -, -, r, hr, hr', hsome⟩
    · rw [hnone] at hopened
      cases hopened
    · rw [hnone] at hopened
      cases hopened
    · rw [hnone] at hopened
      cases hopened
    · obtain rfl := Option.some.inj (hsome.symm.trans hopened)
      rw [holeEnd_of_fits hfits.1 (hfits.2 r hr hr')]
      exact ⟨hnow, Int.le_add_of_nonneg_right (Int.natCast_nonneg _)⟩

theorem HoleInv.move (h : n.HoleInv) {m : NetworkMove} (hfits : n.Fits scaled m)
    (hmove : n.move scaled m = some n') : n'.HoleInv := by
  cases m with
  | lock thread =>
    obtain rfl := Option.some.inj hmove
    exact h.setThread rfl
  | unlock thread =>
    obtain rfl := Option.some.inj hmove
    exact h.setThread rfl
  | trackActivity val =>
    obtain rfl := Option.some.inj hmove
    exact h.congr rfl fun _ => rfl
  | dropSendRequests chance duration =>
    obtain rfl := Option.some.inj hmove
    exact h.congr rfl fun _ => rfl
  | dontDropSendRequests =>
    obtain rfl := Option.some.inj hmove
    exact h.congr rfl fun _ => rfl
  | frand thread now =>
    obtain rfl := Option.some.inj hmove
    exact h.setThread rfl
  | send thread type len clock =>
    unfold Network.move at hmove
    dsimp only at hmove
    split at hmove
    · cases hmove
    · obtain rfl := Option.some.inj hmove
      exact h.send hfits _
  | sent thread result =>
    unfold Network.move at hmove
    dsimp only at hmove
    split at hmove
    · cases hmove
    · obtain rfl := Option.some.inj hmove
      have hthread : HoleInv (n.setThread thread { n.threads thread with sending := none }) :=
        h.setThread rfl
      exact hthread.trackSend _
  | recv thread result =>
    obtain rfl := Option.some.inj hmove
    exact h.trackRecv _

theorem holeInv_exec {ms : List NetworkMove}
    (h : ((system scaled).restrict (Fits scaled)).Admissible {} ms) :
    ((system scaled).exec {} ms).HoleInv := by
  refine Guarded.Admissible.invariant (G := (system scaled).restrict (Fits scaled)) (I := HoleInv)
    (fun s m hinv hallowed => ?_) holeInv_init h
  obtain ⟨s', hmove⟩ := Guarded.ofMove_allowed_iff.1 hallowed.1
  show HoleInv ((Guarded.ofMove (move scaled)).step s m)
  rw [Guarded.ofMove_step hmove]
  exact hinv.move hallowed.2 hmove

end Network

/-- Every hole has the full length. -/
def fullLength (duration : ℕ) (_ : ℚ) : ℕ := duration

instance (n : Network) : ∀ m : NetworkMove, Decidable (n.Fits fullLength m)
  | .send _ _ _ clock =>
    decidable_of_iff (-2 ^ 63 ≤ clock.now ∧ clock.now + n.holeDuration < 2 ^ 63)
      ⟨fun h => ⟨h.1, fun _ _ _ => h.2⟩, fun h => ⟨h.1, h.2 0 le_rfl zero_le_one⟩⟩
  | .lock _ | .unlock _ | .trackActivity _ | .dropSendRequests .. | .dontDropSendRequests
  | .frand .. | .sent .. | .recv .. => isTrue trivial

/-- Two threads send datagrams, none of which gets through. -/
def droppedMoves : List NetworkMove :=
  [.trackActivity true, .dropSendRequests 0 10,
    .send 0 (some .dgram) 8 { entry := 1, now := 2, seed := 7 },
    .sent 0 none, .send 1 (some .dgram) 8 { entry := 3, now := 4, seed := 9 },
    .send 0 (some .dgram) 8 { entry := 20, now := 21 }]

/-- As long as no hole ends out of the range of the clock, a call is dropped if and only if it is
one for a datagram or raw socket while the network is faulty and the traffic of the thread is
tracked, and its time is in a hole of the thread or the random number is not below the chance. -/
theorem network_drops (scaled : ℕ → ℚ → ℕ) (ms : List NetworkMove) (thread : ℕ)
    (type : Option SocketType) (clock : SendClock)
    (h : ((Network.system scaled).restrict (Network.Fits scaled)).Admissible {} ms) :
    let n := (Network.system scaled).exec {} ms
    let c := (n.canSend scaled thread type clock).2
    c.ok = false ↔ n.Counts thread type ∧ (c.InHole n.calls ∨
      n.chance ≤ (Dtest.frand clock.seed (n.threads thread).state).retval) := by
  intro n c
  have hinv := Network.holeInv_exec h
  obtain ⟨hthread, hclock, -, hcases⟩ := Network.canSend_cases scaled n thread type clock
  have hin : c.InHole n.calls ↔ clock.now ≤ (n.threads thread).holeEnd.getD clock.entry := by
    rw [SendCall.inHole_iff hinv.decided c, hinv.holeEnd, hthread, hclock]
  rw [hin]
  rcases hcases with ⟨hnot, hok, -⟩ | ⟨hcounts, hnow, hok, -⟩ | ⟨-, hnow, hdraw, hok, -⟩ |
    ⟨hcounts, -, hdraw, hok, -⟩
  · exact iff_of_false (by rw [hok]; decide) fun hc => hnot hc.1
  · exact iff_of_true hok ⟨hcounts, Or.inl hnow⟩
  · refine iff_of_false (by rw [hok]; decide) fun hc => ?_
    rcases hc.2 with hle | hle
    · exact absurd hnow (not_lt_of_ge hle)
    · exact absurd hdraw (not_lt_of_ge hle)
  · exact iff_of_true hok ⟨hcounts, Or.inr hdraw⟩

theorem network_drops_droppedMoves :
    ((Network.system fullLength).restrict (Network.Fits fullLength)).Admissible {} droppedMoves ∧
      let n := (Network.system fullLength).exec {} droppedMoves
      let c := (n.canSend fullLength 1 (some .dgram) { entry := 8, now := 9 }).2
      (c.ok = false ↔ n.Counts 1 (some .dgram) ∧ (c.InHole n.calls ∨
        n.chance ≤ (Dtest.frand 0 (n.threads 1).state).retval)) := by
  have hadmissible : ((Network.system fullLength).restrict (Network.Fits fullLength)).Admissible {}
      droppedMoves := by
    unfold Network.system
    decide +kernel
  exact ⟨hadmissible, network_drops fullLength droppedMoves 1 (some .dgram) { entry := 8, now := 9 }
    hadmissible⟩

/-- As long as no hole ends out of the range of the clock, the holes of a thread do not meet: a call
that opens one comes after the end of every earlier one. -/
theorem network_holes (scaled : ℕ → ℚ → ℕ) (ms : List NetworkMove)
    (h : ((Network.system scaled).restrict (Network.Fits scaled)).Admissible {} ms) {i j : ℕ}
    {c c' : SendCall} {e e' : ℤ}
    (hc : ((Network.system scaled).exec {} ms).calls[i]? = some c)
    (hc' : ((Network.system scaled).exec {} ms).calls[j]? = some c') (hij : i < j)
    (hthread : c.thread = c'.thread) (he : c.opened = some e) (he' : c'.opened = some e') :
    c.clock.now ≤ e ∧ e < c'.clock.now ∧ c'.clock.now ≤ e' := by
  have hdecided := (Network.holeInv_exec h).decided
  obtain ⟨hafter, hle'⟩ := hdecided j c' e' hc' he'
  refine ⟨(hdecided i c e hc he).2, ?_, hle'⟩
  have hearlier : c ∈ (((Network.system scaled).exec {} ms).calls).take j := by
    refine List.mem_iff_getElem?.2 ⟨i, ?_⟩
    rw [List.getElem?_take_of_lt hij, hc]
  rcases holeEndAfter_spec c'.thread (hdecided.take j) with ⟨hnone, -⟩ | ⟨first, last, hlast⟩
  · exact absurd (List.find?_eq_none.1 hnone c hearlier) (by simp [hthread])
  · rw [hlast.holeEnd] at hafter
    exact (hlast.opened_le c hearlier hthread e he).trans_lt hafter

theorem network_holes_droppedMoves :
    let calls := ((Network.system fullLength).exec {} droppedMoves).calls
    ∃ c c', calls[0]? = some c ∧ calls[2]? = some c' ∧ c.thread = c'.thread ∧ c.opened = some 12 ∧
      c'.opened = some 31 ∧ c.clock.now ≤ 12 ∧ 12 < c'.clock.now ∧ c'.clock.now ≤ 31 := by
  intro calls
  have hadmissible : ((Network.system fullLength).restrict (Network.Fits fullLength)).Admissible {}
      droppedMoves := by
    unfold Network.system
    decide +kernel
  have hfacts : calls.map (fun c => (c.thread, c.opened)) =
      [(0, some 12), (1, some 14), (0, some 31)] := by
    decide +kernel
  obtain ⟨c, c₁, c', hcalls⟩ : ∃ c c₁ c', calls = [c, c₁, c'] := by
    refine List.length_eq_three.1 ?_
    rw [← List.length_map, hfacts]
    rfl
  rw [hcalls] at hfacts
  simp only [List.map_cons, List.map_nil, List.cons.injEq, Prod.mk.injEq, and_true] at hfacts
  obtain ⟨⟨hc, hopened⟩, -, hc', hopened'⟩ := hfacts
  have hfirst : calls[0]? = some c := by
    rw [hcalls]
    rfl
  have hlast : calls[2]? = some c' := by
    rw [hcalls]
    rfl
  exact ⟨c, c', hfirst, hlast, hc.trans hc'.symm, hopened, hopened',
    network_holes fullLength droppedMoves hadmissible hfirst hlast Nat.zero_lt_two
      (hc.trans hc'.symm) hopened hopened'⟩

end Dtest
