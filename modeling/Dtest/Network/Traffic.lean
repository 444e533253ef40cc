import Dtest.Network.Model

/-!
# What the two snapshots store of the network traffic

The counters are words, and every call that is counted adds to them (`Tallies`).  So the differences
that `resourceSnapshot` stores are the sums of what is counted in between, whatever the threads do
(`network_window`).
-/

universe u

namespace Dtest

namespace Network

variable {scaled : ℕ → ℚ → ℕ} {n n' n'' : Network}

/-- The counters have gone from `n` to `n'` by the traffic `sent` and `received`. -/
structure Tallies (n n' : Network) (sent received : List ℕ) : Prop where
  sendSize : n'.sendSize % 2 ^ 64 = (n.sendSize + sent.sum) % 2 ^ 64
  sendCount : n'.sendCount % 2 ^ 64 = (n.sendCount + sent.length) % 2 ^ 64
  recvSize : n'.recvSize % 2 ^ 64 = (n.recvSize + received.sum) % 2 ^ 64
  recvCount : n'.recvCount % 2 ^ 64 = (n.recvCount + received.length) % 2 ^ 64

theorem Tallies.of_eq (h : n'.toNetworkCounters = n.toNetworkCounters) : Tallies n n' [] [] := by
  constructor <;>
    · rw [h]
      rfl

theorem Tallies.trans {sent received sent' received' : List ℕ} (h : Tallies n n' sent received)
    (h' : Tallies n' n'' sent' received') :
    Tallies n n'' (sent ++ sent') (received ++ received') := by
  refine ⟨?_, ?_, ?_, ?_⟩
  · have := h.sendSize
    have := h'.sendSize
    rw [List.sum_append]
    omega
  · have := h.sendCount
    have := h'.sendCount
    rw [List.length_append]
    omega
  · have := h.recvSize
    have := h'.recvSize
    rw [List.sum_append]
    omega
  · have := h.recvCount
    have := h'.recvCount
    rw [List.length_append]
    omega

theorem tallies_trackSend (n : Network) (thread size : ℕ) :
    Tallies n (n.trackSend thread size) (if n.enters thread then [size] else []) [] := by
  unfold trackSend
  split_ifs
  · refine ⟨?_, ?_, rfl, rfl⟩
    · show wadd n.sendSize size % 2 ^ 64 = (n.sendSize + (size + 0)) % 2 ^ 64
      unfold wadd
      omega
    · show wadd n.sendCount 1 % 2 ^ 64 = (n.sendCount + 1) % 2 ^ 64
      unfold wadd
      omega
  · exact .of_eq rfl

theorem tallies_trackRecv (n : Network) (thread size : ℕ) :
    Tallies n (n.trackRecv thread size) [] (if n.enters thread then [size] else []) := by
  unfold trackRecv
  split_ifs
  · refine ⟨rfl, rfl, ?_, ?_⟩
    · show wadd n.recvSize size % 2 ^ 64 = (n.recvSize + (size + 0)) % 2 ^ 64
      unfold wadd
      omega
    · show wadd n.recvCount 1 % 2 ^ 64 = (n.recvCount + 1) % 2 ^ 64
      unfold wadd
      omega
  · exact .of_eq rfl

/-- The size that a move counts as sent. -/
def sentSizes (n : Network) : NetworkMove → List ℕ
  | .sent thread result =>
    match (n.threads thread).sending with
    | some (len, ok) => if n.enters thread then [countedSize len ok result] else []
    | none => []
  | _ => []

/-- The size that a move counts as received. -/
def receivedSizes (n : Network) : NetworkMove → List ℕ
  | .recv thread result => if n.enters thread then [result.getD 0] else []
  | _ => []

theorem enters_setThread {thread : ℕ} {t : NetworkThread}
    (hlocked : t.locked = (n.threads thread).locked) :
    (n.setThread thread t).enters thread = n.enters thread := by
  unfold enters setThread
  simp [hlocked]

theorem tallies_move {m : NetworkMove} (hmove : n.move scaled m = some n') :
    Tallies n n' (n.sentSizes m) (n.receivedSizes m) := by
  cases m with
  | sent thread result =>
    unfold move at hmove
    dsimp only at hmove
    split at hmove
    · cases hmove
    · rename_i len ok hsending
      obtain rfl := Option.some.inj hmove
      unfold sentSizes
      dsimp only
      rw [hsending]
      dsimp only
      rw [← enters_setThread (n := n) (t := { n.threads thread with sending := none }) rfl]
      have hidle : Tallies n (n.setThread thread { n.threads thread with sending := none }) [] [] :=
        .of_eq rfl
      exact hidle.trans (tallies_trackSend _ thread _)
  | recv thread result =>
    obtain rfl := Option.some.inj hmove
    exact tallies_trackRecv n thread _
  | send thread type len clock =>
    unfold move at hmove
    dsimp only at hmove
    split at hmove
    · cases hmove
    · obtain rfl := Option.some.inj hmove
      exact .of_eq rfl
  | lock thread =>
    obtain rfl := Option.some.inj hmove
    exact .of_eq rfl
  | unlock thread =>
    obtain rfl := Option.some.inj hmove
    exact .of_eq rfl
  | trackActivity val =>
    obtain rfl := Option.some.inj hmove
    exact .of_eq rfl
  | dropSendRequests chance duration =>
    obtain rfl := Option.some.inj hmove
    exact .of_eq rfl
  | dontDropSendRequests =>
    obtain rfl := Option.some.inj hmove
    exact .of_eq rfl
  | frand thread now =>
    obtain rfl := Option.some.inj hmove
    exact .of_eq rfl

/-- What a run counts as sent and as received. -/
def traffic (scaled : ℕ → ℚ → ℕ) : Network → List NetworkMove → List ℕ × List ℕ
  | _, [] => ([], [])
  | n, m :: ms =>
    let rest := traffic scaled ((system scaled).step n m) ms
    (n.sentSizes m ++ rest.1, n.receivedSizes m ++ rest.2)

theorem tallies_exec {ms : List NetworkMove} (h : (system scaled).Admissible n ms) :
    Tallies n ((system scaled).exec n ms) (traffic scaled n ms).1 (traffic scaled n ms).2 := by
  induction ms generalizing n with
  | nil => exact .of_eq rfl
  | cons m ms ih =>
    obtain ⟨n', hmove⟩ := Guarded.ofMove_allowed_iff.1 h.1
    have hstep : (system scaled).step n m = n' := Guarded.ofMove_step hmove
    have hrest := ih h.2
    rw [hstep] at hrest
    rw [Guarded.exec_cons, traffic, hstep]
    exact (tallies_move hmove).trans hrest

/-- The difference of a counter that has moved by `r`. -/
theorem since_of_moved {a a' r : ℕ} (h : a' % 2 ^ 64 = (a + r) % 2 ^ 64) :
    wsub a' (wsub a 0) = r % 2 ^ 64 := by
  unfold wsub
  omega

end Network

/-- Two snapshots around any run of the threads store the sums of what is counted in the run, as
words: the calls that the faulty network has dropped with their lengths, and those that have failed
with a size of zero. -/
theorem network_window {σ : Type u} (scaled : ℕ → ℚ → ℕ) (m m' : Memory σ) (n : Network)
    (ms : List NetworkMove) (h : (Network.system scaled).Admissible n ms) :
    let first := (resourceSnapshot m n.toNetworkCounters {}).2
    let n' := (Network.system scaled).exec n ms
    let second := (resourceSnapshot m' n'.toNetworkCounters first).2
    let sent := (Network.traffic scaled n ms).1
    let received := (Network.traffic scaled n ms).2
    second.send = ⟨sent.sum % 2 ^ 64, sent.length % 2 ^ 64⟩ ∧
      second.receive = ⟨received.sum % 2 ^ 64, received.length % 2 ^ 64⟩ := by
  intro first n' second sent received
  have htallies : n.Tallies n' sent received := Network.tallies_exec h
  have hsend : second.send = ⟨wsub n'.sendSize (wsub n.sendSize 0),
      wsub n'.sendCount (wsub n.sendCount 0)⟩ := rfl
  have hreceive : second.receive = ⟨wsub n'.recvSize (wsub n.recvSize 0),
      wsub n'.recvCount (wsub n.recvCount 0)⟩ := rfl
  rw [hsend, hreceive, Network.since_of_moved htallies.sendSize,
    Network.since_of_moved htallies.sendCount, Network.since_of_moved htallies.recvSize,
    Network.since_of_moved htallies.recvCount]
  exact ⟨rfl, rfl⟩

/-- A datagram is dropped, and a message is sent and one received with an error. -/
def countedMoves : List NetworkMove :=
  [.trackActivity true, .dropSendRequests 0 10,
    .send 0 (some .dgram) 8 { entry := 1, now := 2, seed := 7 },
    .send 1 (some .stream) 100 { entry := 3, now := 4 }, .sent 0 none, .sent 1 (some 60), .lock 1,
    .recv 1 (some 5), .unlock 1, .recv 1 none]

theorem network_window_countedMoves :
    let scaled := fun (duration : ℕ) (_ : ℚ) => duration
    (Network.system scaled).Admissible {} countedMoves ∧
      let first := (resourceSnapshot ({} : Memory ℕ) {} {}).2
      let second := (resourceSnapshot ({} : Memory ℕ)
        ((Network.system scaled).exec {} countedMoves).toNetworkCounters first).2
      let sent := (Network.traffic scaled {} countedMoves).1
      let received := (Network.traffic scaled {} countedMoves).2
      sent = [8, 60] ∧ received = [0] ∧
        second.send = ⟨sent.sum % 2 ^ 64, sent.length % 2 ^ 64⟩ ∧
        second.receive = ⟨received.sum % 2 ^ 64, received.length % 2 ^ 64⟩ := by
  intro scaled
  have hadmissible : (Network.system scaled).Admissible {} countedMoves := by
    unfold Network.system
    decide +kernel
  exact ⟨hadmissible, by decide +kernel, by decide +kernel,
    network_window scaled ({} : Memory ℕ) {} {} countedMoves hadmissible⟩

end Dtest
