import Dtest.Lib.Guarded
import Mathlib.Data.List.Basic
import Mathlib.Data.List.Infix
import Mathlib.Data.List.Nodup
import Mathlib.Logic.Function.Basic

/-!
# `Socket::pollOrAcceptOrTimeout` and the order of messages

A listening socket with its backlog and `_openConnections`.  The connections are numbered in the
order in which they are made; a message is on its connection from the moment it is sent, and the
environment decides when `poll` reports it.

The driver keeps one connection to each worker of a test and sends everything on it, a worker opens
a new connection for every message.  So the messages of one connection give the order of the
driver's messages, and those of all connections of one owner the order of a worker's.

* `message_order`: messages on one connection are received in the order they were sent; those of one
  worker are if no poll reports a connection while an older one of the same worker is unreported or
  comes earlier in the iteration order.
* `message_overtakes`: without that a message can overtake an older one of the same worker.
-/

namespace Dtest

universe u

variable {μ : Type u}

/-- `revents` of one connection. -/
inductive Revents
  | none
  | pollin
  | error
  deriving DecidableEq

/-- A listening socket.  `owner` and `sent` record which party made a connection and what was sent,
in the order of the calls; `received` what was handed over. -/
structure Listener (μ : Type u) where
  next : ℕ := 0
  backlog : List ℕ := []
  openConnections : List ℕ := []
  owner : ℕ → ℕ := fun _ => 0
  unread : ℕ → List μ := fun _ => []
  closed : ℕ → Bool := fun _ => false
  sent : List (ℕ × μ) := []
  received : List (ℕ × μ) := []

/-- A call of a peer, or one round of the receiving loop: what `poll` reports of the listening
socket and of the connections, the iteration order of `_openConnections`, and whether a message is
there at once on a connection just accepted. -/
inductive ListenerStep (μ : Type u)
  | connect (owner : ℕ) (m : μ)
  | send (c : ℕ) (m : μ)
  | close (c : ℕ)
  | poll (incoming : Bool) (order : List ℕ) (revents : ℕ → Revents) (arrived : Bool)

namespace Listener

/-- The loop of `pollOrAcceptOrTimeout` over the connections: the last one reported is served, those
in error are closed. -/
def pollLoop (revents : ℕ → Revents) : List ℕ → Listener μ → Option ℕ → Listener μ × Option ℕ
  | [], l, incoming => (l, incoming)
  | c :: order, l, incoming =>
    match revents c with
    | .none => pollLoop revents order l incoming
    | .pollin => pollLoop revents order l (some c)
    | .error =>
      pollLoop revents order { l with openConnections := l.openConnections.erase c } incoming

/-- `Socket::pollOrAcceptOrTimeout`: the connection it returns. -/
def pollOrAcceptOrTimeout (l : Listener μ) (incoming : Bool) (order : List ℕ)
    (revents : ℕ → Revents) : Listener μ × Option ℕ :=
  match incoming, l.backlog with
  | true, c :: backlog =>
    pollLoop revents order
      { l with backlog, openConnections := l.openConnections ++ [c] } (some c)
  | _, _ => pollLoop revents order l none

/-- `Message::recv` on the connection returned, and `dispose` when it finds the end of the stream.
A connection just accepted may have nothing to read yet. -/
def receive (l : Listener μ) (c : ℕ) (readable : Bool) : Listener μ :=
  if readable then
    match l.unread c with
    | m :: ms =>
      { l with unread := Function.update l.unread c ms, received := l.received ++ [(c, m)] }
    | [] =>
      if l.closed c then { l with openConnections := l.openConnections.erase c } else l
  else l

def step (l : Listener μ) : ListenerStep μ → Listener μ
  | .connect owner m =>
    { l with
      next := l.next + 1
      backlog := l.backlog ++ [l.next]
      owner := Function.update l.owner l.next owner
      unread := Function.update l.unread l.next [m]
      sent := l.sent ++ [(l.next, m)] }
  | .send c m =>
    { l with
      unread := Function.update l.unread c (l.unread c ++ [m])
      sent := l.sent ++ [(c, m)] }
  | .close c => { l with closed := Function.update l.closed c true }
  | .poll incoming order revents arrived =>
    match l.pollOrAcceptOrTimeout incoming order revents with
    | (l', none) => l'
    | (l', some c) => l'.receive c (decide (revents c = .pollin) || arrived)

/-- A peer sends on a connection it has not closed; a poll reports what is there, and no connection
fails. -/
def Allowed (l : Listener μ) : ListenerStep μ → Prop
  | .connect _ _ => True
  | .send c _ => c < l.next ∧ l.closed c = false
  | .close c => c < l.next
  | .poll _ order revents _ => order.Perm l.openConnections ∧ ∀ c, revents c ≠ .error ∧
      (revents c = .pollin → c ∈ l.openConnections ∧ (l.unread c ≠ [] ∨ l.closed c = true))

/-- The peers and the receiving loop. -/
def system : Guarded (Listener μ) (ListenerStep μ) := ⟨Allowed, step⟩

/-- The messages of a history on connections that satisfy `p`. -/
def select (p : ℕ → Bool) (history : List (ℕ × μ)) : List μ :=
  (history.filter fun e => p e.1).map Prod.snd

/-- Every message has a connection of its own, as those of a worker do. -/
def NewConnections (_ : Listener μ) : ListenerStep μ → Prop
  | .send _ _ => False
  | _ => True

/-- Of two unread connections of one owner, the newer one is not reported before the older one, and
comes first in the iteration. -/
def OlderLast (l : Listener μ) : ListenerStep μ → Prop
  | .poll _ order revents arrived => ∀ c₁ ∈ l.openConnections, l.unread c₁ ≠ [] →
      (∀ c₂ ∈ l.openConnections, c₁ < c₂ → l.owner c₁ = l.owner c₂ → l.unread c₂ ≠ [] →
        revents c₂ = .pollin → revents c₁ = .pollin ∧ order.idxOf c₂ < order.idxOf c₁) ∧
      (∀ c₂, l.backlog.head? = some c₂ → l.owner c₁ = l.owner c₂ → arrived = true →
        revents c₁ = .pollin)
  | _ => True

/-! ## Histories -/

section Select

variable {p q : ℕ → Bool} {h : List (ℕ × μ)}

theorem select_append (p : ℕ → Bool) (h h' : List (ℕ × μ)) :
    select p (h ++ h') = select p h ++ select p h' := by
  simp [select]

theorem select_singleton (p : ℕ → Bool) (c : ℕ) (m : μ) :
    select p [(c, m)] = if p c then [m] else [] := by
  cases hp : p c <;> simp [select, hp]

theorem select_cons (p : ℕ → Bool) (c : ℕ) (m : μ) (h : List (ℕ × μ)) :
    select p ((c, m) :: h) = (if p c then [m] else []) ++ select p h := by
  rw [← select_singleton, ← select_append]
  rfl

theorem select_eq_nil (hp : ∀ e ∈ h, p e.1 = false) : select p h = [] := by
  unfold select
  rw [List.filter_eq_nil_iff.2 fun e he => Bool.eq_false_iff.1 (hp e he), List.map_nil]

theorem select_congr (hpq : ∀ e ∈ h, p e.1 = q e.1) : select p h = select q h := by
  unfold select
  rw [List.filter_congr hpq]

end Select

/-! ## What a poll returns -/

/-- Without connections in error, the last connection reported is returned, or the one accepted if
none is. -/
theorem pollLoop_spec {revents : ℕ → Revents} (herr : ∀ c, revents c ≠ .error) (order : List ℕ)
    (l : Listener μ) (incoming : Option ℕ) :
    (pollLoop revents order l incoming).1 = l ∧
      ((pollLoop revents order l incoming).2 = incoming ∧ (∀ c ∈ order, revents c ≠ .pollin) ∨
        ∃ pre c post, order = pre ++ c :: post ∧ revents c = .pollin ∧
          (∀ x ∈ post, revents x ≠ .pollin) ∧
          (pollLoop revents order l incoming).2 = some c) := by
  induction order generalizing incoming with
  | nil => exact ⟨rfl, Or.inl ⟨rfl, fun c hc => absurd hc List.not_mem_nil⟩⟩
  | cons c order ih =>
    cases hc : revents c with
    | error => exact absurd hc (herr c)
    | none =>
      have hgo : pollLoop revents (c :: order) l incoming = pollLoop revents order l incoming := by
        simp only [pollLoop, hc]
      rw [hgo]
      refine ⟨(ih incoming).1, (ih incoming).2.imp (fun h => ⟨h.1, fun x hx => ?_⟩) ?_⟩
      · rcases List.mem_cons.1 hx with rfl | hx
        · rw [hc]
          decide
        · exact h.2 x hx
      · rintro ⟨pre, d, post, rfl, hd, hpost, hret⟩
        exact ⟨c :: pre, d, post, rfl, hd, hpost, hret⟩
    | pollin =>
      have hgo : pollLoop revents (c :: order) l incoming = pollLoop revents order l (some c) := by
        simp only [pollLoop, hc]
      rw [hgo]
      refine ⟨(ih (some c)).1, Or.inr ?_⟩
      rcases (ih (some c)).2 with ⟨hret, hnone⟩ | ⟨pre, d, post, rfl, hd, hpost, hret⟩
      · exact ⟨[], c, order, rfl, hc, hnone, hret⟩
      · exact ⟨c :: pre, d, post, rfl, hd, hpost, hret⟩

/-- The listening socket after the `accept` of a poll. -/
def accepted (l : Listener μ) (incoming : Bool) : Listener μ :=
  match incoming, l.backlog with
  | true, c :: backlog => { l with backlog, openConnections := l.openConnections ++ [c] }
  | _, _ => l

/-- A poll of connections none of which is in error. -/
theorem pollOrAccept_spec {revents : ℕ → Revents} (herr : ∀ c, revents c ≠ .error)
    (l : Listener μ) (incoming : Bool) (order : List ℕ) :
    (l.pollOrAcceptOrTimeout incoming order revents).1 = l.accepted incoming ∧
      ∀ c, (l.pollOrAcceptOrTimeout incoming order revents).2 = some c →
        (incoming = true ∧ l.backlog.head? = some c ∧ ∀ x ∈ order, revents x ≠ .pollin) ∨
          ∃ pre post, order = pre ++ c :: post ∧ revents c = .pollin ∧
            ∀ x ∈ post, revents x ≠ .pollin := by
  have key (l' : Listener μ) (inc : Option ℕ) (c : ℕ)
      (hc : (pollLoop revents order l' inc).2 = some c) :
      (inc = some c ∧ ∀ x ∈ order, revents x ≠ .pollin) ∨
        ∃ pre post, order = pre ++ c :: post ∧ revents c = .pollin ∧
          ∀ x ∈ post, revents x ≠ .pollin := by
    rcases (pollLoop_spec herr order l' inc).2 with ⟨hret, hnone⟩ | ⟨pre, d, post, ho, hd, hp, hret⟩
    · exact Or.inl ⟨hret.symm.trans hc, hnone⟩
    · obtain rfl := Option.some.inj (hret.symm.trans hc)
      exact Or.inr ⟨pre, post, ho, hd, hp⟩
  have hlast (c : ℕ) (hc : (pollLoop revents order l none).2 = some c) :
      ∃ pre post, order = pre ++ c :: post ∧ revents c = .pollin ∧
        ∀ x ∈ post, revents x ≠ .pollin := by
    rcases key l none c hc with ⟨hnone, -⟩ | hlast
    · cases hnone
    · exact hlast
  unfold pollOrAcceptOrTimeout accepted
  cases incoming with
  | false => exact ⟨(pollLoop_spec herr order l none).1, fun c hc => Or.inr (hlast c hc)⟩
  | true =>
    cases hb : l.backlog with
    | nil => exact ⟨(pollLoop_spec herr order l none).1, fun c hc => Or.inr (hlast c hc)⟩
    | cons d backlog =>
      refine ⟨(pollLoop_spec herr order _ (some d)).1, fun c hc => ?_⟩
      rcases key _ (some d) c hc with ⟨hsome, hnone⟩ | hlast
      · exact Or.inl ⟨rfl, hsome, hnone⟩
      · exact Or.inr hlast

/-- The connection returned hands over a message, has nothing to read, or is disposed of. -/
theorem receive_cases (l : Listener μ) (c : ℕ) (readable : Bool) :
    (∃ m ms, readable = true ∧ l.unread c = m :: ms ∧ l.receive c readable =
      { l with unread := Function.update l.unread c ms, received := l.received ++ [(c, m)] }) ∨
    l.receive c readable = l ∨
    (l.unread c = [] ∧
      l.receive c readable = { l with openConnections := l.openConnections.erase c }) := by
  unfold receive
  cases readable with
  | false => exact Or.inr (Or.inl rfl)
  | true =>
    rw [if_pos rfl]
    cases hu : l.unread c with
    | cons m ms => exact Or.inl ⟨m, ms, rfl, rfl, rfl⟩
    | nil =>
      dsimp only
      split_ifs
      · exact Or.inr (Or.inr ⟨rfl, rfl⟩)
      · exact Or.inr (Or.inl rfl)

/-- A poll accepts and then receives, or accepts only. -/
theorem step_poll {l : Listener μ} {incoming : Bool} {order : List ℕ} {revents : ℕ → Revents}
    {arrived : Bool} (ha : l.Allowed (.poll incoming order revents arrived)) :
    l.step (.poll incoming order revents arrived) = l.accepted incoming ∨
      ∃ c, l.step (.poll incoming order revents arrived) =
          (l.accepted incoming).receive c (decide (revents c = .pollin) || arrived) ∧
        ((incoming = true ∧ l.backlog.head? = some c ∧ ∀ x ∈ order, revents x ≠ .pollin) ∨
          ∃ pre post, order = pre ++ c :: post ∧ revents c = .pollin ∧
            ∀ x ∈ post, revents x ≠ .pollin) := by
  obtain ⟨hl, hret⟩ := pollOrAccept_spec (fun c => (ha.2 c).1) l incoming order
  simp only [step]
  rcases hr : l.pollOrAcceptOrTimeout incoming order revents with ⟨l', _ | c⟩
  · rw [hr] at hl
    exact Or.inl hl
  · rw [hr] at hl hret
    exact Or.inr ⟨c, congrArg (Listener.receive · c _) hl, hret c rfl⟩

theorem accepted_history (l : Listener μ) (incoming : Bool) :
    (l.accepted incoming).received = l.received ∧ (l.accepted incoming).unread = l.unread ∧
      (l.accepted incoming).sent = l.sent ∧ (l.accepted incoming).next = l.next ∧
      (l.accepted incoming).owner = l.owner := by
  unfold accepted
  cases incoming with
  | false => exact ⟨rfl, rfl, rfl, rfl, rfl⟩
  | true => cases l.backlog <;> exact ⟨rfl, rfl, rfl, rfl, rfl⟩

/-! ## One connection -/

/-- On every connection, what was received and what is unread is what was sent. -/
structure Fifo (l : Listener μ) : Prop where
  split : ∀ c, select (· = c) l.received ++ l.unread c = select (· = c) l.sent
  fresh : ∀ c, l.next ≤ c → l.unread c = []

theorem Fifo.congr {l l' : Listener μ} (h : l.Fifo) (hreceived : l'.received = l.received)
    (hunread : l'.unread = l.unread) (hsent : l'.sent = l.sent) (hnext : l'.next = l.next) :
    l'.Fifo := by
  refine ⟨fun c => ?_, fun c hc => ?_⟩
  · rw [hreceived, hunread, hsent]
    exact h.split c
  · rw [hunread]
    exact h.fresh c (hnext ▸ hc)

theorem Fifo.receive {l : Listener μ} (h : l.Fifo) (c : ℕ) (readable : Bool) :
    (l.receive c readable).Fifo := by
  rcases l.receive_cases c readable with ⟨m, ms, -, hu, hgo⟩ | hgo | ⟨-, hgo⟩
  · rw [hgo]
    refine ⟨fun q => ?_, fun q hq => ?_⟩
    · show select (· = q) (l.received ++ [(c, m)]) ++ Function.update l.unread c ms q = _
      rw [select_append, select_singleton, ← h.split q]
      by_cases hqc : q = c
      · subst hqc
        simp [hu]
      · simp [Function.update_of_ne hqc, Ne.symm hqc]
    · have hqc : q ≠ c := fun e => by
        rw [← e, h.fresh q hq] at hu
        exact absurd hu nofun
      show Function.update l.unread c ms q = []
      rw [Function.update_of_ne hqc]
      exact h.fresh q hq
  · rw [hgo]
    exact h
  · rw [hgo]
    exact h.congr rfl rfl rfl rfl

theorem fifo_step (l : Listener μ) (e : ListenerStep μ) (h : l.Fifo) (ha : system.allowed l e) :
    (system.step l e).Fifo := by
  show (l.step e).Fifo
  -- a message is appended to what is unread on its connection
  have put (c : ℕ) (m : μ) (q : ℕ) : select (· = q) l.received ++
      Function.update l.unread c (l.unread c ++ [m]) q = select (· = q) (l.sent ++ [(c, m)]) := by
    rw [select_append, select_singleton, ← h.split q]
    by_cases hqc : q = c
    · subst hqc
      simp
    · simp [Function.update_of_ne hqc, Ne.symm hqc]
  cases e with
  | connect owner m =>
    have hempty := h.fresh l.next le_rfl
    refine ⟨fun q => ?_, fun q hq => ?_⟩
    · have hq := put l.next m q
      rwa [hempty] at hq
    · have hq' : l.next < q := hq
      show Function.update l.unread l.next [m] q = []
      rw [Function.update_of_ne hq'.ne']
      exact h.fresh q hq'.le
  | send c m =>
    have hc : c < l.next := ha.1
    refine ⟨put c m, fun q hq => ?_⟩
    have hq' : l.next ≤ q := hq
    show Function.update l.unread c _ q = []
    rw [Function.update_of_ne (hc.trans_le hq').ne']
    exact h.fresh q hq'
  | close c => exact h.congr rfl rfl rfl rfl
  | poll incoming order revents arrived =>
    obtain ⟨hreceived, hunread, hsent, hnext, -⟩ := l.accepted_history incoming
    have hacc := h.congr hreceived hunread hsent hnext
    rcases step_poll ha with hgo | ⟨c, hgo, -⟩
    · rwa [hgo]
    · rw [hgo]
      exact hacc.receive c _

/-! ## One owner -/

/-- The unread messages of an owner, in the order they were sent. -/
def pending (l : Listener μ) (w : ℕ) : List μ :=
  select (fun c => l.owner c = w ∧ l.unread c ≠ []) l.sent

/-- The connections in use are numbered without gaps, those in the backlog last, and what an owner
has unread comes after what was received from it. -/
structure Ordered (l : Listener μ) : Prop where
  sent : l.sent.map Prod.fst = List.range l.next
  single : ∀ e ∈ l.sent, l.unread e.1 = [] ∨ l.unread e.1 = [e.2]
  fresh : ∀ c, l.next ≤ c → l.unread c = []
  backlog : ∃ a, a + l.backlog.length = l.next ∧ l.backlog = List.range' a l.backlog.length ∧
    ∀ c ∈ l.openConnections, c < a
  nodup : l.openConnections.Nodup
  place : ∀ c, l.unread c ≠ [] → c ∈ l.openConnections ∨ c ∈ l.backlog
  received : ∀ e ∈ l.received, e.1 < l.next
  split : ∀ w, select (fun c => l.owner c = w) l.received ++ l.pending w =
    select (fun c => l.owner c = w) l.sent

section Ordered

variable {l : Listener μ}

theorem Ordered.sent_lt (h : l.Ordered) {e : ℕ × μ} (he : e ∈ l.sent) : e.1 < l.next := by
  have hmem := List.mem_map_of_mem (f := Prod.fst) he
  rw [h.sent] at hmem
  exact List.mem_range.1 hmem

theorem Ordered.connect (h : l.Ordered) (owner : ℕ) (m : μ) :
    (l.step (.connect owner m)).Ordered := by
  obtain ⟨a, ha, hback, hopen⟩ := h.backlog
  have hold : ∀ e ∈ l.sent, Function.update l.owner l.next owner e.1 = l.owner e.1 ∧
      Function.update l.unread l.next [m] e.1 = l.unread e.1 := fun e he => by
    have hne := (h.sent_lt he).ne
    rw [Function.update_of_ne hne, Function.update_of_ne hne]
    exact ⟨rfl, rfl⟩
  refine ⟨?_, fun e he => ?_, fun c hc => ?_, ⟨a, ?_, ?_, hopen⟩, h.nodup, fun c hc => ?_,
    fun e he => ?_, fun w => ?_⟩
  · show (l.sent ++ [(l.next, m)]).map Prod.fst = List.range (l.next + 1)
    rw [List.map_append, h.sent, List.range_succ]
    rfl
  · show Function.update l.unread l.next [m] e.1 = [] ∨
      Function.update l.unread l.next [m] e.1 = [e.2]
    rcases List.mem_append.1 he with he | he
    · rw [(hold e he).2]
      exact h.single e he
    · obtain rfl := List.mem_singleton.1 he
      exact Or.inr (Function.update_self ..)
  · have hc' : l.next < c := hc
    show Function.update l.unread l.next [m] c = []
    rw [Function.update_of_ne hc'.ne']
    exact h.fresh c hc'.le
  · show a + (l.backlog ++ [l.next]).length = l.next + 1
    rw [List.length_append, List.length_singleton]
    omega
  · show l.backlog ++ [l.next] = List.range' a (l.backlog ++ [l.next]).length
    rw [List.length_append, List.length_singleton, List.range'_1_concat, ← hback, ha]
  · have hc' : Function.update l.unread l.next [m] c ≠ [] := hc
    show c ∈ l.openConnections ∨ c ∈ l.backlog ++ [l.next]
    by_cases hcn : c = l.next
    · exact Or.inr (List.mem_append_right _ (List.mem_singleton.2 hcn))
    · rw [Function.update_of_ne hcn] at hc'
      exact (h.place c hc').imp_right (List.mem_append_left _)
  · exact Nat.lt_succ_of_lt (h.received e he)
  · show select (fun c => Function.update l.owner l.next owner c = w) l.received ++
        select (fun c => Function.update l.owner l.next owner c = w ∧
          Function.update l.unread l.next [m] c ≠ []) (l.sent ++ [(l.next, m)]) =
      select (fun c => Function.update l.owner l.next owner c = w) (l.sent ++ [(l.next, m)])
    have hrec : select (fun c => Function.update l.owner l.next owner c = w) l.received =
        select (fun c => l.owner c = w) l.received := select_congr fun e he => by
      rw [Function.update_of_ne (h.received e he).ne]
    have hsent : select (fun c => Function.update l.owner l.next owner c = w) l.sent =
        select (fun c => l.owner c = w) l.sent := select_congr fun e he => by
      rw [(hold e he).1]
    have hpend : select (fun c => Function.update l.owner l.next owner c = w ∧
          Function.update l.unread l.next [m] c ≠ []) l.sent = l.pending w :=
      select_congr fun e he => by rw [(hold e he).1, (hold e he).2]
    rw [select_append, select_append, select_singleton, select_singleton, hrec, hsent, hpend,
      ← h.split w, List.append_assoc]
    simp

theorem Ordered.accepted (h : l.Ordered) (incoming : Bool) : (l.accepted incoming).Ordered := by
  obtain ⟨hreceived, hunread, hsent, hnext, howner⟩ := l.accepted_history incoming
  have hrest : ∀ a, a + (l.accepted incoming).backlog.length = l.next →
      (l.accepted incoming).backlog = List.range' a (l.accepted incoming).backlog.length →
      (∀ c ∈ (l.accepted incoming).openConnections, c < a) →
      (l.accepted incoming).openConnections.Nodup →
      (∀ c, l.unread c ≠ [] →
        c ∈ (l.accepted incoming).openConnections ∨ c ∈ (l.accepted incoming).backlog) →
      (l.accepted incoming).Ordered := fun a ha hb ho hn hp =>
    ⟨by rw [hsent, hnext]; exact h.sent, by rw [hsent, hunread]; exact h.single,
      by rw [hunread, hnext]; exact h.fresh, ⟨a, by rw [hnext]; exact ha, hb, ho⟩, hn,
      by rw [hunread]; exact hp, by rw [hreceived, hnext]; exact h.received, fun w => by
        unfold pending
        rw [hreceived, hsent, hunread, howner]
        exact h.split w⟩
  obtain ⟨a, ha, hback, hopen⟩ := h.backlog
  cases incoming with
  | false => exact h
  | true =>
    cases hb : l.backlog with
    | nil =>
      have hgo : l.accepted true = l := by simp only [Listener.accepted, hb]
      rw [hgo]
      exact h
    | cons c backlog =>
      have hgo : l.accepted true =
          { l with backlog, openConnections := l.openConnections ++ [c] } := by
        simp only [Listener.accepted, hb]
      rw [hb, List.length_cons, List.range'_succ] at hback
      obtain ⟨rfl, hback'⟩ := List.cons.inj hback
      rw [hb, List.length_cons] at ha
      refine hrest (c + 1) ?_ ?_ (fun x hx => ?_) ?_ fun x hx => ?_
      · rw [hgo]
        dsimp only
        omega
      · rw [hgo]
        exact hback'
      · rw [hgo] at hx
        rcases List.mem_append.1 hx with hx | hx
        · exact Nat.lt_succ_of_lt (hopen x hx)
        · exact List.mem_singleton.1 hx ▸ Nat.lt_succ_self x
      · rw [hgo]
        refine List.nodup_append.2 ⟨h.nodup, List.nodup_singleton c, fun x hx y hy => ?_⟩
        obtain rfl := List.mem_singleton.1 hy
        exact (hopen x hx).ne
      · rw [hgo]
        rcases h.place x hx with hx | hx
        · exact Or.inl (List.mem_append_left _ hx)
        · rw [hb] at hx
          rcases List.mem_cons.1 hx with rfl | hx
          · exact Or.inl (List.mem_append_right _ (List.mem_singleton_self x))
          · exact Or.inr hx

/-- An unread message is the one sent on its connection: those sent before it are on older
connections and those sent after it on newer ones. -/
theorem Ordered.sent_split (h : l.Ordered) {c : ℕ} {m : μ} {ms : List μ}
    (hu : l.unread c = m :: ms) : ms = [] ∧ ∃ pre post, l.sent = pre ++ (c, m) :: post ∧
      (∀ e ∈ pre, e.1 < c) ∧ ∀ e ∈ post, c < e.1 := by
  have hc : c < l.next := by
    by_contra hc
    rw [h.fresh c (Nat.le_of_not_lt hc)] at hu
    exact absurd hu nofun
  obtain ⟨⟨c', m'⟩, hmem, hcc⟩ : ∃ e ∈ l.sent, e.1 = c :=
    List.mem_map.1 (h.sent ▸ List.mem_range.2 hc)
  obtain rfl : c' = c := hcc
  obtain ⟨rfl, rfl⟩ : m = m' ∧ ms = [] := by
    rcases h.single _ hmem with hs | hs
    · exact absurd (hs.symm.trans hu) nofun
    · exact List.cons.inj (hu.symm.trans hs)
  obtain ⟨pre, post, hsplit⟩ := List.append_of_mem hmem
  have hlt : (l.sent.map Prod.fst).Pairwise (· < ·) := by
    rw [h.sent]
    exact List.pairwise_lt_range
  rw [hsplit, List.map_append, List.map_cons, List.pairwise_append, List.pairwise_cons] at hlt
  exact ⟨rfl, pre, post, hsplit,
    fun e he => hlt.2.2 e.1 (List.mem_map_of_mem he) c' (List.mem_cons_self ..),
    fun e he => hlt.2.1.1 e.1 (List.mem_map_of_mem he)⟩

/-- The oldest unread message of an owner is the first one pending. -/
theorem Ordered.pending_eq (h : l.Ordered) {c : ℕ} {m : μ} (hu : l.unread c = [m])
    (hfirst : ∀ c₁ < c, l.owner c₁ = l.owner c → l.unread c₁ = []) (w : ℕ) :
    l.pending w = (if l.owner c = w then [m] else []) ++
      select (fun x => l.owner x = w ∧ Function.update l.unread c [] x ≠ []) l.sent := by
  obtain ⟨-, pre, post, hsplit, hpre, hpost⟩ := h.sent_split hu
  have hpre' : select (fun x => l.owner x = w ∧ Function.update l.unread c [] x ≠ []) pre =
      select (fun x => l.owner x = w ∧ l.unread x ≠ []) pre := select_congr fun e he => by
    rw [Function.update_of_ne (hpre e he).ne]
  have hpost' : select (fun x => l.owner x = w ∧ Function.update l.unread c [] x ≠ []) post =
      select (fun x => l.owner x = w ∧ l.unread x ≠ []) post := select_congr fun e he => by
    rw [Function.update_of_ne (hpost e he).ne']
  unfold pending
  rw [hsplit, select_append, select_append, select_cons, select_cons, hpre', hpost']
  by_cases hw : l.owner c = w
  · have hnone : select (fun x => l.owner x = w ∧ l.unread x ≠ []) pre = [] :=
      select_eq_nil fun e he => by
        simp only [decide_eq_false_iff_not, not_and, not_not]
        exact fun howner => hfirst e.1 (hpre e he) (howner.trans hw.symm)
    rw [hnone]
    simp [hw, hu]
  · simp [hw]

/-- Handing over the oldest unread message of an owner. -/
theorem Ordered.receive (h : l.Ordered) (c : ℕ) (readable : Bool)
    (hfirst : readable = true → l.unread c ≠ [] →
      ∀ c₁ < c, l.owner c₁ = l.owner c → l.unread c₁ = []) :
    (l.receive c readable).Ordered := by
  obtain ⟨a, ha, hback, hopen⟩ := h.backlog
  rcases l.receive_cases c readable with ⟨m, ms, hread, hu, hgo⟩ | hgo | ⟨hu, hgo⟩
  · obtain ⟨rfl, pre, post, hsplit, -, -⟩ := h.sent_split hu
    have hc : c < l.next := h.sent_lt (hsplit ▸ List.mem_append_right _ (List.mem_cons_self ..))
    have hold := hfirst hread (by rw [hu]; exact List.cons_ne_nil _ _)
    rw [hgo]
    refine ⟨h.sent, fun e he => ?_, fun x hx => ?_, ⟨a, ha, hback, hopen⟩, h.nodup,
      fun x hx => ?_, fun e he => ?_, fun w => ?_⟩
    · show Function.update l.unread c [] e.1 = [] ∨ Function.update l.unread c [] e.1 = [e.2]
      by_cases hec : e.1 = c
      · rw [hec, Function.update_self]
        exact Or.inl rfl
      · rw [Function.update_of_ne hec]
        exact h.single e he
    · show Function.update l.unread c [] x = []
      rw [Function.update_of_ne (hc.trans_le hx).ne']
      exact h.fresh x hx
    · have hx' : Function.update l.unread c [] x ≠ [] := hx
      have hxc : x ≠ c := fun e => hx' (e ▸ Function.update_self ..)
      rw [Function.update_of_ne hxc] at hx'
      exact h.place x hx'
    · rcases List.mem_append.1 he with he | he
      · exact h.received e he
      · obtain rfl := List.mem_singleton.1 he
        exact hc
    · show select (fun x => l.owner x = w) (l.received ++ [(c, m)]) ++
          select (fun x => l.owner x = w ∧ Function.update l.unread c [] x ≠ []) l.sent = _
      rw [← h.split w, h.pending_eq hu hold, select_append, select_singleton, List.append_assoc]
      simp only [decide_eq_true_eq]
  · rw [hgo]
    exact h
  · rw [hgo]
    refine ⟨h.sent, h.single, h.fresh,
      ⟨a, ha, hback, fun x hx => hopen x (List.mem_of_mem_erase hx)⟩,
      h.nodup.erase c, fun x hx => ?_, h.received, h.split⟩
    have hxc : x ≠ c := fun e => hx (e ▸ hu)
    exact (h.place x hx).imp_left (List.mem_erase_of_ne hxc).2

/-- The connection that a poll returns has nothing older of its owner before it. -/
theorem Ordered.first (h : l.Ordered) {incoming : Bool} {order : List ℕ} {revents : ℕ → Revents}
    {arrived : Bool} (ha : l.Allowed (.poll incoming order revents arrived))
    (holder : l.OlderLast (.poll incoming order revents arrived)) {c : ℕ}
    (hc : (incoming = true ∧ l.backlog.head? = some c ∧ ∀ x ∈ order, revents x ≠ .pollin) ∨
      ∃ pre post, order = pre ++ c :: post ∧ revents c = .pollin ∧ ∀ x ∈ post, revents x ≠ .pollin)
    (hread : (decide (revents c = .pollin) || arrived) = true) (hu : l.unread c ≠ []) :
    ∀ c₁ < c, l.owner c₁ = l.owner c → l.unread c₁ = [] := by
  intro c₁ hlt howner
  by_contra hu₁
  obtain ⟨a, hsum, hback, hopen⟩ := h.backlog
  have hplace := h.place c₁ hu₁
  rcases hc with ⟨-, hhead, hnone⟩ | ⟨pre, post, rfl, hpoll, hpost⟩
  · -- the connection was accepted in this poll
    have hca : c = a := by
      obtain ⟨rest, hrest⟩ : ∃ rest, l.backlog = c :: rest := List.head?_eq_some_iff.1 hhead
      rw [hrest, List.length_cons, List.range'_succ] at hback
      exact (List.cons.inj hback).1
    have harrived : arrived = true := by
      by_cases hp : revents c = .pollin
      · exact absurd (hopen c ((ha.2 c).2 hp).1) (by omega)
      · simpa [hp] using hread
    rcases hplace with hmem | hmem
    · exact hnone c₁ (ha.1.mem_iff.2 hmem) ((holder c₁ hmem hu₁).2 c hhead howner harrived)
    · rw [hback, List.mem_range'_1] at hmem
      omega
  · -- the connection is the last one reported
    have hcopen : c ∈ l.openConnections := ((ha.2 c).2 hpoll).1
    rcases hplace with hmem | hmem
    · obtain ⟨hpoll₁, hidx⟩ := (holder c₁ hmem hu₁).1 c hcopen hlt howner hu hpoll
      have hnodup : (pre ++ c :: post).Nodup := ha.1.nodup_iff.2 h.nodup
      have hcpre : c ∉ pre :=
        fun hc => (List.nodup_append.1 hnodup).2.2 c hc c (List.mem_cons_self ..) rfl
      rw [List.idxOf_append_of_notMem hcpre, List.idxOf_cons_self] at hidx
      rcases List.mem_append.1 (ha.1.mem_iff.2 hmem : c₁ ∈ pre ++ c :: post) with hpre | hpre
      · rw [List.idxOf_append_of_mem hpre] at hidx
        have := List.idxOf_lt_length_of_mem hpre
        omega
      · rcases List.mem_cons.1 hpre with rfl | hpost₁
        · exact absurd hlt (lt_irrefl _)
        · exact hpost c₁ hpost₁ hpoll₁
    · have hlt' := hopen c hcopen
      rw [hback, List.mem_range'_1] at hmem
      omega

theorem ordered_step (l : Listener μ) (e : ListenerStep μ) (h : l.Ordered)
    (ha : (system.restrict fun l e => l.NewConnections e ∧ l.OlderLast e).allowed l e) :
    ((system.restrict fun l e => l.NewConnections e ∧ l.OlderLast e).step l e).Ordered := by
  obtain ⟨hallowed, hnew, holder⟩ := ha
  show (l.step e).Ordered
  cases e with
  | connect owner m => exact h.connect owner m
  | send c m => exact absurd hnew id
  | close c =>
    exact ⟨h.sent, h.single, h.fresh, h.backlog, h.nodup, h.place, h.received, h.split⟩
  | poll incoming order revents arrived =>
    rcases step_poll hallowed with hgo | ⟨c, hgo, hc⟩
    · rw [hgo]
      exact h.accepted incoming
    · rw [hgo]
      obtain ⟨-, hunread, -, -, howner⟩ := l.accepted_history incoming
      apply (h.accepted incoming).receive c _
      intro hread hu
      rw [hunread] at hu ⊢
      rw [howner]
      exact h.first hallowed holder hc hread hu

end Ordered

end Listener

open Listener

/-- On one connection, so from the driver to a worker of a test, the messages are received in the
order they were sent, in every run.  From one worker, which makes a new connection for every
message, they are in every run in which no poll prefers a newer connection of that worker to an
older one. -/
theorem message_order :
    (∀ es : List (ListenerStep μ), system.Admissible {} es → ∀ c,
      select (fun q => q = c) (system.exec {} es).received <+:
        select (fun q => q = c) (system.exec {} es).sent) ∧
    ∀ es : List (ListenerStep μ),
      (system.restrict fun l e => l.NewConnections e ∧ l.OlderLast e).Admissible {} es → ∀ w,
      select (fun c => (system.exec {} es).owner c = w) (system.exec {} es).received <+:
        select (fun c => (system.exec {} es).owner c = w) (system.exec {} es).sent := by
  refine ⟨fun es h c => ?_, fun es h w => ?_⟩
  · have hfifo : (system.exec {} es).Fifo := h.invariant fifo_step ⟨fun _ => rfl, fun _ _ => rfl⟩
    exact ⟨_, hfifo.split c⟩
  · have hordered : (system.exec {} es).Ordered := h.invariant ordered_step
      ⟨rfl, nofun, fun _ _ => rfl, ⟨0, rfl, rfl, nofun⟩, List.nodup_nil, fun c hc => absurd rfl hc,
        nofun, fun _ => rfl⟩
    exact ⟨_, hordered.split w⟩

/-- `revents` where the given connections are reported. -/
def reports (cs : List ℕ) (c : ℕ) : Revents := if c ∈ cs then .pollin else .none

theorem allowed_reports {l : Listener μ} {incoming arrived : Bool} {order cs : List ℕ}
    (hperm : order.Perm l.openConnections)
    (h : ∀ c ∈ cs, c ∈ l.openConnections ∧ (l.unread c ≠ [] ∨ l.closed c = true)) :
    system.allowed l (.poll incoming order (reports cs) arrived) := by
  refine ⟨hperm, fun c => ?_⟩
  unfold reports
  split_ifs with hc
  · exact ⟨nofun, fun _ => h c hc⟩
  · exact ⟨nofun, nofun⟩

theorem allowed_close {l : Listener μ} {c : ℕ} (h : c < l.next) : system.allowed l (.close c) := h

theorem olderLast_of_read {l : Listener μ} {incoming arrived : Bool} {order : List ℕ}
    {revents : ℕ → Revents} (h : ∀ c ∈ l.openConnections, l.unread c = []) :
    l.OlderLast (.poll incoming order revents arrived) :=
  fun c hc hu => absurd (h c hc) hu

/-- The driver sends 1 and 2 on one connection. -/
def oneConnection : List (ListenerStep ℕ) :=
  [.connect 0 1, .send 0 2, .poll true [] (reports []) true, .poll false [0] (reports [0]) false]

/-- Worker 5 sends 10 and 20 on connections of their own. -/
def twoConnections : List (ListenerStep ℕ) :=
  [.connect 5 10, .connect 5 20, .poll true [] (reports []) true, .poll true [0] (reports []) true]

theorem message_order_two :
    select (fun q => q = 0) (system.exec {} oneConnection).received <+:
        select (fun q => q = 0) (system.exec {} oneConnection).sent ∧
      select (fun c => (system.exec {} twoConnections).owner c = 5)
          (system.exec {} twoConnections).received <+:
        select (fun c => (system.exec {} twoConnections).owner c = 5)
          (system.exec {} twoConnections).sent := by
  refine ⟨message_order.1 oneConnection ?_ 0, message_order.2 twoConnections ?_ 5⟩
  · exact ⟨trivial, ⟨by decide, rfl⟩, allowed_reports (by decide +kernel) (by decide +kernel),
      allowed_reports (by decide +kernel) (by decide +kernel), trivial⟩
  · refine ⟨⟨trivial, trivial, trivial⟩, ⟨trivial, trivial, trivial⟩,
      ⟨allowed_reports ?_ ?_, trivial, olderLast_of_read ?_⟩,
      ⟨allowed_reports ?_ ?_, trivial, olderLast_of_read ?_⟩, trivial⟩
    all_goals decide +kernel

/-- Worker 5 sends 10 and then 20, and the driver reads 20 first, although every poll reports all
there is: two older connections, whose ends are still to be read, keep the first poll and the second
from serving the new ones, and the third serves the last one in the iteration order. -/
theorem message_overtakes :
    let es : List (ListenerStep ℕ) :=
      [.connect 6 100, .poll true [] (reports []) true,
        .connect 7 200, .poll true [0] (reports []) true, .close 0, .close 1,
        .connect 5 10, .close 2, .connect 5 20, .close 3,
        .poll true [0, 1] (reports [0, 1]) true, .poll true [2, 0] (reports [0, 2]) true,
        .poll false [2, 3] (reports [2, 3]) true]
    system.Admissible {} es ∧
      select (fun c => (system.exec {} es).owner c = 5) (system.exec {} es).received = [20] ∧
      select (fun c => (system.exec {} es).owner c = 5) (system.exec {} es).sent = [10, 20] := by
  refine ⟨?_, by decide +kernel, by decide +kernel⟩
  refine ⟨trivial, allowed_reports ?_ ?_, trivial, allowed_reports ?_ ?_, allowed_close ?_,
    allowed_close ?_, trivial, allowed_close ?_, trivial, allowed_close ?_, allowed_reports ?_ ?_,
    allowed_reports ?_ ?_, allowed_reports ?_ ?_, trivial⟩
  all_goals decide +kernel

end Dtest
