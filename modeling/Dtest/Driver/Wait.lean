import Dtest.Driver.Model
import Dtest.Lib.Guarded
import Mathlib.Algebra.Order.Ring.Nat
import Mathlib.Data.Finset.Card
import Mathlib.Data.Finset.Disjoint

/-!
# `DriverContext::wait` and `DriverContext::getUserMessage`

Both calls process messages of the same socket: a `wait` keeps the user messages it reads for later
calls of `getUserMessage`, and a `getUserMessage` the notifications for later waits.  A `WaitRun` is
the driver's test between two messages, with the history that the statements are about.

* `wait_notify`: every notification processed is banked or was counted by exactly one wait; a
  completed `wait(n)` counted one notification of each of `n` workers, and no earlier state of that
  wait had `n` workers with one outstanding; the user messages come back in the order processed.
  This needs that no `_notifyCount` is full when one more notification of its worker is processed.
* `wait_notify_overflow`: with `2 ^ 32` notifications of one worker it fails.
-/

namespace Dtest

universe u v

variable {α : Type u} {μ : Type v}

namespace Frame

/-- The worker id in a message. -/
def id : Frame μ → ℕ
  | .notify id => id
  | .userMessage id _ => id
  | .other id => id

/-- A NOTIFY of worker `k`. -/
def isNotify (k : ℕ) : Frame μ → Bool
  | .notify id => id = k
  | _ => false

@[simp] theorem isNotify_notify (k id : ℕ) :
    (notify id : Frame μ).isNotify k = decide (id = k) := rfl

/-- The user message carried. -/
def message? : Frame μ → Option μ
  | .userMessage _ m => some m
  | _ => none

end Frame

/-- A `wait(n)` that returned: the workers it counted, and the numbers of messages that had been
processed when it was called and when it returned. -/
structure CompletedWait where
  n : ℕ
  pulled : Finset ℕ
  start : ℕ
  finish : ℕ

/-- The call that the driver's test is in; `crashed` stands for a dereferenced `end()`. -/
inductive DriverCall
  | idle
  | waiting (n : ℕ) (pulled : Finset ℕ) (start : ℕ)
  | getting
  | crashed

/-- The `pulled` set of the call. -/
def DriverCall.pulled : DriverCall → Finset ℕ
  | .waiting _ pulled _ => pulled
  | _ => ∅

namespace DriverContext

/-- The loop of `wait` over the stored counts. -/
def firstPass (n : ℕ) :
    List ℕ → DriverContext α μ → Finset ℕ → DriverContext α μ × Finset ℕ
  | [], c, pulled => (c, pulled)
  | k :: order, c, pulled =>
    if pulled.card = n then (c, pulled)
    else match c.allocatedWorkers.find? k with
      | none => firstPass n order c pulled
      | some w =>
        if 0 < w.notifyCount then
          firstPass n order
            { c with allocatedWorkers := c.allocatedWorkers.set k w.decrement }
            (insert w.id pulled)
        else firstPass n order c pulled

/-- The body of the second loop of `wait`, after `_waitForEvent` has returned `id`; undefined where
it dereferences `end()`. -/
def pullEvent (id : ℕ) (c : DriverContext α μ) (pulled : Finset ℕ) :
    Option (DriverContext α μ × Finset ℕ) :=
  if id = noWorker then some (c, pulled)
  else match c.allocatedWorkers.find? id with
    | none => none
    | some w =>
      if 0 < w.notifyCount ∧ w.id ∉ pulled then
        some ({ c with allocatedWorkers := c.allocatedWorkers.set id w.decrement },
          insert w.id pulled)
      else some (c, pulled)

/-- The number of workers that `wait(n)` waits for. -/
def waitCount (c : DriverContext α μ) (n : ℕ) : ℕ :=
  if n = 2 ^ 32 - 1 then c.allocatedWorkers.size % 2 ^ 32 else n

/-- What `_allocateWorkers` leaves in `_allocatedWorkers`. -/
structure Fresh (c : DriverContext α μ) : Prop where
  id_eq : ∀ k w, c.allocatedWorkers.find? k = some w → w.id = k
  lt : ∀ k ∈ c.allocatedWorkers.keys, k < noWorker
  count : ∀ k w, c.allocatedWorkers.find? k = some w → w.notifyCount = 0

end DriverContext

/-- The driver's test between two messages.  The last three fields are its history: the messages
processed, the waits that returned, and what the calls of `getUserMessage` returned. -/
structure WaitRun (α : Type u) (μ : Type v) where
  ctx : DriverContext α μ
  call : DriverCall := .idle
  processed : List (Frame μ) := []
  completed : List CompletedWait := []
  received : List μ := []

/-- A call of the driver's test, or a message that the current call processes. -/
inductive WaitEvent (μ : Type v)
  | wait (n : ℕ) (order : List ℕ)
  | getUserMessage
  | frame (f : Frame μ)

namespace WaitRun

/-- The condition of the loop of `wait` is tested. -/
def testPulled (s : WaitRun α μ) (n start : ℕ) (r : DriverContext α μ × Finset ℕ) :
    WaitRun α μ :=
  if r.2.card = n then
    { s with
      ctx := r.1
      call := .idle
      completed := s.completed ++ [⟨n, r.2, start, s.processed.length⟩] }
  else { s with ctx := r.1, call := .waiting n r.2 start }

/-- The condition of the loop of `getUserMessage` is tested. -/
def testMessages (s : WaitRun α μ) : WaitRun α μ :=
  match s.ctx.userMessages with
  | [] => { s with call := .getting }
  | m :: ms =>
    { s with
      ctx := { s.ctx with userMessages := ms }
      call := .idle
      received := s.received ++ [m] }

/-- The current call goes on after a message. -/
def resume (s : WaitRun α μ) (id : ℕ) : WaitRun α μ :=
  match s.call with
  | .waiting n pulled start =>
    match s.ctx.pullEvent id pulled with
    | none => { s with call := .crashed }
    | some r => s.testPulled n start r
  | .getting => s.testMessages
  | _ => s

def step (s : WaitRun α μ) : WaitEvent μ → WaitRun α μ
  | .wait n order =>
    let n := s.ctx.waitCount n
    s.testPulled n s.processed.length (s.ctx.firstPass n order ∅)
  | .getUserMessage => s.testMessages
  | .frame f =>
    let r := s.ctx.waitForEvent f
    resume { s with ctx := r.1, processed := s.processed ++ [f] } r.2

/-- The test makes one call after the other, and the messages come from allocated workers. -/
def Allowed (s : WaitRun α μ) : WaitEvent μ → Prop
  | .wait _ order => s.call = .idle ∧ s.ctx.allocatedWorkers.Iterates order
  | .getUserMessage => s.call = .idle
  | .frame f => s.call ≠ .idle ∧ f.id ∈ s.ctx.allocatedWorkers.keys

/-- The driver's test as a system. -/
def system : Guarded (WaitRun α μ) (WaitEvent μ) := ⟨Allowed, step⟩

/-- No full `_notifyCount` is incremented. -/
def CountFits (s : WaitRun α μ) : WaitEvent μ → Prop
  | .frame (.notify id) =>
    ∀ w, s.ctx.allocatedWorkers.find? id = some w → w.notifyCount + 1 < 2 ^ 32
  | _ => True

end WaitRun

/-- The number of NOTIFY messages of worker `k`. -/
def notifiesFrom (k : ℕ) (frames : List (Frame μ)) : ℕ := frames.countP (Frame.isNotify k)

/-- The number of waits that counted worker `k`. -/
def waitsCounting (k : ℕ) (waits : List CompletedWait) : ℕ := waits.countP (k ∈ ·.pulled)

/-- The workers with a notification that no wait has counted. -/
def outstanding (keys : List ℕ) (frames : List (Frame μ)) (waits : List CompletedWait) : Finset ℕ :=
  keys.toFinset.filter fun k => waitsCounting k waits < notifiesFrom k frames

/-- The notification counts agree with the history. -/
def CountsAgree (c : DriverContext α μ) (frames : List (Frame μ)) (waits : List CompletedWait)
    (pulled : Finset ℕ) : Prop :=
  ∀ k w, c.allocatedWorkers.find? k = some w →
    w.notifyCount + (waitsCounting k waits + if k ∈ pulled then 1 else 0) = notifiesFrom k frames

/-- A wait called after `start` of the messages and the given waits has had no reason to return
while at most `finish` messages were processed. -/
def NotBefore (keys : List ℕ) (frames : List (Frame μ)) (waits : List CompletedWait)
    (n start finish : ℕ) : Prop :=
  ∀ p, start ≤ p → p < finish → (outstanding keys (frames.take p) waits).card < n

/-- A completed wait, called after the waits `before`, counted one outstanding notification of each
of `n` workers and returned as soon as `n` workers had one. -/
structure CompletedWait.Correct (keys : List ℕ) (frames : List (Frame μ))
    (before : List CompletedWait) (r : CompletedWait) : Prop where
  card : r.pulled.card = r.n
  start_le : r.start ≤ r.finish
  finish_le : r.finish ≤ frames.length
  outstanding : r.pulled ⊆ outstanding keys (frames.take r.finish) before
  earliest : NotBefore keys frames before r.n r.start r.finish

/-- The state of a driver's test that started in the context `c`. -/
structure WaitRun.Correct (c : DriverContext α μ) (s : WaitRun α μ) : Prop where
  alive : s.call ≠ .crashed
  keys : ∀ k, k ∈ s.ctx.allocatedWorkers.keys ↔ k ∈ c.allocatedWorkers.keys
  accounts : CountsAgree s.ctx s.processed s.completed s.call.pulled
  completed : ∀ i (r : CompletedWait), s.completed[i]? = some r →
    r.Correct c.allocatedWorkers.keys s.processed (s.completed.take i)
  waiting : ∀ n pulled start, s.call = .waiting n pulled start →
    NotBefore c.allocatedWorkers.keys s.processed s.completed n start (s.processed.length + 1)
  messages : s.received ++ s.ctx.userMessages = c.userMessages ++ s.processed.filterMap (·.message?)

/-! ## Counted notifications -/

namespace DriverContext

variable {c c' c'' : DriverContext α μ} {P Q : Finset ℕ}

/-- `c'` is `c` with one notification less of each worker of `P`. -/
structure Pulls (c c' : DriverContext α μ) (P : Finset ℕ) : Prop where
  find? : ∀ k, c'.allocatedWorkers.find? k =
    (c.allocatedWorkers.find? k).map fun w => if k ∈ P then w.decrement else w
  pos : ∀ k ∈ P, ∃ w, c.allocatedWorkers.find? k = some w ∧ 0 < w.notifyCount
  userMessages : c'.userMessages = c.userMessages

theorem Pulls.refl (c : DriverContext α μ) : Pulls c c ∅ := by
  refine ⟨fun k => ?_, fun k hk => absurd hk (Finset.notMem_empty k), rfl⟩
  simp

theorem pulls_singleton {k : ℕ} {w : WorkerHandle α} (hk : c.allocatedWorkers.find? k = some w)
    (hw : 0 < w.notifyCount) :
    Pulls c { c with allocatedWorkers := c.allocatedWorkers.set k w.decrement } {k} := by
  refine ⟨fun q => ?_, fun q hq => ?_, rfl⟩
  · show (c.allocatedWorkers.set k w.decrement).find? q = _
    rw [SortedMap.find?_set]
    by_cases h : q = k
    · subst h
      simp [hk]
    · simp [h]
  · obtain rfl := Finset.mem_singleton.1 hq
    exact ⟨w, hk, hw⟩

theorem Pulls.find?_of_notMem (h : Pulls c c' P) {k : ℕ} (hk : k ∉ P) :
    c'.allocatedWorkers.find? k = c.allocatedWorkers.find? k := by
  rw [h.find?]
  simp [hk]

theorem Pulls.trans (h : Pulls c c' P) (h' : Pulls c' c'' Q) (hd : Disjoint P Q) :
    Pulls c c'' (P ∪ Q) := by
  refine ⟨fun k => ?_, fun k hk => ?_, h'.userMessages.trans h.userMessages⟩
  · rw [h'.find?, h.find?, Option.map_map]
    congr 1
    funext w
    by_cases hP : k ∈ P
    · simp [hP, Finset.disjoint_left.1 hd hP]
    · simp [hP]
  · rcases Finset.mem_union.1 hk with hP | hQ
    · exact h.pos k hP
    · obtain ⟨w, hw, hpos⟩ := h'.pos k hQ
      rw [h.find?_of_notMem (Finset.disjoint_right.1 hd hQ)] at hw
      exact ⟨w, hw, hpos⟩

theorem Pulls.mem_keys (h : Pulls c c' P) (k : ℕ) :
    k ∈ c'.allocatedWorkers.keys ↔ k ∈ c.allocatedWorkers.keys := by
  rw [SortedMap.mem_keys, SortedMap.mem_keys, h.find?]
  simp

theorem Pulls.id_eq (h : Pulls c c' P) (hid : ∀ k w, c.allocatedWorkers.find? k = some w → w.id = k)
    (k : ℕ) (w : WorkerHandle α) (hk : c'.allocatedWorkers.find? k = some w) : w.id = k := by
  rw [h.find?] at hk
  obtain ⟨v, hv, rfl⟩ := Option.map_eq_some_iff.1 hk
  have hv' := hid k v hv
  split_ifs
  · rwa [WorkerHandle.decrement_id]
  · exact hv'

/-- What the loop over the stored counts has done when it ends with `r`: it has counted the workers
of `P`, and those it has passed over have nothing banked, unless `n` are counted. -/
structure Passed (n : ℕ) (order : List ℕ) (c : DriverContext α μ) (pulled : Finset ℕ)
    (r : DriverContext α μ × Finset ℕ) (P : Finset ℕ) : Prop where
  pulls : Pulls c r.1 P
  pulled_eq : r.2 = pulled ∪ P
  mem_order : ∀ k ∈ P, k ∈ order
  card_le : (pulled ∪ P).card ≤ n
  rest : (pulled ∪ P).card = n ∨
    ∀ k ∈ order, k ∉ P → ∀ w, c.allocatedWorkers.find? k = some w → w.notifyCount = 0

section

variable {n k : ℕ} {order : List ℕ} {pulled : Finset ℕ} {r : DriverContext α μ × Finset ℕ}

/-- A loop that stops at once. -/
theorem passed_empty (hn : pulled.card ≤ n) (hrest : pulled.card = n ∨ order = []) :
    Passed n order c pulled (c, pulled) ∅ := by
  refine ⟨Pulls.refl c, (Finset.union_empty _).symm, fun k hk => absurd hk (Finset.notMem_empty k),
    ?_, ?_⟩
  · rwa [Finset.union_empty]
  · rw [Finset.union_empty]
    apply hrest.imp_right
    rintro rfl k hk
    exact absurd hk List.not_mem_nil

/-- A worker with nothing banked is passed over. -/
theorem Passed.skip (h : Passed n order c pulled r P)
    (hzero : ∀ w, c.allocatedWorkers.find? k = some w → w.notifyCount = 0) :
    Passed n (k :: order) c pulled r P := by
  refine ⟨h.pulls, h.pulled_eq, fun q hq => List.mem_cons_of_mem _ (h.mem_order q hq),
    h.card_le, ?_⟩
  apply h.rest.imp_right
  intro hrest q hq hqP
  rcases List.mem_cons.1 hq with rfl | hq
  · exact hzero
  · exact hrest q hq hqP

/-- A worker with something banked is counted. -/
theorem Passed.count {c' : DriverContext α μ} (h : Passed n order c' (insert k pulled) r P)
    (hone : Pulls c c' {k}) (hk : k ∉ order) : Passed n (k :: order) c pulled r ({k} ∪ P) := by
  have hdis : Disjoint {k} P := Finset.disjoint_singleton_left.2 fun h' => hk (h.mem_order k h')
  have hunion : pulled ∪ ({k} ∪ P) = insert k pulled ∪ P := by
    rw [← Finset.union_assoc, Finset.union_comm pulled, ← Finset.insert_eq]
  refine ⟨hone.trans h.pulls hdis, by rw [hunion, h.pulled_eq], fun q hq => ?_,
    by rw [hunion]; exact h.card_le, ?_⟩
  · rcases Finset.mem_union.1 hq with hq | hq
    · exact List.mem_cons.2 (Or.inl (Finset.mem_singleton.1 hq))
    · exact List.mem_cons_of_mem _ (h.mem_order q hq)
  · rw [hunion]
    apply h.rest.imp_right
    intro hrest q hq hqP v hv
    rw [Finset.mem_union, not_or] at hqP
    have hqk : q ≠ k := fun h' => hqP.1 (Finset.mem_singleton.2 h')
    apply hrest q ((List.mem_cons.1 hq).resolve_left hqk) hqP.2 v
    rwa [hone.find?_of_notMem hqP.1]

end

theorem firstPass_spec (n : ℕ) (order : List ℕ) (c : DriverContext α μ) (pulled : Finset ℕ)
    (hid : ∀ k w, c.allocatedWorkers.find? k = some w → w.id = k) (hnodup : order.Nodup)
    (hd : ∀ k ∈ order, k ∉ pulled) (hn : pulled.card ≤ n) :
    ∃ P, Passed n order c pulled (c.firstPass n order pulled) P := by
  induction order generalizing c pulled with
  | nil => exact ⟨∅, passed_empty hn (Or.inr rfl)⟩
  | cons k order ih =>
    obtain ⟨hk, hnodup'⟩ := List.nodup_cons.1 hnodup
    have hd' : ∀ q ∈ order, q ∉ pulled := fun q hq => hd q (List.mem_cons_of_mem _ hq)
    unfold firstPass
    by_cases hfull : pulled.card = n
    · rw [if_pos hfull]
      exact ⟨∅, passed_empty hn (Or.inl hfull)⟩
    · rw [if_neg hfull]
      cases hw : c.allocatedWorkers.find? k with
      | none =>
        obtain ⟨P, hP⟩ := ih c pulled hid hnodup' hd' hn
        exact ⟨P, hP.skip fun w h => absurd (hw.symm.trans h) nofun⟩
      | some w =>
        dsimp only
        split_ifs with hpos
        · obtain rfl : w.id = k := hid k w hw
          have hone := pulls_singleton hw hpos
          have hdis : ∀ q ∈ order, q ∉ insert w.id pulled := fun q hq hmem => by
            rcases Finset.mem_insert.1 hmem with rfl | hmem
            · exact hk hq
            · exact hd' q hq hmem
          have hcard : (insert w.id pulled).card ≤ n := by
            rw [Finset.card_insert_of_notMem (hd _ (List.mem_cons_self ..))]
            omega
          obtain ⟨P, hP⟩ := ih _ _ (hone.id_eq hid) hnodup' hdis hcard
          exact ⟨{w.id} ∪ P, hP.count hone hk⟩
        · obtain ⟨P, hP⟩ := ih c pulled hid hnodup' hd' hn
          refine ⟨P, hP.skip fun v h => ?_⟩
          obtain rfl : w = v := Option.some.inj (hw.symm.trans h)
          omega

/-- After a message of worker `id` the loop counts that worker if it can. -/
theorem pullEvent_spec {id : ℕ} (pulled : Finset ℕ) {w : WorkerHandle α}
    (hid : ∀ k w, c.allocatedWorkers.find? k = some w → w.id = k) (hne : id ≠ noWorker)
    (hw : c.allocatedWorkers.find? id = some w) :
    ∃ c' P, c.pullEvent id pulled = some (c', pulled ∪ P) ∧ Pulls c c' P ∧ Disjoint pulled P ∧
      (∀ k ∈ P, k = id) ∧ (id ∉ pulled ∪ P → w.notifyCount = 0) := by
  obtain rfl : w.id = id := hid id w hw
  simp only [pullEvent, if_neg hne, hw]
  by_cases h : 0 < w.notifyCount ∧ w.id ∉ pulled
  · rw [if_pos h]
    refine ⟨_, {w.id}, by rw [Finset.insert_eq, Finset.union_comm], pulls_singleton hw h.1,
      Finset.disjoint_singleton_right.2 h.2, fun k hk => Finset.mem_singleton.1 hk, fun hn => ?_⟩
    exact absurd (Finset.mem_union_right _ (Finset.mem_singleton_self _)) hn
  · rw [if_neg h]
    refine ⟨c, ∅, by rw [Finset.union_empty], Pulls.refl c, Finset.disjoint_empty_right _,
      fun k hk => absurd hk (Finset.notMem_empty k), fun hn => ?_⟩
    rw [Finset.union_empty] at hn
    by_contra hpos
    exact h ⟨Nat.pos_of_ne_zero hpos, hn⟩

theorem mem_keys_waitForEvent (c : DriverContext α μ) (f : Frame μ) (k : ℕ) :
    k ∈ (c.waitForEvent f).1.allocatedWorkers.keys ↔ k ∈ c.allocatedWorkers.keys := by
  cases f with
  | notify id =>
    simp only [waitForEvent]
    cases h : c.allocatedWorkers.find? id with
    | none => exact Iff.rfl
    | some w => exact SortedMap.mem_keys_set_of_mem (SortedMap.mem_keys_of_find? h)
  | userMessage id m => exact Iff.rfl
  | other id => exact Iff.rfl

/-- A message changes the handle of its sender only. -/
theorem find?_waitForEvent_of_ne (c : DriverContext α μ) {f : Frame μ} {k : ℕ} (h : k ≠ f.id) :
    (c.waitForEvent f).1.allocatedWorkers.find? k = c.allocatedWorkers.find? k := by
  cases f with
  | notify id =>
    simp only [waitForEvent]
    cases hw : c.allocatedWorkers.find? id with
    | none => rfl
    | some w => exact SortedMap.find?_set_of_ne h
  | userMessage id m => rfl
  | other id => rfl

/-- A NOTIFY is banked for its sender. -/
theorem find?_waitForEvent_self (c : DriverContext α μ) (f : Frame μ) :
    (c.waitForEvent f).1.allocatedWorkers.find? f.id =
      (c.allocatedWorkers.find? f.id).map fun w => if f.isNotify f.id then w.increment else w := by
  cases f with
  | notify id =>
    simp only [waitForEvent, Frame.id, Frame.isNotify_notify, decide_true, if_true]
    cases h : c.allocatedWorkers.find? id with
    | none => exact h
    | some w => exact SortedMap.find?_set_self
  | userMessage id m => exact Option.map_id'.symm
  | other id => exact Option.map_id'.symm

theorem id_eq_waitForEvent (h : ∀ k w, c.allocatedWorkers.find? k = some w → w.id = k) (f : Frame μ)
    (k : ℕ) (w : WorkerHandle α) (hk : (c.waitForEvent f).1.allocatedWorkers.find? k = some w) :
    w.id = k := by
  by_cases hid : k = f.id
  · subst hid
    rw [find?_waitForEvent_self] at hk
    obtain ⟨v, hv, rfl⟩ := Option.map_eq_some_iff.1 hk
    split_ifs <;> exact h _ v hv
  · rw [find?_waitForEvent_of_ne c hid] at hk
    exact h k w hk

theorem waitForEvent_id (c : DriverContext α μ) {f : Frame μ}
    (h : f.id ∈ c.allocatedWorkers.keys) : (c.waitForEvent f).2 = f.id := by
  cases f with
  | notify id =>
    obtain ⟨w, hw⟩ := SortedMap.mem_keys.1 h
    simp only [waitForEvent, Frame.id] at hw ⊢
    rw [hw]
  | userMessage id m => rfl
  | other id => rfl

/-- What the second loop of `wait` has done after the message `f` of an allocated worker: it has
counted at most the sender, and nothing is banked for the workers that are not counted. -/
structure PulledAfter (c : DriverContext α μ) (f : Frame μ) (pulled : Finset ℕ)
    (c' : DriverContext α μ) (P : Finset ℕ) : Prop where
  pulls : Pulls (c.waitForEvent f).1 c' P
  disjoint : Disjoint pulled P
  eq_id : ∀ k ∈ P, k = f.id
  zero : ∀ k w, c'.allocatedWorkers.find? k = some w → k ∉ pulled ∪ P → w.notifyCount = 0

theorem PulledAfter.card_le {f : Frame μ} {pulled : Finset ℕ} (h : PulledAfter c f pulled c' P)
    {n : ℕ} (hlt : pulled.card < n) : (pulled ∪ P).card ≤ n := by
  have hP : P.card ≤ 1 := Finset.card_le_one.2 fun a ha b hb => by
    rw [h.eq_id a ha, h.eq_id b hb]
  have hunion := Finset.card_union_le pulled P
  omega

theorem exists_pulledAfter (hid : ∀ k w, c.allocatedWorkers.find? k = some w → w.id = k)
    {f : Frame μ} (hmem : f.id ∈ c.allocatedWorkers.keys) (hne : f.id ≠ noWorker)
    {pulled : Finset ℕ}
    (hzero : ∀ k w, c.allocatedWorkers.find? k = some w → k ∉ pulled → w.notifyCount = 0) :
    ∃ c' P, (c.waitForEvent f).1.pullEvent (c.waitForEvent f).2 pulled = some (c', pulled ∪ P) ∧
      PulledAfter c f pulled c' P := by
  obtain ⟨v, hv⟩ := SortedMap.mem_keys.1 ((mem_keys_waitForEvent c f f.id).2 hmem)
  obtain ⟨c', P, hpull, hP, hd, hone, hsender⟩ :=
    pullEvent_spec pulled (id_eq_waitForEvent hid f) hne hv
  rw [waitForEvent_id c hmem]
  refine ⟨c', P, hpull, hP, hd, hone, fun k w hk hkP => ?_⟩
  rw [hP.find?_of_notMem fun h => hkP (Finset.mem_union_right _ h)] at hk
  by_cases hkid : k = f.id
  · subst hkid
    obtain rfl : v = w := Option.some.inj (hv.symm.trans hk)
    exact hsender hkP
  · rw [find?_waitForEvent_of_ne c hkid] at hk
    exact hzero k w hk fun h => hkP (Finset.mem_union_left _ h)

end DriverContext

/-! ## The history of a driver's test -/

section History

variable {c c' : DriverContext α μ} {frames : List (Frame μ)} {waits : List CompletedWait}
  {pulled P : Finset ℕ} {keys : List ℕ}

/-- The handles are found under their ids and their counts are machine words. -/
structure HandlesFit (c : DriverContext α μ) : Prop where
  id_eq : ∀ k w, c.allocatedWorkers.find? k = some w → w.id = k
  lt : ∀ k w, c.allocatedWorkers.find? k = some w → w.notifyCount < 2 ^ 32

theorem WorkerHandle.decrement_notifyCount {w : WorkerHandle α} (h : 0 < w.notifyCount)
    (hlt : w.notifyCount < 2 ^ 32) : w.decrement.notifyCount + 1 = w.notifyCount := by
  show (2 ^ 32 - 1 + w.notifyCount) % 2 ^ 32 + 1 = w.notifyCount
  omega

theorem HandlesFit.pulls (h : HandlesFit c) (hP : c.Pulls c' P) : HandlesFit c' := by
  refine ⟨hP.id_eq h.id_eq, fun k w hk => ?_⟩
  rw [hP.find?] at hk
  obtain ⟨v, hv, rfl⟩ := Option.map_eq_some_iff.1 hk
  have hv' := h.lt k v hv
  split_ifs with hkP
  · obtain ⟨u, hu, hpos⟩ := hP.pos k hkP
    obtain rfl : u = v := Option.some.inj (hu ▸ hv)
    have := WorkerHandle.decrement_notifyCount hpos hv'
    omega
  · exact hv'

theorem HandlesFit.waitForEvent (h : HandlesFit c) (f : Frame μ) :
    HandlesFit (c.waitForEvent f).1 := by
  refine ⟨DriverContext.id_eq_waitForEvent h.id_eq f, fun k v hk => ?_⟩
  by_cases hid : k = f.id
  · subst hid
    rw [DriverContext.find?_waitForEvent_self] at hk
    obtain ⟨w, hw, rfl⟩ := Option.map_eq_some_iff.1 hk
    split_ifs
    · exact Nat.mod_lt _ (Nat.two_pow_pos 32)
    · exact h.lt _ w hw
  · rw [DriverContext.find?_waitForEvent_of_ne c hid] at hk
    exact h.lt k v hk

theorem CountsAgree.pulls (h : CountsAgree c frames waits pulled) (hc : HandlesFit c)
    (hP : c.Pulls c' P) (hd : Disjoint pulled P) : CountsAgree c' frames waits (pulled ∪ P) := by
  intro k w hk
  rw [hP.find?] at hk
  obtain ⟨v, hv, rfl⟩ := Option.map_eq_some_iff.1 hk
  have hcount := h k v hv
  by_cases hkP : k ∈ P
  · obtain ⟨u, hu, hpos⟩ := hP.pos k hkP
    obtain rfl : u = v := Option.some.inj (hu ▸ hv)
    have hdec := WorkerHandle.decrement_notifyCount hpos (hc.lt k u hv)
    rw [if_neg (Finset.disjoint_right.1 hd hkP)] at hcount
    rw [if_pos hkP, if_pos (Finset.mem_union_right _ hkP)]
    omega
  · rw [if_neg hkP]
    simpa [hkP] using hcount

theorem notifiesFrom_append (k : ℕ) (frames : List (Frame μ)) (f : Frame μ) :
    notifiesFrom k (frames ++ [f]) = notifiesFrom k frames + if f.isNotify k then 1 else 0 := by
  simp [notifiesFrom, List.countP_append, List.countP_singleton]

theorem waitsCounting_append (k : ℕ) (waits : List CompletedWait) (r : CompletedWait) :
    waitsCounting k (waits ++ [r]) = waitsCounting k waits + if k ∈ r.pulled then 1 else 0 := by
  simp [waitsCounting, List.countP_append, List.countP_singleton]

/-- A notification processed is banked, unless the count of its worker is full. -/
theorem CountsAgree.waitForEvent (h : CountsAgree c frames waits pulled) (f : Frame μ)
    (hfit : ∀ id, f = .notify id → ∀ w, c.allocatedWorkers.find? id = some w →
      w.notifyCount + 1 < 2 ^ 32) :
    CountsAgree (c.waitForEvent f).1 (frames ++ [f]) waits pulled := by
  intro k w hk
  rw [notifiesFrom_append]
  cases f with
  | notify id =>
    simp only [DriverContext.waitForEvent] at hk
    by_cases hid : id = k
    · subst hid
      cases hw : c.allocatedWorkers.find? id with
      | none => simp [hw] at hk
      | some v =>
        rw [hw] at hk
        obtain rfl := Option.some.inj (SortedMap.find?_set_self.symm.trans hk)
        have hcount := h id v hw
        have hmod : v.increment.notifyCount = v.notifyCount + 1 :=
          Nat.mod_eq_of_lt (hfit id rfl v hw)
        rw [hmod, Frame.isNotify_notify, if_pos (decide_eq_true rfl)]
        omega
    · have hk' : c.allocatedWorkers.find? k = some w := by
        cases hw : c.allocatedWorkers.find? id with
        | none => rwa [hw] at hk
        | some v =>
          rw [hw] at hk
          rwa [SortedMap.find?_set_of_ne (Ne.symm hid)] at hk
      rw [Frame.isNotify_notify, decide_eq_false hid]
      exact h k w hk'
  | userMessage id m => exact h k w hk
  | other id => exact h k w hk

/-- What a wait has counted becomes part of the history when it returns. -/
theorem CountsAgree.complete (h : CountsAgree c frames waits pulled) (n start finish : ℕ) :
    CountsAgree c frames (waits ++ [⟨n, pulled, start, finish⟩]) ∅ := by
  intro k w hk
  rw [waitsCounting_append, if_neg (Finset.notMem_empty k)]
  exact h k w hk

theorem CountsAgree.subset_outstanding (h : CountsAgree c frames waits pulled)
    (hkeys : ∀ k, k ∈ c.allocatedWorkers.keys ↔ k ∈ keys)
    (hp : ∀ k ∈ pulled, k ∈ keys) : pulled ⊆ outstanding keys frames waits := by
  intro k hk
  obtain ⟨w, hw⟩ := SortedMap.mem_keys.1 ((hkeys k).2 (hp k hk))
  have hcount := h k w hw
  rw [if_pos hk] at hcount
  refine Finset.mem_filter.2 ⟨List.mem_toFinset.2 (hp k hk), ?_⟩
  omega

/-- Where nothing is banked, a worker with a notification outstanding is one just counted. -/
theorem CountsAgree.outstanding_subset (h : CountsAgree c frames waits pulled)
    (hkeys : ∀ k, k ∈ c.allocatedWorkers.keys ↔ k ∈ keys)
    (hz : ∀ k w, c.allocatedWorkers.find? k = some w → k ∉ pulled → w.notifyCount = 0) :
    outstanding keys frames waits ⊆ pulled := by
  intro k hk
  obtain ⟨hmem, hlt⟩ := Finset.mem_filter.1 hk
  obtain ⟨w, hw⟩ := SortedMap.mem_keys.1 ((hkeys k).2 (List.mem_toFinset.1 hmem))
  by_contra hnot
  have hcount := h k w hw
  rw [hz k w hw hnot, if_neg hnot] at hcount
  omega

theorem NotBefore.append {n start finish : ℕ} (h : NotBefore keys frames waits n start finish)
    (f : Frame μ) (hle : finish ≤ frames.length + 1) :
    NotBefore keys (frames ++ [f]) waits n start finish := by
  intro p hp hlt
  rw [List.take_append_of_le_length (by omega)]
  exact h p hp hlt

theorem CompletedWait.Correct.append {r : CompletedWait} (h : r.Correct keys frames waits)
    (f : Frame μ) : r.Correct keys (frames ++ [f]) waits := by
  refine ⟨h.card, h.start_le, ?_, ?_, h.earliest.append f (Nat.le_add_right_of_le h.finish_le)⟩
  · rw [List.length_append]
    exact Nat.le_add_right_of_le h.finish_le
  · rw [List.take_append_of_le_length h.finish_le]
    exact h.outstanding

end History

namespace WaitRun

variable {c : DriverContext α μ} {s : WaitRun α μ}

/-- What holds of a test whatever it is doing; `ctx` is its context, perhaps already ahead of the
state. -/
structure Base (c : DriverContext α μ) (s : WaitRun α μ) (ctx : DriverContext α μ) : Prop where
  wf : HandlesFit ctx
  keys : ∀ k, k ∈ ctx.allocatedWorkers.keys ↔ k ∈ c.allocatedWorkers.keys
  lt : ∀ k ∈ c.allocatedWorkers.keys, k < noWorker
  completed : ∀ i (r : CompletedWait), s.completed[i]? = some r →
    r.Correct c.allocatedWorkers.keys s.processed (s.completed.take i)
  messages : s.received ++ ctx.userMessages = c.userMessages ++ s.processed.filterMap (·.message?)

/-- A wait that has tested its condition and goes on: it has counted every worker it could. -/
structure Waits (c : DriverContext α μ) (s : WaitRun α μ) (n : ℕ) (pulled : Finset ℕ) (start : ℕ) :
    Prop where
  card_lt : pulled.card < n
  subset : ∀ k ∈ pulled, k ∈ c.allocatedWorkers.keys
  start_le : start ≤ s.processed.length
  zero : ∀ k w, s.ctx.allocatedWorkers.find? k = some w → k ∉ pulled → w.notifyCount = 0
  notBefore : NotBefore c.allocatedWorkers.keys s.processed s.completed n start
    (s.processed.length + 1)

/-- The invariant of a driver's test. -/
structure Inv (c : DriverContext α μ) (s : WaitRun α μ) : Prop where
  base : Base c s s.ctx
  alive : s.call ≠ .crashed
  accounts : CountsAgree s.ctx s.processed s.completed s.call.pulled
  waits : ∀ n pulled start, s.call = .waiting n pulled start → s.Waits c n pulled start

theorem Inv.correct (h : Inv c s) : s.Correct c :=
  ⟨h.alive, h.base.keys, h.accounts, h.base.completed,
    fun n pulled start hcall => (h.waits n pulled start hcall).notBefore, h.base.messages⟩

/-- The condition of the loop of `wait` keeps the invariant: the wait returns where `n` workers are
counted, and where they are not, nothing more can be counted. -/
theorem inv_testPulled {n start : ℕ} {ctx : DriverContext α μ} {pulled : Finset ℕ}
    (hb : Base c s ctx) (hacc : CountsAgree ctx s.processed s.completed pulled)
    (hsub : ∀ k ∈ pulled, k ∈ c.allocatedWorkers.keys) (hcard : pulled.card ≤ n)
    (hstart : start ≤ s.processed.length)
    (hnot : NotBefore c.allocatedWorkers.keys s.processed s.completed n start s.processed.length)
    (hrest : pulled.card = n ∨ ∀ k w, ctx.allocatedWorkers.find? k = some w → k ∉ pulled →
      w.notifyCount = 0) : Inv c (s.testPulled n start (ctx, pulled)) := by
  unfold testPulled
  by_cases h : pulled.card = n
  · rw [if_pos h]
    refine ⟨⟨hb.wf, hb.keys, hb.lt, fun i r hr => ?_, hb.messages⟩, nofun,
      hacc.complete _ _ _, nofun⟩
    by_cases hi : i < s.completed.length
    · rw [List.getElem?_append_left hi] at hr
      show r.Correct _ _ ((s.completed ++ _).take i)
      rw [List.take_append_of_le_length hi.le]
      exact hb.completed i r hr
    · have hi' : i = s.completed.length := by
        have := (List.getElem?_eq_some_iff.1 hr).1
        rw [List.length_append, List.length_singleton] at this
        omega
      subst hi'
      rw [List.getElem?_append_right le_rfl, Nat.sub_self] at hr
      obtain rfl := Option.some.inj hr
      show CompletedWait.Correct _ _ ((s.completed ++ _).take _) _
      rw [List.take_left]
      refine ⟨h, hstart, le_rfl, ?_, hnot⟩
      rw [List.take_length]
      exact hacc.subset_outstanding hb.keys hsub
  · rw [if_neg h]
    have hz := hrest.resolve_left h
    have hlt : pulled.card < n := lt_of_le_of_ne hcard h
    refine ⟨⟨hb.wf, hb.keys, hb.lt, hb.completed, hb.messages⟩, nofun, hacc, ?_⟩
    rintro _ _ _ ⟨⟩
    refine ⟨hlt, hsub, hstart, hz, fun p hp hple => ?_⟩
    rcases (Nat.lt_succ_iff.1 hple).lt_or_eq with hp' | rfl
    · exact hnot p hp hp'
    · show (outstanding _ (s.processed.take s.processed.length) s.completed).card < n
      rw [List.take_length]
      exact (Finset.card_le_card (hacc.outstanding_subset hb.keys hz)).trans_lt hlt

theorem inv_testMessages (hb : Base c s s.ctx)
    (hacc : CountsAgree s.ctx s.processed s.completed ∅) :
    Inv c s.testMessages := by
  unfold testMessages
  cases hm : s.ctx.userMessages with
  | nil => exact ⟨⟨hb.wf, hb.keys, hb.lt, hb.completed, hb.messages⟩, nofun, hacc, nofun⟩
  | cons m ms =>
    refine ⟨⟨⟨hb.wf.id_eq, hb.wf.lt⟩, hb.keys, hb.lt, hb.completed, ?_⟩, nofun, hacc, nofun⟩
    have h := hb.messages
    rw [hm] at h
    show (s.received ++ [m]) ++ ms = _
    rw [List.append_assoc]
    exact h

/-- Processing a message keeps what holds of the state. -/
theorem Base.waitForEvent (hb : Base c s s.ctx) (f : Frame μ) :
    Base c { s with ctx := (s.ctx.waitForEvent f).1, processed := s.processed ++ [f] }
      (s.ctx.waitForEvent f).1 := by
  refine ⟨hb.wf.waitForEvent f, fun k => ?_, hb.lt, fun i r hr => ?_, ?_⟩
  · rw [DriverContext.mem_keys_waitForEvent]
    exact hb.keys k
  · exact (hb.completed i r hr).append f
  · have h := hb.messages
    rw [List.filterMap_append, ← List.append_assoc, ← h, List.append_assoc]
    congr 1
    cases f with
    | notify id =>
      simp only [DriverContext.waitForEvent]
      cases s.ctx.allocatedWorkers.find? id <;> simp [Frame.message?]
    | userMessage id m => simp [DriverContext.waitForEvent, Frame.message?]
    | other id => simp [DriverContext.waitForEvent, Frame.message?]

theorem Inv.wait (h : Inv c s) (hidle : s.call = .idle) {order : List ℕ}
    (horder : s.ctx.allocatedWorkers.Iterates order) (n : ℕ) :
    Inv c (s.step (.wait n order)) := by
  have hacc := h.accounts
  rw [hidle] at hacc
  obtain ⟨P, hP⟩ := DriverContext.firstPass_spec (s.ctx.waitCount n) order s.ctx ∅
    h.base.wf.id_eq horder.1 (fun k _ => Finset.notMem_empty k) (Nat.zero_le _)
  show Inv c (s.testPulled _ _ (s.ctx.firstPass (s.ctx.waitCount n) order ∅))
  rw [← Prod.mk.eta (p := s.ctx.firstPass (s.ctx.waitCount n) order ∅), hP.pulled_eq]
  have hkeys : ∀ k, k ∈ (s.ctx.firstPass (s.ctx.waitCount n) order ∅).1.allocatedWorkers.keys ↔
      k ∈ c.allocatedWorkers.keys := fun k => (hP.pulls.mem_keys k).trans (h.base.keys k)
  refine inv_testPulled ⟨h.base.wf.pulls hP.pulls, hkeys, h.base.lt, h.base.completed, ?_⟩
    (hacc.pulls h.base.wf hP.pulls (Finset.disjoint_empty_left P))
      (fun k hk => ?_) hP.card_le le_rfl
    (fun p hp hlt => absurd hp hlt.not_ge) (hP.rest.imp_right fun hrest k w hk hkP => ?_)
  · rw [hP.pulls.userMessages]
    exact h.base.messages
  · rw [Finset.empty_union] at hk
    exact (h.base.keys k).1 (horder.mem_iff.1 (hP.mem_order k hk))
  · rw [Finset.empty_union] at hkP
    rw [hP.pulls.find?_of_notMem hkP] at hk
    exact hrest k (horder.mem_iff.2 (SortedMap.mem_keys_of_find? hk)) hkP w hk

theorem Inv.getUserMessage (h : Inv c s) (hidle : s.call = .idle) :
    Inv c (s.step .getUserMessage) := by
  have hacc := h.accounts
  rw [hidle] at hacc
  exact inv_testMessages h.base hacc

/-- A wait goes on after a message of an allocated worker. -/
theorem Inv.waitingFrame (h : Inv c s) {f : Frame μ} (hmem : f.id ∈ s.ctx.allocatedWorkers.keys)
    {n start : ℕ} {pulled : Finset ℕ} (hcall : s.call = .waiting n pulled start)
    (hacc : CountsAgree (s.ctx.waitForEvent f).1 (s.processed ++ [f]) s.completed pulled) :
    Inv c (s.step (.frame f)) := by
  have hb := h.base.waitForEvent f
  have hw := h.waits n pulled start hcall
  have hid := (h.base.keys f.id).1 hmem
  obtain ⟨ctx', P, hpull, hP⟩ := DriverContext.exists_pulledAfter h.base.wf.id_eq hmem
    (h.base.lt _ hid).ne hw.zero
  show Inv c (resume _ _)
  simp only [resume, hcall, hpull]
  refine inv_testPulled ⟨hb.wf.pulls hP.pulls,
    fun k => (hP.pulls.mem_keys k).trans (hb.keys k), hb.lt,
    hb.completed, ?_⟩ (hacc.pulls hb.wf hP.pulls hP.disjoint) (fun k hk => ?_)
    (hP.card_le hw.card_lt) ?_ ?_ (Or.inr hP.zero)
  · rw [hP.pulls.userMessages]
    exact hb.messages
  · rcases Finset.mem_union.1 hk with hk | hk
    · exact hw.subset k hk
    · rwa [hP.eq_id k hk]
  · show start ≤ (s.processed ++ [f]).length
    rw [List.length_append]
    exact Nat.le_add_right_of_le hw.start_le
  · show NotBefore _ (s.processed ++ [f]) _ _ _ (s.processed ++ [f]).length
    rw [List.length_append]
    exact hw.notBefore.append f le_rfl

theorem inv_step (s : WaitRun α μ) (e : WaitEvent μ) (h : Inv c s)
    (ha : (system.restrict CountFits).allowed s e) :
    Inv c ((system.restrict CountFits).step s e) := by
  obtain ⟨ha, hfit⟩ := ha
  cases e with
  | wait n order => exact h.wait ha.1 ha.2 n
  | getUserMessage => exact h.getUserMessage ha
  | frame f =>
    obtain ⟨hcall, hid⟩ := ha
    have hb := h.base.waitForEvent f
    have hacc := h.accounts.waitForEvent f fun id he => by
      subst he
      exact hfit
    cases hc : s.call with
    | idle => exact absurd hc hcall
    | crashed => exact absurd hc h.alive
    | getting =>
      rw [hc] at hacc
      show Inv c (resume _ _)
      simp only [resume, hc]
      exact inv_testMessages ⟨hb.wf, hb.keys, hb.lt, hb.completed, hb.messages⟩ hacc
    | waiting n pulled start =>
      rw [hc] at hacc
      exact h.waitingFrame hid hc hacc

theorem inv_initial (hc : c.Fresh) : Inv c { ctx := c } := by
  refine ⟨⟨⟨hc.id_eq, fun k w hk => ?_⟩, fun k => Iff.rfl, hc.lt, nofun, ?_⟩, nofun,
    fun k w hk => ?_, nofun⟩
  · rw [hc.count k w hk]
    exact Nat.two_pow_pos 32
  · simp
  · rw [hc.count k w hk]
    rfl

end WaitRun

/-- In every run in which no full count is incremented, the counts agree with the history, every
completed wait counted one notification of each of `n` workers at the first state in which `n`
workers had one outstanding, and the user messages come back in the order processed. -/
theorem wait_notify (c : DriverContext α μ) (hc : c.Fresh) (es : List (WaitEvent μ))
    (h : (WaitRun.system.restrict WaitRun.CountFits).Admissible { ctx := c } es) :
    (WaitRun.system.exec { ctx := c } es).Correct c :=
  (h.invariant WaitRun.inv_step (WaitRun.inv_initial hc)).correct

/-- A context with the workers 1 and 2 allocated. -/
def twoWorkers : DriverContext ℕ ℕ :=
  { allocatedWorkers := (SortedMap.empty.insert 1 (.ofId 1)).insert 2 (.ofId 2) }

/-- A notification read by `getUserMessage` is counted by the wait that follows. -/
theorem wait_notify_twoWorkers :
    let es : List (WaitEvent ℕ) := [.getUserMessage, .frame (.notify 1), .frame (.userMessage 2 7),
      .wait 2 [2, 1], .frame (.notify 2)]
    (WaitRun.system.exec { ctx := twoWorkers } es).Correct twoWorkers ∧
      (WaitRun.system.exec { ctx := twoWorkers } es).received = [7] ∧
      (WaitRun.system.exec { ctx := twoWorkers } es).completed.map (·.pulled) = [{1, 2}] := by
  refine ⟨wait_notify twoWorkers ?_ _ ?_, by decide +kernel, by decide +kernel⟩
  · have hentries : ∀ e ∈ twoWorkers.allocatedWorkers.entries,
        e.2.id = e.1 ∧ e.2.notifyCount = 0 := by decide
    exact ⟨fun k w h => (hentries _ (SortedMap.find?_eq_some_iff.1 h)).1, by decide,
      fun k w h => (hentries _ (SortedMap.find?_eq_some_iff.1 h)).2⟩
  · refine ⟨⟨rfl, trivial⟩, ⟨⟨nofun, by decide⟩, ?_⟩, ⟨⟨nofun, by decide⟩, trivial⟩,
      ⟨⟨rfl, by decide⟩, trivial⟩, ⟨⟨nofun, by decide⟩, ?_⟩, trivial⟩
    · rintro _ ⟨⟩
      decide
    · rintro _ ⟨⟩
      decide

/-- A context with the worker 1 allocated and `count` of its notifications banked. -/
def oneWorker (count : ℕ) : DriverContext ℕ ℕ :=
  { allocatedWorkers := SortedMap.empty.insert 1 { WorkerHandle.ofId 1 with notifyCount := count } }

/-- A `getUserMessage` that reads `m` notifications. -/
theorem exec_notifies (m : ℕ) :
    WaitRun.system.exec { ctx := oneWorker 0 }
        (.getUserMessage :: List.replicate m (.frame (.notify 1))) =
      { ctx := oneWorker (m % 2 ^ 32), call := .getting,
        processed := List.replicate m (.notify 1) } := by
  induction m with
  | zero => rfl
  | succ m ih =>
    rw [List.replicate_succ', ← List.cons_append, Guarded.exec_snoc, ih, List.replicate_succ',
      ← Nat.mod_add_mod]
    rfl

theorem admissible_notifies (m : ℕ) : WaitRun.system.Admissible { ctx := oneWorker 0 }
    (.getUserMessage :: List.replicate m (.frame (.notify 1))) := by
  induction m with
  | zero => exact ⟨rfl, trivial⟩
  | succ m ih =>
    rw [List.replicate_succ', ← List.cons_append, Guarded.admissible_snoc, exec_notifies]
    exact ⟨ih, nofun, List.mem_singleton_self 1⟩

/-- `2 ^ 32` notifications of one worker leave a count of 0. -/
theorem wait_notify_overflow :
    let es : List (WaitEvent ℕ) := .getUserMessage :: List.replicate (2 ^ 32) (.frame (.notify 1))
    WaitRun.system.Admissible { ctx := oneWorker 0 } es ∧
      ¬ (WaitRun.system.exec { ctx := oneWorker 0 } es).Correct (oneWorker 0) := by
  refine ⟨admissible_notifies _, fun h => ?_⟩
  rw [exec_notifies] at h
  have hcount := h.accounts 1 _ rfl
  have hall : notifiesFrom 1 (List.replicate (2 ^ 32) (.notify 1 : Frame ℕ)) = 2 ^ 32 := by
    unfold notifiesFrom
    rw [List.countP_replicate, if_pos (by decide)]
  rw [hall] at hcount
  exact absurd hcount (by decide)

end Dtest
