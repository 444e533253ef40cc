import Dtest.Exchange.Model
import Dtest.Lib.Persistent
import Mathlib.Data.List.Perm.Basic

/-!
# Nothing is lost between the driver and its workers

The invariant of the bodies of a distributed test ties the queues, the counts and the messages in
flight to what the parties have sent and taken so far.  `exchange_conserves`: in every interleaving,
every notification and every user message is in exactly one place, the messages to a worker are
taken in the order they were sent in, and the waits that returned are those of the driver's body.
-/

namespace Dtest

universe u v

variable {α : Type u} {μ : Type v}

theorem take_succ_of_getElem? {β : Type u} {l : List β} {n : ℕ} {a : β} (h : l[n]? = some a) :
    l.take (n + 1) = l.take n ++ [a] := by
  rw [List.take_add_one, h]
  rfl

/-! ## What has been sent -/

namespace Bodies

variable {t : Bodies α μ} {pc id : ℕ} {st : DriverStep μ} {call : BodyCall μ}

theorem toWorker_succ (h : t.steps[pc]? = some st) (id : ℕ) :
    t.toWorker id (pc + 1) = t.toWorker id pc ++ (st.item? id).toList := by
  unfold toWorker
  rw [take_succ_of_getElem? h, List.filterMap_append]
  cases hitem : st.item? id <;> simp [hitem]

theorem waits_succ (h : t.steps[pc]? = some st) :
    t.waits (pc + 1) = t.waits pc ++ (st.waitCount? t.ctx).toList := by
  unfold waits
  rw [take_succ_of_getElem? h, List.filterMap_append]
  cases hwait : st.waitCount? t.ctx <;> simp [hwait]

theorem fromWorker_succ (h : (t.workerBody id)[pc]? = some call) :
    t.fromWorker id (pc + 1) = t.fromWorker id pc ++ (call.frame? id).toList := by
  unfold fromWorker
  rw [take_succ_of_getElem? h, List.filterMap_append]
  cases hframe : call.frame? id <;> simp [hframe]

theorem taken_succ (h : (t.workerBody id)[pc]? = some call) :
    t.taken id (pc + 1) = t.taken id pc + call.taken := by
  unfold taken
  rw [take_succ_of_getElem? h, List.map_append, List.sum_append]
  simp

theorem frames_update_none (c : Option ℕ → ℕ) (p : ℕ) :
    t.frames (Function.update c none p) = t.frames c := by
  unfold frames
  simp

theorem exists_order_eq (hid : id ∈ t.order) :
    ∃ before after, t.order = before ++ id :: after ∧ id ∉ before ∧ id ∉ after := by
  obtain ⟨before, after, horder⟩ := List.append_of_mem hid
  have hnodup := t.iterates.1
  rw [horder, List.nodup_middle, List.nodup_cons, List.mem_append, not_or] at hnodup
  exact ⟨before, after, horder, hnodup.1⟩

/-- A call of a worker adds what it sends to the messages to the driver. -/
theorem frames_advance {c : Option ℕ → ℕ} (hid : id ∈ t.order)
    (h : (t.workerBody id)[c (some id)]? = some call) :
    (t.frames (Function.update c (some id) (c (some id) + 1))).Perm
      (t.frames c ++ (call.frame? id).toList) := by
  obtain ⟨before, after, horder, hbefore, hafter⟩ := t.exists_order_eq hid
  have hother : ∀ ids : List ℕ, id ∉ ids →
      (ids.flatMap fun id' => t.fromWorker id'
        (Function.update c (some id) (c (some id) + 1) (some id'))) =
      ids.flatMap fun id' => t.fromWorker id' (c (some id')) := by
    intro ids hids
    rw [List.flatMap_def, List.flatMap_def]
    congr 1
    refine List.map_congr_left fun id' hid' => ?_
    have hne : id' ≠ id := fun heq => hids (heq ▸ hid')
    simp [hne]
  unfold frames
  rw [horder, List.flatMap_append, List.flatMap_cons, List.flatMap_append, List.flatMap_cons,
    hother before hbefore, hother after hafter, Function.update_self, fromWorker_succ h]
  simp only [List.append_assoc]
  exact (List.perm_append_comm.append_left _).append_left _

theorem id_of_mem_frames {c : Option ℕ → ℕ} {f : Frame μ} (h : f ∈ t.frames c) :
    f.id ∈ t.order := by
  obtain ⟨id, hid, hf⟩ := List.mem_flatMap.1 h
  obtain ⟨call, -, hcall⟩ := List.mem_filterMap.1 hf
  have : f.id = id := by
    cases call with
    | notify | sendUserMessage =>
      obtain rfl := Option.some.inj hcall
      rfl
    | wait | getUserMessage => cases hcall
  rwa [this]

/-- The notifications of a worker are those it has sent. -/
theorem notifiesFrom_fromWorker_of_ne {id id' : ℕ} (h : id' ≠ id) (pc : ℕ) :
    notifiesFrom id (t.fromWorker id' pc) = 0 := by
  refine List.countP_eq_zero.2 fun f hf => ?_
  obtain ⟨call, -, hcall⟩ := List.mem_filterMap.1 hf
  cases call with
  | notify =>
    obtain rfl := Option.some.inj hcall
    simpa using h
  | sendUserMessage =>
    obtain rfl := Option.some.inj hcall
    exact Bool.false_ne_true
  | wait | getUserMessage => cases hcall

theorem notifiesFrom_frames (hid : id ∈ t.order) (c : Option ℕ → ℕ) :
    notifiesFrom id (t.frames c) = notifiesFrom id (t.fromWorker id (c (some id))) := by
  obtain ⟨before, after, horder, hbefore, hafter⟩ := t.exists_order_eq hid
  have hother : ∀ ids : List ℕ, id ∉ ids →
      notifiesFrom id (ids.flatMap fun id' => t.fromWorker id' (c (some id'))) = 0 := by
    intro ids hids
    refine List.countP_eq_zero.2 fun f hf => ?_
    obtain ⟨id', hid', hf'⟩ := List.mem_flatMap.1 hf
    have hne : id' ≠ id := fun heq => hids (heq ▸ hid')
    exact List.countP_eq_zero.1 (t.notifiesFrom_fromWorker_of_ne hne _) f hf'
  unfold frames notifiesFrom
  rw [horder, List.flatMap_append, List.flatMap_cons, List.countP_append, List.countP_append]
  have hnone := hother before hbefore
  have hnone' := hother after hafter
  unfold notifiesFrom at hnone hnone'
  rw [hnone, hnone', Nat.zero_add, Nat.add_zero]

end Bodies

/-! ## The driver's calls -/

namespace WaitRun

variable {c : DriverContext α μ} {s d : WaitRun α μ}

/-- `d` is `s` with the call of a step returned or waiting for another message. -/
inductive Goes (c : DriverContext α μ) (s : WaitRun α μ) : DriverStep μ → WaitRun α μ → Prop
  | waitReturns {m : ℕ} {d : WaitRun α μ} (call : d.call = .idle)
      (completed : d.completed.map (·.n) = s.completed.map (·.n) ++ [c.waitCount m])
      (received : d.received = s.received) : Goes c s (.wait m) d
  | waitBlocks {m start : ℕ} {pulled : Finset ℕ} {d : WaitRun α μ}
      (call : d.call = .waiting (c.waitCount m) pulled start)
      (completed : d.completed = s.completed) (received : d.received = s.received) :
      Goes c s (.wait m) d
  | getReturns {d : WaitRun α μ} (call : d.call = .idle) (completed : d.completed = s.completed)
      (received : d.received.length = s.received.length + 1) : Goes c s .getUserMessage d
  | getBlocks {d : WaitRun α μ} (call : d.call = .getting) (completed : d.completed = s.completed)
      (received : d.received = s.received) (empty : d.ctx.userMessages = []) :
      Goes c s .getUserMessage d

theorem goes_testPulled {s' : WaitRun α μ} (hcompleted : s'.completed = s.completed)
    (hreceived : s'.received = s.received) (m start : ℕ) (r : DriverContext α μ × Finset ℕ) :
    Goes c s (.wait m) (s'.testPulled (c.waitCount m) start r) := by
  unfold testPulled
  by_cases h : r.2.card = c.waitCount m
  · rw [if_pos h]
    refine .waitReturns rfl ?_ hreceived
    show (s'.completed ++ _).map _ = _
    rw [hcompleted, List.map_append]
    rfl
  · rw [if_neg h]
    exact .waitBlocks rfl hcompleted hreceived

theorem goes_testMessages {s' : WaitRun α μ} (hcompleted : s'.completed = s.completed)
    (hreceived : s'.received = s.received) : Goes c s .getUserMessage s'.testMessages := by
  unfold testMessages
  cases hqueue : s'.ctx.userMessages with
  | nil => exact .getBlocks rfl hcompleted hreceived hqueue
  | cons m ms =>
    refine .getReturns rfl hcompleted ?_
    show (s'.received ++ [m]).length = _
    rw [hreceived]
    exact List.length_append

@[simp] theorem testPulled_processed (n start : ℕ) (r : DriverContext α μ × Finset ℕ) :
    (s.testPulled n start r).processed = s.processed := by
  unfold testPulled
  split_ifs <;> rfl

@[simp] theorem testMessages_processed : s.testMessages.processed = s.processed := by
  unfold testMessages
  cases s.ctx.userMessages <;> rfl

@[simp] theorem resume_processed (id : ℕ) : (s.resume id).processed = s.processed := by
  unfold resume
  cases s.call with
  | waiting n pulled start =>
    dsimp only
    cases s.ctx.pullEvent id pulled with
    | none => rfl
    | some r => exact testPulled_processed n start r
  | getting => exact testMessages_processed
  | idle | crashed => rfl

/-- The driver is in the call of a step. -/
inductive InCall (c : DriverContext α μ) : DriverStep μ → DriverCall → Prop
  | wait (m start : ℕ) (pulled : Finset ℕ) :
      InCall c (.wait m) (.waiting (c.waitCount m) pulled start)
  | getUserMessage : InCall c .getUserMessage .getting

/-- A call goes on after a message. -/
theorem goes_frame {st : DriverStep μ} (hcall : InCall c st s.call) {f : Frame μ}
    (hd : Inv c (s.step (.frame f))) : Goes c s st (s.step (.frame f)) := by
  have halive := hd.alive
  generalize hs : s.call = call at hcall
  cases hcall with
  | wait m start pulled =>
    change (resume _ _).call ≠ .crashed at halive
    show Goes c s _ (resume _ _)
    simp only [resume, hs] at halive ⊢
    cases hpull : (s.ctx.waitForEvent f).1.pullEvent (s.ctx.waitForEvent f).2 pulled with
    | none =>
      rw [hpull] at halive
      exact absurd rfl halive
    | some r =>
      dsimp only
      refine goes_testPulled ?_ ?_ m start r <;> rfl
  | getUserMessage =>
    show Goes c s _ (resume _ _)
    simp only [resume, hs]
    exact goes_testMessages rfl rfl

theorem Inv.goes_wait (h : Inv c s) (m : ℕ) (order : List ℕ) :
    Goes c s (.wait m) (s.step (.wait m order)) := by
  have hcount : s.ctx.waitCount m = c.waitCount m := by
    unfold DriverContext.waitCount
    rw [SortedMap.size_congr h.base.keys]
  show Goes c s _ (s.testPulled _ _ _)
  rw [hcount]
  exact goes_testPulled rfl rfl m _ _

end WaitRun

/-! ## The invariant -/

/-- Everything sent to a worker, and left to it from before, has been taken or is still there. -/
structure WorkerSide.Conserved (t : Bodies α μ) (id pc : ℕ) (w : WorkerSide μ) : Prop where
  notified : t.notifyCount id + notifications (t.toWorker id pc) =
    t.taken id w.pc + w.notifyCount + notifications w.unread
  messages : t.userMessages id ++ (t.toWorker id pc).filterMap WorkerItem.message? =
    w.received ++ w.userMessages ++ w.unread.filterMap WorkerItem.message?
  received : w.received.length = ((t.workerBody id).take w.pc).countP BodyCall.gets

/-- Everything sent in a test has been taken or is still there: what the workers have sent is
processed or in flight, what is processed is accounted for as `WaitRun.Correct` says, and the waits
and the user messages that the driver has taken are those of its body. -/
structure Exchange.Conserved (t : Bodies α μ) (s : Exchange α μ) : Prop where
  frames : (s.driver.processed ++ s.inFlight).Perm (t.frames s.progress)
  driver : s.driver.Correct t.ctx
  waits : s.driver.completed.map (·.n) = t.waits s.pc
  received : s.driver.received.length = (t.steps.take s.pc).countP DriverStep.gets
  workers : ∀ id ∈ t.order, (s.workers id).Conserved t id s.pc

/-- The invariant of a test. -/
structure Exchange.Inv (t : Bodies α μ) (s : Exchange α μ) : Prop where
  frames : (s.driver.processed ++ s.inFlight).Perm (t.frames s.progress)
  driver : s.driver.Inv t.ctx
  waits : s.driver.completed.map (·.n) = t.waits s.pc
  received : s.driver.received.length = (t.steps.take s.pc).countP DriverStep.gets
  workers : ∀ id ∈ t.order, (s.workers id).Conserved t id s.pc
  inCall : s.driver.call.reads → ∃ st, t.steps[s.pc]? = some st ∧
    WaitRun.InCall t.ctx st s.driver.call
  getting : s.driver.call = .getting → s.driver.ctx.userMessages = []

namespace Exchange

variable {t : Bodies α μ} {s : Exchange α μ}

theorem Inv.conserved (h : Inv t s) : s.Conserved t :=
  ⟨h.frames, h.driver.correct, h.waits, h.received, h.workers⟩

theorem inv_init (t : Bodies α μ) : Inv t (init t) := by
  refine ⟨?_, WaitRun.inv_initial t.fresh, rfl, rfl, fun id _ => ⟨?_, ?_, rfl⟩,
    fun h => (by cases h), fun h => (by cases h)⟩
  · have hnone : t.frames (init t).progress = [] :=
      List.flatMap_eq_nil_iff.2 fun id _ => rfl
    rw [hnone]
    exact .nil
  · show t.notifyCount id + 0 = 0 + t.notifyCount id + 0
    omega
  · exact (List.append_nil _).trans (List.append_nil _).symm

theorem progress_setWorker (s : Exchange α μ) (id : ℕ) (w : WorkerSide μ) :
    (s.setWorker id w).progress = Function.update s.progress (some id) w.pc := by
  funext i
  cases i with
  | none => rfl
  | some id' =>
    show (Function.update s.workers id w id').pc = _
    by_cases hid : id' = id
    · subst hid
      simp
    · simp [hid, progress]

theorem progress_of_pc {s' : Exchange α μ}
    (hworkers : ∀ id, (s'.workers id).pc = (s.workers id).pc) :
    s'.progress = Function.update s.progress none s'.pc := by
  funext i
  cases i with
  | none => rfl
  | some id => exact hworkers id

end Exchange

namespace WorkerSide

variable {t : Bodies α μ} {w : WorkerSide μ} {id pc : ℕ}

theorem Conserved.congr {pc' : ℕ} (h : w.Conserved t id pc)
    (heq : t.toWorker id pc' = t.toWorker id pc) :
    w.Conserved t id pc' := by
  obtain ⟨hnotified, hmessages, hreceived⟩ := h
  rw [← heq] at hnotified hmessages
  exact ⟨hnotified, hmessages, hreceived⟩

theorem notifications_append (items items' : List (WorkerItem μ)) :
    notifications (items ++ items') = notifications items + notifications items' :=
  List.countP_append

/-- The driver sends to the worker. -/
theorem Conserved.send (h : w.Conserved t id pc) {item : WorkerItem μ}
    (hst : t.steps[pc]? = some (.send id item)) :
    ({ w with unread := w.unread ++ [item] } : WorkerSide μ).Conserved t id (pc + 1) := by
  have hsent : t.toWorker id (pc + 1) = t.toWorker id pc ++ [item] := by
    rw [t.toWorker_succ hst]
    simp [DriverStep.item?]
  refine ⟨?_, ?_, h.received⟩
  · have hnotified := h.notified
    show t.notifyCount id + _ = t.taken id w.pc + w.notifyCount + notifications (w.unread ++ [item])
    rw [hsent, notifications_append, notifications_append]
    omega
  · show _ = w.received ++ w.userMessages ++ (w.unread ++ [item]).filterMap WorkerItem.message?
    rw [hsent, List.filterMap_append, List.filterMap_append, ← List.append_assoc, h.messages,
      List.append_assoc]

/-- A call of the worker returns. -/
theorem Conserved.call (h : w.Conserved t id pc) {c : BodyCall μ}
    (hc : (t.workerBody id)[w.pc]? = some c) (hreads : w.reads c = false) :
    (w.call id c).1.Conserved t id pc ∧ (w.call id c).1.pc = w.pc + 1 ∧
      (w.call id c).2 = (c.frame? id).toList := by
  have htaken := t.taken_succ hc
  have hgets : ((t.workerBody id).take (w.pc + 1)).countP BodyCall.gets =
      w.received.length + if c.gets then 1 else 0 := by
    rw [take_succ_of_getElem? hc, List.countP_append, ← h.received, List.countP_singleton]
  have hnotified := h.notified
  cases c with
  | notify | sendUserMessage =>
    refine ⟨⟨?_, h.messages, hgets.symm⟩, rfl, rfl⟩
    show _ = t.taken id (w.pc + 1) + w.notifyCount + notifications w.unread
    rw [htaken]
    exact hnotified
  | wait n =>
    refine ⟨⟨?_, h.messages, hgets.symm⟩, rfl, rfl⟩
    have hle : waitCount n ≤ w.notifyCount := by simpa [reads] using hreads
    show _ = t.taken id (w.pc + 1) + (w.notifyCount - waitCount n) + notifications w.unread
    rw [htaken, hnotified]
    show _ = t.taken id w.pc + waitCount n + (w.notifyCount - waitCount n) + notifications w.unread
    omega
  | getUserMessage =>
    have hmessages := h.messages
    unfold WorkerSide.call
    dsimp only
    cases hqueue : w.userMessages with
    | nil => simp [reads, hqueue] at hreads
    | cons message rest =>
      rw [hqueue] at hmessages
      refine ⟨⟨?_, ?_, ?_⟩, rfl, rfl⟩
      · show _ = t.taken id (w.pc + 1) + w.notifyCount + notifications w.unread
        rw [htaken]
        exact hnotified
      · rw [hmessages]
        simp
      · show (w.received ++ [message]).length = _
        rw [hgets, List.length_append]
        rfl

theorem notifications_toWorker_le (t : Bodies α μ) (id pc : ℕ) :
    notifications (t.toWorker id pc) ≤ notifications (t.toWorker id t.steps.length) := by
  refine List.Sublist.countP_le (List.Sublist.filterMap _ ?_)
  rw [List.take_length]
  exact List.take_sublist pc t.steps

/-- The worker reads a message. -/
theorem Conserved.read (h : w.Conserved t id pc) {item : WorkerItem μ}
    {unread : List (WorkerItem μ)} (hunread : w.unread = item :: unread)
    (hfit : t.notifyCount id + notifications (t.toWorker id t.steps.length) < 2 ^ 32) :
    (({ w with unread } : WorkerSide μ).waitForEvent item).Conserved t id pc ∧
      (({ w with unread } : WorkerSide μ).waitForEvent item).pc = w.pc := by
  have hnotified := h.notified
  have hmessages := h.messages
  have hle := notifications_toWorker_le t id pc
  rw [hunread, ← List.singleton_append, notifications_append] at hnotified
  rw [hunread, ← List.singleton_append, List.filterMap_append] at hmessages
  cases item with
  | notify =>
    change _ = _ + _ + (1 + _) at hnotified
    refine ⟨⟨?_, hmessages, h.received⟩, rfl⟩
    show _ = t.taken id w.pc + (w.notifyCount + 1) % 2 ^ 32 + notifications unread
    rw [Nat.mod_eq_of_lt (by omega)]
    omega
  | userMessage message =>
    change _ = _ + _ + (0 + _) at hnotified
    refine ⟨⟨?_, ?_, h.received⟩, rfl⟩
    · show _ = t.taken id w.pc + w.notifyCount + notifications unread
      omega
    · show _ = w.received ++ (w.userMessages ++ [message]) ++ unread.filterMap WorkerItem.message?
      rw [hmessages]
      simp [WorkerItem.message?]

end WorkerSide

namespace Exchange

variable {t : Bodies α μ} {s : Exchange α μ}

/-- The driver sends to a worker. -/
theorem Inv.send (h : Inv t s) (hreturned : s.driver.call.returned = true) {id : ℕ}
    {item : WorkerItem μ} (hst : t.steps[s.pc]? = some (.send id item)) :
    Inv t { s.setWorker id { s.workers id with unread := (s.workers id).unread ++ [item] } with
      pc := s.pc + 1 } := by
  have hidle : s.driver.call = .idle := by
    cases hcall : s.driver.call with
    | idle => rfl
    | waiting | getting | crashed => simp [hcall, DriverCall.returned] at hreturned
  refine ⟨?_, h.driver, ?_, ?_, fun id' hid' => ?_, fun hreads => ?_, h.getting⟩
  · rw [progress_of_pc fun id' => ?_, t.frames_update_none]
    · exact h.frames
    · show (Function.update s.workers id _ id').pc = _
      by_cases hid : id' = id
      · subst hid
        simp
      · simp [hid]
  · show s.driver.completed.map (·.n) = t.waits (s.pc + 1)
    rw [h.waits, t.waits_succ hst]
    exact (List.append_nil _).symm
  · show s.driver.received.length = (t.steps.take (s.pc + 1)).countP DriverStep.gets
    rw [h.received, take_succ_of_getElem? hst, List.countP_append]
    rfl
  · show WorkerSide.Conserved t id' (s.pc + 1) (Function.update s.workers id _ id')
    by_cases hid : id' = id
    · subst hid
      rw [Function.update_self]
      exact (h.workers id' hid').send hst
    · rw [Function.update_of_ne hid]
      refine (h.workers id' hid').congr ?_
      rw [t.toWorker_succ hst]
      simp [DriverStep.item?, Ne.symm hid]
  · change s.driver.call.reads = true at hreads
    rw [hidle] at hreads
    cases hreads

theorem progress_of_driver (d : WaitRun α μ) (pc : ℕ) (inFlight : List (Frame μ)) :
    ({ s with driver := d, pc, inFlight } : Exchange α μ).progress =
      Function.update s.progress none pc := progress_of_pc fun _ => rfl

/-- The driver's call returns, and the driver is at its next step. -/
theorem Inv.returns (h : Inv t s) {st : DriverStep μ} (hst : t.steps[s.pc]? = some st)
    (hitem : ∀ id, st.item? id = none) {d : WaitRun α μ} (hd : d.Inv t.ctx) (hcall : d.call = .idle)
    (hcompleted : d.completed.map (·.n) = t.waits (s.pc + 1))
    (hreceived : d.received.length = (t.steps.take (s.pc + 1)).countP DriverStep.gets)
    {inFlight : List (Frame μ)} (hframes : (d.processed ++ inFlight).Perm (t.frames s.progress)) :
    Inv t { s.setDriver d with inFlight } := by
  have hworkers : ∀ id ∈ t.order, (s.workers id).Conserved t id (s.pc + 1) := by
    intro id hid
    refine (h.workers id hid).congr ?_
    rw [t.toWorker_succ hst, hitem id]
    exact List.append_nil _
  unfold Exchange.setDriver
  rw [hcall]
  refine ⟨?_, hd, hcompleted, hreceived, hworkers, fun hreads => ?_, fun hget => ?_⟩
  · rw [progress_of_driver, t.frames_update_none]
    exact hframes
  · change d.call.reads = true at hreads
    rw [hcall] at hreads
    cases hreads
  · change d.call = .getting at hget
    rw [hcall] at hget
    cases hget

/-- The driver's call waits for another message. -/
theorem Inv.blocks (h : Inv t s) {st : DriverStep μ} (hst : t.steps[s.pc]? = some st)
    {d : WaitRun α μ} (hd : d.Inv t.ctx) (hin : WaitRun.InCall t.ctx st d.call)
    (hcompleted : d.completed = s.driver.completed) (hreceived : d.received = s.driver.received)
    (hget : d.call = .getting → d.ctx.userMessages = [])
    {inFlight : List (Frame μ)} (hframes : (d.processed ++ inFlight).Perm (t.frames s.progress)) :
    Inv t { s.setDriver d with inFlight } := by
  have hnot : d.call.returned = false := by
    cases hcall : d.call with
    | idle =>
      rw [hcall] at hin
      cases hin
    | waiting | getting | crashed => rfl
  unfold Exchange.setDriver
  rw [hnot]
  refine ⟨?_, hd, ?_, ?_, h.workers, fun _ => ⟨st, hst, hin⟩, hget⟩
  · rw [if_neg Bool.false_ne_true, progress_of_driver, t.frames_update_none]
    exact hframes
  · show d.completed.map (·.n) = t.waits s.pc
    rw [hcompleted, h.waits]
  · show d.received.length = _
    rw [hreceived]
    exact h.received

/-- The driver's call goes on or returns. -/
theorem Inv.setDriver (h : Inv t s) {st : DriverStep μ} (hst : t.steps[s.pc]? = some st)
    {d : WaitRun α μ} (hd : d.Inv t.ctx) (hgoes : WaitRun.Goes t.ctx s.driver st d)
    {inFlight : List (Frame μ)} (hframes : (d.processed ++ inFlight).Perm (t.frames s.progress)) :
    Inv t { s.setDriver d with inFlight } := by
  have hwaits := t.waits_succ hst
  have hgets : (t.steps.take (s.pc + 1)).countP DriverStep.gets =
      (t.steps.take s.pc).countP DriverStep.gets + if st.gets then 1 else 0 := by
    rw [take_succ_of_getElem? hst, List.countP_append, List.countP_singleton]
  cases hgoes with
  | waitReturns call completed received =>
    refine h.returns hst (fun _ => rfl) hd call ?_ ?_ hframes
    · rw [completed, h.waits, hwaits]
      rfl
    · rw [received, hgets]
      exact h.received
  | waitBlocks call completed received =>
    refine h.blocks hst hd ?_ completed received (fun hget => ?_) hframes
    · rw [call]
      exact .wait ..
    · rw [call] at hget
      cases hget
  | getReturns call completed received =>
    refine h.returns hst (fun _ => rfl) hd call ?_ ?_ hframes
    · rw [completed, h.waits, hwaits]
      exact (List.append_nil _).symm
    · rw [received, hgets, h.received]
      rfl
  | getBlocks call completed received empty =>
    refine h.blocks hst hd ?_ completed received (fun _ => empty) hframes
    rw [call]
    exact .getUserMessage

/-- The driver processes a message in flight: its sender is a worker, and no count is full. -/
theorem Inv.frame_allowed (h : Inv t s) (hfit : t.Fits) (hreads : s.driver.call.reads = true)
    {f : Frame μ} (hf : f ∈ s.inFlight) :
    (WaitRun.system.restrict WaitRun.CountFits).allowed s.driver (.frame f) := by
  have hmem : f ∈ t.frames s.progress := h.frames.subset (List.mem_append_right _ hf)
  have hid := t.id_of_mem_frames hmem
  refine ⟨⟨fun hidle => ?_, ?_⟩, ?_⟩
  · rw [hidle] at hreads
    cases hreads
  · exact (h.driver.base.keys f.id).2 (t.iterates.mem_iff.1 hid)
  · cases f with
    | userMessage | other => trivial
    | notify id =>
      intro w hw
      change id ∈ t.order at hid
      have hcount := h.driver.accounts id w hw
      have hperm := h.frames.countP_eq (Frame.isNotify id)
      rw [List.countP_append] at hperm
      have hpos : 0 < s.inFlight.countP (Frame.isNotify id) :=
        List.countP_pos_iff.2 ⟨_, hf, by simp⟩
      have hsent : notifiesFrom id (t.frames s.progress) < 2 ^ 32 := by
        rw [t.notifiesFrom_frames hid]
        refine lt_of_le_of_lt (List.Sublist.countP_le (List.Sublist.filterMap _ ?_))
          (hfit.toDriver id hid)
        rw [List.take_length]
        exact List.take_sublist _ _
      unfold notifiesFrom at hcount hsent
      omega

theorem Inv.driverReads (h : Inv t s) (hfit : t.Fits) (hreads : s.driver.call.reads = true) {i : ℕ}
    {f : Frame μ} (hf : s.inFlight[i]? = some f) :
    Inv t { s.setDriver (s.driver.step (.frame f)) with inFlight := s.inFlight.eraseIdx i } := by
  have hallowed := h.frame_allowed hfit hreads (List.mem_of_getElem? hf)
  have hd : (s.driver.step (.frame f)).Inv t.ctx := WaitRun.inv_step _ _ h.driver hallowed
  obtain ⟨st, hst, hin⟩ := h.inCall hreads
  refine h.setDriver hst hd (WaitRun.goes_frame hin hd) ?_
  have hprocessed : (s.driver.step (.frame f)).processed = s.driver.processed ++ [f] :=
    WaitRun.resume_processed _
  obtain ⟨hlt, rfl⟩ := List.getElem?_eq_some_iff.1 hf
  rw [hprocessed, List.append_assoc, List.singleton_append]
  exact ((List.getElem_cons_eraseIdx_perm hlt).append_left _).trans h.frames

/-! ## The workers move -/

theorem Inv.workerCall (h : Inv t s) {id : ℕ} (hid : id ∈ t.order) {c : BodyCall μ}
    (hc : (t.workerBody id)[(s.workers id).pc]? = some c)
    (hreads : (s.workers id).reads c = false) :
    Inv t { s.setWorker id ((s.workers id).call id c).1 with
      inFlight := s.inFlight ++ ((s.workers id).call id c).2 } := by
  obtain ⟨hconserved, hpc, hsent⟩ := (h.workers id hid).call hc hreads
  refine ⟨?_, h.driver, h.waits, h.received, fun id' hid' => ?_, h.inCall, h.getting⟩
  · show (s.driver.processed ++ (s.inFlight ++ _)).Perm (t.frames (s.setWorker id _).progress)
    rw [progress_setWorker, hpc]
    refine List.Perm.trans ?_ (t.frames_advance (c := s.progress) hid hc).symm
    rw [hsent, ← List.append_assoc]
    exact h.frames.append_right _
  · show WorkerSide.Conserved t id' s.pc (Function.update s.workers id _ id')
    by_cases heq : id' = id
    · subst heq
      rw [Function.update_self]
      exact hconserved
    · rw [Function.update_of_ne heq]
      exact h.workers id' hid'

theorem Inv.workerReads (h : Inv t s) (hfit : t.Fits) {id : ℕ} (hid : id ∈ t.order)
    {item : WorkerItem μ} {unread : List (WorkerItem μ)}
    (hunread : (s.workers id).unread = item :: unread) :
    Inv t (s.setWorker id (({ s.workers id with unread } : WorkerSide μ).waitForEvent item)) := by
  obtain ⟨hconserved, hpc⟩ := (h.workers id hid).read hunread (hfit.toWorker id hid)
  refine ⟨?_, h.driver, h.waits, h.received, fun id' hid' => ?_, h.inCall, h.getting⟩
  · rw [progress_setWorker, hpc, show (s.workers id).pc = s.progress (some id) from rfl,
      Function.update_eq_self]
    exact h.frames
  · show WorkerSide.Conserved t id' s.pc (Function.update s.workers id _ id')
    by_cases heq : id' = id
    · subst heq
      rw [Function.update_self]
      exact hconserved
    · rw [Function.update_of_ne heq]
      exact h.workers id' hid'

/-! ## Every move -/

/-- What a move is, with its guards. -/
theorem move_cases {m : ExchangeMove} {s' : Exchange α μ} (hmove : move t s m = some s') :
    (m = .driverStep ∧ s.driver.call = .idle ∧ ∃ st, t.steps[s.pc]? = some st ∧
      ((∃ id item, st = .send id item ∧
          s' = { s.setWorker id { s.workers id with unread := (s.workers id).unread ++ [item] } with
            pc := s.pc + 1 }) ∨
        (∃ n, st = .wait n ∧ s' = s.setDriver (s.driver.step (.wait n t.order))) ∨
        st = .getUserMessage ∧ s' = s.setDriver (s.driver.step .getUserMessage))) ∨
    (∃ i f, m = .driverReads i ∧ s.driver.call.reads = true ∧ s.inFlight[i]? = some f ∧
      s' = { s.setDriver (s.driver.step (.frame f)) with inFlight := s.inFlight.eraseIdx i }) ∨
    (∃ id c, m = .workerCall id ∧ id ∈ t.order ∧ (t.workerBody id)[(s.workers id).pc]? = some c ∧
      (s.workers id).reads c = false ∧
      s' = { s.setWorker id ((s.workers id).call id c).1 with
        inFlight := s.inFlight ++ ((s.workers id).call id c).2 }) ∨
    ∃ id c item unread, m = .workerReads id ∧ id ∈ t.order ∧
      (t.workerBody id)[(s.workers id).pc]? = some c ∧ (s.workers id).unread = item :: unread ∧
      (s.workers id).reads c = true ∧
      s' = s.setWorker id (({ s.workers id with unread } : WorkerSide μ).waitForEvent item) := by
  cases m with
  | driverStep =>
    refine Or.inl ⟨rfl, ?_⟩
    simp only [move] at hmove
    cases hcall : s.driver.call with
    | waiting | getting | crashed => simp [hcall, DriverCall.returned] at hmove
    | idle =>
      rw [hcall, if_pos (show DriverCall.idle.returned = true from rfl)] at hmove
      cases hst : t.steps[s.pc]? with
      | none => simp [hst] at hmove
      | some st =>
        rw [hst] at hmove
        refine ⟨rfl, st, rfl, ?_⟩
        cases st with
        | send id item => exact Or.inl ⟨id, item, rfl, (Option.some.inj hmove).symm⟩
        | wait n => exact Or.inr (Or.inl ⟨n, rfl, (Option.some.inj hmove).symm⟩)
        | getUserMessage => exact Or.inr (Or.inr ⟨rfl, (Option.some.inj hmove).symm⟩)
  | driverReads i =>
    refine Or.inr (Or.inl ?_)
    simp only [move] at hmove
    split_ifs at hmove with hreads
    cases hf : s.inFlight[i]? with
    | none => simp [hf] at hmove
    | some f =>
      rw [hf] at hmove
      exact ⟨i, f, rfl, hreads, hf, (Option.some.inj hmove).symm⟩
  | workerCall id =>
    refine Or.inr (Or.inr (Or.inl ?_))
    simp only [move] at hmove
    split_ifs at hmove with hid
    cases hc : (t.workerBody id)[(s.workers id).pc]? with
    | none => simp [hc] at hmove
    | some c =>
      rw [hc] at hmove
      dsimp only at hmove
      split_ifs at hmove with hreads
      exact ⟨id, c, rfl, hid, hc, eq_false_of_ne_true hreads, (Option.some.inj hmove).symm⟩
  | workerReads id =>
    refine Or.inr (Or.inr (Or.inr ?_))
    simp only [move] at hmove
    split_ifs at hmove with hid
    cases hc : (t.workerBody id)[(s.workers id).pc]? with
    | none => simp [hc] at hmove
    | some c =>
      cases hunread : (s.workers id).unread with
      | nil => simp [hc, hunread] at hmove
      | cons item unread =>
        rw [hc, hunread] at hmove
        dsimp only at hmove
        split_ifs at hmove with hreads
        exact ⟨id, c, item, unread, rfl, hid, hc, hunread, hreads, (Option.some.inj hmove).symm⟩

theorem inv_move (hfit : t.Fits) {m : ExchangeMove} {s' : Exchange α μ} (h : Inv t s)
    (hmove : move t s m = some s') : Inv t s' := by
  rcases move_cases hmove with ⟨-, hidle, st, hst, hstep⟩ | ⟨i, f, -, hreads, hf, rfl⟩ |
    ⟨id, c, -, hid, hc, hreads, rfl⟩ | ⟨id, c, item, unread, -, hid, -, hunread, -, rfl⟩
  · have hiterates : s.driver.ctx.allocatedWorkers.Iterates t.order :=
      t.iterates.congr fun k => (h.driver.base.keys k).symm
    rcases hstep with ⟨id, item, rfl, rfl⟩ | ⟨n, rfl, rfl⟩ | ⟨rfl, rfl⟩
    · exact h.send (by rw [hidle]; rfl) hst
    · refine h.setDriver hst (h.driver.wait hidle hiterates n) (h.driver.goes_wait n t.order) ?_
      rw [show (s.driver.step (.wait n t.order)).processed = s.driver.processed from
        WaitRun.testPulled_processed ..]
      exact h.frames
    · refine h.setDriver hst (h.driver.getUserMessage hidle) (WaitRun.goes_testMessages rfl rfl) ?_
      rw [show (s.driver.step .getUserMessage).processed = s.driver.processed from
        WaitRun.testMessages_processed]
      exact h.frames
  · exact h.driverReads hfit hreads hf
  · exact h.workerCall hid hc hreads
  · exact h.workerReads hfit hid hunread

theorem inv_exec (hfit : t.Fits) {ms : List ExchangeMove} (h : (system t).Admissible (init t) ms) :
    Inv t ((system t).exec (init t) ms) := by
  refine h.invariant (fun s m hs hallowed => ?_) (inv_init t)
  obtain ⟨s', hmove⟩ := Guarded.ofMove_allowed_iff.1 hallowed
  show Inv t ((Guarded.ofMove (move t)).step s m)
  rw [Guarded.ofMove_step hmove]
  exact inv_move hfit hs hmove

end Exchange

/-- Two workers that answer a notification with a message and a notification. -/
def answering : Bodies ℕ ℕ where
  ctx := twoWorkers
  order := [2, 1]
  fresh := by
    have hentries : ∀ e ∈ twoWorkers.allocatedWorkers.entries, e.2.id = e.1 ∧
        e.2.notifyCount = 0 := by
      decide
    exact ⟨fun k w h => (hentries _ (SortedMap.find?_eq_some_iff.1 h)).1, by decide,
      fun k w h => (hentries _ (SortedMap.find?_eq_some_iff.1 h)).2⟩
  iterates := by decide
  body := [.notify, .getUserMessage, .wait (2 ^ 32 - 1)]
  workerBody _ := [.wait (2 ^ 32 - 1), .sendUserMessage 7, .notify]

/-- A run to the end, with the second message of worker 1 read before the first. -/
def answeringMoves : List ExchangeMove :=
  [.driverStep, .workerReads 2, .driverStep, .workerCall 2, .workerReads 1, .driverStep,
    .workerCall 2, .driverReads 0, .workerCall 2, .workerCall 1, .driverStep, .workerCall 1,
    .workerCall 1, .driverReads 2, .driverReads 1, .driverReads 0]

end Dtest
