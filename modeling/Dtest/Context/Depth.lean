import Dtest.Context.Model
import Dtest.Memory.Tracking

/-!
# The lock depth after a call on a `Context`

Every call takes `Sandbox::lock` first and gives it back last, and does not give it back when an
exception leaves it.  What is in between keeps the depth (`Quiet`): the operations of `Message` are
balanced, and its destructor runs on the way out as well.

* `lockDepth_restored_iff`: a call that returns or raises restores the depth if and only if no
  constructor of `Socket`, no `Socket::send` and no run of a test inside of it raises.
* `lockDepth_calls`: over a sequence of calls the depth grows by one for each with such a failure.
* `tracking_resumes_iff`: from depth zero, the allocations after the call are tracked under the same
  condition.
-/

namespace Dtest

open Interactive

variable {α A : Type} {env : Surroundings}

namespace Locked

@[simp] theorem unlock_lock (l : Locked) : l.lock.unlock = l := by
  cases l
  simp [lock, unlock]

theorem lock_ne (l : Locked) : l.lock ≠ l := by
  intro h
  have hmem : l.memory + 1 = l.memory := congrArg memory h
  have hone : (1 : UInt64) = 0 := by
    calc (1 : UInt64) = l.memory + 1 - l.memory := by rw [UInt64.add_comm, UInt64.add_sub_cancel]
      _ = 0 := by rw [hmem, UInt64.sub_self]
  exact absurd hone (by decide)

end Locked

/-- The depth is kept, and an exception comes exactly from a failure. -/
abbrev Quiet (x : Action α A) : Prop := Keeps Process.locked SocketOutcome.Fails x

/-- A call: it restores the depth if it returns, and leaves it one higher if an exception leaves
it. -/
abbrev Sandboxed (x : Action α A) : Prop :=
  Bracketed Process.locked SocketOutcome.Fails Locked.lock x

theorem Quiet.sandboxed {x : Action α A} (hx : Quiet x) :
    Sandboxed (bracket Process.lock Process.unlock x) := by
  refine bracketed_bracket (fun _ => rfl) (fun p l h => ?_) hx
  rw [show p.unlock.locked = p.locked.unlock from rfl, h, Locked.unlock_lock]

/-! ## Messages and sockets -/

theorem locked_destroyMessage (p : Process α) : p.destroyMessage.locked = p.locked :=
  p.locked.unlock_lock

theorem quiet_entered (result : Option A) : Quiet (entered result : Action α A) := by
  intro p os e p' rest h
  cases result with
  | none =>
    cases h
    exact ⟨[], rfl, trivial⟩
  | some a =>
    cases h
    exact ⟨[], rfl, locked_destroyMessage p, fun o ho => absurd ho List.not_mem_nil⟩

theorem quiet_sendTo (m : Message) (peer : α) : Quiet (m.sendTo peer) := by
  refine (Keeps.demand _ _).bind fun r => Keeps.meet (fun o ho => ?_) (fun o ho => ?_)
  · cases o with
    | sent => exact Keeps.update_bind (fun _ => rfl) fun _ => Keeps.pure _
    | sendFailed error => exact absurd trivial ho
    | _ => exact Keeps.undefined
  · cases o with
    | sendFailed error => exact raises_raise _
    | sent => exact ho.elim
    | _ => exact raises_undefined

theorem quiet_connectTo (addr : α) : Quiet (connectTo addr) := by
  refine Keeps.meet (fun o ho => ?_) (fun o ho => ?_)
  · cases o with
    | connected => exact Keeps.pure addr
    | socketFailed error | connectFailed error => exact absurd trivial ho
    | _ => exact Keeps.undefined
  · cases o with
    | socketFailed error | connectFailed error => exact raises_raise _
    | connected => exact ho.elim
    | _ => exact raises_undefined

theorem quiet_handleSocket (k : ℕ) (w : WorkerHandle α) : Quiet (handleSocket k w) := by
  refine (Keeps.demand _ _).bind fun addr => Keeps.state.bind fun p => ?_
  split_ifs
  · exact Keeps.pure addr
  · exact (quiet_connectTo addr).bind fun peer => Keeps.update_bind (fun _ => rfl) fun _ =>
      Keeps.pure peer

/-! ## `DriverContext` -/

namespace DriverContext

theorem quiet_moveFrame (f : Frame Message) : Quiet (moveFrame f : Action α (Frame Message)) := by
  cases f with
  | userMessage id m => exact (quiet_entered _).bind fun _ => Keeps.pure _
  | _ => exact Keeps.pure _

theorem quiet_event (f : Frame Message) : Quiet (event f : Action α ℕ) := by
  refine (quiet_moveFrame f).bind fun f => Keeps.state.bind fun p => ?_
  obtain ⟨c, id⟩ := p.driver.waitForEvent f
  exact Keeps.update_bind (fun _ => rfl) fun _ => Keeps.pure id

theorem quiet_received (o : SocketOutcome) : Quiet (received o : Action α (Unit ⊕ ℕ)) := by
  cases o with
  | noMessage => exact Keeps.pure _
  | driverFrame f => exact (quiet_event f).bind fun _ => Keeps.pure _
  | _ => exact Keeps.undefined

theorem quiet_eventRound (u : Unit) : Quiet (eventRound u : Action α (Unit ⊕ ℕ)) := by
  refine Keeps.within locked_destroyMessage
    (Keeps.meet (fun o _ => quiet_received o) (fun o ho => ?_))
  cases o with
  | noMessage | driverFrame f => exact ho.elim
  | _ => exact raises_undefined

theorem quiet_nextEvent : Quiet (nextEvent : Action α ℕ) := Keeps.loop quiet_eventRound ()

theorem quiet_sendLoop (order : List ℕ) (m : Message) :
    Quiet (sendLoop order m : Action α Unit) := by
  induction order generalizing m with
  | nil => exact Keeps.pure ()
  | cons k order ih =>
    refine Keeps.state.bind fun p => ?_
    cases p.driver.allocatedWorkers.find? k with
    | none => exact ih m
    | some w =>
      exact (quiet_handleSocket k w).bind fun peer => (quiet_sendTo m peer).bind fun m => ih m

theorem quiet_notifyHandle (k : ℕ) (w : WorkerHandle α) : Quiet (notifyHandle env k w) :=
  Keeps.within locked_destroyMessage ((quiet_entered _).bind fun m =>
    (quiet_handleSocket k w).bind fun peer => (quiet_sendTo m peer).bind fun _ => Keeps.pure _)

theorem quiet_notifyLoop (order : List ℕ) : Quiet (notifyLoop env order : Action α Unit) := by
  induction order with
  | nil => exact Keeps.pure ()
  | cons k order ih =>
    refine Keeps.state.bind fun p => ?_
    cases p.driver.allocatedWorkers.find? k with
    | none => exact ih
    | some w => exact (quiet_notifyHandle k w).bind fun _ => ih

theorem quiet_pull (pulled : Finset ℕ) (id : ℕ) :
    Quiet (pull pulled id : Action α (Finset ℕ ⊕ Unit)) := by
  refine Keeps.state.bind fun p => (Keeps.demand _ _).bind fun r => ?_
  obtain ⟨c, pulled⟩ := r
  exact Keeps.update_bind (fun _ => rfl) fun _ => Keeps.pure _

theorem quiet_waitRound (n : ℕ) (pulled : Finset ℕ) :
    Quiet (waitRound n pulled : Action α (Finset ℕ ⊕ Unit)) := by
  unfold waitRound
  split_ifs
  · exact Keeps.pure _
  · exact quiet_nextEvent.bind fun id => quiet_pull pulled id

theorem consumes_eventRound (u : Unit) : Consumes (eventRound u : Action α (Unit ⊕ ℕ)) :=
  (consumes_meet.bind fun o => ⟨_, quiet_received o⟩).within

theorem consumes_nextEvent : Consumes (nextEvent : Action α ℕ) :=
  consumes_loop consumes_eventRound ()

/-- `_waitForEvent` goes on until a round gives an event. -/
theorem nextEvent_eq :
    (nextEvent : Action α ℕ) = eventRound () >>= Sum.elim (fun _ => nextEvent) pure :=
  loop_eq (Consumes.advances consumes_eventRound) ()

theorem while_nextEvent_eq (cond : Process α → Bool) :
    whileDo cond nextEvent = (do
      if cond (← state) then
        let _ ← nextEvent
        whileDo cond nextEvent
      else pure ⟨⟩) :=
  whileDo_eq cond consumes_nextEvent

/-- The second loop of `wait` goes on until a round finds that enough workers are pulled. -/
theorem waitLoop_eq (n : ℕ) (pulled : Finset ℕ) :
    (loop (waitRound n) pulled : Action α Unit) =
      waitRound n pulled >>= Sum.elim (loop (waitRound n)) pure := by
  have hadvances : Advances (waitRound n : Finset ℕ → Action α (Finset ℕ ⊕ Unit)) := by
    intro pulled p os pulled' p' rest h
    unfold waitRound at h
    split_ifs at h
    · cases h
    · exact consumes_nextEvent.bind (fun id => ⟨_, quiet_pull pulled id⟩) p os _ p' rest h
  exact loop_eq hadvances pulled

theorem sandboxed_createUserMessage : Sandboxed (createUserMessage env : Action α Message) :=
  (quiet_entered _).sandboxed

theorem sandboxed_sendUserMessage (message : Message) :
    Sandboxed (sendUserMessage env message : Action α Unit) :=
  (quiet_sendLoop env.order message).sandboxed

theorem sandboxed_getUserMessage : Sandboxed (getUserMessage : Action α Message) := by
  refine Quiet.sandboxed ((Keeps.whileDo _ quiet_nextEvent).bind fun _ =>
    Keeps.state.bind fun p => ?_)
  cases p.driver.userMessages with
  | nil => exact Keeps.undefined
  | cons front rest =>
    refine (quiet_entered _).bind fun m => Keeps.update_bind (fun _ => rfl) fun _ => ?_
    exact Keeps.update_bind locked_destroyMessage fun _ => Keeps.pure m

theorem sandboxed_notify : Sandboxed (notify env : Action α Unit) :=
  (quiet_notifyLoop env.order).sandboxed

theorem sandboxed_wait (n : ℕ) : Sandboxed (wait env n : Action α Unit) := by
  refine Quiet.sandboxed (Keeps.state.bind fun p => ?_)
  exact Keeps.update_bind (fun _ => rfl) fun _ => Keeps.loop (quiet_waitRound _) _

end DriverContext

/-! ## `WorkerContext` -/

namespace WorkerContext

theorem quiet_runTest : Quiet (runTest : Action α (Status × String)) := by
  refine Keeps.meet (fun o ho => ?_) (fun o ho => ?_)
  · cases o with
    | testRan worker result =>
      cases result with
      | ok result => exact Keeps.update_bind (fun _ => rfl) fun _ => Keeps.pure result
      | error error => exact absurd trivial ho
    | _ => exact Keeps.undefined
  · cases o with
    | testRan worker result =>
      cases result with
      | ok result => exact ho.elim
      | error error => exact (raises_raise error).update_bind (by exact fun _ => rfl)
    | _ => exact raises_undefined

theorem quiet_runAndReport : Quiet (runAndReport env : Action α Unit) := by
  refine quiet_runTest.bind fun r => Keeps.state.bind fun p =>
    (quiet_connectTo _).bind fun peer => ?_
  refine Keeps.within locked_destroyMessage
    ((quiet_entered _).bind fun m => Keeps.state.bind fun p => ?_)
  refine (quiet_entered _).bind fun m => (quiet_entered _).bind fun m =>
    (quiet_entered _).bind fun m => ?_
  exact (quiet_sendTo m peer).bind fun _ => Keeps.pure _

theorem quiet_event (f : WorkerFrame) : Quiet (event env f : Action α Unit) := by
  cases f with
  | runTest module name =>
    refine Keeps.state.bind fun p => ?_
    split_ifs
    · exact Keeps.pure _
    · exact Keeps.update_bind (fun _ => rfl) fun _ => quiet_runAndReport.bind fun _ =>
        Keeps.update fun _ => rfl
    · exact Keeps.update_bind (fun _ => rfl) fun _ => Keeps.update fun _ => rfl
  | notify => exact Keeps.update fun _ => rfl
  | terminate => exact Keeps.halt _
  | userMessage m => exact (quiet_entered _).bind fun m => Keeps.update fun _ => rfl
  | other => exact Keeps.pure _

theorem quiet_received (o : SocketOutcome) : Quiet (received env o : Action α (Unit ⊕ Unit)) := by
  cases o with
  | noMessage => exact Keeps.pure _
  | workerFrame f => exact (quiet_event f).bind fun _ => Keeps.pure _
  | _ => exact Keeps.undefined

theorem quiet_eventRound (u : Unit) : Quiet (eventRound env u : Action α (Unit ⊕ Unit)) := by
  refine Keeps.within locked_destroyMessage
    (Keeps.meet (fun o _ => quiet_received o) (fun o ho => ?_))
  cases o with
  | noMessage | workerFrame f => exact ho.elim
  | _ => exact raises_undefined

theorem quiet_nextEvent : Quiet (nextEvent env : Action α Unit) := Keeps.loop quiet_eventRound ()

theorem consumes_eventRound (u : Unit) : Consumes (eventRound env u : Action α (Unit ⊕ Unit)) :=
  (consumes_meet.bind fun o => ⟨_, quiet_received o⟩).within

theorem consumes_nextEvent : Consumes (nextEvent env : Action α Unit) :=
  consumes_loop consumes_eventRound ()

/-- `_waitForEvent` goes on until a round gives an event. -/
theorem nextEvent_eq :
    (nextEvent env : Action α Unit) = eventRound env () >>=
      Sum.elim (fun _ => nextEvent env) pure :=
  loop_eq (Consumes.advances consumes_eventRound) ()

theorem while_nextEvent_eq (cond : Process α → Bool) :
    whileDo cond (nextEvent env) = (do
      if cond (← state) then
        let _ ← nextEvent env
        whileDo cond (nextEvent env)
      else pure ⟨⟩) :=
  whileDo_eq cond consumes_nextEvent

theorem sandboxed_createUserMessage : Sandboxed (createUserMessage env : Action α Message) :=
  Quiet.sandboxed ((quiet_entered _).bind fun _ => Keeps.state.bind fun _ => quiet_entered _)

theorem sandboxed_sendUserMessage (message : Message) :
    Sandboxed (sendUserMessage message : Action α Unit) := by
  refine Quiet.sandboxed (Keeps.state.bind fun p => (quiet_connectTo _).bind fun peer => ?_)
  exact (quiet_sendTo message peer).bind fun _ => Keeps.pure _

theorem sandboxed_getUserMessage : Sandboxed (getUserMessage env : Action α Message) := by
  refine Quiet.sandboxed ((Keeps.whileDo _ quiet_nextEvent).bind fun _ =>
    Keeps.state.bind fun p => ?_)
  cases p.worker.userMessages with
  | nil => exact Keeps.undefined
  | cons front rest =>
    refine (quiet_entered _).bind fun m => Keeps.update_bind (fun _ => rfl) fun _ => ?_
    exact Keeps.update_bind locked_destroyMessage fun _ => Keeps.pure m

theorem sandboxed_notify : Sandboxed (notify env : Action α Unit) := by
  refine Quiet.sandboxed (Keeps.state.bind fun p => (quiet_connectTo _).bind fun peer => ?_)
  refine Keeps.within locked_destroyMessage
    ((quiet_entered _).bind fun m => Keeps.state.bind fun p => ?_)
  exact (quiet_entered _).bind fun m => (quiet_sendTo m peer).bind fun _ => Keeps.pure _

theorem sandboxed_wait (n : ℕ) : Sandboxed (wait env n : Action α Unit) :=
  Quiet.sandboxed ((Keeps.whileDo _ quiet_nextEvent).bind fun _ => Keeps.update fun _ => rfl)

end WorkerContext

/-! ## All calls -/

theorem sandboxed_call (ctx : Context) (call : ContextCall) :
    Sandboxed (ctx.call env call : Action α _) := by
  cases ctx with
  | driver =>
    cases call with
    | createUserMessage => exact DriverContext.sandboxed_createUserMessage.map _
    | sendUserMessage message => exact (DriverContext.sandboxed_sendUserMessage message).map _
    | getUserMessage => exact DriverContext.sandboxed_getUserMessage.map _
    | notify => exact DriverContext.sandboxed_notify.map _
    | wait n => exact (DriverContext.sandboxed_wait n).map _
  | worker =>
    cases call with
    | createUserMessage => exact WorkerContext.sandboxed_createUserMessage.map _
    | sendUserMessage message => exact (WorkerContext.sandboxed_sendUserMessage message).map _
    | getUserMessage => exact WorkerContext.sandboxed_getUserMessage.map _
    | notify => exact WorkerContext.sandboxed_notify.map _
    | wait n => exact (WorkerContext.sandboxed_wait n).map _

/-- A call that returns or that an exception leaves, with exactly the outcomes that it consumes. -/
structure MadeCall where
  env : Surroundings
  ctx : Context
  call : ContextCall
  outcomes : List SocketOutcome

namespace MadeCall

/-- The call ends, in the process `p'`. -/
def Ends (c : MadeCall) (p p' : Process α) : Prop :=
  ∃ e, c.ctx.call c.env c.call p c.outcomes = some (e, p', []) ∧ ∀ x, e ≠ .halted x

/-- A constructor of `Socket`, a `Socket::send` or a run of a test inside of the call raises an
exception. -/
def Fails (c : MadeCall) : Prop := ∃ o ∈ c.outcomes, o.Fails

instance (c : MadeCall) : Decidable c.Fails :=
  inferInstanceAs (Decidable (∃ o ∈ c.outcomes, o.Fails))

variable {c : MadeCall} {p p' : Process α}

theorem Ends.locked (h : c.Ends p p') :
    p'.locked = if c.Fails then p.locked.lock else p.locked := by
  obtain ⟨e, hrun, hend⟩ := h
  obtain ⟨used, hos, hleft⟩ := sandboxed_call c.ctx c.call p c.outcomes e p' [] hrun
  rw [List.append_nil] at hos
  subst hos
  cases e with
  | returned m =>
    have hok : ¬ c.Fails := fun ⟨o, ho, hfail⟩ => hleft.2 o ho hfail
    rw [if_neg hok, hleft.1]
  | raised error => rw [if_pos (show c.Fails from hleft.2), hleft.1]
  | halted x => exact absurd rfl (hend x)

end MadeCall

/-- The depth after a call is the one before it if and only if nothing inside of the call fails. -/
theorem lockDepth_restored_iff (c : MadeCall) {p p' : Process α} (h : c.Ends p p') :
    p'.locked = p.locked ↔ ¬ c.Fails := by
  rw [h.locked]
  by_cases hfail : c.Fails
  · rw [if_pos hfail]
    exact iff_of_false p.locked.lock_ne (not_not_intro hfail)
  · rw [if_neg hfail]
    exact iff_of_true rfl hfail

/-- A worker that is not in a test, in a process of which it is the first worker. -/
def sampleWorker : Process ℕ where
  locked := ⟨0, 0⟩
  driver := {}
  worker := { id := 1 }
  address := 5000
  superAddress := 5001

def sampleSurroundings : Surroundings := ⟨fun _ => true, fun _ => [], []⟩

/-- A notification that reaches the driver. -/
def sampleNotify : MadeCall := ⟨sampleSurroundings, .worker, .notify, [.connected, .sent]⟩

theorem ends_sampleNotify : ∃ p', sampleNotify.Ends sampleWorker p' := ⟨_, _, rfl, nofun⟩

theorem lockDepth_restored_sample :
    ∃ p', sampleNotify.Ends sampleWorker p' ∧ p'.locked = sampleWorker.locked := by
  obtain ⟨p', h⟩ := ends_sampleNotify
  exact ⟨p', h, (lockDepth_restored_iff sampleNotify h).mpr (by decide)⟩

/-- The driver cannot be reached: the exception leaves the lock taken. -/
theorem lockDepth_lost :
    ∃ p', Context.worker.call sampleSurroundings .notify sampleWorker
      [.connectFailed "Connection refused"] =
        some (.raised "Failed to connect. Connection refused", p', []) ∧
      sampleWorker.locked = ⟨0, 0⟩ ∧ p'.locked = ⟨1, 1⟩ :=
  ⟨_, rfl, rfl, rfl⟩

/-! ## Sequences of calls -/

/-- A thread makes one call after the other. -/
def Calls : Process α → List MadeCall → Process α → Prop
  | p, [], p' => p' = p
  | p, c :: cs, p'' => ∃ p', c.Ends p p' ∧ Calls p' cs p''

/-- Each call in which something fails leaves the depth one higher, for good. -/
theorem lockDepth_calls {p p' : Process α} {cs : List MadeCall} (h : Calls p cs p') :
    p'.locked = Locked.lock^[cs.countP (decide ·.Fails)] p.locked := by
  induction cs generalizing p with
  | nil => rw [show p' = p from h]; rfl
  | cons c cs ih =>
    obtain ⟨q, hc, hcs⟩ := h
    rw [ih hcs, hc.locked]
    by_cases hfail : c.Fails
    · rw [if_pos hfail, List.countP_cons_of_pos (by simpa using hfail), Function.iterate_succ_apply]
    · rw [if_neg hfail, List.countP_cons_of_neg (by simpa using hfail)]

/-- From depth zero, and with tracking on, the thread's allocations are tracked again after a call
exactly if nothing inside of the call fails. -/
theorem tracking_resumes_iff {σ : Type*} {m : Memory σ} {c : MadeCall} {p p' : Process α}
    (h : c.Ends p p') (hzero : p.locked = ⟨0, 0⟩) (hon : m.tracking = true)
    (hm : m.locked = p'.locked.memory.toNat) :
    m.Ready ↔ ¬ c.Fails := by
  rw [Memory.Ready, hm, h.locked, hzero]
  by_cases hfail : c.Fails
  · rw [if_pos hfail]
    exact iff_of_false (fun hready => absurd hready.2 (by decide)) (not_not_intro hfail)
  · rw [if_neg hfail]
    exact iff_of_true ⟨hon, rfl⟩ hfail

end Dtest
