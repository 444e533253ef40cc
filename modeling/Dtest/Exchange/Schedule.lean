import Dtest.Exchange.Invariant
import Mathlib.Algebra.BigOperators.Group.Finset.Basic

/-!
# The outcome of a test does not depend on the schedule

Where the driver waits for all of its workers or for none, the bodies of a distributed test are
parties that do not disable one another: what a call waits for is that the others have come far
enough.  `exchange_schedules`: no run takes a party further than a run that has come to a halt, and
every run comes to a halt, so that whether the bodies of a test end, and where they stay if they do
not, is the same in every interleaving.  A `wait(n)` for some of the workers does not have this
property.
-/

namespace Dtest

universe u v

variable {α : Type u} {μ : Type v}

/-! ## The parties -/

namespace Bodies

variable (t : Bodies α μ)

/-- Every wait of the driver is for no worker or for all. -/
def Whole : Prop := ∀ n, .wait n ∈ t.steps →
  t.ctx.waitCount n = 0 ∨ t.order.length ≤ t.ctx.waitCount n

/-- The number of waits for all workers among the driver's first `pc` steps. -/
def rounds (pc : ℕ) : ℕ := (t.waits pc).count t.order.length

/-- The parties have come far enough for a step of the driver. -/
def StepReady (c : Option ℕ → ℕ) : DriverStep μ → Prop
  | .send .. => True
  | .wait n => t.ctx.waitCount n = 0 ∨ t.ctx.waitCount n = t.order.length ∧
      ∀ id ∈ t.order, t.rounds (c none) < notifiesFrom id (t.frames c)
  | .getUserMessage => (t.steps.take (c none)).countP DriverStep.gets <
      t.ctx.userMessages.length + ((t.frames c).filterMap (·.message?)).length

/-- The driver has come far enough for a call of worker `id`. -/
def CallReady (c : Option ℕ → ℕ) (id : ℕ) : BodyCall μ → Prop
  | .wait n => t.taken id (c (some id)) + WorkerSide.waitCount n ≤
      t.notifyCount id + notifications (t.toWorker id (c none))
  | .getUserMessage => ((t.workerBody id).take (c (some id))).countP BodyCall.gets <
      (t.userMessages id).length +
        ((t.toWorker id (c none)).filterMap WorkerItem.message?).length
  | _ => True

/-- A party has a step that it can take. -/
def Enabled : Option ℕ → (Option ℕ → ℕ) → Prop
  | none, c => ∃ st, t.steps[c none]? = some st ∧ t.StepReady c st
  | some id, c => id ∈ t.order ∧
      ∃ call, (t.workerBody id)[c (some id)]? = some call ∧ t.CallReady c id call

variable {t} {c d : Option ℕ → ℕ}

theorem frames_sublist (h : c ≤ d) : (t.frames c).Sublist (t.frames d) := by
  refine List.Sublist.flatMap_right _ fun id _ => List.Sublist.filterMap _ ?_
  exact List.take_sublist_take_left (h (some id))

theorem toWorker_sublist {id pc pc' : ℕ} (h : pc ≤ pc') :
    (t.toWorker id pc).Sublist (t.toWorker id pc') :=
  List.Sublist.filterMap _ (List.take_sublist_take_left h)

/-- A step for which the parties have come far enough stays so. -/
theorem enabled_mono {i : Option ℕ} (hle : c ≤ d) (heq : c i = d i) (h : t.Enabled i c) :
    t.Enabled i d := by
  cases i with
  | none =>
    obtain ⟨st, hst, hready⟩ := h
    refine ⟨st, heq ▸ hst, ?_⟩
    have hframes := t.frames_sublist hle
    cases st with
    | send => trivial
    | wait n =>
      apply hready.imp_right
      rintro ⟨hall, hnotified⟩
      refine ⟨hall, fun id hid => ?_⟩
      rw [← heq]
      exact (hnotified id hid).trans_le hframes.countP_le
    | getUserMessage =>
      have hmessages := (hframes.filterMap (·.message?)).length_le
      change _ < _ at hready
      show _ < _
      rw [← heq]
      omega
  | some id =>
    obtain ⟨hid, call, hcall, hready⟩ := h
    refine ⟨hid, call, heq ▸ hcall, ?_⟩
    have hsent : (t.toWorker id (c none)).Sublist (t.toWorker id (d none)) :=
      t.toWorker_sublist (hle none)
    cases call with
    | notify | sendUserMessage => trivial
    | wait n =>
      have hnotified : notifications _ ≤ notifications _ := hsent.countP_le
      change _ ≤ _ at hready
      show _ ≤ _
      rw [← heq]
      omega
    | getUserMessage =>
      have hmessages := (hsent.filterMap WorkerItem.message?).length_le
      change _ < _ at hready
      show _ < _
      rw [← heq]
      omega

/-- The bodies as parties. -/
def parties (t : Bodies α μ) : Persistent (Option ℕ) := ⟨t.Enabled, enabled_mono⟩

end Bodies

namespace Exchange

variable {t : Bodies α μ} {s s' : Exchange α μ}

/-! ## The waits that returned -/

/-- The notifications processed are among those sent. -/
theorem Inv.processed_le (h : Inv t s) (id : ℕ) :
    notifiesFrom id s.driver.processed ≤ notifiesFrom id (t.frames s.progress) := by
  have hperm := h.frames.countP_eq (Frame.isNotify id)
  rw [List.countP_append] at hperm
  unfold notifiesFrom
  omega

/-- The workers that a wait counted are workers of the test. -/
theorem Inv.pulled_subset (h : Inv t s) {r : CompletedWait} (hr : r ∈ s.driver.completed) :
    r.pulled.card = r.n ∧ r.pulled ⊆ t.order.toFinset := by
  obtain ⟨i, hi, rfl⟩ := List.getElem_of_mem hr
  have hcorrect := h.driver.correct.completed i _ (List.getElem?_eq_getElem hi)
  refine ⟨hcorrect.card, fun k hk => ?_⟩
  have hkey := (Finset.mem_filter.1 (hcorrect.outstanding hk)).1
  exact List.mem_toFinset.2 (t.iterates.mem_iff.2 (List.mem_toFinset.1 hkey))

theorem card_order (t : Bodies α μ) : t.order.toFinset.card = t.order.length :=
  List.toFinset_card_of_nodup t.iterates.1

theorem whole_of_mem_waits (hwhole : t.Whole) {pc n : ℕ} (hn : n ∈ t.waits pc) :
    n = 0 ∨ t.order.length ≤ n := by
  obtain ⟨st, hst, hwait⟩ := List.mem_filterMap.1 hn
  cases st with
  | send | getUserMessage => cases hwait
  | wait m =>
    obtain rfl := Option.some.inj hwait
    exact hwhole m (List.mem_of_mem_take hst)

/-- Every wait for all workers has counted each of them. -/
theorem Inv.waitsCounting_eq (h : Inv t s) (hwhole : t.Whole) {id : ℕ} (hid : id ∈ t.order) :
    waitsCounting id s.driver.completed = t.rounds s.pc := by
  have hpos : 0 < t.order.length := List.length_pos_of_mem hid
  unfold waitsCounting Bodies.rounds List.count
  rw [← h.waits, List.countP_map]
  refine List.countP_congr fun r hr => ?_
  obtain ⟨hcard, hsub⟩ := h.pulled_subset hr
  have hmem : r.n ∈ t.waits s.pc := by
    rw [← h.waits]
    exact List.mem_map_of_mem hr
  have hle : r.n ≤ t.order.length := by
    rw [← hcard, ← card_order]
    exact Finset.card_le_card hsub
  simp only [decide_eq_true_eq, Function.comp_apply, beq_iff_eq]
  constructor
  · intro hpulled
    have hne : 0 < r.pulled.card := Finset.card_pos.2 ⟨id, hpulled⟩
    rcases whole_of_mem_waits hwhole hmem with hzero | hall
    · omega
    · omega
  · intro hall
    have heq : r.pulled = t.order.toFinset := by
      refine Finset.eq_of_subset_of_card_le hsub ?_
      rw [card_order]
      omega
    rw [heq]
    exact List.mem_toFinset.2 hid

/-! ## A step that is done was ready -/

theorem Inv.stepReady (h : Inv t s) (hwhole : t.Whole) {pc : ℕ} (hpc : s.pc = pc + 1)
    {st : DriverStep μ} (hst : t.steps[pc]? = some st) :
    t.StepReady (Function.update s.progress none pc) st := by
  have hreceived := h.received
  have hwaits := t.waits_succ hst
  rw [hpc, take_succ_of_getElem? hst, List.countP_append] at hreceived
  cases st with
  | send => trivial
  | getUserMessage =>
    have hmessages := congrArg List.length h.driver.correct.messages
    have hprocessed : (s.driver.processed.filterMap (·.message?)).length ≤
        ((t.frames s.progress).filterMap (·.message?)).length := by
      rw [← (h.frames.filterMap (·.message?)).length_eq, List.filterMap_append, List.length_append]
      omega
    show _ < _
    rw [t.frames_update_none, Function.update_self]
    rw [List.length_append, List.length_append] at hmessages
    change _ = _ + 1 at hreceived
    omega
  | wait n =>
    rcases hwhole n (List.mem_of_getElem? hst) with hzero | hall
    · exact Or.inl hzero
    · have hmem : t.ctx.waitCount n ∈ s.driver.completed.map (·.n) := by
        rw [h.waits, hpc, hwaits]
        simp [DriverStep.waitCount?]
      obtain ⟨r, hr, hn⟩ := List.mem_map.1 hmem
      obtain ⟨hcard, hsub⟩ := h.pulled_subset hr
      have hle := Finset.card_le_card hsub
      rw [card_order] at hle
      refine Or.inr ⟨by omega, fun id hid => ?_⟩
      rw [t.frames_update_none, Function.update_self]
      obtain ⟨w, hw⟩ := SortedMap.mem_keys.1
        ((h.driver.base.keys id).2 (t.iterates.mem_iff.1 hid))
      have hcount := h.driver.accounts id w hw
      have hle := h.processed_le id
      rw [h.waitsCounting_eq hwhole hid, hpc] at hcount
      have hround : t.rounds (pc + 1) = t.rounds pc + 1 := by
        unfold Bodies.rounds
        rw [hwaits, List.count_append]
        have : t.ctx.waitCount n = t.order.length := by omega
        simp [DriverStep.waitCount?, this]
      omega

theorem Inv.callReady (h : Inv t s) {id pc : ℕ} (hid : id ∈ t.order)
    (hpc : (s.workers id).pc = pc + 1) {call : BodyCall μ}
    (hcall : (t.workerBody id)[pc]? = some call) :
    t.CallReady (Function.update s.progress (some id) pc) id call := by
  obtain ⟨hnotified, hmessages, hreceived⟩ := h.workers id hid
  rw [hpc, t.taken_succ hcall] at hnotified
  rw [hpc, take_succ_of_getElem? hcall, List.countP_append] at hreceived
  cases call with
  | notify | sendUserMessage => trivial
  | wait n =>
    show _ ≤ _
    rw [Function.update_self, Function.update_of_ne (Option.some_ne_none id).symm]
    change _ = _ + WorkerSide.waitCount n + _ + _ at hnotified
    show _ ≤ t.notifyCount id + notifications (t.toWorker id s.pc)
    omega
  | getUserMessage =>
    have hlength := congrArg List.length hmessages
    rw [List.length_append, List.length_append, List.length_append] at hlength
    show _ < _
    rw [Function.update_self, Function.update_of_ne (Option.some_ne_none id).symm]
    change _ = _ + 1 at hreceived
    show _ < _ + ((t.toWorker id s.pc).filterMap WorkerItem.message?).length
    omega

/-! ## Each move is a step of one party or of none -/

theorem progress_update {c : Option ℕ → ℕ} {i : Option ℕ} {n : ℕ}
    (h : s'.progress = Function.update c i n) (hn : n = c i ∨ n = c i + 1) :
    s'.progress = c ∨ s'.progress = Persistent.advance c i := by
  rw [h]
  rcases hn with rfl | rfl
  · exact Or.inl (Function.update_eq_self i c)
  · exact Or.inr rfl

/-- The party that moves is at a step of its body. -/
def AtStep (t : Bodies α μ) (s : Exchange α μ) : Option ℕ → Prop
  | none => ∃ st, t.steps[s.pc]? = some st
  | some id => id ∈ t.order ∧ ∃ call, (t.workerBody id)[(s.workers id).pc]? = some call

theorem progress_setDriver (d : WaitRun α μ) (inFlight : List (Frame μ)) :
    ({ s.setDriver d with inFlight } : Exchange α μ).progress = s.progress ∨
      ({ s.setDriver d with inFlight } : Exchange α μ).progress =
        Persistent.advance s.progress none := by
  have hprogress : ({ s.setDriver d with inFlight } : Exchange α μ).progress =
      Function.update s.progress none (s.setDriver d).pc := progress_of_pc fun _ => rfl
  refine progress_update hprogress ?_
  unfold setDriver
  cases d.call.returned with
  | true => exact Or.inr rfl
  | false => exact Or.inl rfl

theorem progress_move (h : Inv t s) {m : ExchangeMove} (hmove : move t s m = some s') :
    ∃ i, AtStep t s i ∧ (s'.progress = s.progress ∨
      s'.progress = Persistent.advance s.progress i) := by
  rcases move_cases hmove with ⟨-, -, st, hst, hstep⟩ | ⟨i, f, -, hreads, -, rfl⟩ |
    ⟨id, c, -, hid, hc, hreads, rfl⟩ | ⟨id, c, item, unread, -, hid, hc, hunread, -, rfl⟩
  · refine ⟨none, ⟨st, hst⟩, ?_⟩
    rcases hstep with ⟨id, item, rfl, rfl⟩ | ⟨n, rfl, rfl⟩ | ⟨rfl, rfl⟩
    · refine progress_update (progress_of_pc fun id' => ?_) (Or.inr rfl)
      show (Function.update s.workers id _ id').pc = _
      by_cases heq : id' = id
      · subst heq
        simp
      · simp [heq]
    · exact progress_setDriver _ s.inFlight
    · exact progress_setDriver _ s.inFlight
  · obtain ⟨st, hst, -⟩ := h.inCall hreads
    exact ⟨none, ⟨st, hst⟩, progress_setDriver _ _⟩
  · obtain ⟨-, hpc, -⟩ := (h.workers id hid).call hc hreads
    refine ⟨some id, ⟨hid, c, hc⟩, progress_update (n := (s.workers id).pc + 1) ?_ (Or.inr rfl)⟩
    rw [← hpc]
    exact progress_setWorker s id _
  · refine ⟨some id, ⟨hid, c, hc⟩, progress_update (n := (s.workers id).pc) ?_ (Or.inl rfl)⟩
    have hpc : (({ s.workers id with unread } : WorkerSide μ).waitForEvent item).pc =
        (s.workers id).pc := by cases item <;> rfl
    rw [← hpc]
    exact progress_setWorker s id _

/-- A party that steps was able to. -/
theorem Inv.enabled (h' : Inv t s') (hwhole : t.Whole) {i : Option ℕ} (hat : AtStep t s i)
    (hprogress : s'.progress = Persistent.advance s.progress i) : t.Enabled i s.progress := by
  have hback : Function.update s'.progress i (s.progress i) = s.progress := by
    rw [hprogress, Persistent.advance, Function.update_idem, Function.update_eq_self]
  have hpc := congrFun hprogress i
  rw [Persistent.advance_self] at hpc
  cases i with
  | none =>
    obtain ⟨st, hst⟩ := hat
    refine ⟨st, hst, ?_⟩
    rw [← hback]
    exact h'.stepReady hwhole hpc hst
  | some id =>
    obtain ⟨hid, call, hcall⟩ := hat
    refine ⟨hid, call, hcall, ?_⟩
    rw [← hback]
    exact h'.callReady hid hpc hcall

/-! ## A system at rest -/

/-- A driver that has nothing left to read waits for what has not been sent. -/
theorem Inv.not_stepReady (h : Inv t s) (hwhole : t.Whole) {st : DriverStep μ}
    (hempty : s.inFlight = []) (hin : WaitRun.InCall t.ctx st s.driver.call) :
    ¬ t.StepReady s.progress st := by
  have hframes := h.frames
  rw [hempty, List.append_nil] at hframes
  intro hready
  generalize hcall : s.driver.call = call at hin
  cases hin with
  | wait m start pulled =>
    have hwaits := h.driver.waits _ _ _ hcall
    have hlt := hwaits.card_lt
    rcases hready with hzero | ⟨hall, hnotified⟩
    · omega
    · have hex : ∃ id ∈ t.order.toFinset, id ∉ pulled := by
        by_contra hnone
        have hsub : t.order.toFinset ⊆ pulled := fun id hid => by
          by_contra hnot
          exact hnone ⟨id, hid, hnot⟩
        have hle := Finset.card_le_card hsub
        rw [card_order] at hle
        omega
      obtain ⟨id, hid, hnot⟩ := hex
      rw [List.mem_toFinset] at hid
      obtain ⟨w, hw⟩ := SortedMap.mem_keys.1
        ((h.driver.base.keys id).2 (t.iterates.mem_iff.1 hid))
      have hcount := h.driver.accounts id w hw
      have hzero := hwaits.zero id w hw hnot
      rw [hcall, h.waitsCounting_eq hwhole hid] at hcount
      change _ + (_ + if id ∈ pulled then 1 else 0) = _ at hcount
      rw [if_neg hnot] at hcount
      have heq : notifiesFrom id s.driver.processed = notifiesFrom id (t.frames s.progress) :=
        hframes.countP_eq _
      have hlater := hnotified id hid
      change t.rounds s.pc < _ at hlater
      omega
  | getUserMessage =>
    have hmessages := congrArg List.length h.driver.correct.messages
    rw [List.length_append, List.length_append, h.getting hcall,
      (hframes.filterMap (·.message?)).length_eq, h.received] at hmessages
    change (t.steps.take s.pc).countP DriverStep.gets < _ at hready
    change _ + 0 = _ at hmessages
    omega

/-- A worker that has nothing left to read waits for what has not been sent. -/
theorem Inv.not_callReady (h : Inv t s) {id : ℕ} (hid : id ∈ t.order) {call : BodyCall μ}
    (hempty : (s.workers id).unread = []) (hreads : (s.workers id).reads call = true) :
    ¬ t.CallReady s.progress id call := by
  obtain ⟨hnotified, hmessages, hreceived⟩ := h.workers id hid
  rw [hempty] at hnotified hmessages
  intro hready
  cases call with
  | notify | sendUserMessage => cases hreads
  | wait n =>
    have hlt : (s.workers id).notifyCount < WorkerSide.waitCount n := of_decide_eq_true hreads
    change t.taken id (s.workers id).pc + _ ≤ _ + notifications (t.toWorker id s.pc) at hready
    change _ = _ + _ + 0 at hnotified
    omega
  | getUserMessage =>
    have hqueue : (s.workers id).userMessages = [] := List.isEmpty_iff.1 hreads
    have hlength := congrArg List.length hmessages
    rw [hqueue, List.length_append, List.length_append, List.length_append, hreceived] at hlength
    change ((t.workerBody id).take (s.workers id).pc).countP BodyCall.gets <
      _ + ((t.toWorker id s.pc).filterMap WorkerItem.message?).length at hready
    change _ = _ + 0 + 0 at hlength
    omega

/-- Where no move is left no party can step. -/
theorem Inv.stuck (h : Inv t s) (hwhole : t.Whole) (hrest : ∀ m, move t s m = none) :
    t.parties.Stuck s.progress := by
  intro i hi
  cases i with
  | none =>
    obtain ⟨st, hst, hready⟩ := hi
    change t.steps[s.pc]? = some st at hst
    have hmove := hrest .driverStep
    simp only [move, hst] at hmove
    cases hcall : s.driver.call with
    | crashed => exact h.driver.alive hcall
    | idle =>
      rw [hcall, if_pos (show DriverCall.idle.returned = true from rfl)] at hmove
      cases st <;> cases hmove
    | waiting | getting =>
      have hreads : s.driver.call.reads = true := by
        rw [hcall]
        rfl
      obtain ⟨st', hst', hin⟩ := h.inCall hreads
      obtain rfl : st = st' := Option.some.inj (hst.symm.trans hst')
      refine h.not_stepReady hwhole ?_ hin hready
      have hread := hrest (.driverReads 0)
      cases hflight : s.inFlight with
      | nil => rfl
      | cons f rest => simp [move, hreads, hflight] at hread
  | some id =>
    obtain ⟨hid, call, hcall, hready⟩ := hi
    change (t.workerBody id)[(s.workers id).pc]? = some call at hcall
    have hmove := hrest (.workerCall id)
    simp only [move, if_pos hid, hcall] at hmove
    cases hreads : (s.workers id).reads call with
    | false => simp [hreads] at hmove
    | true =>
      refine h.not_callReady hid ?_ hreads hready
      have hread := hrest (.workerReads id)
      cases hunread : (s.workers id).unread with
      | nil => rfl
      | cons item unread => simp [move, hid, hcall, hunread, hreads] at hread

/-- The system is one of parties that do not disable one another. -/
theorem implements (hfit : t.Fits) (hwhole : t.Whole) :
    t.parties.Implements (system t) (Inv t) progress := by
  have hstep : ∀ {s : Exchange α μ} {m}, (system t).allowed s m →
      ∃ s', move t s m = some s' ∧ (system t).step s m = s' := by
    intro s m hallowed
    obtain ⟨s', hmove⟩ := Guarded.ofMove_allowed_iff.1 hallowed
    exact ⟨s', hmove, Guarded.ofMove_step hmove⟩
  refine ⟨fun s m h hallowed => ?_, fun s m h hallowed => ?_, fun s h hrest => ?_⟩
  · obtain ⟨s', hmove, hs'⟩ := hstep hallowed
    rw [hs']
    exact inv_move hfit h hmove
  · obtain ⟨s', hmove, hs'⟩ := hstep hallowed
    rw [hs']
    obtain ⟨i, hat, hsame | hadvance⟩ := progress_move h hmove
    · exact Or.inl hsame
    · exact Or.inr ⟨i, (inv_move hfit h hmove).enabled hwhole hat hadvance, hadvance⟩
  · refine h.stuck hwhole fun m => ?_
    exact Option.not_isSome_iff_eq_none.1 (hrest m)

/-! ## Every run comes to a halt -/

/-- What a worker has left to do. -/
def workLeft (t : Bodies α μ) (id : ℕ) (w : WorkerSide μ) : ℕ :=
  2 * ((t.workerBody id).length - w.pc) + w.unread.length

/-- What the parties have left to do. -/
def left (t : Bodies α μ) (s : Exchange α μ) : ℕ :=
  2 * (t.steps.length - s.pc) + (if s.driver.call.returned then 1 else 0) + s.inFlight.length +
    ∑ id ∈ t.order.toFinset, workLeft t id (s.workers id)

theorem sum_setWorker {id : ℕ} (hid : id ∈ t.order) (w : WorkerSide μ) :
    (∑ id' ∈ t.order.toFinset, workLeft t id' ((s.setWorker id w).workers id')) +
        workLeft t id (s.workers id) =
      (∑ id' ∈ t.order.toFinset, workLeft t id' (s.workers id')) + workLeft t id w := by
  have hmem := List.mem_toFinset.2 hid
  have hsame : ∑ id' ∈ t.order.toFinset.erase id, workLeft t id' ((s.setWorker id w).workers id') =
      ∑ id' ∈ t.order.toFinset.erase id, workLeft t id' (s.workers id') := by
    refine Finset.sum_congr rfl fun id' hid' => ?_
    show workLeft t id' (Function.update s.workers id w id') = _
    rw [Function.update_of_ne (Finset.ne_of_mem_erase hid')]
  have hself : workLeft t id ((s.setWorker id w).workers id) = workLeft t id w := by
    show workLeft t id (Function.update s.workers id w id) = _
    rw [Function.update_self]
  rw [← Finset.add_sum_erase _ _ hmem, ← Finset.add_sum_erase _ _ hmem, hsame, hself]
  omega

theorem mem_order_of_send {id : ℕ} {item : WorkerItem μ} (h : .send id item ∈ t.steps) :
    id ∈ t.order := by
  obtain ⟨call, -, hmem⟩ := List.mem_flatMap.1 h
  cases call with
  | notify | sendUserMessage =>
    obtain ⟨id', hid', heq⟩ := List.mem_map.1 hmem
    injection heq with heq
    exact heq ▸ hid'
  | wait | getUserMessage => cases List.mem_singleton.1 hmem

theorem left_setDriver {d : WaitRun α μ} {inFlight : List (Frame μ)} (hpc : s.pc < t.steps.length)
    (hless : inFlight.length + (if s.driver.call.returned then 0 else 1) ≤ s.inFlight.length) :
    left t { s.setDriver d with inFlight } < left t s := by
  unfold left setDriver
  dsimp only
  cases d.call.returned with
  | true =>
    rw [if_pos rfl, if_pos rfl]
    split_ifs at hless ⊢ <;> omega
  | false =>
    rw [if_neg Bool.false_ne_true, if_neg Bool.false_ne_true]
    split_ifs at hless ⊢ <;> omega

/-- Every move leaves less to do. -/
theorem left_move (h : Inv t s) {m : ExchangeMove} (hmove : move t s m = some s') :
    left t s' < left t s := by
  rcases move_cases hmove with ⟨-, hidle, st, hst, hstep⟩ | ⟨i, f, -, hreads, hf, rfl⟩ |
    ⟨id, c, -, hid, hc, hreads, rfl⟩ | ⟨id, c, item, unread, -, hid, hc, hunread, -, rfl⟩
  · have hpc := (List.getElem?_eq_some_iff.1 hst).1
    have hflight : s.inFlight.length + (if s.driver.call.returned then 0 else 1) ≤
        s.inFlight.length := by
      rw [hidle]
      exact le_rfl
    rcases hstep with ⟨id, item, rfl, rfl⟩ | ⟨n, rfl, rfl⟩ | ⟨rfl, rfl⟩
    · have hid := mem_order_of_send (List.mem_of_getElem? hst)
      have hsum := sum_setWorker (s := s) hid
        { s.workers id with unread := (s.workers id).unread ++ [item] }
      have hwork : workLeft t id { s.workers id with unread := (s.workers id).unread ++ [item] } =
          workLeft t id (s.workers id) + 1 := by
        unfold workLeft
        rw [List.length_append]
        rfl
      show 2 * (t.steps.length - (s.pc + 1)) + (if s.driver.call.returned then 1 else 0) +
        s.inFlight.length + (∑ id' ∈ t.order.toFinset,
          workLeft t id' ((s.setWorker id _).workers id')) <
          left t s
      unfold left
      omega
    · exact left_setDriver hpc hflight
    · exact left_setDriver hpc hflight
  · obtain ⟨st, hst, -⟩ := h.inCall hreads
    obtain ⟨hi, -⟩ := List.getElem?_eq_some_iff.1 hf
    refine left_setDriver (List.getElem?_eq_some_iff.1 hst).1 ?_
    rw [List.length_eraseIdx_of_lt hi]
    split_ifs <;> omega
  · obtain ⟨-, hpc, hsent⟩ := (h.workers id hid).call hc hreads
    have hlt := (List.getElem?_eq_some_iff.1 hc).1
    have hsum := sum_setWorker (s := s) hid ((s.workers id).call id c).1
    have hunread : ((s.workers id).call id c).1.unread = (s.workers id).unread := by
      cases c with
      | notify | sendUserMessage | wait => rfl
      | getUserMessage =>
        unfold WorkerSide.call
        dsimp only
        split <;> rfl
    have hwork : workLeft t id ((s.workers id).call id c).1 + 2 = workLeft t id (s.workers id) := by
      unfold workLeft
      rw [hpc, hunread]
      omega
    have hlength : ((s.workers id).call id c).2.length ≤ 1 := by
      rw [hsent]
      cases c.frame? id with
      | none => exact Nat.zero_le 1
      | some f => exact le_rfl
    show 2 * (t.steps.length - s.pc) + (if s.driver.call.returned then 1 else 0) +
      (s.inFlight ++ _).length +
        (∑ id' ∈ t.order.toFinset, workLeft t id' ((s.setWorker id _).workers id')) < left t s
    rw [List.length_append]
    unfold left
    omega
  · have hsum := sum_setWorker (s := s) hid
      (({ s.workers id with unread } : WorkerSide μ).waitForEvent item)
    have hwork : workLeft t id
      (({ s.workers id with unread } : WorkerSide μ).waitForEvent item) + 1 =
        workLeft t id (s.workers id) := by
      unfold workLeft
      rw [hunread]
      cases item <;> exact (Nat.add_assoc _ _ _).trans rfl
    show 2 * (t.steps.length - s.pc) + (if s.driver.call.returned then 1 else 0) +
      s.inFlight.length + (∑ id' ∈ t.order.toFinset,
        workLeft t id' ((s.setWorker id _).workers id')) < left t s
    unfold left
    omega

theorem left_init (t : Bodies α μ) :
    left t (init t) = 2 * t.steps.length + 1 + ∑ id ∈ t.order.toFinset,
      2 * (t.workerBody id).length :=
  rfl

end Exchange

/-- Where every wait of the driver is for all workers or for none, no run of the bodies takes a
party further than a run that cannot go on, and every run is over after a number of moves that the
bodies bound. -/
theorem exchange_schedules (t : Bodies α μ) (hfit : t.Fits) (hwhole : t.Whole)
    (ms ms' : List ExchangeMove) (h : (Exchange.system t).Admissible (Exchange.init t) ms)
    (h' : (Exchange.system t).Admissible (Exchange.init t) ms') :
    let s := (Exchange.system t).exec (Exchange.init t) ms
    let s' := (Exchange.system t).exec (Exchange.init t) ms'
    ms.length ≤ 2 * t.steps.length + 1 + ∑ id ∈ t.order.toFinset, 2 * (t.workerBody id).length ∧
      ((∀ m, Exchange.move t s' m = none) →
        s.pc ≤ s'.pc ∧ ∀ id, (s.workers id).pc ≤ (s'.workers id).pc) := by
  intro s s'
  have himplements := Exchange.implements hfit hwhole
  have hinit := Exchange.inv_init t
  constructor
  · rw [← Exchange.left_init]
    refine Nat.le_of_add_right_le (Guarded.length_le_measure (μ := Exchange.left t) himplements.inv
      (fun s m hs hallowed => ?_) hinit h)
    obtain ⟨s', hmove⟩ := Guarded.ofMove_allowed_iff.1 hallowed
    show Exchange.left t ((Guarded.ofMove (Exchange.move t)).step s m) < _
    rw [Guarded.ofMove_step hmove]
    exact Exchange.left_move hs hmove
  · intro hrest
    have hle := himplements.progress_le_final hinit h h' fun m hallowed => by
      obtain ⟨s', hmove⟩ := Guarded.ofMove_allowed_iff.1 hallowed
      rw [hrest m] at hmove
      cases hmove
    exact ⟨hle none, fun id => hle (some id)⟩

theorem answering_rests (m : ExchangeMove) : Exchange.move answering
    ((Exchange.system answering).exec (Exchange.init answering) answeringMoves) m = none := by
  have hworker : ∀ id, id ∈ answering.order → id = 2 ∨ id = 1 := fun id hid => by
    simpa [answering] using hid
  cases m with
  | driverStep => exact Option.isNone_iff_eq_none.1 (by decide +kernel)
  | driverReads i =>
    simp only [Exchange.move]
    exact if_neg (by decide +kernel)
  | workerCall id | workerReads id =>
    by_cases hid : id ∈ answering.order
    · rcases hworker id hid with rfl | rfl <;> exact Option.isNone_iff_eq_none.1 (by decide +kernel)
    · exact if_neg hid

/-- The run to the end is as far as any run of this test gets. -/
theorem exchange_schedules_answeringMoves :
    let s := (Exchange.system answering).exec (Exchange.init answering) (answeringMoves.take 5)
    let s' := (Exchange.system answering).exec (Exchange.init answering) answeringMoves
    s.pc ≤ s'.pc ∧ (∀ id, (s.workers id).pc ≤ (s'.workers id).pc) ∧ s'.pc = 4 := by
  intro s s'
  have hwhole : answering.Whole := by
    intro n hn
    have heq : n = 2 ^ 32 - 1 := by
      simpa [answering, Bodies.steps, BodyCall.driverSteps] using hn
    subst heq
    exact Or.inr (by decide)
  obtain ⟨-, hle⟩ := exchange_schedules answering ⟨by decide, by decide⟩ hwhole
    (answeringMoves.take 5) answeringMoves (by decide +kernel) (by decide +kernel)
  obtain ⟨hpc, hworkers⟩ := hle answering_rests
  exact ⟨hpc, hworkers, by decide +kernel⟩

/-- Two workers, of which the first notifies twice, and a driver that waits for one and then for
both. -/
def partialWait : Bodies ℕ ℕ :=
  { answering with body := [.wait 1, .wait 2], workerBody := fun id => .replicate (3 - id) .notify }

/-- The second wait returns only if the first one has counted the worker that notifies twice. -/
example :
    let run := fun i j k => (Exchange.system partialWait).exec (Exchange.init partialWait)
      [.workerCall 1, .workerCall 1, .workerCall 2, .driverStep, .driverReads i, .driverStep,
        .driverReads j, .driverReads k]
    (run 0 0 0).pc = 2 ∧ (run 2 0 0).pc = 1 ∧ (run 2 0 0).inFlight.length = 0 := by
  decide +kernel

end Dtest
