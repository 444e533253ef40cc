import Dtest.Session.Model

/-!
# What a test consumes was sent in the same test

This holds of every run in which no test starts while something sent earlier is outstanding at the
driver or at a worker it allocates (`consumed_fresh`).  Without that it fails: the driver resets its
own `_notifyCount`s, but nothing resets those of the workers (`stale_notification`).
-/

namespace Dtest

/-- Everything in the inbox was sent in test `k`. -/
def WorkerInbox.From (k : ℕ) (b : WorkerInbox) : Prop :=
  (∀ t ∈ b.notifyCount, t = k) ∧ ∀ t ∈ b.userMessages, t = k

/-- Everything in the inbox was sent in test `k`. -/
def DriverInbox.From (k : ℕ) (b : DriverInbox) : Prop :=
  (∀ w, ∀ t ∈ b.notifyCount w, t = k) ∧ ∀ t ∈ b.userMessages, t = k

theorem mem_countOne {count : List ℕ} {k t : ℕ} (h : t ∈ countOne count k) : t = k ∨ t ∈ count := by
  unfold countOne at h
  split_ifs at h
  · exact absurd h List.not_mem_nil
  · exact (List.mem_append.1 h).symm.imp_left List.mem_singleton.1

theorem WorkerInbox.From.receive {k : ℕ} {b : WorkerInbox} (h : b.From k) {m : Sent}
    (hm : m.test = k) : (b.receive m).From k := by
  obtain ⟨item, t⟩ := m
  subst hm
  cases item with
  | runTest => exact h
  | notify => exact ⟨fun t ht => (mem_countOne ht).elim id (h.1 t), h.2⟩
  | userMessage =>
    refine ⟨h.1, fun t ht => ?_⟩
    exact (List.mem_append.1 ht).elim (h.2 t) List.mem_singleton.1

namespace WorkerParty

variable {p : WorkerParty} {k i : ℕ}

/-- Everything that a worker keeps or has not read was sent in test `k`. -/
structure Current (k : ℕ) (p : WorkerParty) : Prop where
  inbox : p.inbox.From k
  child : ∀ b, p.child = some b → b.From k
  unread : ∀ c ∈ p.unread, ∀ m ∈ c, m.test = k

/-- The unread RUN_TEST messages. -/
def runs (unread : List (List Sent)) : ℕ := unread.flatten.countP (·.item = .runTest)

/-- The tests that the worker runs or has been told to run. -/
def busy (p : WorkerParty) : ℕ := runs p.unread + if p.inTest.isSome then 1 else 0

theorem inTest_eq_none (h : p.busy = 0) : p.inTest = none := by
  rw [← Option.not_isSome_iff_eq_none]
  intro hsome
  rw [busy, if_pos hsome] at h
  omega

theorem Current.active (h : p.Current k) : p.active.From k := by
  unfold WorkerParty.active
  cases hc : p.child with
  | none => exact h.inbox
  | some b => exact h.child b hc

theorem Current.setActive (h : p.Current k) {b : WorkerInbox} (hb : b.From k) :
    (p.setActive b).Current k := by
  unfold WorkerParty.setActive
  cases hc : p.child with
  | none => exact ⟨hb, nofun, h.unread⟩
  | some _ =>
    refine ⟨h.inbox, fun b' hb' => ?_, h.unread⟩
    obtain rfl := Option.some.inj hb'
    exact hb

@[simp] theorem setActive_unread (b : WorkerInbox) : (p.setActive b).unread = p.unread := by
  unfold setActive
  cases p.child <;> rfl

@[simp] theorem setActive_inTest (b : WorkerInbox) : (p.setActive b).inTest = p.inTest := by
  unfold setActive
  cases p.child <;> rfl

theorem busy_setActive (b : WorkerInbox) : (p.setActive b).busy = p.busy := by
  simp [busy]

theorem pop_spec {unread unread' : List (List Sent)} {m : Sent}
    (h : pop i unread = some (m, unread')) :
    (∃ c ∈ unread, m ∈ c) ∧ (∀ c ∈ unread', ∀ x ∈ c, ∃ c' ∈ unread, x ∈ c') ∧
      runs unread = runs unread' + if m.item = .runTest then 1 else 0 := by
  induction unread generalizing i unread' with
  | nil => cases i <;> exact absurd h nofun
  | cons c cs ih =>
    cases i with
    | zero =>
      cases c with
      | nil => exact absurd h nofun
      | cons x c =>
        obtain ⟨rfl, rfl⟩ := Prod.mk.inj (Option.some.inj h)
        refine ⟨⟨_, List.mem_cons_self .., List.mem_cons_self ..⟩, fun c' hc' x hx => ?_, ?_⟩
        · rcases List.mem_cons.1 hc' with rfl | hc'
          · exact ⟨_, List.mem_cons_self .., List.mem_cons_of_mem _ hx⟩
          · exact ⟨c', List.mem_cons_of_mem _ hc', hx⟩
        · simp only [runs, List.flatten_cons, List.cons_append, List.countP_cons, decide_eq_true_eq]
    | succ i =>
      simp only [pop] at h
      obtain ⟨⟨m', cs'⟩, hpop, heq⟩ := Option.map_eq_some_iff.1 h
      obtain ⟨rfl, rfl⟩ := Prod.mk.inj heq
      obtain ⟨⟨d, hd, hmd⟩, hsub, hruns⟩ := ih hpop
      refine ⟨⟨d, List.mem_cons_of_mem _ hd, hmd⟩, fun c' hc' x hx => ?_, ?_⟩
      · rcases List.mem_cons.1 hc' with rfl | hc'
        · exact ⟨c', List.mem_cons_self .., hx⟩
        · obtain ⟨c'', hc'', hx'⟩ := hsub c' hc' x hx
          exact ⟨c'', List.mem_cons_of_mem _ hc'', hx'⟩
      · simp only [runs, List.flatten_cons, List.countP_append] at hruns ⊢
        omega

/-- A worker begins a test, drops a RUN_TEST during a test, or banks a message. -/
theorem handle_cases (p : WorkerParty) (inProcess : Bool) (m : Sent) :
    (m.item = .runTest ∧ p.inTest = none ∧ p.handle inProcess m =
      { p with inTest := some m.test, child := if inProcess then none else some p.inbox }) ∨
    (m.item = .runTest ∧ p.inTest.isSome ∧ p.handle inProcess m = p) ∨
    (m.item ≠ .runTest ∧ p.handle inProcess m = p.setActive (p.active.receive m)) := by
  obtain ⟨item, t⟩ := m
  cases item with
  | runTest =>
    rcases Option.eq_none_or_eq_some p.inTest with hin | ⟨t', hin⟩
    · exact Or.inl ⟨rfl, hin, by simp only [handle, hin]⟩
    · exact Or.inr (Or.inl ⟨rfl, by rw [hin]; rfl, by simp only [handle, hin]⟩)
  | notify => exact Or.inr (Or.inr ⟨nofun, rfl⟩)
  | userMessage => exact Or.inr (Or.inr ⟨nofun, rfl⟩)

/-- A worker with at most one test to run keeps it when it reads a message. -/
theorem busy_read (hbusy : p.busy ≤ 1) (inProcess : Bool) (i : ℕ) :
    (p.read inProcess i).busy = p.busy := by
  unfold read
  cases hpop : pop i p.unread with
  | none => rfl
  | some r =>
    obtain ⟨m, unread⟩ := r
    have hruns := (pop_spec hpop).2.2
    dsimp only
    rcases handle_cases { p with unread } inProcess m with
      ⟨hitem, hin, hgo⟩ | ⟨hitem, hin, hgo⟩ | ⟨hitem, hgo⟩
    · rw [hgo]
      dsimp only at hin
      simp [busy, hruns, hitem, hin]
    · -- a second test to run is excluded
      dsimp only at hin
      simp only [busy, hruns, hitem, hin, if_true] at hbusy
      omega
    · rw [hgo, busy_setActive]
      simp [busy, hruns, hitem]

theorem setActive_child {b : WorkerInbox} (h : p.child = none) : (p.setActive b).child = none := by
  unfold setActive
  rw [h]

/-- A worker that runs no test has no forked process. -/
theorem child_read (h : p.inTest = none → p.child = none) (inProcess : Bool) (i : ℕ)
    (hin : (p.read inProcess i).inTest = none) : (p.read inProcess i).child = none := by
  unfold read at hin ⊢
  cases hpop : pop i p.unread with
  | none =>
    rw [hpop] at hin
    exact h hin
  | some r =>
    obtain ⟨m, unread⟩ := r
    rw [hpop] at hin
    dsimp only at hin ⊢
    rcases handle_cases { p with unread } inProcess m with
      ⟨-, -, hgo⟩ | ⟨-, hsome, hgo⟩ | ⟨-, hgo⟩
    · rw [hgo] at hin
      exact absurd hin nofun
    · rw [hgo] at hin
      exact absurd hsome (by rw [hin]; decide)
    · rw [hgo] at hin ⊢
      rw [setActive_inTest] at hin
      exact setActive_child (h hin)

/-- What a worker keeps is still of test `k` after it has read a message of test `k`, and so is the
test it runs. -/
theorem Current.read (h : p.Current k) (inProcess : Bool) (i : ℕ)
    (hrun : ∀ t, p.inTest = some t → t = k) :
    (p.read inProcess i).Current k ∧ ∀ t, (p.read inProcess i).inTest = some t → t = k := by
  unfold WorkerParty.read
  cases hpop : pop i p.unread with
  | none => exact ⟨h, hrun⟩
  | some r =>
    obtain ⟨m, unread⟩ := r
    obtain ⟨⟨c, hc, hmc⟩, hsub, -⟩ := pop_spec hpop
    have hm := h.unread c hc m hmc
    have h' : ({ p with unread } : WorkerParty).Current k :=
      ⟨h.inbox, h.child, fun c' hc' x hx => by
        obtain ⟨c'', hc'', hx'⟩ := hsub c' hc' x hx
        exact h.unread c'' hc'' x hx'⟩
    dsimp only
    rcases handle_cases { p with unread } inProcess m with ⟨-, -, hgo⟩ | ⟨-, -, hgo⟩ | ⟨-, hgo⟩
    · rw [hgo]
      refine ⟨⟨h.inbox, fun b hb => ?_, h'.unread⟩, fun t ht => ?_⟩
      · dsimp only at hb
        split_ifs at hb
        obtain rfl := Option.some.inj hb
        exact h.inbox
      · exact Option.some.inj ht ▸ hm
    · rw [hgo]
      exact ⟨h', hrun⟩
    · rw [hgo]
      refine ⟨h'.setActive (h'.active.receive hm), fun t ht => ?_⟩
      rw [setActive_inTest] at ht
      exact hrun t ht

theorem mem_appendToLast {m x : Sent} {unread : List (List Sent)} {c : List Sent}
    (hc : c ∈ Session.appendToLast m unread) (hx : x ∈ c) : x = m ∨ ∃ c' ∈ unread, x ∈ c' := by
  induction unread using Session.appendToLast.induct with
  | case1 => exact absurd hc List.not_mem_nil
  | case2 d =>
    obtain rfl := List.mem_singleton.1 hc
    rcases List.mem_append.1 hx with hx | hx
    · exact Or.inr ⟨d, List.mem_singleton_self d, hx⟩
    · exact Or.inl (List.mem_singleton.1 hx)
  | case3 d e es ih =>
    rcases List.mem_cons.1 hc with rfl | hc
    · exact Or.inr ⟨c, List.mem_cons_self .., hx⟩
    · obtain hxm | ⟨c', hc', hx'⟩ := ih hc
      · exact Or.inl hxm
      · exact Or.inr ⟨c', List.mem_cons_of_mem _ hc', hx'⟩

theorem runs_appendToLast {m : Sent} (hm : m.item ≠ .runTest) (unread : List (List Sent)) :
    runs (Session.appendToLast m unread) = runs unread := by
  induction unread using Session.appendToLast.induct with
  | case1 => rfl
  | case2 d => simp [Session.appendToLast, runs, hm]
  | case3 d e es ih =>
    simp only [Session.appendToLast, runs, List.flatten_cons, List.countP_append] at ih ⊢
    rw [ih]

/-- What the invariant of a session says of one worker: it runs no other test than `k`, it is told
so once if it is allocated, and then it meets nothing of another test. -/
structure Fits (k : ℕ) (allocated done : Prop) [Decidable allocated] [Decidable done]
    (p : WorkerParty) : Prop where
  busy : p.busy + (if done then 1 else 0) = if allocated then 1 else 0
  inTest : ∀ t, p.inTest = some t → t = k
  forked : p.inTest = none → p.child = none
  current : allocated → p.Current k

section

variable {allocated done : Prop} [Decidable allocated] [Decidable done]

theorem Fits.busy_le (h : p.Fits k allocated done) : p.busy ≤ 1 := by
  have hb := h.busy
  split_ifs at hb <;> omega

/-- A worker in a test is allocated and has not finished, and it is not told to run another. -/
theorem Fits.running (h : p.Fits k allocated done) (hin : p.inTest.isSome) :
    allocated ∧ ¬ done ∧ runs p.unread = 0 := by
  have hb := h.busy
  rw [WorkerParty.busy, if_pos hin] at hb
  have ha : allocated := by
    by_contra ha
    rw [if_neg ha] at hb
    omega
  have hd : ¬ done := by
    intro hd
    rw [if_pos ha, if_pos hd] at hb
    omega
  rw [if_pos ha, if_neg hd] at hb
  exact ⟨ha, hd, by omega⟩

theorem Fits.busy_eq_zero (h : p.Fits k allocated done) (hfree : allocated → done) :
    p.busy = 0 := by
  have hb := h.busy
  by_cases ha : allocated
  · rw [if_pos ha, if_pos (hfree ha)] at hb
    omega
  · rw [if_neg ha] at hb
    omega

theorem Fits.setActive (h : p.Fits k allocated done) (hin : p.inTest.isSome) {b : WorkerInbox}
    (hb : b.From k) : (p.setActive b).Fits k allocated done := by
  refine ⟨?_, fun t ht => ?_, fun hnone => ?_, fun ha => (h.current ha).setActive hb⟩
  · rw [busy_setActive]
    exact h.busy
  · rw [setActive_inTest] at ht
    exact h.inTest t ht
  · rw [setActive_inTest] at hnone
    rw [hnone] at hin
    exact absurd hin nofun

theorem Fits.read (h : p.Fits k allocated done) (inProcess : Bool) (i : ℕ) :
    (p.read inProcess i).Fits k allocated done := by
  have hbusy := busy_read h.busy_le inProcess i
  refine ⟨?_, fun t ht => ?_, child_read h.forked inProcess i,
    fun ha => ((h.current ha).read inProcess i h.inTest).1⟩
  · rw [hbusy]
    exact h.busy
  · by_cases ha : allocated
    · exact ((h.current ha).read inProcess i h.inTest).2 t ht
    · -- a worker without a test is not told to run one
      have hzero := h.busy_eq_zero fun h' => absurd h' ha
      exact absurd ((inTest_eq_none (hbusy.trans hzero)).symm.trans ht) nofun

theorem Fits.send (h : p.Fits k allocated done) {item : Item} (hitem : item ≠ .runTest) :
    Fits k allocated done { p with unread := Session.appendToLast ⟨item, k⟩ p.unread } := by
  refine ⟨?_, h.inTest, h.forked, fun ha => ?_⟩
  · have hb := h.busy
    simp only [WorkerParty.busy, runs_appendToLast (m := ⟨item, k⟩) hitem] at hb ⊢
    exact hb
  · have hcur := h.current ha
    refine ⟨hcur.inbox, hcur.child, fun c hc m hm => ?_⟩
    rcases mem_appendToLast hc hm with rfl | ⟨c', hc', hm'⟩
    · rfl
    · exact hcur.unread c' hc' m hm'

/-- The test of a worker ends. -/
theorem Fits.leave (h : p.Fits k allocated done) (hin : p.inTest.isSome) {done' : Prop}
    [Decidable done'] (hdone : done') :
    Fits k allocated done' { p with inTest := none, child := none } := by
  obtain ⟨ha, -, hruns⟩ := h.running hin
  have hcur := h.current ha
  refine ⟨?_, nofun, fun _ => rfl, fun _ => ⟨hcur.inbox, nofun, hcur.unread⟩⟩
  rw [if_pos ha, if_pos hdone]
  show runs p.unread + 0 + 1 = 1
  rw [hruns]

/-- A worker with nothing to run fits every test that it is not allocated to. -/
theorem Fits.free (h : p.Fits k allocated done) (hfree : allocated → done) (k' : ℕ)
    {allocated' done' : Prop} [Decidable allocated'] [Decidable done'] (ha : ¬ allocated')
    (hdone : ¬ done') : p.Fits k' allocated' done' := by
  have hzero := h.busy_eq_zero hfree
  refine ⟨?_, fun t ht => ?_, h.forked, fun h' => absurd h' ha⟩
  · rw [hzero, if_neg ha, if_neg hdone]
  · exact absurd ((inTest_eq_none hzero).symm.trans ht) nofun

theorem runs_append (unread : List (List Sent)) (k : ℕ) :
    runs (unread ++ [[⟨.runTest, k⟩]]) = runs unread + 1 := by
  simp [runs]

theorem current_start (k : ℕ) (hin : p.inbox = {}) (hchild : p.child = none)
    (hunread : p.unread.flatten = []) :
    Current k { p with unread := p.unread ++ [[⟨.runTest, k⟩]] } := by
  refine ⟨by simp [hin, WorkerInbox.From], fun b hb => ?_, fun c hc m hm => ?_⟩
  · exact absurd (hchild.symm.trans hb) nofun
  · rcases List.mem_append.1 hc with hc | hc
    · exact absurd (hunread ▸ List.mem_flatten.2 ⟨c, hc, hm⟩) List.not_mem_nil
    · obtain rfl := List.mem_singleton.1 hc
      exact List.mem_singleton.1 hm ▸ rfl

/-- A worker with nothing to run and nothing left of earlier tests is told to run a test. -/
theorem Fits.told (h : p.Fits k allocated done) (hfree : allocated → done) (k' : ℕ)
    (hinbox : p.inbox = {}) (hunread : p.unread.flatten = []) {allocated' done' : Prop}
    [Decidable allocated'] [Decidable done'] (ha : allocated') (hdone : ¬ done') :
    Fits k' allocated' done' { p with unread := p.unread ++ [[⟨.runTest, k'⟩]] } := by
  have hzero := h.busy_eq_zero hfree
  have hnone := inTest_eq_none hzero
  refine ⟨?_, fun t ht => ?_, h.forked, fun _ => ?_⟩
  · rw [if_pos ha, if_neg hdone]
    simp only [WorkerParty.busy, runs_append] at hzero ⊢
    omega
  · exact absurd (hnone.symm.trans ht) nofun
  · exact current_start k' hinbox (h.forked hnone) hunread

end

end WorkerParty

namespace Session

open WorkerParty

variable {s : Session}

/-- The invariant: what a running test can meet was sent in that test, and every allocated worker is
told to run one test. -/
structure Inv (s : Session) : Prop where
  consumed : ∀ e ∈ s.consumed, e.1 = e.2
  idle : s.phase = .idle → s.allocated = ∅ ∧ s.done = ∅
  busy : ∀ w, (s.workers w).busy + (if w ∈ s.done then 1 else 0) = if w ∈ s.allocated then 1 else 0
  inTest : ∀ w k, (s.workers w).inTest = some k → k = s.test
  forked : ∀ w, (s.workers w).inTest = none → (s.workers w).child = none
  worker : ∀ w ∈ s.allocated, (s.workers w).Current s.test
  inbox : s.phase ≠ .idle → s.inbox.From s.test
  child : s.phase ≠ .idle → ∀ b, s.child = some b → b.From s.test
  unread : s.phase ≠ .idle → ∀ c ∈ s.unread, c.test = s.test

theorem Inv.fits (h : s.Inv) (w : ℕ) :
    (s.workers w).Fits s.test (w ∈ s.allocated) (w ∈ s.done) :=
  ⟨h.busy w, h.inTest w, h.forked w, h.worker w⟩

theorem Inv.active (h : s.Inv) (hs : s.phase ≠ .idle) : s.active.From s.test := by
  unfold Session.active
  cases hc : s.child with
  | none => exact h.inbox hs
  | some b => exact h.child hs b hc

/-- The driver's process gets another inbox of the same test. -/
theorem Inv.setActive (h : s.Inv) {b : DriverInbox} (hb : b.From s.test) : (s.setActive b).Inv := by
  unfold Session.setActive
  cases hc : s.child with
  | none =>
    exact ⟨h.consumed, h.idle, h.busy, h.inTest, h.forked, h.worker, fun _ => hb,
      fun _ _ => nofun, h.unread⟩
  | some _ =>
    refine ⟨h.consumed, h.idle, h.busy, h.inTest, h.forked, h.worker, h.inbox,
      fun _ b' hb' => ?_, h.unread⟩
    obtain rfl := Option.some.inj hb'
    exact hb

/-- Only the workers change. -/
theorem Inv.setWorkers (h : s.Inv) {workers : ℕ → WorkerParty} {done : Finset ℕ}
    (hdone : s.phase = .idle → done = ∅)
    (hw : ∀ w, (workers w).Fits s.test (w ∈ s.allocated) (w ∈ done)) :
    Inv { s with workers, done } :=
  ⟨h.consumed, fun hs => ⟨(h.idle hs).1, hdone hs⟩, fun w => (hw w).busy, fun w => (hw w).inTest,
    fun w => (hw w).forked, fun w => (hw w).current, h.inbox, h.child, h.unread⟩

theorem Inv.updateWorker (h : s.Inv) {w : ℕ} {p : WorkerParty}
    (hp : p.Fits s.test (w ∈ s.allocated) (w ∈ s.done)) : (s.updateWorker w p).Inv := by
  apply h.setWorkers fun hs => (h.idle hs).2
  apply (Function.forall_update_iff s.workers (p := fun v q =>
    q.Fits s.test (v ∈ s.allocated) (v ∈ s.done))).2
  exact ⟨hp, fun v _ => h.fits v⟩

/-- Only the connections change that the driver has not read. -/
theorem Inv.setUnread (h : s.Inv) {unread : List Incoming}
    (hunread : s.phase ≠ .idle → ∀ c ∈ unread, c.test = s.test) : Inv { s with unread } :=
  ⟨h.consumed, h.idle, h.busy, h.inTest, h.forked, h.worker, h.inbox, h.child, hunread⟩

theorem Inv.append_consumed (h : s.Inv) {es : List (ℕ × ℕ)} (hes : ∀ e ∈ es, e.1 = e.2) :
    Inv { s with consumed := s.consumed ++ es } :=
  ⟨fun e he => (List.mem_append.1 he).elim (h.consumed e) (hes e), h.idle, h.busy, h.inTest,
    h.forked, h.worker, h.inbox, h.child, h.unread⟩

theorem Inv.consume (h : s.Inv) {t k : ℕ} (htk : t = k) : (s.consume t k).Inv := by
  apply h.append_consumed
  intro e he
  obtain rfl := List.mem_singleton.1 he
  exact htk

/-- The counter of one handle changes within the test. -/
theorem from_updateCount {b : DriverInbox} {k : ℕ} (hb : b.From k) {w : ℕ} {count : List ℕ}
    (hcount : ∀ t ∈ count, t = k) :
    DriverInbox.From k { b with notifyCount := Function.update b.notifyCount w count } := by
  refine ⟨?_, hb.2⟩
  apply (Function.forall_update_iff b.notifyCount (p := fun _ c => ∀ t ∈ c, t = k)).2
  exact ⟨hcount, fun v _ => hb.1 v⟩

theorem countOne_from {count : List ℕ} {k : ℕ} (h : ∀ t ∈ count, t = k) :
    ∀ t ∈ countOne count k, t = k :=
  fun t ht => (mem_countOne ht).elim id (h t)

theorem Inv.receive (h : s.Inv) (hs : s.phase ≠ .idle) {c : Incoming} (hc : c.test = s.test) :
    (s.receive c).Inv := by
  obtain ⟨w, item, t, accepted⟩ := c
  obtain rfl : t = s.test := hc
  have hact := h.active hs
  cases item with
  | runTest => exact h
  | notify =>
    simp only [Session.receive]
    split_ifs
    · exact h.setActive (from_updateCount hact (countOne_from (hact.1 w)))
    · exact h
  | userMessage =>
    refine h.setActive ⟨hact.1, fun t ht => ?_⟩
    exact (List.mem_append.1 ht).elim (hact.2 t) List.mem_singleton.1

/-- Nothing sent earlier is outstanding where a test starts: not at the driver, and not at the
workers it allocates. -/
def NothingLeft (s : Session) : SessionStep → Prop
  | .start ws _ => s.inbox.userMessages = [] ∧ s.unread = [] ∧
      ∀ w ∈ ws, (s.workers w).inbox = {} ∧ (s.workers w).unread.flatten = []
  | _ => True

instance (s : Session) : ∀ e, Decidable (s.NothingLeft e)
  | .start .. => inferInstanceAs (Decidable (_ ∧ _ ∧ _))
  | .driverSends _ | .driverAccepts _ | .driverReads _ | .driverPulls _ | .driverGets
  | .driverBodyEnds | .finish | .workerReads .. | .workerSends .. | .workerWaits ..
  | .workerGets _ | .workerEnds _ => inferInstanceAs (Decidable True)

/-! ## The steps -/

/-- A test starts: every allocated worker is told to run it, and the driver has nothing banked. -/
theorem Inv.start (h : s.Inv) (ws : Finset ℕ) (inProcess : Bool) (hidle : s.phase = .idle)
    (hleft : s.NothingLeft (.start ws inProcess)) : (s.startTest ws inProcess).Inv := by
  obtain ⟨hmessages, hunread, hworkers⟩ := hleft
  have hinbox : DriverInbox.From (s.test + 1) { s.inbox with notifyCount := fun _ => [] } :=
    ⟨fun w t ht => absurd ht List.not_mem_nil, fun t ht => by
      rw [hmessages] at ht
      exact absurd ht List.not_mem_nil⟩
  have hfits : ∀ w, ((s.startTest ws inProcess).workers w).Fits (s.test + 1) (w ∈ ws)
      (w ∈ (∅ : Finset ℕ)) := by
    intro w
    have hfree : w ∈ s.allocated → w ∈ s.done := fun hw =>
      absurd ((h.idle hidle).1 ▸ hw) (Finset.notMem_empty w)
    change Fits _ _ _ (if w ∈ ws then _ else _)
    split_ifs with hw
    · obtain ⟨hw1, hw2⟩ := hworkers w hw
      exact (h.fits w).told hfree _ hw1 hw2 hw (Finset.notMem_empty w)
    · exact (h.fits w).free hfree _ hw (Finset.notMem_empty w)
  refine ⟨h.consumed, nofun, fun w => (hfits w).busy, fun w => (hfits w).inTest,
    fun w => (hfits w).forked, fun w => (hfits w).current, fun _ => hinbox, fun _ b hb => ?_,
    fun _ c hc => ?_⟩
  · change (if inProcess then none else some _) = some b at hb
    split_ifs at hb
    exact Option.some.inj hb ▸ hinbox
  · change c ∈ s.unread at hc
    rw [hunread] at hc
    exact absurd hc List.not_mem_nil

theorem Inv.driverSends (h : s.Inv) {item : Item} (hitem : item ≠ .runTest) :
    (s.step (.driverSends item)).Inv := by
  apply h.setWorkers fun hs => (h.idle hs).2
  intro w
  dsimp only
  split_ifs
  · exact (h.fits w).send hitem
  · exact h.fits w

theorem Inv.driverAccepts (h : s.Inv) (i : ℕ) : (s.step (.driverAccepts i)).Inv := by
  apply h.setUnread
  intro hs c hc
  obtain ⟨j, hj, rfl⟩ := List.mem_iff_getElem.1 hc
  rw [List.length_modify] at hj
  have htest := h.unread hs _ (List.getElem_mem hj)
  rw [List.getElem_modify]
  split_ifs
  · exact htest
  · exact htest

theorem Inv.driverReads (h : s.Inv) (hs : s.phase ≠ .idle) (i : ℕ) :
    (s.step (.driverReads i)).Inv := by
  simp only [Session.step]
  cases hc : s.unread[i]? with
  | none => exact h
  | some c =>
    have hc := h.unread hs c (List.mem_of_getElem? hc)
    have hrest : Inv { s with unread := s.unread.eraseIdx i } :=
      h.setUnread fun hs c' hc' => h.unread hs c' (List.mem_of_mem_eraseIdx hc')
    exact hrest.receive hs hc

theorem Inv.driverPulls (h : s.Inv) (hs : s.phase ≠ .idle) (w : ℕ) :
    (s.step (.driverPulls w)).Inv := by
  have hact := h.active hs
  simp only [Session.step]
  cases hc : s.active.notifyCount w with
  | nil => exact h
  | cons k ks =>
    have hk : ∀ t ∈ k :: ks, t = s.test := fun t ht => hact.1 w t (hc ▸ ht)
    have hb : DriverInbox.From s.test
        { s.active with notifyCount := Function.update s.active.notifyCount w ks } :=
      from_updateCount hact fun t ht => hk t (List.mem_cons_of_mem _ ht)
    exact (h.setActive hb).consume (hk k (List.mem_cons_self ..)).symm

theorem Inv.driverGets (h : s.Inv) (hs : s.phase ≠ .idle) : (s.step .driverGets).Inv := by
  have hact := h.active hs
  simp only [Session.step]
  cases hc : s.active.userMessages with
  | nil => exact h
  | cons k ks =>
    have hk : ∀ t ∈ k :: ks, t = s.test := fun t ht => hact.2 t (hc ▸ ht)
    have hb : DriverInbox.From s.test { s.active with userMessages := ks } :=
      ⟨hact.1, fun t ht => hk t (List.mem_cons_of_mem _ ht)⟩
    exact (h.setActive hb).consume (hk k (List.mem_cons_self ..)).symm

theorem Inv.driverBodyEnds (h : s.Inv) (hs : s.phase ≠ .idle) :
    (s.step .driverBodyEnds).Inv := by
  refine ⟨h.consumed, nofun, h.busy, h.inTest, h.forked, h.worker, fun _ => h.inbox hs,
    fun _ _ => nofun, fun _ c hc => h.unread hs c ?_⟩
  change c ∈ if s.child.isSome then s.unread.filter _ else s.unread at hc
  split_ifs at hc
  · exact List.mem_of_mem_filter hc
  · exact hc

theorem Inv.finish (h : s.Inv) (hdone : s.allocated ⊆ s.done) : (s.step .finish).Inv := by
  have hfits : ∀ w, (s.workers w).Fits s.test (w ∈ (∅ : Finset ℕ)) (w ∈ (∅ : Finset ℕ)) :=
    fun w => (h.fits w).free (@hdone w) _ (Finset.notMem_empty w) (Finset.notMem_empty w)
  exact ⟨h.consumed, fun _ => ⟨rfl, rfl⟩, fun w => (hfits w).busy, h.inTest, h.forked,
    fun w => (hfits w).current, nofun, nofun, nofun⟩

theorem Inv.workerSends (h : s.Inv) (w : ℕ) (item : Item) :
    (s.step (.workerSends w item)).Inv := by
  simp only [Session.step]
  cases hin : (s.workers w).inTest with
  | none => exact h
  | some k =>
    apply h.setUnread
    intro hs c hc
    rcases List.mem_append.1 hc with hc | hc
    · exact h.unread hs c hc
    · obtain rfl := List.mem_singleton.1 hc
      exact h.inTest w k hin

theorem Inv.workerWaits (h : s.Inv) (w n : ℕ) : (s.step (.workerWaits w n)).Inv := by
  simp only [Session.step]
  cases hin : (s.workers w).inTest with
  | none => exact h
  | some k =>
    have hsome : (s.workers w).inTest.isSome := by rw [hin]; rfl
    have hact := (h.worker w ((h.fits w).running hsome).1).active
    have hb : WorkerInbox.From s.test { (s.workers w).active with
        notifyCount := (s.workers w).active.notifyCount.drop n } :=
      ⟨fun t ht => hact.1 t (List.mem_of_mem_drop ht), hact.2⟩
    apply (h.updateWorker ((h.fits w).setActive hsome hb)).append_consumed
    intro e he
    obtain ⟨t, ht, rfl⟩ := List.mem_map.1 he
    exact (h.inTest w k hin).trans (hact.1 t (List.mem_of_mem_take ht)).symm

theorem Inv.workerGets (h : s.Inv) (w : ℕ) : (s.step (.workerGets w)).Inv := by
  simp only [Session.step]
  cases hin : (s.workers w).inTest with
  | none => exact h
  | some k =>
    cases hm : (s.workers w).active.userMessages with
    | nil => exact h
    | cons m ms =>
      have hsome : (s.workers w).inTest.isSome := by rw [hin]; rfl
      have hact := (h.worker w ((h.fits w).running hsome).1).active
      have hms : ∀ t ∈ m :: ms, t = s.test := fun t ht => hact.2 t (hm ▸ ht)
      have hb : WorkerInbox.From s.test { (s.workers w).active with userMessages := ms } :=
        ⟨hact.1, fun t ht => hms t (List.mem_cons_of_mem _ ht)⟩
      exact (h.updateWorker ((h.fits w).setActive hsome hb)).consume
        ((h.inTest w k hin).trans (hms m (List.mem_cons_self ..)).symm)

theorem Inv.workerEnds (h : s.Inv) {w : ℕ} (hin : (s.workers w).inTest.isSome) :
    (s.step (.workerEnds w)).Inv := by
  apply h.setWorkers
  · intro hs
    have hw := ((h.fits w).running hin).1
    rw [(h.idle hs).1] at hw
    exact absurd hw (Finset.notMem_empty w)
  · apply (Function.forall_update_iff s.workers (p := fun v q =>
      q.Fits s.test (v ∈ s.allocated) (v ∈ insert w s.done))).2
    refine ⟨(h.fits w).leave hin (Finset.mem_insert_self w s.done), fun v hvw => ?_⟩
    simpa only [Finset.mem_insert, hvw, false_or] using h.fits v

theorem inv_step (s : Session) (e : SessionStep) (h : s.Inv)
    (ha : (system.restrict NothingLeft).allowed s e) :
    ((system.restrict NothingLeft).step s e).Inv := by
  obtain ⟨ha, hleft⟩ := ha
  have hbody : s.phase = .body → s.phase ≠ .idle := fun hs => by rw [hs]; decide
  cases e with
  | start ws inProcess => exact h.start ws inProcess ha hleft
  | driverSends item => exact h.driverSends ha.2
  | driverAccepts i => exact h.driverAccepts i
  | driverReads i => exact h.driverReads (hbody ha.1) i
  | driverPulls w => exact h.driverPulls (hbody ha.1) w
  | driverGets => exact h.driverGets (hbody ha.1)
  | driverBodyEnds => exact h.driverBodyEnds (hbody ha)
  | finish => exact h.finish ha.2
  | workerReads w i => exact h.updateWorker ((h.fits w).read s.inProcess i)
  | workerSends w item => exact h.workerSends w item
  | workerWaits w n => exact h.workerWaits w n
  | workerGets w => exact h.workerGets w
  | workerEnds w => exact h.workerEnds ha

theorem inv_initial : Inv {} :=
  ⟨nofun, fun _ => ⟨rfl, rfl⟩, fun _ => rfl, fun _ _ => nofun, fun _ _ => rfl,
    fun w hw => absurd hw (Finset.notMem_empty w), fun hs => absurd rfl hs, fun hs => absurd rfl hs,
    fun hs => absurd rfl hs⟩

end Session

open Session

/-- In every run in which no test starts while something sent earlier is outstanding, what `wait`
counts and what `getUserMessage` returns was sent in the running test. -/
theorem consumed_fresh (es : List SessionStep)
    (h : (system.restrict NothingLeft).Admissible {} es) :
    ∀ e ∈ (system.exec {} es).consumed, e.1 = e.2 :=
  (h.invariant inv_step inv_initial).consumed

/-- Two tests over one worker that each consume what they were sent. -/
theorem consumed_fresh_twoTests :
    let es : List SessionStep := [.start {1} false, .driverSends .notify, .workerReads 1 0,
      .workerReads 1 0, .workerWaits 1 1, .workerEnds 1, .driverBodyEnds, .finish,
      .start {1} true, .driverSends .userMessage, .workerReads 1 1, .workerReads 1 1, .workerGets 1]
    ∀ e ∈ (system.exec {} es).consumed, e.1 = e.2 := by
  exact consumed_fresh _ (by decide +kernel)

/-- The driver notifies a worker that does not wait for it, and the wait of the next test returns
although nobody has notified in that test. -/
theorem stale_notification :
    let es : List SessionStep := [.start {1} true, .driverSends .notify, .workerReads 1 0,
      .workerEnds 1, .driverBodyEnds, .finish, .workerReads 1 0,
      .start {1} true, .workerReads 1 1, .workerWaits 1 1]
    system.Admissible {} es ∧ (system.exec {} es).consumed = [(2, 1)] := by
  decide +kernel

end Dtest
