import Dtest.Scheduler.Setup

/-!
# The invariant of the main loop of `runAll`

`Inv` ties `ready`, `blocked`, `remaining` and the `_remainingDependencies` of every test to one
notion, `Completed`: a module that has tests, all of them taken and successful.  A test has been
released (is in `ready` or taken) exactly when all its dependencies are completed, and until then
its `_remainingDependencies` are the dependencies that are not.
-/

namespace Dtest

variable {r : Registry} {s s' : RunState} {modules : Finset String}
  {outcome : ℕ → TestPtr → Status}

/-- `t` was taken out of `ready` and ended with `_success`. -/
def RunState.Succeeded (s : RunState) (t : TestPtr) : Prop :=
  t ∈ s.taken ∧ (s.test t).success = true

/-- Module `d` has tests, and all of them were taken and ended with `_success`. -/
def Registry.Completed (r : Registry) (s : RunState) (d : String) : Prop :=
  (∃ t, r.InModule d t) ∧ ∀ t, r.InModule d t → s.Succeeded t

/-- The pointers that the loop body reaches through `blocked` in the turn that starts in `s`. -/
def RunState.touched (modules : Finset String) (outcome : ℕ → TestPtr → Status) (s : RunState) :
    List TestPtr :=
  match s.ready with
  | [] => []
  | t :: ready =>
    let s := s.runTest modules outcome t ready
    if (s.test t).success = true ∧ (s.remaining (s.test t).module).erase t = ∅ then
      s.blocked (s.test t).module
    else []

/-- The tests blocked on module `m` that wait for nothing else. -/
def RunState.freed (s : RunState) (m : String) : List TestPtr :=
  (s.blocked m).filter fun u => (s.test u).remainingDependencies.erase m = ∅

/-- The invariant of the main loop. -/
structure Inv (r : Registry) (s : RunState) : Prop where
  nodup : (s.taken ++ s.ready).Nodup
  registered : ∀ t ∈ s.taken ++ s.ready, t ∈ r.all
  module_eq : ∀ t, (s.test t).module = (r.test t).module
  blocked_nodup : ∀ d, (s.blocked d).Nodup
  mem_blocked : ∀ d t, t ∈ s.blocked d ↔ t ∈ r.all ∧ d ∈ (r.test t).dependencies
  mem_remaining : ∀ d t, t ∈ s.remaining d ↔ r.InModule d t ∧ ¬ s.Succeeded t
  released : ∀ t ∈ r.all,
    (t ∈ s.taken ++ s.ready ↔ ∀ d ∈ (r.test t).dependencies, r.Completed s d)
  waiting : ∀ t ∈ r.all, t ∉ s.taken ++ s.ready →
    ∀ d, d ∈ (s.test t).remainingDependencies ↔ d ∈ (r.test t).dependencies ∧ ¬ r.Completed s d

/-! ## The set-up -/

theorem Registry.not_succeeded_setup (r : Registry) (t : TestPtr) : ¬ r.setup.Succeeded t := by
  rw [Registry.setup_eq]
  rintro ⟨h, -⟩
  simp [queuesOf] at h

theorem Registry.not_completed_setup (r : Registry) (d : String) : ¬ r.Completed r.setup d := by
  rintro ⟨⟨t, ht⟩, h⟩
  exact r.not_succeeded_setup t (h t ht)

theorem inv_setup (r : Registry) : Inv r r.setup := by
  have hready : ∀ t, t ∈ r.setup.taken ++ r.setup.ready ↔
      t ∈ r.all ∧ (r.test t).dependencies = ∅ := by
    intro t
    simp [Registry.setup_eq, queuesOf]
  constructor
  · rw [Registry.setup_eq]
    exact r.nodup_tests.filter _
  · exact fun t ht => ((hready t).1 ht).1
  · intro t
    rw [Registry.setup_eq]
    exact queuesOf_test_module r.test r.all t
  · intro d
    rw [Registry.setup_eq]
    exact r.nodup_tests.filter _
  · intro d t
    simp [Registry.setup_eq, queuesOf]
  · intro d t
    simp only [r.not_succeeded_setup t, not_false_eq_true, and_true]
    simp [Registry.setup_eq, queuesOf, Registry.InModule]
  · intro t ht
    simp only [hready, ht, true_and, r.not_completed_setup, imp_false]
    exact Finset.eq_empty_iff_forall_notMem
  · intro t ht hnot d
    have hdeps : (r.test t).dependencies ≠ ∅ := fun h => hnot ((hready t).2 ⟨ht, h⟩)
    simp only [r.not_completed_setup, not_false_eq_true, and_true]
    simp [Registry.setup_eq, queuesOf, ht, hdeps]

/-! ## The shape of one turn -/

theorem Test.take_module (t : Test) (modules : Finset String) (o : Status) :
    (t.take modules o).module = t.module := by
  unfold Test.take Test.run Test.skip
  split_ifs <;> rfl

theorem Test.take_remainingDependencies (t : Test) (modules : Finset String) (o : Status) :
    (t.take modules o).remainingDependencies = t.remainingDependencies := by
  unfold Test.take Test.run Test.skip
  split_ifs <;> rfl

/-- What one turn of the loop can do. -/
theorem RunState.step_cases (h : s.step modules outcome = some s') :
    ∃ t ready, s.ready = t :: ready ∧
      (((s.runTest modules outcome t ready).test t).success = true ∧
          s' = (s.runTest modules outcome t ready).succeed t ∨
        ((s.runTest modules outcome t ready).test t).success = false ∧
          s' = (s.runTest modules outcome t ready).failed t) := by
  unfold RunState.step at h
  cases hready : s.ready with
  | nil => rw [hready] at h; cases h
  | cons t ready =>
    rw [hready] at h
    refine ⟨t, ready, rfl, ?_⟩
    obtain rfl := Option.some.inj h
    cases hok : ((s.runTest modules outcome t ready).test t).success with
    | true => exact Or.inl ⟨rfl, by simp⟩
    | false => exact Or.inr ⟨rfl, by simp⟩

theorem RunState.step_eq_none_iff (s : RunState) (modules : Finset String)
    (outcome : ℕ → TestPtr → Status) : s.step modules outcome = none ↔ s.ready = [] := by
  unfold RunState.step
  cases s.ready <;> simp

theorem RunState.recordSuccess_remaining_self (s : RunState) (t : TestPtr) :
    (s.recordSuccess t).remaining (s.test t).module = (s.remaining (s.test t).module).erase t :=
  Function.update_self _ _ _

/-- A module that does not complete: only `remaining` and the counters change. -/
theorem RunState.succeed_of_ne {t : TestPtr}
    (h : (s.remaining (s.test t).module).erase t ≠ ∅) : s.succeed t = s.recordSuccess t := by
  rw [← RunState.recordSuccess_remaining_self] at h
  exact if_neg h

/-- A module that completes releases the tests blocked on it. -/
theorem RunState.succeed_of_eq {t : TestPtr} (h : (s.remaining (s.test t).module).erase t = ∅) :
    s.succeed t = (s.recordSuccess t).completeModule (s.test t).module := by
  rw [← RunState.recordSuccess_remaining_self] at h
  exact if_pos h

section CompleteModule

variable {m : String} (hnd : (s.blocked m).Nodup)

include hnd

theorem RunState.completeModule_ready : (s.completeModule m).ready = s.freed m ++ s.ready := by
  simp only [RunState.completeModule, RunState.unblock_eq _ _ hnd, RunState.freed]

theorem RunState.completeModule_test (u : TestPtr) :
    (s.completeModule m).test u = if u ∈ s.blocked m then
      { s.test u with remainingDependencies := (s.test u).remainingDependencies.erase m }
    else s.test u := by
  simp only [RunState.completeModule, RunState.unblock_eq _ _ hnd]

theorem RunState.completeModule_module (u : TestPtr) :
    ((s.completeModule m).test u).module = (s.test u).module := by
  rw [RunState.completeModule_test hnd]
  split_ifs <;> rfl

theorem RunState.completeModule_success (u : TestPtr) :
    ((s.completeModule m).test u).success = (s.test u).success := by
  rw [RunState.completeModule_test hnd]
  split_ifs <;> rfl

theorem RunState.completeModule_remainingDependencies (u : TestPtr) :
    ((s.completeModule m).test u).remainingDependencies = if u ∈ s.blocked m then
      (s.test u).remainingDependencies.erase m else (s.test u).remainingDependencies := by
  rw [RunState.completeModule_test hnd]
  split_ifs <;> rfl

end CompleteModule

/-! ## One turn keeps the invariant -/

theorem RunState.succeeded_congr (htaken : s'.taken = s.taken)
    (htest : ∀ u, (s'.test u).success = (s.test u).success) (u : TestPtr) :
    s'.Succeeded u ↔ s.Succeeded u := by
  unfold RunState.Succeeded
  rw [htaken, htest]

theorem Registry.completed_congr (h : ∀ u, s'.Succeeded u ↔ s.Succeeded u) (d : String) :
    r.Completed s' d ↔ r.Completed s d := by
  simp only [Registry.Completed, h]

section Turn

variable {t : TestPtr} {ready : List TestPtr}

theorem RunState.runTest_test_of_ne {u : TestPtr} (hu : u ≠ t) :
    (s.runTest modules outcome t ready).test u = s.test u :=
  Function.update_of_ne hu _ _

theorem RunState.runTest_test_self : (s.runTest modules outcome t ready).test t =
    (s.test t).take modules (outcome s.runCount t) :=
  Function.update_self _ _ _

variable (s modules outcome t ready)

theorem RunState.runTest_module (u : TestPtr) :
    ((s.runTest modules outcome t ready).test u).module = (s.test u).module := by
  rcases eq_or_ne u t with rfl | hu
  · rw [RunState.runTest_test_self, Test.take_module]
  · rw [RunState.runTest_test_of_ne hu]

theorem RunState.runTest_remainingDependencies (u : TestPtr) :
    ((s.runTest modules outcome t ready).test u).remainingDependencies =
      (s.test u).remainingDependencies := by
  rcases eq_or_ne u t with rfl | hu
  · rw [RunState.runTest_test_self, Test.take_remainingDependencies]
  · rw [RunState.runTest_test_of_ne hu]

theorem RunState.runTest_freed (m : String) :
    (s.runTest modules outcome t ready).freed m = s.freed m := by
  simp only [RunState.freed, RunState.runTest_remainingDependencies]
  rfl

variable {s modules outcome t ready}

namespace Inv

variable (h : Inv r s) (hready : s.ready = t :: ready)

include h hready

theorem head_mem : t ∈ r.all := h.registered t (by simp [hready])

theorem head_not_taken : t ∉ s.taken := fun ht =>
  (List.nodup_append.1 h.nodup).2.2 t ht t (by simp [hready]) rfl

theorem head_not_succeeded : ¬ s.Succeeded t := fun hs => h.head_not_taken hready hs.1

theorem head_inModule : r.InModule (s.test t).module t :=
  ⟨h.head_mem hready, (h.module_eq t).symm⟩

/-- The module of the test about to run has not completed. -/
theorem head_not_completed : ¬ r.Completed s (s.test t).module := fun hc =>
  h.head_not_succeeded hready (hc.2 t (h.head_inModule hready))

theorem runTest_succeeded (u : TestPtr) (modules : Finset String)
    (outcome : ℕ → TestPtr → Status) : (s.runTest modules outcome t ready).Succeeded u ↔
    s.Succeeded u ∨
      u = t ∧ ((s.runTest modules outcome t ready).test t).success = true := by
  rcases eq_or_ne u t with rfl | hu
  · simp only [h.head_not_succeeded hready, true_and, false_or]
    exact ⟨fun hs => hs.2, fun hs => ⟨by simp [RunState.runTest], hs⟩⟩
  · simp only [RunState.Succeeded, RunState.runTest_test_of_ne hu, hu, false_and, or_false]
    simp [RunState.runTest, hu]

/-- After a success, only the test's own module can become completed, and it does when the test was
the last one remaining. -/
theorem completed_of_succeeded (hs : ∀ u, s'.Succeeded u ↔ s.Succeeded u ∨ u = t) (d : String) :
    r.Completed s' d ↔ r.Completed s d ∨
      d = (s.test t).module ∧ (s.remaining (s.test t).module).erase t = ∅ := by
  rcases eq_or_ne d (s.test t).module with rfl | hd
  · have hin := h.head_inModule hready
    simp only [h.head_not_completed hready, false_or, true_and, Finset.eq_empty_iff_forall_notMem,
      Finset.mem_erase, h.mem_remaining]
    constructor
    · rintro ⟨-, hc⟩ u ⟨hu, hm, hns⟩
      rcases (hs u).1 (hc u hm) with hu' | hu'
      · exact hns hu'
      · exact hu hu'
    · refine fun hc => ⟨⟨t, hin⟩, fun u hm => (hs u).2 ?_⟩
      by_contra hcon
      push Not at hcon
      exact hc u ⟨hcon.2, hm, hcon.1⟩
  · simp only [hd, false_and, or_false]
    refine and_congr_right fun _ => forall₂_congr fun u hm => ?_
    have hu : u ≠ t := by
      rintro rfl
      exact hd (hm.2.symm.trans (h.module_eq u).symm)
    rw [hs u]
    simp [hu]

omit h in
/-- The tests released so far, when the turn has taken its test. -/
theorem mem_taken_ready (u : TestPtr) :
    u ∈ (s.taken ++ [t]) ++ ready ↔ u ∈ s.taken ++ s.ready := by
  simp [hready]

/-- A turn that completes no module keeps the invariant. -/
theorem of_no_release (htaken : s'.taken = s.taken ++ [t]) (hready' : s'.ready = ready)
    (hblocked : s'.blocked = s.blocked) (hmodule : ∀ u, (s'.test u).module = (s.test u).module)
    (hremdeps : ∀ u, (s'.test u).remainingDependencies = (s.test u).remainingDependencies)
    (hcompleted : ∀ d, r.Completed s' d ↔ r.Completed s d)
    (hremaining : ∀ d u, u ∈ s'.remaining d ↔ r.InModule d u ∧ ¬ s'.Succeeded u) : Inv r s' := by
  have hmem := mem_taken_ready (s := s) hready
  constructor
  · rw [htaken, hready', List.append_assoc, List.singleton_append, ← hready]
    exact h.nodup
  · intro u hu
    rw [htaken, hready', hmem] at hu
    exact h.registered u hu
  · exact fun u => (hmodule u).trans (h.module_eq u)
  · rw [hblocked]
    exact h.blocked_nodup
  · rw [hblocked]
    exact h.mem_blocked
  · exact hremaining
  · intro u hu
    rw [htaken, hready', hmem]
    simp only [hcompleted]
    exact h.released u hu
  · intro u hu hnot d
    rw [htaken, hready', hmem] at hnot
    rw [hremdeps, hcompleted]
    exact h.waiting u hu hnot d

/-- `remaining` after the success of the test at the head of `ready`. -/
theorem mem_remaining_of_succeeded (hs : ∀ u, s'.Succeeded u ↔ s.Succeeded u ∨ u = t) (d : String)
    (u : TestPtr) :
    u ∈ Function.update s.remaining (s.test t).module ((s.remaining (s.test t).module).erase t) d ↔
      r.InModule d u ∧ ¬ s'.Succeeded u := by
  rw [hs u]
  rcases eq_or_ne d (s.test t).module with rfl | hd
  · rw [Function.update_self, Finset.mem_erase, h.mem_remaining]
    tauto
  · rw [Function.update_of_ne hd, h.mem_remaining]
    apply and_congr_right
    intro hm
    have hu : u ≠ t := by
      rintro rfl
      exact hd (hm.2.symm.trans (h.module_eq u).symm)
    simp [hu]

omit hready in
/-- A test blocked on a module that is not completed is still waiting for it. -/
theorem blocked_waiting {d : String} (hd : ¬ r.Completed s d) {u : TestPtr} (hu : u ∈ s.blocked d) :
    u ∈ r.all ∧ u ∉ s.taken ++ s.ready ∧ d ∈ (s.test u).remainingDependencies := by
  obtain ⟨hall, hdep⟩ := (h.mem_blocked d u).1 hu
  have hnot : u ∉ s.taken ++ s.ready := fun hmem => hd ((h.released u hall).1 hmem d hdep)
  exact ⟨hall, hnot, (h.waiting u hall hnot d).2 ⟨hdep, hd⟩⟩

omit hready in
/-- A waiting test is freed exactly when the completed module was all it waited for. -/
theorem mem_freed_iff {d : String} (hd : ¬ r.Completed s d) {u : TestPtr} (hu : u ∈ r.all)
    (hnot : u ∉ s.taken ++ s.ready) :
    u ∈ s.freed d ↔ ∀ d' ∈ (r.test u).dependencies, r.Completed s d' ∨ d' = d := by
  simp only [RunState.freed, List.mem_filter, h.mem_blocked, hu, true_and, decide_eq_true_eq,
    Finset.eq_empty_iff_forall_notMem, Finset.mem_erase, h.waiting u hu hnot]
  constructor
  · rintro ⟨-, hall⟩ d' hd'
    by_contra hcon
    push Not at hcon
    exact hall d' ⟨hcon.2, hd', hcon.1⟩
  · intro hall
    refine ⟨?_, fun d' hd' => (hall d' hd'.2.1).elim hd'.2.2 hd'.1⟩
    -- otherwise all its dependencies were completed before, and it had been released
    by_contra hdep
    refine hnot ((h.released u hu).2 fun d' hd' => (hall d' hd').resolve_right ?_)
    rintro rfl
    exact hdep hd'

/-- A turn that completes the module of its test keeps the invariant: the tests put in front of
`ready` are those for which it was the last dependency. -/
theorem of_release (htaken : s'.taken = s.taken ++ [t])
    (hready' : s'.ready = s.freed (s.test t).module ++ ready)
    (hblocked : s'.blocked = s.blocked) (hmodule : ∀ u, (s'.test u).module = (s.test u).module)
    (hremdeps : ∀ u, (s'.test u).remainingDependencies = if u ∈ s.blocked (s.test t).module then
      (s.test u).remainingDependencies.erase (s.test t).module
      else (s.test u).remainingDependencies)
    (hcompleted : ∀ d, r.Completed s' d ↔ r.Completed s d ∨ d = (s.test t).module)
    (hremaining : ∀ d u, u ∈ s'.remaining d ↔ r.InModule d u ∧ ¬ s'.Succeeded u) : Inv r s' := by
  have hmem := mem_taken_ready (s := s) hready
  have hhead := h.head_not_completed hready
  have hwait : ∀ u ∈ s.freed (s.test t).module, u ∈ r.all ∧ u ∉ s.taken ++ s.ready := fun u hu =>
    have hw := h.blocked_waiting hhead (List.mem_filter.1 hu).1
    ⟨hw.1, hw.2.1⟩
  have hsplit : ∀ u, u ∈ s'.taken ++ s'.ready ↔
      u ∈ s.taken ++ s.ready ∨ u ∈ s.freed (s.test t).module := by
    intro u
    rw [htaken, hready', ← hmem]
    simp only [List.mem_append]
    tauto
  constructor
  · have hperm : (s'.taken ++ s'.ready).Perm
        (s.freed (s.test t).module ++ (s.taken ++ s.ready)) := by
      have := List.perm_append_comm_assoc (s.taken ++ [t]) (s.freed (s.test t).module) ready
      rwa [List.append_assoc s.taken [t] ready, List.singleton_append, ← hready, ← hready',
        ← htaken] at this
    rw [hperm.nodup_iff, List.nodup_append]
    refine ⟨(h.blocked_nodup _).filter _, h.nodup, ?_⟩
    rintro u hu _ hv rfl
    exact (hwait u hu).2 hv
  · intro u hu
    rcases (hsplit u).1 hu with hu | hu
    · exact h.registered u hu
    · exact (hwait u hu).1
  · exact fun u => (hmodule u).trans (h.module_eq u)
  · rw [hblocked]
    exact h.blocked_nodup
  · rw [hblocked]
    exact h.mem_blocked
  · exact hremaining
  · intro u hu
    rw [hsplit]
    by_cases hold : u ∈ s.taken ++ s.ready
    · refine iff_of_true (Or.inl hold) fun d hd => (hcompleted d).2 (Or.inl ?_)
      exact (h.released u hu).1 hold d hd
    · simp only [hold, false_or, hcompleted]
      exact h.mem_freed_iff hhead hu hold
  · intro u hu hnot d
    rw [hsplit, not_or] at hnot
    rw [hremdeps, hcompleted]
    split_ifs with hb
    · rw [Finset.mem_erase, h.waiting u hu hnot.1]
      tauto
    · rw [h.waiting u hu hnot.1]
      have hdep : (s.test t).module ∉ (r.test u).dependencies := fun hdep =>
        hb ((h.mem_blocked _ u).2 ⟨hu, hdep⟩)
      refine and_congr_right fun hd => not_congr ?_
      rw [or_iff_left]
      rintro rfl
      exact hdep hd

/-- The turn in which the test at the head of `ready` fails. -/
theorem failed (hok : ((s.runTest modules outcome t ready).test t).success = false) :
    Inv r ((s.runTest modules outcome t ready).failed t) := by
  have hs : ∀ u, ((s.runTest modules outcome t ready).failed t).Succeeded u ↔ s.Succeeded u := by
    intro u
    apply Iff.trans (h.runTest_succeeded hready u modules outcome)
    rw [hok]
    simp
  refine h.of_no_release hready rfl rfl rfl (RunState.runTest_module s modules outcome t ready)
    (RunState.runTest_remainingDependencies s modules outcome t ready)
    (Registry.completed_congr hs) fun d u => ?_
  rw [hs]
  exact h.mem_remaining d u

/-- The turn in which it succeeds. -/
theorem succeed (hok : ((s.runTest modules outcome t ready).test t).success = true) :
    Inv r ((s.runTest modules outcome t ready).succeed t) := by
  set s₁ := s.runTest modules outcome t ready with hs₁
  have hmodule : ∀ u, (s₁.test u).module = (s.test u).module :=
    RunState.runTest_module s modules outcome t ready
  have hremdeps : ∀ u, (s₁.test u).remainingDependencies = (s.test u).remainingDependencies :=
    RunState.runTest_remainingDependencies s modules outcome t ready
  have hs : ∀ u, (s₁.recordSuccess t).Succeeded u ↔ s.Succeeded u ∨ u = t := by
    intro u
    apply Iff.trans (h.runTest_succeeded hready u modules outcome)
    rw [← hs₁, hok]
    simp
  have hremaining : (s₁.recordSuccess t).remaining = Function.update s.remaining (s.test t).module
      ((s.remaining (s.test t).module).erase t) := by
    rw [← hmodule t]
    rfl
  by_cases hrem : (s.remaining (s.test t).module).erase t = ∅
  · have hnd : ((s₁.recordSuccess t).blocked (s.test t).module).Nodup := h.blocked_nodup _
    rw [RunState.succeed_of_eq (by rw [hmodule]; exact hrem), hmodule t]
    set s₂ := (s₁.recordSuccess t).completeModule (s.test t).module
    have hs' : ∀ u, s₂.Succeeded u ↔ s.Succeeded u ∨ u = t := by
      intro u
      rw [← hs u]
      refine RunState.succeeded_congr ?_ (RunState.completeModule_success hnd) u
      rfl
    refine h.of_release hready rfl ?_ rfl
      (fun u => (RunState.completeModule_module hnd u).trans (hmodule u)) (fun u => ?_)
      (fun d => ?_) fun d u => ?_
    · rw [RunState.completeModule_ready hnd]
      exact congrArg (· ++ ready) (RunState.runTest_freed s modules outcome t ready _)
    · rw [RunState.completeModule_remainingDependencies hnd]
      exact if_congr Iff.rfl (congrArg (Finset.erase · _) (hremdeps u)) (hremdeps u)
    · rw [h.completed_of_succeeded hready hs', and_iff_left hrem]
    · rw [← h.mem_remaining_of_succeeded hready hs', ← hremaining]
      rfl
  · rw [RunState.succeed_of_ne (by rw [hmodule]; exact hrem)]
    refine h.of_no_release hready rfl rfl rfl hmodule hremdeps (fun d => ?_) fun d u => ?_
    · rw [h.completed_of_succeeded hready hs]
      simp [hrem]
    · rw [← h.mem_remaining_of_succeeded hready hs, ← hremaining]

end Inv

end Turn

/-- One turn of the main loop keeps the invariant. -/
theorem Inv.step (h : Inv r s) (hstep : s.step modules outcome = some s') : Inv r s' := by
  obtain ⟨t, ready, hready, ⟨hok, rfl⟩ | ⟨hok, rfl⟩⟩ := RunState.step_cases hstep
  · exact h.succeed hready hok
  · exact h.failed hready hok

/-- The invariant holds before every turn of the main loop. -/
theorem inv_loop (r : Registry) (modules : Finset String) (outcome : ℕ → TestPtr → Status) (n : ℕ) :
    Inv r (r.setup.loop modules outcome n) :=
  Loop.run_induction (fun _ _ hstep h => h.step hstep) n (inv_setup r)

end Dtest
