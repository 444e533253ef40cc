import Dtest.Scheduler.Invariant
import Mathlib.Data.List.Count

/-!
# What the counters of `runAll` count

When each test has one outcome, independent of when it runs, every counter and summary of the loop
is a count over the tests taken so far, and the verdict flag says that all of them succeeded.
-/

namespace Dtest

/-- A test without its scheduling field. -/
def Test.forget (t : Test) : Test := { t with remainingDependencies := ∅ }

theorem Test.take_forget (t : Test) (modules : Finset String) (o : Status) :
    (t.take modules o).forget = (t.forget.take modules o).forget := by
  unfold Test.take Test.run Test.skip Test.forget
  dsimp only
  split_ifs <;> rfl

theorem Test.take_forget_congr {a b : Test} (h : a.forget = b.forget) (modules : Finset String)
    (o : Status) : (a.take modules o).forget = (b.take modules o).forget := by
  rw [Test.take_forget a, h, ← Test.take_forget]

variable (r : Registry) (modules : Finset String) (outcome : TestPtr → Status)

/-- The test object that taking `t` leaves behind, when its outcome is `outcome t`. -/
def Registry.result (t : TestPtr) : Test := (r.test t).take modules (outcome t)

/-- The tests that end with `_success` when taken. -/
def Registry.succeeding : Set TestPtr := {t | (r.result modules outcome t).success = true}

/-- The counters of the loop, in terms of the tests taken. -/
structure Tally (s : RunState) : Prop where
  test : ∀ t, (s.test t).forget =
    if t ∈ s.taken then (r.result modules outcome t).forget else (r.test t).forget
  runCount : s.runCount = s.taken.length
  skipCount : s.skipCount = s.taken.countP fun t => (r.result modules outcome t).status = .skip
  successCount : s.successCount = s.taken.countP fun t => (r.result modules outcome t).success
  success : s.success = s.taken.all fun t => (r.result modules outcome t).success
  expected : ∀ st, s.expectedStatusSummary st = (s.taken.countP fun t =>
    (r.result modules outcome t).success && ((r.result modules outcome t).status = st)) % 2 ^ 32
  unExpected : ∀ st, s.unExpectedStatusSummary st = (s.taken.countP fun t =>
    !(r.result modules outcome t).success && ((r.result modules outcome t).status = st)) % 2 ^ 32

theorem tally_setup : Tally r modules outcome r.setup := by
  rw [Registry.setup_eq]
  constructor
  · intro t
    rw [if_neg (by simp [queuesOf])]
    simp only [queuesOf]
    split_ifs <;> rfl
  all_goals simp [queuesOf]

/-- One more occurrence in a list that counts modulo `2 ^ 32`. -/
theorem bump_apply (summary : Status → ℕ) (a st : Status) (n : Status → ℕ)
    (h : ∀ st, summary st = n st % 2 ^ 32) :
    bump summary a st = (n st + if a = st then 1 else 0) % 2 ^ 32 := by
  unfold bump
  rcases eq_or_ne st a with rfl | ha
  · rw [Function.update_self, h, if_pos rfl, Nat.mod_add_mod]
  · rw [Function.update_of_ne ha, h, if_neg ha.symm, Nat.add_zero]

variable {r modules outcome} {s s' : RunState}

theorem Tally.success_of_taken (h : Tally r modules outcome s) {t : TestPtr} (ht : t ∈ s.taken) :
    (s.test t).success = (r.result modules outcome t).success := by
  have hforget := h.test t
  rw [if_pos ht] at hforget
  exact show (Test.forget _).success = (Test.forget _).success from congrArg Test.success hforget

theorem RunState.completeModule_forget {m : String} (hnd : (s.blocked m).Nodup) (u : TestPtr) :
    ((s.completeModule m).test u).forget = (s.test u).forget := by
  rw [RunState.completeModule_test hnd]
  split_ifs <;> rfl

/-- Except for the queues, `succeed` does what `recordSuccess` does. -/
theorem RunState.succeed_eq_or (s : RunState) (t : TestPtr) : s.succeed t = s.recordSuccess t ∨
    s.succeed t = (s.recordSuccess t).completeModule (s.test t).module := by
  by_cases h : (s.remaining (s.test t).module).erase t = ∅
  · exact Or.inr (RunState.succeed_of_eq h)
  · exact Or.inl (RunState.succeed_of_ne h)

theorem Tally.completeModule (h : Tally r modules outcome s) {m : String}
    (hnd : (s.blocked m).Nodup) : Tally r modules outcome (s.completeModule m) where
  test t := (RunState.completeModule_forget hnd t).trans (h.test t)
  runCount := h.runCount
  skipCount := h.skipCount
  successCount := h.successCount
  success := h.success
  expected := h.expected
  unExpected := h.unExpected

section Turn

variable {t : TestPtr} (h : Tally r modules outcome s) (ht : t ∉ s.taken) (ready : List TestPtr)

include h ht

theorem Tally.runTest_forget (u : TestPtr) :
    ((s.runTest modules (fun _ => outcome) t ready).test u).forget =
      if u ∈ s.taken ++ [t] then (r.result modules outcome u).forget else (r.test u).forget := by
  rcases eq_or_ne u t with rfl | hu
  · rw [RunState.runTest_test_self, if_pos (by simp)]
    refine Test.take_forget_congr ?_ modules (outcome u)
    rw [h.test, if_neg ht]
  · rw [RunState.runTest_test_of_ne hu, h.test]
    simp [hu]

/-- The fields of the test just run that the loop reads. -/
theorem Tally.runTest_result :
    ((s.runTest modules (fun _ => outcome) t ready).test t).success =
        (r.result modules outcome t).success ∧
      ((s.runTest modules (fun _ => outcome) t ready).test t).status =
        (r.result modules outcome t).status := by
  have hforget := h.runTest_forget ht ready t
  rw [if_pos (by simp)] at hforget
  exact ⟨show (Test.forget _).success = (Test.forget _).success from congrArg Test.success hforget,
    show (Test.forget _).status = (Test.forget _).status from congrArg Test.status hforget⟩

theorem Tally.runTest_skipCount : (s.runTest modules (fun _ => outcome) t ready).skipCount =
    (s.taken ++ [t]).countP fun t => (r.result modules outcome t).status = .skip := by
  have hstatus := (h.runTest_result ht ready).2
  rw [RunState.runTest_test_self] at hstatus
  simp only [RunState.runTest, hstatus, h.skipCount, List.countP_append, List.countP_singleton,
    decide_eq_true_eq]
  split_ifs <;> rfl

theorem Tally.failed (hok : (r.result modules outcome t).success = false) :
    Tally r modules outcome ((s.runTest modules (fun _ => outcome) t ready).failed t) where
  test := h.runTest_forget ht ready
  runCount := by simp [RunState.failed, RunState.runTest, h.runCount]
  skipCount := h.runTest_skipCount ht ready
  successCount := by simp [RunState.failed, RunState.runTest, h.successCount, hok]
  success := by simp [RunState.failed, RunState.runTest, hok]
  expected st := by simp [RunState.failed, RunState.runTest, h.expected, hok]
  unExpected st := by
    apply (bump_apply _ _ st _ h.unExpected).trans
    rw [(h.runTest_result ht ready).2]
    simp [RunState.failed, RunState.runTest, List.countP_append, List.countP_singleton, hok]

theorem Tally.recordSuccess (hok : (r.result modules outcome t).success = true) :
    Tally r modules outcome ((s.runTest modules (fun _ => outcome) t ready).recordSuccess t) where
  test := h.runTest_forget ht ready
  runCount := by simp [RunState.recordSuccess, RunState.runTest, h.runCount]
  skipCount := h.runTest_skipCount ht ready
  successCount := by simp [RunState.recordSuccess, RunState.runTest, h.successCount, hok]
  success := by simp [RunState.recordSuccess, RunState.runTest, h.success, hok]
  expected st := by
    apply (bump_apply _ _ st _ h.expected).trans
    rw [(h.runTest_result ht ready).2]
    simp [RunState.recordSuccess, RunState.runTest, List.countP_append, List.countP_singleton, hok]
  unExpected st := by simp [RunState.recordSuccess, RunState.runTest, h.unExpected, hok]

end Turn

theorem Tally.step (hinv : Inv r s) (h : Tally r modules outcome s)
    (hstep : s.step modules (fun _ => outcome) = some s') : Tally r modules outcome s' := by
  obtain ⟨t, ready, hready, hcase⟩ := RunState.step_cases hstep
  have ht := hinv.head_not_taken hready
  rw [(h.runTest_result ht ready).1] at hcase
  obtain ⟨hok, rfl⟩ | ⟨hok, rfl⟩ := hcase
  · have hrec := h.recordSuccess ht ready hok
    rcases (s.runTest modules (fun _ => outcome) t ready).succeed_eq_or t with hs | hs
    · rwa [hs]
    · rw [hs]
      exact hrec.completeModule (hinv.blocked_nodup _)
  · exact h.failed ht ready hok

/-- The counters agree with the tests taken before every turn of the main loop. -/
theorem tally_loop (r : Registry) (modules : Finset String) (outcome : TestPtr → Status) (n : ℕ) :
    Tally r modules outcome (r.setup.loop modules (fun _ => outcome) n) :=
  (Loop.run_induction (P := fun s => Inv r s ∧ Tally r modules outcome s)
    (fun _ _ hstep h => ⟨h.1.step hstep, h.2.step h.1 hstep⟩) n
    ⟨inv_setup r, tally_setup r modules outcome⟩).2

end Dtest
