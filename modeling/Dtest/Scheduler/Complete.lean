import Dtest.Lib.Enabling
import Dtest.Scheduler.Order
import Dtest.Scheduler.Tally
import Mathlib.Data.List.Perm.Subperm

/-!
# `runAll` takes exactly the least set of tests closed under completed dependencies

`Registry.rules` is what the component is for: a test may run once every module it depends on has
tests and all of them are done.  The loop lists the least set closed under these rules, in which
only successful tests count as done, and every counter is a count over that set.  None of this
depends on the iteration order.
-/

namespace Dtest

/-- A test is enabled when all the modules it depends on have tests, and all of these are done. -/
def Registry.rules (r : Registry) : Enabling TestPtr where
  enabled S t := t ∈ r.all ∧ ∀ d ∈ (r.test t).dependencies,
    (∃ u, r.InModule d u) ∧ ∀ u, r.InModule d u → u ∈ S
  mono hST h := ⟨h.1, fun d hd => ⟨(h.2 d hd).1, fun u hu => hST ((h.2 d hd).2 u hu)⟩⟩

/-- The tests that can be started, when only successful tests release others. -/
def Registry.startable (r : Registry) (modules : Finset String) (outcome : TestPtr → Status) :
    Set TestPtr :=
  (r.rules.restrict (r.succeeding modules outcome)).least

variable {r : Registry} {s s' : RunState} {modules : Finset String} {outcome : TestPtr → Status}

/-! ## Termination -/

theorem Inv.taken_length_le (h : Inv r s) : s.taken.length ≤ r.totalTestCount := by
  rw [r.totalTestCount_eq]
  refine (List.subperm_of_subset (List.nodup_append.1 h.nodup).1 fun t ht => ?_).length_le
  exact h.registered t (List.mem_append_left _ ht)

theorem RunState.step_taken {outcome : ℕ → TestPtr → Status}
    (hstep : s.step modules outcome = some s') :
    ∃ t ready, s.ready = t :: ready ∧ s'.taken = s.taken ++ [t] := by
  obtain ⟨t, ready, hready, ⟨-, rfl⟩ | ⟨-, rfl⟩⟩ := RunState.step_cases hstep
  · refine ⟨t, ready, hready, ?_⟩
    rcases (s.runTest modules outcome t ready).succeed_eq_or t with hs | hs <;> rw [hs] <;> rfl
  · exact ⟨t, ready, hready, rfl⟩

/-- The main loop has ended after `totalTestCount` turns. -/
theorem Registry.finish_ready (r : Registry) (modules : Finset String)
    (outcome : ℕ → TestPtr → Status) : (r.finish modules outcome).ready = [] := by
  rw [← RunState.step_eq_none_iff _ modules outcome]
  refine Loop.step_run_eq_none (P := Inv r) (fun _ _ hstep h => h.step hstep)
    (fun s => r.totalTestCount - s.taken.length) ?_ _ (inv_setup r) (Nat.sub_le _ _)
  intro s s' h hstep
  have hle := (h.step hstep).taken_length_le
  obtain ⟨t, ready, -, htaken⟩ := RunState.step_taken hstep
  rw [htaken, List.length_append, List.length_singleton] at hle ⊢
  omega

/-- More turns change nothing. -/
theorem Registry.loop_eq_finish (r : Registry) (modules : Finset String)
    (outcome : ℕ → TestPtr → Status) {n : ℕ} (hn : r.totalTestCount ≤ n) :
    r.setup.loop modules outcome n = r.finish modules outcome := by
  obtain ⟨k, rfl⟩ := Nat.exists_eq_add_of_le hn
  exact Loop.run_add ((RunState.step_eq_none_iff _ _ _).2 (r.finish_ready modules outcome)) k

/-! ## The tests taken -/

theorem grounded_loop (r : Registry) (modules : Finset String) (outcome : TestPtr → Status)
    (n : ℕ) : (r.rules.restrict (r.succeeding modules outcome)).Grounded
      (r.setup.loop modules (fun _ => outcome) n).taken := by
  refine (Loop.run_induction (P := fun s => (Inv r s ∧ Tally r modules outcome s) ∧
    (r.rules.restrict (r.succeeding modules outcome)).Grounded s.taken) ?_ n ?_).2
  · rintro s s' hstep ⟨⟨hinv, htally⟩, hground⟩
    refine ⟨⟨hinv.step hstep, htally.step hinv hstep⟩, ?_⟩
    obtain ⟨t, ready, hready, htaken⟩ := RunState.step_taken hstep
    rw [htaken]
    refine hground.snoc ⟨hinv.head_mem hready, fun d hd => ?_⟩
    obtain ⟨hne, hall⟩ := hinv.completed_of_ready (t := t) (by simp [hready]) hd
    refine ⟨hne, fun u hu => ⟨(hall u hu).1, ?_⟩⟩
    exact (htally.success_of_taken (hall u hu).1).symm.trans (hall u hu).2
  · refine ⟨⟨inv_setup r, tally_setup r modules outcome⟩, ?_⟩
    rw [Registry.setup_eq]
    exact Enabling.Grounded.nil

theorem Registry.taken_eq (r : Registry) (modules : Finset String) (outcome : TestPtr → Status) :
    {t | t ∈ (r.finish modules fun _ => outcome).taken} = r.startable modules outcome := by
  apply (grounded_loop r modules outcome _).eq_least
  have hinv : Inv r (r.finish modules fun _ => outcome) := inv_loop r modules _ _
  have htally : Tally r modules outcome (r.finish modules fun _ => outcome) := tally_loop r _ _ _
  rintro t ⟨hall, hdeps⟩
  have hmem := (hinv.released t hall).2 fun d hd => ⟨(hdeps d hd).1, fun u hu => ?_⟩
  · rwa [r.finish_ready, List.append_nil] at hmem
  · obtain ⟨htaken, hok⟩ := (hdeps d hd).2 u hu
    exact ⟨htaken, (htally.success_of_taken htaken).trans hok⟩

theorem Registry.startable_isLeast (r : Registry) (modules : Finset String)
    (outcome : TestPtr → Status) :
    IsLeast {S : Set TestPtr | ∀ t ∈ r.all, (∀ d ∈ (r.test t).dependencies,
      (∃ u, r.InModule d u) ∧ ∀ u, r.InModule d u →
        u ∈ S ∧ (r.result modules outcome u).success = true) → t ∈ S}
      (r.startable modules outcome) := by
  have h := (r.rules.restrict (r.succeeding modules outcome)).least_isLeast
  exact ⟨fun t hall hdeps => h.1 t ⟨hall, hdeps⟩,
    fun S hS => h.2 fun t ht => hS t ht.1 ht.2⟩

/-! ## The verdict and the summary -/

theorem Registry.runAll_eq_all (r : Registry) (modules : Finset String)
    (outcome : TestPtr → Status) :
    r.runAll modules (fun _ => outcome) =
      (r.finish modules fun _ => outcome).taken.all fun t => (r.result modules outcome t).success :=
  (tally_loop r modules outcome _).success

/-- The summary in terms of the tests taken. -/
theorem Registry.summary_eq (r : Registry) (modules : Finset String) (outcome : TestPtr → Status) :
    let taken := (r.finish modules fun _ => outcome).taken
    let success := fun t => (r.result modules outcome t).success
    let status := fun t => (r.result modules outcome t).status
    r.summary modules (fun _ => outcome) =
      { totalTestCount := r.totalTestCount
        runCount := taken.length
        skipCount := taken.countP fun t => status t = .skip
        successCount := taken.countP success
        failedCount := (taken.countP fun t => !success t) % 2 ^ 64
        blockedCount := (r.totalTestCount - taken.length) % 2 ^ 64
        expectedStatusSummary := fun st =>
          (taken.countP fun t => success t && (status t = st)) % 2 ^ 32
        unExpectedStatusSummary := fun st =>
          (taken.countP fun t => !success t && (status t = st)) % 2 ^ 32 } := by
  intro taken success status
  have htally : Tally r modules outcome (r.finish modules fun _ => outcome) := tally_loop r _ _ _
  have hinv : Inv r (r.finish modules fun _ => outcome) := inv_loop r modules _ _
  have hfailed : taken.length - taken.countP success = taken.countP fun t => !success t := by
    rw [taken.length_eq_countP_add_countP success, Nat.add_sub_cancel_left]
    simp only [Bool.not_eq_true, Bool.decide_eq_false]
  have hexpected := funext htally.expected
  have hunExpected := funext htally.unExpected
  simp only [Registry.summary, htally.runCount, htally.skipCount, htally.successCount, hexpected,
    hunExpected, wsub_eq_mod List.countP_le_length, wsub_eq_mod hinv.taken_length_le]
  rw [← hfailed]

/-! ## Other iteration orders -/

theorem Registry.result_congr {r' : Registry} (htest : r'.test = r.test) :
    r'.result modules outcome = r.result modules outcome := by
  unfold Registry.result
  rw [htest]

section Perm

variable {r' : Registry} (htest : r'.test = r.test) (hperm : r'.tests.Perm r.tests)

include htest hperm

theorem Registry.startable_congr : r'.startable modules outcome = r.startable modules outcome := by
  have hall : ∀ t, t ∈ r'.all ↔ t ∈ r.all := fun t => (hperm.flatMap_right _).mem_iff
  have hrules : r'.rules = r.rules := by
    unfold Registry.rules Registry.InModule
    simp only [hall, htest]
  have hsucc : r'.succeeding modules outcome = r.succeeding modules outcome := by
    unfold Registry.succeeding
    rw [Registry.result_congr htest]
  unfold Registry.startable
  rw [hrules, hsucc]

/-- The tests taken are the same up to their order. -/
theorem Registry.taken_perm : (r'.finish modules fun _ => outcome).taken.Perm
    (r.finish modules fun _ => outcome).taken := by
  refine (List.perm_ext_iff_of_nodup ?_ ?_).2 fun t => ?_
  · exact (List.nodup_append.1 (inv_loop r' modules (fun _ => outcome) _).nodup).1
  · exact (List.nodup_append.1 (inv_loop r modules (fun _ => outcome) _).nodup).1
  · have h := (r'.taken_eq modules outcome).trans
      ((Registry.startable_congr htest hperm).trans (r.taken_eq modules outcome).symm)
    exact Set.ext_iff.1 h t

theorem Registry.runAll_congr : r'.runAll modules (fun _ => outcome) =
    r.runAll modules (fun _ => outcome) := by
  rw [Registry.runAll_eq_all, Registry.runAll_eq_all, Registry.result_congr htest]
  exact (Registry.taken_perm htest hperm).all_eq

theorem Registry.summary_congr : r'.summary modules (fun _ => outcome) =
    r.summary modules (fun _ => outcome) := by
  have htotal : r'.totalTestCount = r.totalTestCount := by
    rw [r'.totalTestCount_eq, r.totalTestCount_eq]
    exact (hperm.flatMap_right _).length_eq
  have htaken : (r'.finish modules fun _ => outcome).taken.Perm
      (r.finish modules fun _ => outcome).taken := Registry.taken_perm htest hperm
  rw [Registry.summary_eq, Registry.summary_eq, htotal, Registry.result_congr htest]
  simp only [htaken.countP_eq, htaken.length_eq]

end Perm

/-- The loop ends, takes every test at most once, and takes exactly the least set of tests closed
under completed dependencies.  The verdict says that all tests taken have succeeded, and the summary
counts them by how they ended.  So the tests taken, the verdict and the summary are the same for
every iteration order of `__tests`, and the two differences of the summary do not wrap. -/
theorem runAll_takes_least (r : Registry) (modules : Finset String) (outcome : TestPtr → Status) :
    let s := r.finish modules fun _ => outcome
    (s.ready = [] ∧ ∀ n, r.totalTestCount ≤ n → r.setup.loop modules (fun _ => outcome) n = s) ∧
    s.taken.Nodup ∧
    IsLeast {S : Set TestPtr | ∀ t ∈ r.all, (∀ d ∈ (r.test t).dependencies,
      (∃ u, r.InModule d u) ∧ ∀ u, r.InModule d u →
        u ∈ S ∧ (r.result modules outcome u).success = true) → t ∈ S} {t | t ∈ s.taken} ∧
    s.successCount ≤ s.runCount ∧ s.runCount = s.taken.length ∧ s.runCount ≤ r.totalTestCount ∧
    r.runAll modules (fun _ => outcome) =
      (s.taken.all fun t => (r.result modules outcome t).success) ∧
    r.summary modules (fun _ => outcome) =
      { totalTestCount := r.totalTestCount
        runCount := s.taken.length
        skipCount := s.taken.countP fun t => (r.result modules outcome t).status = .skip
        successCount := s.taken.countP fun t => (r.result modules outcome t).success
        failedCount := (s.taken.countP fun t => !(r.result modules outcome t).success) % 2 ^ 64
        blockedCount := (r.totalTestCount - s.taken.length) % 2 ^ 64
        expectedStatusSummary := fun st => (s.taken.countP fun t =>
          (r.result modules outcome t).success &&
            ((r.result modules outcome t).status = st)) % 2 ^ 32
        unExpectedStatusSummary := fun st => (s.taken.countP fun t =>
          !(r.result modules outcome t).success &&
            ((r.result modules outcome t).status = st)) % 2 ^ 32 } ∧
    ∀ r' : Registry, r'.test = r.test → r'.tests.Perm r.tests →
      {t | t ∈ (r'.finish modules fun _ => outcome).taken} = {t | t ∈ s.taken} ∧
      r'.runAll modules (fun _ => outcome) = r.runAll modules (fun _ => outcome) ∧
      r'.summary modules (fun _ => outcome) = r.summary modules (fun _ => outcome) := by
  intro s
  have hinv : Inv r s := inv_loop r modules _ _
  have htally : Tally r modules outcome s := tally_loop r modules _ _
  refine ⟨⟨r.finish_ready _ _, fun n hn => r.loop_eq_finish _ _ hn⟩,
    (List.nodup_append.1 hinv.nodup).1, ?_, ?_, htally.runCount, ?_,
    r.runAll_eq_all modules outcome, r.summary_eq modules outcome, fun r' htest hperm =>
    ⟨?_, Registry.runAll_congr htest hperm, Registry.summary_congr htest hperm⟩⟩
  · rw [r.taken_eq]
    exact r.startable_isLeast modules outcome
  · rw [htally.successCount, htally.runCount]
    exact List.countP_le_length
  · rw [htally.runCount]
    exact hinv.taken_length_le
  · rw [r'.taken_eq, r.taken_eq]
    exact Registry.startable_congr htest hperm

end Dtest
