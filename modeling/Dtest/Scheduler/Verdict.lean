import Dtest.Scheduler.Complete

/-!
# The verdict of `runAll`

The flag `success` is cleared by a test that fails, never by a test that stays blocked.  So the
verdict is right except on registries whose dependency graph alone leaves a test stuck, when every
test that can be started succeeds.
-/

namespace Dtest

/-- What `main` reports when all is well. -/
def allTestsOK : String × ℕ := ("\nAll tests OK. See dtest.log.json for more details.\n\n", 0)

theorem mainVerdict_eq_allTestsOK_iff (success : Bool) :
    mainVerdict success = allTestsOK ↔ success = true := by
  cases success
  · exact iff_of_false (fun h => absurd (congrArg Prod.snd h) (by decide)) (by simp)
  · exact iff_of_true rfl rfl

/-- A test that no run can start, whatever the outcomes: following its dependencies leads to a
module without tests or into a cycle. -/
def Registry.Stuck (r : Registry) (t : TestPtr) : Prop := t ∈ r.all ∧ t ∉ r.rules.least

variable (r : Registry) (modules : Finset String) (outcome : TestPtr → Status)

/-- The verdict says what the tests did: it is positive exactly when every registered test was taken
and ended with `_success`, and `main` reports the same. -/
def VerdictCorrect : Prop :=
  let s := r.finish modules fun _ => outcome
  (r.runAll modules (fun _ => outcome) = true ↔ ∀ t ∈ r.all, s.Succeeded t) ∧
    (mainVerdict (r.runAll modules fun _ => outcome) = allTestsOK ↔ ∀ t ∈ r.all, s.Succeeded t)

theorem Registry.startable_subset_all : r.startable modules outcome ⊆ {t | t ∈ r.all} :=
  Enabling.least_subset _ fun _ ht => ht.1

/-- The verdict only looks at the tests that could be started. -/
theorem Registry.runAll_eq_true_iff : r.runAll modules (fun _ => outcome) = true ↔
    r.startable modules outcome ⊆ r.succeeding modules outcome := by
  have htally : Tally r modules outcome (r.finish modules fun _ => outcome) := tally_loop r _ _ _
  rw [← r.taken_eq, Registry.runAll, htally.success, List.all_eq_true]
  rfl

theorem Registry.succeeded_iff (t : TestPtr) : (r.finish modules fun _ => outcome).Succeeded t ↔
    t ∈ r.startable modules outcome ∧ t ∈ r.succeeding modules outcome := by
  have htally : Tally r modules outcome (r.finish modules fun _ => outcome) := tally_loop r _ _ _
  rw [← r.taken_eq]
  apply and_congr_right
  intro ht
  rw [htally.success_of_taken ht]
  rfl

/-- The verdict is correct exactly when the dependency graph leaves no test stuck, or some test that
it does not leave stuck ends without `_success`. -/
theorem verdict_correct_iff : VerdictCorrect r modules outcome ↔
    (∀ t ∈ r.all, ¬ r.Stuck t) ∨ ∃ t ∈ r.all, ¬ r.Stuck t ∧ t ∉ r.succeeding modules outcome := by
  have hsub := r.startable_subset_all modules outcome
  have hleast : r.rules.least ⊆ {t | t ∈ r.all} := Enabling.least_subset _ fun _ ht => ht.1
  have hstuck : ∀ t ∈ r.all, ¬ r.Stuck t ↔ t ∈ r.rules.least := fun t ht => by
    simp [Registry.Stuck, ht]
  simp only [VerdictCorrect, mainVerdict_eq_allTestsOK_iff, and_self, r.runAll_eq_true_iff,
    r.succeeded_iff]
  constructor
  · intro h
    by_cases hok : r.startable modules outcome ⊆ r.succeeding modules outcome
    · left
      intro t ht
      apply (hstuck t ht).2
      rw [← r.rules.least_restrict_eq hok]
      exact (h.1 hok t ht).1
    · obtain ⟨t, ht, hfail⟩ := Set.not_subset.1 hok
      exact Or.inr ⟨t, hsub ht, (hstuck t (hsub ht)).2 (r.rules.least_restrict_subset _ ht), hfail⟩
  · rintro (hall | ⟨t, ht, hnot, hfail⟩)
    · refine ⟨fun hok t ht => ⟨?_, ?_⟩, fun h t ht => (h t (hsub ht)).2⟩
      · have hmem := (hstuck t ht).1 (hall t ht)
        rwa [← r.rules.least_restrict_eq hok] at hmem
      · have hmem := (hstuck t ht).1 (hall t ht)
        rw [← r.rules.least_restrict_eq hok] at hmem
        exact hok hmem
    · -- a test outside the stuck part fails, so some test that is started fails
      obtain ⟨u, hu, hufail⟩ := r.rules.exists_not_mem_of_least ⟨t, (hstuck t ht).1 hnot, hfail⟩
      exact iff_of_false (fun hok => hufail (hok hu)) fun h => hufail (h u (hsub hu)).2

/-- One test, in module `"m"`, that depends on a module nobody registered. -/
def danglingRegistry : Registry where
  tests := [("m", [0])]
  test _ := { module := "m", name := "t", dependencies := {"gone"} }
  nodup_modules := by simp
  nodup_tests := by simp
  module_eq := by simp

/-- The only test is never started, and `main` reports that all tests are OK. -/
theorem dangling_dependency_reported_ok :
    ¬ VerdictCorrect danglingRegistry ∅ (fun _ => .pass) ∧
      (danglingRegistry.finish ∅ fun _ _ => .pass).taken = [] ∧
      mainVerdict (danglingRegistry.runAll ∅ fun _ _ => .pass) =
        ("\nAll tests OK. See dtest.log.json for more details.\n\n", 0) := by
  have htaken : (danglingRegistry.finish ∅ fun _ _ => Status.pass).taken = [] := by decide
  have hrun : danglingRegistry.runAll ∅ (fun _ _ => Status.pass) = true := by decide
  refine ⟨fun h => ?_, htaken, by rw [hrun]; rfl⟩
  have hmem := (h.1.1 hrun 0 (by decide)).1
  rw [htaken] at hmem
  cases hmem

end Dtest
