import Dtest.Scheduler.Invariant

/-!
# The order in which `runAll` takes tests

A test leaves `ready` only after every module it depends on has completed, and the walk over
`blocked` only reaches tests that have not been taken, hence not been deleted.
-/

namespace Dtest

variable {r : Registry} {s : RunState} {modules : Finset String} {outcome : ℕ → TestPtr → Status}

theorem Inv.completed_of_ready (h : Inv r s) {t : TestPtr} (ht : t ∈ s.ready) {d : String}
    (hd : d ∈ (r.test t).dependencies) : r.Completed s d :=
  have hmem : t ∈ s.taken ++ s.ready := List.mem_append_right _ ht
  (h.released t (h.registered t hmem)).1 hmem d hd

/-- The pointers reached through `blocked` belong to tests that are still waiting. -/
theorem Inv.touched_waiting (h : Inv r s) {u : TestPtr} (hu : u ∈ s.touched modules outcome) :
    u ∉ s.taken ++ s.ready := by
  unfold RunState.touched at hu
  cases hready : s.ready with
  | nil =>
    rw [hready] at hu
    cases hu
  | cons t ready =>
    rw [hready] at hu
    dsimp only at hu
    split_ifs at hu
    · rw [RunState.runTest_module] at hu
      rw [← hready]
      exact (h.blocked_waiting (h.head_not_completed hready) hu).2.1
    · cases hu

/-- Whenever a test `t` stands at the head of `ready`, each module it depends on has a test, and all
its tests have been taken and ended with `_success`; and the turn touches only tests that have not
been taken yet. -/
theorem runAll_respects_dependencies (r : Registry) (modules : Finset String)
    (outcome : ℕ → TestPtr → Status) (n : ℕ) :
    let s := r.setup.loop modules outcome n
    (∀ t ready, s.ready = t :: ready → ∀ d ∈ (r.test t).dependencies,
      (∃ u, r.InModule d u) ∧
        ∀ u, r.InModule d u → u ∈ s.taken ∧ (s.test u).success = true) ∧
    ∀ u ∈ s.touched modules outcome, u ∉ s.taken ∧ s.ready.head? ≠ some u := by
  intro s
  have h : Inv r s := inv_loop r modules outcome n
  constructor
  · intro t ready hready d hd
    exact h.completed_of_ready (by simp [hready]) hd
  · intro u hu
    have hnot := h.touched_waiting hu
    rw [List.mem_append, not_or] at hnot
    exact ⟨hnot.1, fun hhead => hnot.2 (List.mem_of_mem_head? hhead)⟩

end Dtest
