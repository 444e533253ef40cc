import Dtest.Scheduler.Model
import Mathlib.Data.Finset.Dedup
import Mathlib.Data.Finset.Union
import Mathlib.Data.List.Flatten
import Mathlib.Tactic.SplitIfs

/-!
# The queues that `runAll` sets up, and the effect of one unblocking

Closed forms for the two folds of `runAll`: the set-up over all registered tests
(`Registry.setup_eq`) and the walk over one `blocked` list (`RunState.unblock_eq`).
-/

namespace Dtest

/-! ## Flat lists -/

theorem foldl_nested {α β γ : Type} (f : β → γ → β) (l : List (α × List γ)) (b : β) :
    l.foldl (fun b p => p.2.foldl f b) b = (l.flatMap Prod.snd).foldl f b := by
  induction l generalizing b with
  | nil => rfl
  | cons p l ih => rw [List.foldl_cons, ih, List.flatMap_cons, List.foldl_append]

theorem foldl_length {α γ : Type} (l : List (α × List γ)) (n : ℕ) :
    l.foldl (fun n p => n + p.2.length) n = n + (l.flatMap Prod.snd).length := by
  induction l generalizing n with
  | nil => rfl
  | cons p l ih =>
    rw [List.foldl_cons, ih, List.flatMap_cons, List.length_append, Nat.add_assoc]

theorem Registry.totalTestCount_eq (r : Registry) : r.totalTestCount = r.all.length := by
  rw [Registry.totalTestCount, foldl_length, Nat.zero_add, Registry.all]

/-! ## The set-up -/

/-- The queues after the tests of `l` have been set up. -/
def queuesOf (test : TestPtr → Test) (l : List TestPtr) : RunState where
  ready := l.filter fun t => (test t).dependencies = ∅
  blocked d := l.filter fun t => d ∈ (test t).dependencies
  remaining d := (l.filter fun t => (test t).module = d).toFinset
  test t :=
    if t ∈ l ∧ (test t).dependencies ≠ ∅ then
      { test t with remainingDependencies := (test t).dependencies }
    else test t

theorem queuesOf_test_module (test : TestPtr → Test) (l : List TestPtr) (t : TestPtr) :
    ((queuesOf test l).test t).module = (test t).module := by
  simp only [queuesOf]
  split_ifs <;> rfl

theorem queuesOf_nil (test : TestPtr → Test) : queuesOf test [] = { test := test } := by
  simp [queuesOf]

theorem queuesOf_test_of_not_mem (test : TestPtr → Test) {l : List TestPtr} {t : TestPtr}
    (ht : t ∉ l) : (queuesOf test l).test t = test t := by
  simp [queuesOf, ht]

/-- The test objects after the set-up of one more test. -/
theorem queuesOf_snoc_test (test : TestPtr → Test) (l : List TestPtr) (t : TestPtr) :
    (queuesOf test (l ++ [t])).test =
      if (test t).dependencies = ∅ then (queuesOf test l).test
      else Function.update (queuesOf test l).test t
        { test t with remainingDependencies := (test t).dependencies } := by
  funext u
  by_cases hdeps : (test t).dependencies = ∅
  · rw [if_pos hdeps]
    rcases eq_or_ne u t with rfl | hu
    · simp [queuesOf, hdeps]
    · simp [queuesOf, hu]
  · rw [if_neg hdeps]
    rcases eq_or_ne u t with rfl | hu
    · simp [queuesOf, hdeps]
    · simp [queuesOf, hu]

theorem queuesOf_snoc_blocked (test : TestPtr → Test) (l : List TestPtr) (t : TestPtr)
    (d : String) :
    (queuesOf test (l ++ [t])).blocked d =
      if d ∈ (test t).dependencies then (queuesOf test l).blocked d ++ [t]
      else (queuesOf test l).blocked d := by
  by_cases hd : d ∈ (test t).dependencies <;> simp [queuesOf, hd]

theorem queuesOf_snoc_remaining (test : TestPtr → Test) (l : List TestPtr) (t : TestPtr) :
    (queuesOf test (l ++ [t])).remaining =
      Function.update (queuesOf test l).remaining (test t).module
      (insert t ((queuesOf test l).remaining (test t).module)) := by
  funext d
  rcases eq_or_ne d (test t).module with rfl | hd
  · rw [Function.update_self]
    ext u
    simp only [queuesOf, List.filter_append, List.toFinset_append, Finset.mem_union,
      List.mem_toFinset, List.mem_filter, List.mem_singleton, decide_eq_true_eq, Finset.mem_insert]
    constructor
    · rintro (hu | ⟨rfl, -⟩)
      · exact Or.inr hu
      · exact Or.inl rfl
    · rintro (rfl | hu)
      · exact Or.inr ⟨rfl, rfl⟩
      · exact Or.inl hu
  · rw [Function.update_of_ne hd]
    simp [queuesOf, List.filter_append, List.filter_cons, Ne.symm hd]

theorem queuesOf_enqueue (test : TestPtr → Test) (l : List TestPtr) (t : TestPtr) (ht : t ∉ l) :
    (queuesOf test l).enqueue t = queuesOf test (l ++ [t]) := by
  have hself := queuesOf_test_of_not_mem test ht
  unfold RunState.enqueue
  rw [hself]
  by_cases hdeps : (test t).dependencies = ∅
  · have htest := queuesOf_snoc_test test l t
    rw [if_pos hdeps] at htest
    simp only [hdeps, if_true, hself]
    ext1
    · simp [queuesOf, List.filter_append, hdeps]
    · funext d
      rw [queuesOf_snoc_blocked, hdeps, if_neg (Finset.notMem_empty d)]
    · exact (queuesOf_snoc_remaining test l t).symm
    · exact htest.symm
    all_goals rfl
  · have htest := queuesOf_snoc_test test l t
    rw [if_neg hdeps] at htest
    simp only [hdeps, if_false, Function.update_self]
    ext1
    · simp [queuesOf, List.filter_append, hdeps]
    · funext d
      rw [queuesOf_snoc_blocked]
    · exact (queuesOf_snoc_remaining test l t).symm
    · exact htest.symm
    all_goals rfl

theorem foldl_enqueue (test : TestPtr → Test) (l : List TestPtr) (hl : l.Nodup) :
    l.foldl RunState.enqueue { test := test } = queuesOf test l := by
  induction l using List.reverseRecOn with
  | nil => exact (queuesOf_nil test).symm
  | append_singleton l t ih =>
    have h := List.nodup_append.1 hl
    rw [List.foldl_append, ih h.1, List.foldl_cons, List.foldl_nil, queuesOf_enqueue]
    exact fun ht => h.2.2 t ht t (by simp) rfl

theorem Registry.setup_eq (r : Registry) : r.setup = queuesOf r.test r.all := by
  rw [Registry.setup, foldl_nested]
  exact foldl_enqueue r.test r.all r.nodup_tests

/-! ## Unblocking -/

theorem RunState.unblock_eq (m : String) (l : List TestPtr) (hl : l.Nodup) (test : TestPtr → Test) :
    RunState.unblock m l test =
      (l.filter fun t => (test t).remainingDependencies.erase m = ∅,
        fun t => if t ∈ l then
          { test t with remainingDependencies := (test t).remainingDependencies.erase m }
        else test t) := by
  induction l generalizing test with
  | nil => simp [RunState.unblock]
  | cons t l ih =>
    obtain ⟨ht, hl⟩ := List.nodup_cons.1 hl
    have hfilter : ∀ u ∈ l, Function.update test t { test t with
        remainingDependencies := (test t).remainingDependencies.erase m } u = test u := by
      intro u hu
      rw [Function.update_of_ne]
      rintro rfl
      exact ht hu
    have hfront : (l.filter fun u => (Function.update test t { test t with
        remainingDependencies :=
          (test t).remainingDependencies.erase m } u).remainingDependencies.erase
          m = ∅) = l.filter fun u => (test u).remainingDependencies.erase m = ∅ :=
      List.filter_congr fun u hu => by rw [hfilter u hu]
    have htest : (fun u => if u ∈ l then { Function.update test t { test t with
          remainingDependencies := (test t).remainingDependencies.erase m } u with
          remainingDependencies := (Function.update test t { test t with
            remainingDependencies := (test t).remainingDependencies.erase m } u
              ).remainingDependencies.erase m }
        else Function.update test t { test t with
          remainingDependencies := (test t).remainingDependencies.erase m } u) =
        fun u => if u ∈ t :: l then
          { test u with remainingDependencies := (test u).remainingDependencies.erase m }
        else test u := by
      funext u
      rcases eq_or_ne u t with rfl | hu
      · simp [ht]
      · simp [hu]
    simp only [RunState.unblock, ih hl, hfront, htest]
    by_cases he : (test t).remainingDependencies.erase m = ∅ <;> simp [he]

end Dtest
