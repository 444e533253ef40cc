import Dtest.Driver.Model
import Mathlib.Order.Bounds.Basic

/-!
# `DriverContext::_join`

The driver collects the results of the allocated workers one after the other, in the iteration order
of `_allocatedWorkers`; the FINISHED_TEST messages arrive in any order and are kept in the handles.
`join_collects` says that the outcome depends on neither order: the status is the greatest one and
every worker's entry is what that worker sent.
-/

namespace Dtest

universe u v

variable {α : Type u} {μ : Type v}

/-- The value of an enumerator of `Test::Status`. -/
def Status.rank : Status → ℕ
  | .pass => 0
  | .skip => 1
  | .passWithMemoryLeak => 2
  | .memoryLimitExceeded => 3
  | .tooSlow => 4
  | .timeout => 5
  | .fail => 6
  | .pending => 7

theorem Status.rank_injective : Function.Injective Status.rank := by
  intro a b h
  cases a <;> cases b <;> first | rfl | exact absurd h (by decide)

instance : PartialOrder Status := PartialOrder.lift Status.rank Status.rank_injective

instance : DecidableRel fun a b : Status => a ≤ b := fun a b =>
  inferInstanceAs (Decidable (a.rank ≤ b.rank))

instance : DecidableRel fun a b : Status => a < b := fun a b =>
  inferInstanceAs (Decidable (a.rank < b.rank))

/-- The part of a `Test` that `_join` writes. -/
structure JoinedTest where
  status : Status
  childStatus : List Status := []
  childDetailedReport : List String := []
  deriving DecidableEq, Repr

namespace JoinedTest

/-- The loop body of `_join` once the worker is done. -/
def add (t : JoinedTest) (w : WorkerHandle α) : JoinedTest where
  status := if t.status < w.status then w.status else t.status
  childStatus := t.childStatus ++ [w.status]
  childDetailedReport := t.childDetailedReport ++ [w.detailedReport]

end JoinedTest

namespace DriverContext

/-- The handle of an allocated worker has its `_done` set. -/
def isDone (k : ℕ) (c : DriverContext α μ) : Bool := (c.allocatedWorkers.find? k).any (·.done)

/-- `_join`, over `_allocatedWorkers` in the given order; undefined where the messages run out. -/
def join : List ℕ → JoinedTest → DriverContext α μ → List (SuperFrame α) →
    Option (JoinedTest × DriverContext α μ × List (SuperFrame α))
  | [], t, c, frames => some (t, c, frames)
  | k :: order, t, c, frames =>
    match superEventsUntil (isDone k) frames c with
    | none => none
    | some (c, frames) =>
      match c.allocatedWorkers.find? k with
      | none => none
      | some w => join order (t.add w) c frames

end DriverContext

/-- The status and the report in a FINISHED_TEST message of worker `k`. -/
def SuperFrame.finished? (k : ℕ) : SuperFrame α → Option (Status × String)
  | .finishedTest id status detailedReport =>
    if id = k then some (status, detailedReport) else none
  | _ => none

/-- Of the messages to come and the handles, one or the other has the result that each worker
sends. -/
def Awaits (sent : ℕ → Status × String) (c : DriverContext α μ) (frames : List (SuperFrame α)) :
    Prop :=
  ∀ k w, c.allocatedWorkers.find? k = some w →
    w.done = true ∧ (w.status, w.detailedReport) = sent k ∧
        frames.filterMap (SuperFrame.finished? k) = [] ∨
      w.done = false ∧ frames.filterMap (SuperFrame.finished? k) = [sent k]

section Join

variable {c : DriverContext α μ} {sent : ℕ → Status × String} {frames : List (SuperFrame α)}

theorem mem_keys_waitForSuperEvent (c : DriverContext α μ) (f : SuperFrame α) (k : ℕ) :
    k ∈ (c.waitForSuperEvent f).1.allocatedWorkers.keys ↔ k ∈ c.allocatedWorkers.keys := by
  cases f with
  | workerStarted id addr =>
    simp only [DriverContext.waitForSuperEvent]
    cases c.workers.find? id <;> exact Iff.rfl
  | finishedTest id status detailedReport =>
    simp only [DriverContext.waitForSuperEvent]
    cases h : c.allocatedWorkers.find? id with
    | none => exact Iff.rfl
    | some w => exact SortedMap.mem_keys_set_of_mem (SortedMap.mem_keys_of_find? h)
  | other id => exact Iff.rfl

/-- A message moves the result of a worker into its handle, or concerns no result. -/
theorem Awaits.step {f : SuperFrame α} (h : Awaits sent c (f :: frames)) :
    Awaits sent (c.waitForSuperEvent f).1 frames := by
  intro k w hk
  cases f with
  | workerStarted id addr =>
    apply h k w
    simp only [DriverContext.waitForSuperEvent] at hk
    cases hid : c.workers.find? id <;> rw [hid] at hk <;> exact hk
  | other id => exact h k w hk
  | finishedTest id status detailedReport =>
    simp only [DriverContext.waitForSuperEvent] at hk
    by_cases hkid : id = k
    · subst hkid
      cases hid : c.allocatedWorkers.find? id with
      | none =>
        rw [hid] at hk
        exact absurd (hid.symm.trans hk) nofun
      | some v =>
        rw [hid] at hk
        obtain rfl := Option.some.inj (SortedMap.find?_set_self.symm.trans hk)
        have hv := h id v hid
        have hhead : SuperFrame.finished? id
            (.finishedTest id status detailedReport : SuperFrame α) =
              some (status, detailedReport) :=
          if_pos rfl
        rw [List.filterMap_cons_some hhead] at hv
        rcases hv with ⟨-, -, hnil⟩ | ⟨-, hsent⟩
        · exact absurd hnil (List.cons_ne_nil _ _)
        · obtain ⟨hhd, htl⟩ := List.cons.inj hsent
          exact Or.inl ⟨rfl, hhd, htl⟩
    · have hk' : c.allocatedWorkers.find? k = some w := by
        cases hid : c.allocatedWorkers.find? id with
        | none => rwa [hid] at hk
        | some v =>
          rw [hid] at hk
          rwa [SortedMap.find?_set_of_ne (Ne.symm hkid)] at hk
      have hv := h k w hk'
      have hhead : SuperFrame.finished? k
          (.finishedTest id status detailedReport : SuperFrame α) = none := if_neg hkid
      rwa [List.filterMap_cons_none hhead] at hv

/-- The wait for a worker ends: its result is in the handle or still to come. -/
theorem Awaits.until (h : Awaits sent c frames) {k : ℕ} (hk : k ∈ c.allocatedWorkers.keys) :
    ∃ c' rest w, DriverContext.superEventsUntil (DriverContext.isDone k) frames c =
      some (c', rest) ∧
      Awaits sent c' rest ∧ (∀ q, q ∈ c'.allocatedWorkers.keys ↔ q ∈ c.allocatedWorkers.keys) ∧
      c'.allocatedWorkers.find? k = some w ∧ (w.status, w.detailedReport) = sent k := by
  induction frames generalizing c with
  | nil =>
    obtain ⟨w, hw⟩ := SortedMap.mem_keys.1 hk
    rcases h k w hw with ⟨hdone, hsent, -⟩ | ⟨-, hnil⟩
    · have hcond : c.isDone k = true := by simp [DriverContext.isDone, hw, hdone]
      exact ⟨c, [], w, if_pos hcond, h, fun q => Iff.rfl, hw, hsent⟩
    · exact absurd hnil (List.cons_ne_nil _ _).symm
  | cons f frames ih =>
    obtain ⟨w, hw⟩ := SortedMap.mem_keys.1 hk
    by_cases hdone : w.done = true
    · have hcond : c.isDone k = true := by simp [DriverContext.isDone, hw, hdone]
      have hsent : (w.status, w.detailedReport) = sent k := by
        rcases h k w hw with ⟨-, hsent, -⟩ | ⟨hnot, -⟩
        · exact hsent
        · exact absurd hdone (by rw [hnot]; decide)
      exact ⟨c, f :: frames, w, if_pos hcond, h, fun q => Iff.rfl, hw, hsent⟩
    · have hcond : ¬ c.isDone k = true := by simp [DriverContext.isDone, hw, hdone]
      obtain ⟨c', rest, w', hrun, hawaits, hkeys, hfind, hsent⟩ :=
        ih h.step ((mem_keys_waitForSuperEvent c f k).2 hk)
      exact ⟨c', rest, w', (if_neg hcond).trans hrun, hawaits,
        fun q => (hkeys q).trans (mem_keys_waitForSuperEvent c f q), hfind, hsent⟩

/-- The fold of the maximum that `_join` computes. -/
theorem isGreatest_foldl {β : Type*} (st : β → Status) (l : List β) (s : Status) :
    IsGreatest {x | x = s ∨ ∃ b ∈ l, x = st b}
      (l.foldl (fun s b => if s < st b then st b else s) s) := by
  induction l generalizing s with
  | nil =>
    refine ⟨Or.inl rfl, ?_⟩
    rintro x (rfl | ⟨b, hb, -⟩)
    · exact le_rfl
    · exact absurd hb List.not_mem_nil
  | cons b l ih =>
    obtain ⟨hmem, hle⟩ := ih (if s < st b then st b else s)
    have hs : s ≤ if s < st b then st b else s := by
      split_ifs with h
      · exact h.le
      · exact le_rfl
    have hb : st b ≤ if s < st b then st b else s := by
      split_ifs with h
      · exact le_rfl
      · exact Nat.le_of_not_lt h
    refine ⟨?_, ?_⟩
    · rcases hmem with heq | ⟨b', hb', heq⟩
      · rw [List.foldl_cons, heq]
        split_ifs
        · exact Or.inr ⟨b, List.mem_cons_self .., rfl⟩
        · exact Or.inl rfl
      · exact Or.inr ⟨b', List.mem_cons_of_mem _ hb', heq⟩
    · have hacc := hle (Or.inl rfl)
      rintro x (rfl | ⟨b', hb', rfl⟩)
      · exact hs.trans hacc
      · rcases List.mem_cons.1 hb' with rfl | hb'
        · exact hb.trans hacc
        · exact hle (Or.inr ⟨b', hb', rfl⟩)

theorem join_eq (order : List ℕ) (t : JoinedTest) (h : Awaits sent c frames)
    (hmem : ∀ k ∈ order, k ∈ c.allocatedWorkers.keys) :
    ∃ c' rest, c.join order t frames = some
      (⟨order.foldl (fun s k => if s < (sent k).1 then (sent k).1 else s) t.status,
        t.childStatus ++ order.map fun k => (sent k).1,
        t.childDetailedReport ++ order.map fun k => (sent k).2⟩, c', rest) := by
  induction order generalizing c t frames with
  | nil => exact ⟨c, frames, by simp [DriverContext.join]⟩
  | cons k order ih =>
    obtain ⟨c', rest, w, hrun, hawaits, hkeys, hfind, hsent⟩ :=
      h.until (hmem k (List.mem_cons_self ..))
    obtain ⟨c'', rest', hjoin⟩ := ih (t.add w) hawaits fun q hq =>
      (hkeys q).2 (hmem q (List.mem_cons_of_mem _ hq))
    refine ⟨c'', rest', ?_⟩
    simp only [DriverContext.join, hrun, hfind, hjoin]
    simp [JoinedTest.add, ← hsent]

end Join

/-- Whatever the order of the FINISHED_TEST messages and the iteration order, `_join` returns with
the greatest of the driver's and the workers' statuses and with one entry for each worker, made of
the status and the report it sent. -/
theorem join_collects (c : DriverContext α μ) (order : List ℕ) (frames : List (SuperFrame α))
    (status : Status) (sent : ℕ → Status × String) (horder : c.allocatedWorkers.Iterates order)
    (hdone : ∀ k w, c.allocatedWorkers.find? k = some w → w.done = false)
    (hsent : ∀ k ∈ c.allocatedWorkers.keys, frames.filterMap (SuperFrame.finished? k) = [sent k]) :
    ∃ t c' rest, c.join order { status } frames = some (t, c', rest) ∧
      IsGreatest {x | x = status ∨ ∃ k ∈ c.allocatedWorkers.keys, x = (sent k).1} t.status ∧
      t.childStatus = order.map (fun k => (sent k).1) ∧
      t.childDetailedReport = order.map (fun k => (sent k).2) := by
  have hawaits : Awaits sent c frames := fun k w hk =>
    Or.inr ⟨hdone k w hk, hsent k (SortedMap.mem_keys_of_find? hk)⟩
  obtain ⟨c', rest, hjoin⟩ := join_eq order { status } hawaits fun k hk => horder.mem_iff.1 hk
  refine ⟨_, c', rest, hjoin, ?_, List.nil_append _, List.nil_append _⟩
  have hset : {x | x = status ∨ ∃ k ∈ c.allocatedWorkers.keys, x = (sent k).1} =
      {x | x = status ∨ ∃ k ∈ order, x = (sent k).1} := by
    simp only [horder.mem_iff]
  rw [hset]
  exact isGreatest_foldl (fun k => (sent k).1) order status

/-- The workers 1 and 2 at the start of a `_join`. -/
def joiningWorkers : DriverContext ℕ ℕ :=
  { allocatedWorkers := (SortedMap.empty.insert 1 (.ofId 1)).insert 2 (.ofId 2) }

/-- Worker 1 finishes while the driver waits for worker 2. -/
theorem join_collects_joiningWorkers :
    ∃ t c' rest, joiningWorkers.join [2, 1] { status := .pass }
        [.finishedTest 1 .timeout "late", .other 1, .finishedTest 2 .pass "ok"] =
          some (t, c', rest) ∧
      IsGreatest {x | x = .pass ∨ ∃ k ∈ joiningWorkers.allocatedWorkers.keys,
        x = (if k = 1 then (Status.timeout, "late") else (.pass, "ok")).1} t.status ∧
      t.childStatus = [2, 1].map
        (fun k => (if k = 1 then (Status.timeout, "late") else (.pass, "ok")).1) ∧
      t.childDetailedReport =
        [2, 1].map (fun k => (if k = 1 then (Status.timeout, "late") else (.pass, "ok")).2) := by
  have hentries : ∀ e ∈ joiningWorkers.allocatedWorkers.entries, e.2.done = false := by decide
  exact join_collects joiningWorkers [2, 1] _ .pass _ (by decide)
    (fun k w h => hentries _ (SortedMap.find?_eq_some_iff.1 h)) (by decide)

end Dtest
