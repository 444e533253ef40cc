import Dtest.Cluster.Workers

/-!
# Runs of the cluster

* `cluster_collects`: whatever the order of the moves, what the driver collects of a test is made of
  one run of that test by each of its workers.
* `cluster_rests`: workers run tests only while the driver waits for them, and between two tests
  nothing of a test is left and the pool is as it was.
-/

namespace Dtest

variable {α τ : Type} [LinearOrder α]

namespace Cluster

/-- The cluster of a driver and workers that know the tests of `registered`. -/
def system (registered : τ → Bool) : Guarded (Cluster α τ) (ClusterMove α τ) :=
  .ofMove (move registered)

instance (registered : τ → Bool) (s : Cluster α τ) (m : ClusterMove α τ) :
    Decidable ((system registered).allowed s m) :=
  inferInstanceAs (Decidable ((Guarded.ofMove (move registered)).allowed s m))

variable {registered : τ → Bool} {N : ℕ} {external : SortedMap α ℕ} {s s' : Cluster α τ}
  {σ : ℕ → Stage}

/-- One move keeps the invariant. -/
theorem Inv.move (h : s.Inv registered N external σ) {m : ClusterMove α τ}
    (hmove : s.move registered m = some s') : ∃ σ', s'.Inv registered N external σ' := by
  cases move_cases hmove with
  | start name numWorkers hrun => exact ⟨σ, h.start hrun name numWorkers⟩
  | spawnWorker hrun haddr hpid hchild hspawn =>
    exact ⟨σ, h.spawnWorker hrun haddr hpid hchild hspawn⟩
  | spawned hrun hsize horder => exact ⟨σ, h.spawned hrun hsize horder⟩
  | allocate hrun hrunning => exact ⟨σ, h.allocate hrun hrunning⟩
  | allocated hrun hend horder => exact ⟨σ, h.allocated hrun hend horder⟩
  | sendRunTest hrun hsend => exact ⟨_, h.sendRunTest hrun hsend⟩
  | runDriver hrun => exact ⟨σ, h.runDriver hrun⟩
  | driverRan hrun horder => exact ⟨σ, h.driverRan hrun _ horder⟩
  | collect hrun hcollect => exact ⟨σ, h.collect hrun hcollect⟩
  | joined hrun => exact ⟨σ, h.joined hrun⟩
  | terminate hrun hterminate =>
    obtain ⟨st, hst⟩ := h.terminate hrun hterminate
    exact ⟨_, hst⟩
  | reap hrun hreap => exact ⟨σ, h.reap hrun hreap⟩
  | deallocated hrun => exact ⟨_, h.deallocated hrun⟩
  | superEvent hawaits hevent => exact h.superEvent hawaits hevent
  | workerStarts hstarts => exact ⟨σ, h.workerStarts hstarts⟩
  | workerReads hreads => exact h.workerReads hreads
  | workerFinishes hfinishes => exact h.workerFinishes hfinishes
  | workerReturns hreturns => exact ⟨σ, h.workerReturns hreturns⟩

/-! ## The start -/

omit [LinearOrder α] in
/-- No worker that is only registered is running. -/
theorem not_running_options (options : List ℕ) (k : ℕ) (w : WorkerHandle α)
    (h : (options.foldl DriverContext.addWorkers ({} : DriverContext α Unit)).workers.find? k =
      some w) :
    w.running = false := by
  have hadd : ∀ (c : DriverContext α Unit) (n : ℕ),
      (∀ j v, c.workers.find? j = some v → v.running = false) →
        ∀ j v, (c.addWorkers n).workers.find? j = some v → v.running = false := by
    intro c n hc
    unfold DriverContext.addWorkers
    induction n with
    | zero => exact hc
    | succ n ih =>
      intro j v hj
      rw [List.range_succ, List.foldl_append] at hj
      change (assignAt _ n _).find? j = some v at hj
      rw [find?_assignAt] at hj
      split_ifs at hj
      · obtain rfl := Option.some.inj hj
        rfl
      · exact ih j v hj
  suffices hall : ∀ (options : List ℕ) (c : DriverContext α Unit),
      (∀ j v, c.workers.find? j = some v → v.running = false) →
        ∀ j v, (options.foldl DriverContext.addWorkers c).workers.find? j = some v →
          v.running = false from hall options {} (fun j v hj => nomatch hj) k w h
  intro options
  induction options with
  | nil => exact fun c hc => hc
  | cons n options ih => exact fun c hc => ih (c.addWorkers n) (hadd c n hc)

/-- The external workers have different ids, none of them above those of the pool. -/
structure Launched (options : List ℕ) (external : SortedMap α ℕ) : Prop where
  le : ∀ a k, external.find? a = some k → k ≤ options.foldl max 0
  inj : ∀ a b k, external.find? a = some k → external.find? b = some k → a = b

theorem inv_init {options : List ℕ} (h : Launched options external) :
    (init options external : Cluster α τ).Inv registered (options.foldl max 0) external fun _ =>
      .ready := by
  have hidle : DriverContext.Idle (options.foldl max 0)
      (options.foldl DriverContext.addWorkers ({} : DriverContext α Unit)) :=
    DriverContext.idle_empty.options options
  have hnone : ∀ k w, (options.foldl DriverContext.addWorkers
      ({} : DriverContext α Unit)).allocatedWorkers.find? k ≠ some w := by
    intro k w hk
    rw [hidle.allocatedWorkers] at hk
    cases hk
  have hprocess : ∀ a p, (init options external : Cluster α τ).processes.find? a = some p →
      ∃ k, external.find? a = some k ∧ p = { id := k } := by
    intro a p hp
    change (external.map _).find? a = some p at hp
    rw [SortedMap.find?_map] at hp
    obtain ⟨k, hk, rfl⟩ := Option.map_eq_some_iff.1 hp
    exact ⟨k, hk, rfl⟩
  have hhosts : ∀ a k x, (init options external : Cluster α τ).hosts a = some (k, x) →
      external.find? a = some k ∧ x = false := by
    intro a k x ha
    obtain ⟨p, hp, rfl, rfl⟩ := hosts_eq_some.1 ha
    obtain ⟨k, hk, rfl⟩ := hprocess a p hp
    exact ⟨hk, rfl⟩
  have hnil : ∀ {k : ℕ}, k ∉ (init options external : Cluster α τ).extra := List.not_mem_nil
  refine ⟨⟨hidle.pooled, fun k w hk => absurd hk (hnone k w)⟩,
    fun k => (hidle.keys k).trans (or_iff_left hnil).symm,
    ⟨fun k hk => absurd hk hnil, fun k hk => absurd hk hnil⟩,
    ⟨h.le, List.nodup_nil, fun k hk => absurd hk hnil, fun a b k x y ha hb => ?_,
      fun a k x ha => ?_, fun a k ha => ?_, fun k hk => absurd hk hnil⟩,
    ⟨fun k a hk => absurd hk List.not_mem_nil, fun k => Nat.zero_le _,
      fun k w a _ _ => List.not_mem_nil, fun k w hk hr => ?_, fun k w a _ _ ha => ?_⟩,
    ⟨fun _ _ => rfl, fun k w hk => absurd hk (hnone k w), fun k w hk => absurd hk (hnone k w),
      fun k _ a => List.not_mem_nil, fun a p hp => ?_, fun _ => rfl, nofun⟩,
    ⟨nofun, nofun, nofun, List.Pairwise.nil⟩, hidle.allocatedWorkers⟩
  · exact h.inj a b k (hhosts a k x ha).1 (hhosts b k y hb).1
  · exact Or.inl (hhosts a k x ha).1
  · refine ⟨false, hosts_eq_some.2 ⟨{ id := k }, ?_, rfl, rfl⟩⟩
    show (external.map _).find? a = _
    rw [SortedMap.find?_map, ha]
    rfl
  · exact absurd ((not_running_options options k w hk).symm.trans hr) nofun
  · exact absurd (hhosts a k true ha).2 nofun
  · obtain ⟨k, -, rfl⟩ := hprocess a p hp
    exact ⟨rfl, rfl⟩

/-- The invariant rule for the runs of the cluster. -/
theorem Inv.run {options : List ℕ} (h : Launched options external)
    {ms : List (ClusterMove α τ)}
    (hms : (system registered).Admissible (init options external) ms) :
    ∃ σ, ((system registered).exec (init options external) ms).Inv registered
      (options.foldl max 0) external σ := by
  refine Guarded.Admissible.invariant
    (I := fun s : Cluster α τ => ∃ σ, s.Inv registered (options.foldl max 0) external σ)
      (fun s m hs hm => ?_)
    ⟨_, inv_init h⟩ hms
  obtain ⟨σ, hσ⟩ := hs
  obtain ⟨s', hmove⟩ := Guarded.ofMove_allowed_iff.1 hm
  show ∃ σ, ((Guarded.ofMove (Cluster.move registered)).step s m).Inv _ _ _ σ
  rw [Guarded.ofMove_step hmove]
  exact hσ.move hmove

end Cluster

open Cluster

omit [LinearOrder α] in
/-- The greatest status of a test is that of the driver or of one of the runs. -/
theorem Collected.Right.isGreatest {ran : List (Ran τ)} {c : Collected τ} (h : c.Right ran) :
    IsGreatest {x | x = c.status ∨ ∃ e ∈ ran, e.test = c.test ∧ x = e.status} c.result.status := by
  obtain ⟨sent, hresult, hsent⟩ := h.result
  have hset : {x | x = c.status ∨ ∃ e ∈ ran, e.test = c.test ∧ x = e.status} =
      {x | x = c.status ∨ ∃ k ∈ c.order, x = (sent k).1} := by
    ext x
    refine or_congr_right ⟨?_, ?_⟩
    · rintro ⟨e, he, htest, rfl⟩
      have hmem : e ∈ runsOf ran e.worker c.test :=
        List.mem_filter.2 ⟨he, decide_eq_true ⟨rfl, htest⟩⟩
      by_cases hk : e.worker ∈ c.order
      · rw [hsent _ hk] at hmem
        exact ⟨_, hk, congrArg Ran.status (List.mem_singleton.1 hmem)⟩
      · rw [h.others _ hk] at hmem
        exact absurd hmem List.not_mem_nil
    · rintro ⟨k, hk, rfl⟩
      have hmem : (⟨c.test, k, c.name, (sent k).1, (sent k).2⟩ : Ran τ) ∈ runsOf ran k c.test := by
        rw [hsent k hk]
        exact List.mem_singleton_self _
      exact ⟨_, (List.mem_filter.1 hmem).1, rfl, rfl⟩
  rw [hset, hresult]
  exact isGreatest_foldl (fun k => (sent k).1) c.order c.status

/-- In every run: every test is collected once, from as many workers as it asks for, of which each
has run that test once and nobody else has; the collected entries are those of these runs and the
status is the greatest one. -/
theorem cluster_collects (registered : τ → Bool) (options : List ℕ) (external : SortedMap α ℕ)
    (h : Launched options external) (ms : List (ClusterMove α τ))
    (hms : (system registered).Admissible (init options external) ms) :
    let s := (system registered).exec (init options external) ms
    (s.joined.Pairwise fun c d => c.test < d.test) ∧
      ∀ c ∈ s.joined, c.Right s.ran ∧
        IsGreatest {x | x = c.status ∨ ∃ e ∈ s.ran, e.test = c.test ∧ x = e.status}
          c.result.status := by
  obtain ⟨σ, hσ⟩ := Inv.run h hms
  refine ⟨hσ.recorded.increasing, fun c hc => ?_⟩
  have hright := (hσ.recorded.joined c hc).2.2
  exact ⟨hright, hright.isGreatest⟩

/-- The worker 0, listening at 100. -/
def oneExternal : SortedMap ℕ ℕ := SortedMap.empty.insert 100 0

theorem launched_oneExternal : Launched [1] oneExternal := by
  have hentries : oneExternal.entries = [(100, 0)] := rfl
  have hfind : ∀ a k, oneExternal.find? a = some k → a = 100 ∧ k = 0 := by
    intro a k h
    have hmem := SortedMap.find?_eq_some_iff.1 h
    rw [hentries, List.mem_singleton] at hmem
    exact Prod.mk.inj hmem
  refine ⟨fun a k h => ?_, fun a b k ha hb => ?_⟩
  · rw [(hfind a k h).2]
    exact Nat.zero_le _
  · rw [(hfind a k ha).1, (hfind b k hb).1]

/-- A test of two workers in a pool of one: worker 2 is spawned, and worker 0 finishes before worker
2 has its message. -/
def spawningTest : List (ClusterMove ℕ ℕ) :=
  [.start 7 2, .spawnWorker 102 55, .spawned [2, 0], .workerStarts 100, .workerStarts 102,
    .superEvent 0, .superEvent 0, .allocate, .allocate, .allocated [0, 2], .sendRunTest,
    .workerReads 100 0, .workerFinishes 100 .pass "a", .sendRunTest, .runDriver, .workerReturns 100,
    .driverRan .pass [2, 0], .superEvent 0, .workerReads 102 0, .workerFinishes 102 .fail "b",
    .superEvent 0, .collect, .collect, .joined, .terminate, .workerReturns 102, .workerReads 102 0,
    .reap, .deallocated]

theorem cluster_collects_spawningTest :
    let s := (system fun _ => true).exec (init [1] oneExternal) spawningTest
    s.joined.map Collected.result = [⟨.fail, [.fail, .pass], ["b", "a"]⟩] ∧
      (s.joined.Pairwise fun c d => c.test < d.test) ∧
      ∀ c ∈ s.joined, c.Right s.ran ∧
        IsGreatest {x | x = c.status ∨ ∃ e ∈ s.ran, e.test = c.test ∧ x = e.status}
          c.result.status :=
  ⟨by decide +kernel, cluster_collects
    (fun _ => true) [1] oneExternal launched_oneExternal spawningTest
    (by decide +kernel)⟩

/-- In every state: a worker in a test runs the driver's test, is allocated for it and leaves no
message unread, so that it drops none; and between two tests no worker is in a test, nothing is
unread, no result is on its way, and the processes are the external ones. -/
theorem cluster_rests (registered : τ → Bool) (options : List ℕ) (external : SortedMap α ℕ)
    (h : Launched options external) (ms : List (ClusterMove α τ))
    (hms : (system registered).Admissible (init options external) ms) :
    let s := (system registered).exec (init options external) ms
    (∀ a p test name, s.processes.find? a = some p → p.activity = .inTest test name →
      test = s.test ∧ s.name? = some name ∧ s.settled = false ∧
        p.id ∈ s.driver.allocatedWorkers.keys ∧ p.unread = []) ∧
    (s.running = none →
      (∀ k, s.superFrames.filterMap (SuperFrame.finished? k) = []) ∧
      (∀ a p, s.processes.find? a = some p →
        p.activity.quiet = true ∧ p.unread = [] ∧ external.find? a = some p.id) ∧
      ∀ a k, external.find? a = some k → ∃ p, s.processes.find? a = some p ∧ p.id = k) := by
  obtain ⟨σ, hσ⟩ := Inv.run h hms
  refine ⟨fun a p test name hp hactivity => ?_, fun hrun => ⟨fun k => ?_, fun a p hp => ?_,
    fun a k ha => ?_⟩⟩
  · obtain ⟨hbusy, hunread, htest, hname⟩ := hσ.busy hp hactivity
    refine ⟨htest, hname, Bool.eq_false_of_not_eq_true fun hs => ?_, ?_, hunread⟩
    · have hnot := hσ.not_pending hs p.id
      rw [hbusy] at hnot
      cases hnot
    · by_contra hnot
      cases hbusy.symm.trans (hσ.staged.ready p.id hnot)
  · have hphase := hσ.phase
    rw [hrun] at hphase
    rw [hσ.staged.frames, hσ.staged.all_ready hphase]
    rfl
  · have hphase := hσ.phase
    rw [hrun] at hphase
    have hprocess := hσ.staged.process a p hp
    rw [hσ.staged.all_ready hphase] at hprocess
    refine ⟨hprocess.1, hprocess.2, ?_⟩
    rcases hσ.hosted.owner a p.id _ (hosts_of_find? hp) with hext | hmem
    · exact hext
    · rw [extra, hrun] at hmem
      exact absurd hmem List.not_mem_nil
  · obtain ⟨x, hx⟩ := hσ.hosted.external a k ha
    obtain ⟨p, hp, hid, -⟩ := hosts_eq_some.1 hx
    exact ⟨p, hp, hid⟩

/-- In the middle of the test and at its end. -/
theorem cluster_rests_spawningTest :
    (let s := (system fun _ => true).exec (init [1] oneExternal) (spawningTest.take 12)
      ∀ a p test name, s.processes.find? a = some p → p.activity = .inTest test name →
        test = s.test ∧ s.name? = some name ∧ s.settled = false ∧
          p.id ∈ s.driver.allocatedWorkers.keys ∧ p.unread = []) ∧
    let s := (system fun _ => true).exec (init [1] oneExternal) spawningTest
    (∀ k, s.superFrames.filterMap (SuperFrame.finished? k) = []) ∧
      (∀ a p, s.processes.find? a = some p →
        p.activity.quiet = true ∧ p.unread = [] ∧ oneExternal.find? a = some p.id) ∧
      ∀ a k, oneExternal.find? a = some k → ∃ p, s.processes.find? a = some p ∧ p.id = k :=
  ⟨(cluster_rests (fun _ => true) [1] oneExternal launched_oneExternal (spawningTest.take 12)
      (by decide +kernel)).1,
    (cluster_rests (fun _ => true) [1] oneExternal launched_oneExternal spawningTest
      (by decide +kernel)).2 rfl⟩

end Dtest
