import Dtest.Cluster.Model

/-!
# What the moves of the cluster do

`move_cases` says once when each move can be made and where it leads.  The lemmas before it do so
for the parts that moves are made of.
-/

namespace Dtest

variable {α τ : Type} [LinearOrder α]

namespace Cluster

variable {registered : τ → Bool} {s s' : Cluster α τ} {t : RunningTest τ}

/-! ## The parts of moves -/

theorem send_eq_some {k : ℕ} {m : Command τ} (h : s.send k m = some s') :
    ∃ w addr p, s.driver.allocatedWorkers.find? k = some w ∧ w.connection = some addr ∧
      s.processes.find? addr = some p ∧ s' = { s with
        processes := s.processes.set addr { p with unread := p.unread ++ [(s.test, m)] } } := by
  obtain ⟨w, hw, h⟩ := Option.bind_eq_some_iff.1 h
  obtain ⟨addr, haddr, h⟩ := Option.bind_eq_some_iff.1 h
  obtain ⟨p, hp, h⟩ := Option.bind_eq_some_iff.1 h
  exact ⟨w, addr, p, hw, haddr, hp, (Option.some.inj h).symm⟩

theorem spawnWorker_eq_some {addr : α} {pid : ℤ} (h : s.spawnWorker t addr pid = some s') :
    ∃ c ids, DriverContext.spawnStep (fun _ => pid) t.numWorkers (s.driver, t.extraWorkers) =
      some (c, ids) ∧ s' = { s with
        driver := c
        running := some ({ t with extraWorkers := ids }, .spawning)
        processes := s.processes.insert addr { id := s.driver.workers.size + 1, pid } } := by
  obtain ⟨⟨c, ids⟩, hstep, h⟩ := Option.bind_eq_some_iff.1 h
  exact ⟨c, ids, hstep, (Option.some.inj h).symm⟩

theorem collect_eq_some {status : Status} {before order : List ℕ} {k : ℕ} {result : JoinedTest}
    (h : s.collect t status before k order result = some s') :
    ∃ w, s.driver.allocatedWorkers.find? k = some w ∧ w.done = true ∧
      s' = s.toPhase t (.joining status (before ++ [k]) order (result.add w)) := by
  obtain ⟨w, hw, h⟩ := Option.bind_eq_some_iff.1 h
  split_ifs at h with hdone
  exact ⟨w, hw, hdone, (Option.some.inj h).symm⟩

theorem terminate_eq_some {k : ℕ} {ids : List ℕ} (h : s.terminate t k ids = some s') :
    ∃ s₁, s.send k .terminate = some s₁ ∧ s' = s₁.toPhase t (.awaiting k ids) := by
  obtain ⟨s₁, hsend, h⟩ := Option.bind_eq_some_iff.1 h
  exact ⟨s₁, hsend, (Option.some.inj h).symm⟩

theorem hasChild_eq_false_iff {pid : ℤ} :
    s.hasChild pid = false ↔ ∀ a p, s.processes.find? a = some p → p.pid ≠ pid := by
  unfold hasChild
  rw [List.any_eq_false]
  constructor
  · intro h a p hp
    simpa using h (a, p) (SortedMap.find?_eq_some_iff.1 hp)
  · rintro h ⟨a, p⟩ hmem
    simpa using h a p (SortedMap.find?_eq_some_iff.2 hmem)

/-- The child of worker `k` is gone, or there is none to wait for. -/
theorem reap_eq_some {k : ℕ} {ids : List ℕ} (h : s.reap t k ids = some s') :
    ∃ w, s.driver.allocatedWorkers.find? k = some w ∧ (w.pid ≠ 0 → s.hasChild w.pid = false) ∧
      s' = { s with
        driver := { s.driver with workers := s.driver.workers.erase k }
        running := some (t, .terminating ids) } := by
  obtain ⟨w, hw, h⟩ := Option.bind_eq_some_iff.1 h
  obtain ⟨⟨addr, pid⟩, hterm, h⟩ := Option.bind_eq_some_iff.1 h
  obtain ⟨_, -, heq⟩ := Option.map_eq_some_iff.1 hterm
  obtain ⟨-, hpid⟩ := Prod.mk.inj heq
  dsimp only at h
  split_ifs at h with hgone
  refine ⟨w, hw, fun hne => ?_, (Option.some.inj h).symm⟩
  rw [if_pos hne] at hpid
  rw [← hpid, Option.any_some, Bool.not_eq_true] at hgone
  exact hgone

theorem superEvent_eq_some {i : ℕ} (h : s.superEvent i = some s') :
    ∃ f, s.superFrames[i]? = some f ∧ s' = { s with
      driver := (s.driver.waitForSuperEvent f).1
      superFrames := s.superFrames.eraseIdx i } := by
  obtain ⟨f, hi, h⟩ := Option.bind_eq_some_iff.1 h
  exact ⟨f, hi, (Option.some.inj h).symm⟩

theorem workerReads_eq_some {addr : α} {i : ℕ} (h : s.workerReads registered addr i = some s') :
    ∃ p m, s.processes.find? addr = some p ∧ p.unread[i]? = some m ∧ p.activity.reads = true ∧
      s' = { s with
        processes := match { p with unread := p.unread.eraseIdx i }.waitForEvent registered m with
          | none => s.processes.erase addr
          | some p' => s.processes.set addr p' } := by
  obtain ⟨p, hp, h⟩ := Option.bind_eq_some_iff.1 h
  obtain ⟨m, hm, h⟩ := Option.bind_eq_some_iff.1 h
  split_ifs at h with hreads
  refine ⟨p, m, hp, hm, hreads.1, ?_⟩
  cases hread : WorkerProcess.waitForEvent registered
    { p with unread := p.unread.eraseIdx i } m with
  | none =>
    rw [hread] at h
    exact (Option.some.inj h).symm
  | some p' =>
    rw [hread] at h
    exact (Option.some.inj h).symm

theorem advance_eq_some {addr : α} {next : Activity τ → Option (Activity τ)}
    (h : s.advance addr next = some s') : ∃ p x, s.processes.find? addr = some p ∧
      next p.activity = some x ∧
      s' = { s with processes := s.processes.set addr { p with activity := x } } := by
  obtain ⟨p, hp, h⟩ := Option.bind_eq_some_iff.1 h
  obtain ⟨x, hx, h⟩ := Option.bind_eq_some_iff.1 h
  exact ⟨p, x, hp, hx, (Option.some.inj h).symm⟩

theorem workerReturns_eq_some {addr : α} (h : s.advance addr Activity.return? = some s') :
    ∃ p, s.processes.find? addr = some p ∧ p.activity = .reported ∧
      s' = { s with processes := s.processes.set addr { p with activity := .waiting } } := by
  obtain ⟨p, x, hp, hx, rfl⟩ := advance_eq_some h
  cases hactivity : p.activity with
  | reported =>
    rw [hactivity] at hx
    obtain rfl := Option.some.inj hx
    exact ⟨p, hp, hactivity, rfl⟩
  | _ => rw [hactivity] at hx; cases hx

theorem workerStarts_eq_some {addr : α} (h : s.workerStarts addr = some s') :
    ∃ p, s.processes.find? addr = some p ∧ p.activity = .starting ∧ s' = { s with
      processes := s.processes.set addr { p with activity := .waiting }
      superFrames := s.superFrames ++ [.workerStarted p.id addr] } := by
  obtain ⟨p, hp, h⟩ := Option.bind_eq_some_iff.1 h
  obtain ⟨s₁, hadvance, h⟩ := Option.bind_eq_some_iff.1 h
  obtain ⟨q, x, hq, hx, rfl⟩ := advance_eq_some hadvance
  obtain rfl := Option.some.inj (hp.symm.trans hq)
  cases hactivity : p.activity with
  | starting =>
    rw [hactivity] at hx
    obtain rfl := Option.some.inj hx
    exact ⟨p, hp, hactivity, (Option.some.inj h).symm⟩
  | _ => rw [hactivity] at hx; cases hx

theorem workerFinishes_eq_some {addr : α} {status : Status} {detailedReport : String}
    (h : s.workerFinishes addr status detailedReport = some s') :
    ∃ p test name, s.processes.find? addr = some p ∧ p.activity = .inTest test name ∧ s' = { s with
      processes := s.processes.set addr { p with activity := .reported }
      superFrames := s.superFrames ++ [.finishedTest p.id status detailedReport]
      ran := s.ran ++ [⟨test, p.id, name, status, detailedReport⟩] } := by
  obtain ⟨p, hp, h⟩ := Option.bind_eq_some_iff.1 h
  cases hactivity : p.activity with
  | inTest test name =>
    rw [hactivity] at h
    exact ⟨p, test, name, hp, hactivity, (Option.some.inj h).symm⟩
  | _ => rw [hactivity] at h; cases h

/-! ## The moves -/

/-- `s'` is where a move leads from `s`. -/
inductive Moved (registered : τ → Bool) (s : Cluster α τ) : ClusterMove α τ → Cluster α τ → Prop
  | start (name : τ) (numWorkers : ℕ) (hrun : s.running = none) : Moved registered s
      (.start name numWorkers)
      { s with test := s.test + 1, running := some ({ name, numWorkers }, .spawning) }
  | spawnWorker {t : RunningTest τ} {addr : α} {pid : ℤ} {s' : Cluster α τ}
      (hrun : s.running = some (t, .spawning)) (haddr : s.processes.find? addr = none)
      (hpid : 0 < pid) (hchild : s.hasChild pid = false) (h : s.spawnWorker t addr pid = some s') :
      Moved registered s (.spawnWorker addr pid) s'
  | spawned {t : RunningTest τ} {order : List ℕ} (hrun : s.running = some (t, .spawning))
      (hsize : t.numWorkers ≤ s.driver.workers.size) (horder : s.driver.workers.Iterates order) :
      Moved registered s (.spawned order) (s.toPhase t (.allocating t.numWorkers order))
  | allocate {t : RunningTest τ} {n k : ℕ} {order : List ℕ}
      (hrun : s.running = some (t, .allocating (n + 1) (k :: order)))
      (hrunning : s.isRunning k = true) : Moved registered s .allocate
      ({ s with driver := s.driver.allocate k }.toPhase t (.allocating n order))
  | allocated {t : RunningTest τ} {n : ℕ} {order order' : List ℕ}
      (hrun : s.running = some (t, .allocating n order)) (hend : n = 0 ∨ order = [])
      (horder : s.driver.allocatedWorkers.Iterates order') :
      Moved registered s (.allocated order') (s.toPhase t (.sending order'))
  | sendRunTest {t : RunningTest τ} {k : ℕ} {order : List ℕ} {s₁ : Cluster α τ}
      (hrun : s.running = some (t, .sending (k :: order)))
      (hsend : s.send k (.runTest t.name) = some s₁) :
      Moved registered s .sendRunTest (s₁.toPhase t (.sending order))
  | runDriver {t : RunningTest τ} (hrun : s.running = some (t, .sending [])) :
      Moved registered s .runDriver (s.toPhase t .body)
  | driverRan {t : RunningTest τ} {status : Status} {order : List ℕ}
      (hrun : s.running = some (t, .body)) (horder : s.driver.allocatedWorkers.Iterates order) :
      Moved registered s (.driverRan status order)
        (s.toPhase t (.joining status [] order { status }))
  | collect {t : RunningTest τ} {status : Status} {before order : List ℕ} {k : ℕ}
      {result : JoinedTest} {s' : Cluster α τ}
      (hrun : s.running = some (t, .joining status before (k :: order) result))
      (h : s.collect t status before k order result = some s') : Moved registered s .collect s'
  | joined {t : RunningTest τ} {status : Status} {before : List ℕ} {result : JoinedTest}
      (hrun : s.running = some (t, .joining status before [] result)) : Moved registered s .joined
      (Cluster.toPhase
        { s with joined := s.joined ++ [⟨s.test, t.name, t.numWorkers, status, before, result⟩] } t
        (.terminating t.extraWorkers))
  | terminate {t : RunningTest τ} {k : ℕ} {ids : List ℕ} {s' : Cluster α τ}
      (hrun : s.running = some (t, .terminating (k :: ids))) (h : s.terminate t k ids = some s') :
      Moved registered s .terminate s'
  | reap {t : RunningTest τ} {k : ℕ} {ids : List ℕ} {s' : Cluster α τ}
      (hrun : s.running = some (t, .awaiting k ids)) (h : s.reap t k ids = some s') :
      Moved registered s .reap s'
  | deallocated {t : RunningTest τ} (hrun : s.running = some (t, .terminating [])) :
      Moved registered s .deallocated
        { s with driver := { s.driver with allocatedWorkers := .empty }, running := none }
  | superEvent {i : ℕ} {s' : Cluster α τ} (hawaits : s.awaitsSuper = true)
      (h : s.superEvent i = some s') : Moved registered s (.superEvent i) s'
  | workerStarts {addr : α} {s' : Cluster α τ} (h : s.workerStarts addr = some s') :
      Moved registered s (.workerStarts addr) s'
  | workerReads {addr : α} {i : ℕ} {s' : Cluster α τ}
      (h : s.workerReads registered addr i = some s') : Moved registered s (.workerReads addr i) s'
  | workerFinishes {addr : α} {status : Status} {detailedReport : String} {s' : Cluster α τ}
      (h : s.workerFinishes addr status detailedReport = some s') :
      Moved registered s (.workerFinishes addr status detailedReport) s'
  | workerReturns {addr : α} {s' : Cluster α τ} (h : s.advance addr Activity.return? = some s') :
      Moved registered s (.workerReturns addr) s'

/-- A move is made where it can be made. -/
theorem move_cases {m : ClusterMove α τ} (hmove : s.move registered m = some s') :
    Moved registered s m s' := by
  cases m with
  | start name numWorkers =>
    simp only [move] at hmove
    split at hmove
    next hrun =>
      obtain rfl := Option.some.inj hmove
      exact .start name numWorkers hrun
    next => cases hmove
  | spawnWorker addr pid =>
    simp only [move] at hmove
    split at hmove
    next hrun =>
      split_ifs at hmove with hguard
      exact .spawnWorker hrun hguard.1 hguard.2.1 hguard.2.2 hmove
    next => cases hmove
  | spawned order =>
    simp only [move] at hmove
    split at hmove
    next hrun =>
      split_ifs at hmove with hguard
      obtain rfl := Option.some.inj hmove
      exact .spawned hrun hguard.1 hguard.2
    next => cases hmove
  | allocate =>
    simp only [move] at hmove
    split at hmove
    next hrun =>
      split_ifs at hmove with hrunning
      obtain rfl := Option.some.inj hmove
      exact .allocate hrun hrunning
    next => cases hmove
  | allocated order' =>
    simp only [move] at hmove
    split at hmove
    next hrun =>
      split_ifs at hmove with hguard
      obtain rfl := Option.some.inj hmove
      exact .allocated hrun hguard.1 hguard.2
    next => cases hmove
  | sendRunTest =>
    simp only [move] at hmove
    split at hmove
    next hrun =>
      obtain ⟨s₁, hsend, rfl⟩ := Option.map_eq_some_iff.1 hmove
      exact .sendRunTest hrun hsend
    next => cases hmove
  | runDriver =>
    simp only [move] at hmove
    split at hmove
    next hrun =>
      obtain rfl := Option.some.inj hmove
      exact .runDriver hrun
    next => cases hmove
  | driverRan status order =>
    simp only [move] at hmove
    split at hmove
    next hrun =>
      split_ifs at hmove with horder
      obtain rfl := Option.some.inj hmove
      exact .driverRan hrun horder
    next => cases hmove
  | collect =>
    simp only [move] at hmove
    split at hmove
    next hrun => exact .collect hrun hmove
    next => cases hmove
  | joined =>
    simp only [move] at hmove
    split at hmove
    next hrun =>
      obtain rfl := Option.some.inj hmove
      exact .joined hrun
    next => cases hmove
  | terminate =>
    simp only [move] at hmove
    split at hmove
    next hrun => exact .terminate hrun hmove
    next => cases hmove
  | reap =>
    simp only [move] at hmove
    split at hmove
    next hrun => exact .reap hrun hmove
    next => cases hmove
  | deallocated =>
    simp only [move] at hmove
    split at hmove
    next hrun =>
      obtain rfl := Option.some.inj hmove
      exact .deallocated hrun
    next => cases hmove
  | superEvent i =>
    simp only [move] at hmove
    split_ifs at hmove with hawaits
    exact .superEvent hawaits hmove
  | workerStarts addr => exact .workerStarts hmove
  | workerReads addr i => exact .workerReads hmove
  | workerFinishes addr status detailedReport => exact .workerFinishes hmove
  | workerReturns addr => exact .workerReturns hmove

end Cluster

end Dtest
