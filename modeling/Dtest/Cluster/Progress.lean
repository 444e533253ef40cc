import Dtest.Cluster.Runs
import Mathlib.Data.Fintype.EquivFin

/-!
# A test of the cluster ends

A `measure` of what is still to be done decreases with every move but the start of a test, and as
long as a test runs there is such a move.
-/

namespace Dtest

variable {α τ : Type} [LinearOrder α]

theorem SortedMap.sum_set {κ ν : Type} [LinearOrder κ] {m : SortedMap κ ν} {k : κ} {v : ν}
    (h : m.find? k = some v) (f : ν → ℕ) (w : ν) : (m.set k w).sum f + f v = m.sum f + f w := by
  have herase := SortedMap.sum_erase h f
  rw [SortedMap.set, SortedMap.sum_insert SortedMap.find?_erase_self]
  omega

def ClusterMove.isStart : ClusterMove α τ → Bool
  | .start _ _ => true
  | _ => false

/-- Only tests that the workers know are started. -/
def ClusterMove.Known (registered : τ → Bool) : ClusterMove α τ → Prop
  | .start name _ => registered name = true
  | _ => True

instance (registered : τ → Bool) : ∀ m : ClusterMove α τ, Decidable (m.Known registered)
  | .start _ _ => inferInstanceAs (Decidable (_ = true))
  | .spawnWorker .. | .spawned _ | .allocate | .allocated _ | .sendRunTest | .runDriver
  | .driverRan .. | .collect | .joined | .terminate | .reap | .deallocated | .superEvent _
  | .workerStarts _ | .workerReads .. | .workerFinishes .. | .workerReturns _ =>
    inferInstanceAs (Decidable True)

/-- What a worker still does for itself. -/
def Activity.weight : Activity τ → ℕ
  | .starting => 2
  | .waiting => 0
  | .inTest _ _ => 3
  | .reported => 1

def WorkerProcess.weight (p : WorkerProcess τ) : ℕ := p.activity.weight + 5 * p.unread.length

namespace Cluster

/-- What the driver still does, in a phase of a test with `e` spawned workers, of `w` in the pool
and `a` allocated. -/
def phaseWeight (w a : ℕ) (t : RunningTest τ) : TestPhase → ℕ
  | .spawning => 6 + 8 * t.numWorkers + 7 * t.extraWorkers.length + 10 * (t.numWorkers - w)
  | .allocating n _ => 5 + 8 * n + 7 * a + 7 * t.extraWorkers.length
  | .sending order => 4 + 6 * order.length + a + 7 * t.extraWorkers.length
  | .body => 3 + a + 7 * t.extraWorkers.length
  | .joining _ _ order _ => 2 + order.length + 7 * t.extraWorkers.length
  | .terminating ids => 1 + 7 * ids.length
  | .awaiting _ ids => 2 + 7 * ids.length

def driverWeight (s : Cluster α τ) : ℕ :=
  match s.running with
  | none => 0
  | some (t, phase) =>
    phaseWeight s.driver.workers.size s.driver.allocatedWorkers.size t phase

/-- What is still to be done until the test is over. -/
def measure (s : Cluster α τ) : ℕ :=
  s.driverWeight + s.superFrames.length + s.processes.sum WorkerProcess.weight

variable {registered : τ → Bool} {N : ℕ} {external : SortedMap α ℕ} {s s' : Cluster α τ}
  {σ : ℕ → Stage} {t : RunningTest τ}

theorem driverWeight_eq {phase : TestPhase} (h : s.running = some (t, phase)) : s.driverWeight =
    phaseWeight s.driver.workers.size s.driver.allocatedWorkers.size t phase := by
  rw [driverWeight, h]

/-- The driver goes to a phase with less to do. -/
theorem measure_toPhase {phase phase' : TestPhase} (h : s.running = some (t, phase))
    (hlt : phaseWeight s.driver.workers.size s.driver.allocatedWorkers.size t phase' <
      phaseWeight s.driver.workers.size s.driver.allocatedWorkers.size t phase) :
    (s.toPhase t phase').measure < s.measure := by
  have hweight := driverWeight_eq h
  show phaseWeight s.driver.workers.size s.driver.allocatedWorkers.size t phase' +
    s.superFrames.length + s.processes.sum WorkerProcess.weight < s.measure
  unfold measure
  omega

/-- A process does what it has to do. -/
theorem measure_process {addr : α} {p p' : WorkerProcess τ} (hp : s.processes.find? addr = some p)
    (hprocesses : s'.processes = s.processes.set addr p')
    (hdriver : s'.driverWeight = s.driverWeight)
    (hlt : s'.superFrames.length + p'.weight < s.superFrames.length + p.weight) :
    s'.measure < s.measure := by
  have hsum := SortedMap.sum_set hp WorkerProcess.weight p'
  unfold measure
  rw [hdriver, hprocesses]
  omega

/-! ## Every move gets on -/

theorem Inv.measure_spawnWorker (h : s.Inv registered N external σ)
    (hrun : s.running = some (t, .spawning)) {addr : α} {pid : ℤ}
    (haddr : s.processes.find? addr = none) (hmove : s.spawnWorker t addr pid = some s') :
    s'.measure < s.measure := by
  have hspawning : DriverContext.Spawning N t.numWorkers {} (s.driver, t.extraWorkers) := by
    have hphase := h.phase
    rwa [hrun] at hphase
  obtain ⟨c, ids, hstep, rfl⟩ := spawnWorker_eq_some hmove
  have hlt : s.driver.workers.size < t.numWorkers := by
    simp only [DriverContext.spawnStep] at hstep
    split_ifs at hstep with hlt
    exact hlt
  have hsize := hspawning.size
  have hsize' := (hspawning.step hstep).size
  have hids : ids.length = t.extraWorkers.length + 1 := by
    rw [(find?_spawnStep hstep).1, List.length_append, List.length_singleton]
  have hsum :=
    SortedMap.sum_insert (v := ({ id := s.driver.workers.size + 1, pid } : WorkerProcess τ))
    haddr WorkerProcess.weight
  have hweight := driverWeight_eq hrun
  unfold measure
  rw [hweight]
  show phaseWeight c.workers.size c.allocatedWorkers.size { t with extraWorkers := ids } .spawning +
    s.superFrames.length + (s.processes.insert addr _).sum WorkerProcess.weight < _
  simp only [phaseWeight, WorkerProcess.weight, Activity.weight, List.length_nil] at hsum ⊢
  dsimp only at hsize hsize'
  omega

theorem Inv.measure_allocate (h : s.Inv registered N external σ) {n k : ℕ} {order : List ℕ}
    (hrun : s.running = some (t, .allocating (n + 1) (k :: order))) :
    (Cluster.toPhase { s with driver := s.driver.allocate k } t (.allocating n order)).measure <
      s.measure := by
  have hphase := h.phase
  rw [hrun] at hphase
  obtain ⟨-, -, hmem, -⟩ := hphase
  obtain ⟨hwork, hnew⟩ := hmem k (List.mem_cons_self ..)
  obtain ⟨w, hw⟩ := SortedMap.mem_keys.1 hwork
  have hsize := size_allocate hw (h.sound.pooled k w hw).id hnew
  have hweight := driverWeight_eq hrun
  unfold measure
  rw [hweight]
  show phaseWeight (s.driver.allocate k).workers.size (s.driver.allocate k).allocatedWorkers.size t
      (.allocating n order) + s.superFrames.length + s.processes.sum WorkerProcess.weight < _
  simp only [phaseWeight, hsize]
  omega

theorem measure_send {k : ℕ} {m : Command τ} {phase phase' : TestPhase}
    (hrun : s.running = some (t, phase)) (hmove : s.send k m = some s')
    (hlt : phaseWeight s.driver.workers.size s.driver.allocatedWorkers.size t phase' + 5 <
      phaseWeight s.driver.workers.size s.driver.allocatedWorkers.size t phase) :
    (s'.toPhase t phase').measure < s.measure := by
  obtain ⟨w, addr, p, -, -, hp, rfl⟩ := send_eq_some hmove
  have hsum :=
    SortedMap.sum_set hp WorkerProcess.weight { p with unread := p.unread ++ [(s.test, m)] }
  have hweight := driverWeight_eq hrun
  unfold measure
  rw [hweight]
  show phaseWeight s.driver.workers.size s.driver.allocatedWorkers.size t phase' +
    s.superFrames.length + (s.processes.set addr _).sum WorkerProcess.weight < _
  simp only [WorkerProcess.weight, List.length_append, List.length_singleton] at hsum ⊢
  omega

theorem Inv.measure_superEvent (h : s.Inv registered N external σ) {i : ℕ}
    (hawaits : s.awaitsSuper = true) (hmove : s.superEvent i = some s') :
    s'.measure < s.measure := by
  obtain ⟨f, hi, rfl⟩ := superEvent_eq_some hmove
  obtain ⟨-, hkeys⟩ := h.sound.waitForSuperEvent f
  have hwork := SortedMap.size_congr hkeys.workers
  have hall := SortedMap.size_congr hkeys.allocatedWorkers
  obtain ⟨t, phase, hrun, -⟩ := awaits_of_awaitsSuper hawaits
  have hweight := driverWeight_eq hrun
  obtain ⟨hlt, -⟩ := List.getElem?_eq_some_iff.1 hi
  have hlen := List.length_eraseIdx_of_lt hlt
  unfold measure
  rw [hweight]
  show driverWeight { s with
    driver := (s.driver.waitForSuperEvent f).1, superFrames := s.superFrames.eraseIdx i } +
      (s.superFrames.eraseIdx i).length + s.processes.sum WorkerProcess.weight < _
  rw [driverWeight_eq (show Cluster.running { s with
    driver := (s.driver.waitForSuperEvent f).1
    superFrames := s.superFrames.eraseIdx i } = some (t, phase) from hrun), hlen]
  dsimp only
  rw [hwork, hall]
  omega

theorem Inv.measure_workerReads (h : s.Inv registered N external σ) {addr : α} {i : ℕ}
    (hmove : s.workerReads registered addr i = some s') : s'.measure < s.measure := by
  obtain ⟨p, m, hp, hm, -, rfl⟩ := workerReads_eq_some hmove
  obtain ⟨-, herase, -⟩ := h.unread hp hm
  have hlen : 1 ≤ p.unread.length := List.length_pos_of_mem (List.mem_of_getElem? hm)
  rw [herase]
  cases hread : WorkerProcess.waitForEvent registered { p with unread := [] } m with
  | none =>
    have hsum := SortedMap.sum_erase hp WorkerProcess.weight
    unfold measure
    show s.driverWeight + s.superFrames.length +
      (s.processes.erase addr).sum WorkerProcess.weight < _
    have hpos : 0 < p.weight := by unfold WorkerProcess.weight; omega
    omega
  | some p' =>
    have hle : p'.weight ≤ p.activity.weight + 3 := by
      obtain ⟨test, command⟩ := m
      cases command with
      | terminate => cases hread
      | runTest name =>
        simp only [WorkerProcess.waitForEvent] at hread
        split at hread
        next hwaiting =>
          obtain rfl := Option.some.inj hread
          split_ifs <;> simp [WorkerProcess.weight, Activity.weight]
        next =>
          obtain rfl := Option.some.inj hread
          simp [WorkerProcess.weight]
    refine measure_process hp rfl rfl ?_
    show s.superFrames.length + p'.weight < s.superFrames.length + (p.activity.weight + _)
    omega

theorem measure_workerStarts {addr : α} (hmove : s.workerStarts addr = some s') :
    s'.measure < s.measure := by
  obtain ⟨p, hp, hactivity, rfl⟩ := workerStarts_eq_some hmove
  refine measure_process hp rfl rfl ?_
  simp only [WorkerProcess.weight, hactivity, Activity.weight, List.length_append,
    List.length_singleton]
  omega

theorem measure_workerFinishes {addr : α} {status : Status} {detailedReport : String}
    (hmove : s.workerFinishes addr status detailedReport = some s') : s'.measure < s.measure := by
  obtain ⟨p, test, name, hp, hactivity, rfl⟩ := workerFinishes_eq_some hmove
  refine measure_process hp rfl rfl ?_
  simp only [WorkerProcess.weight, hactivity, Activity.weight, List.length_append,
    List.length_singleton]
  omega

theorem measure_workerReturns {addr : α} (hmove : s.advance addr Activity.return? = some s') :
    s'.measure < s.measure := by
  obtain ⟨p, hp, hactivity, rfl⟩ := workerReturns_eq_some hmove
  refine measure_process hp rfl rfl ?_
  simp only [WorkerProcess.weight, hactivity, Activity.weight]
  omega

/-- Every move but the start of a test gets on. -/
theorem Inv.measure_lt (h : s.Inv registered N external σ) {m : ClusterMove α τ}
    (hm : m.isStart = false) (hmove : s.move registered m = some s') : s'.measure < s.measure := by
  cases move_cases hmove with
  | start name numWorkers => cases hm
  | spawnWorker hrun haddr _ _ hspawn => exact h.measure_spawnWorker hrun haddr hspawn
  | spawned hrun =>
    have hphase := h.phase
    rw [hrun] at hphase
    have hzero : s.driver.allocatedWorkers.size = 0 := by
      rw [show s.driver.allocatedWorkers = .empty from hphase.allocatedWorkers]
      rfl
    exact measure_toPhase hrun (by simp only [phaseWeight, hzero]; omega)
  | allocate hrun => exact h.measure_allocate hrun
  | allocated hrun _ horder =>
    have hlen := horder.length_eq
    exact measure_toPhase hrun (by simp only [phaseWeight]; omega)
  | sendRunTest hrun hsend =>
    exact measure_send hrun hsend (by simp only [phaseWeight, List.length_cons]; omega)
  | runDriver hrun => exact measure_toPhase hrun (by simp only [phaseWeight]; omega)
  | driverRan hrun horder =>
    have hlen := horder.length_eq
    exact measure_toPhase hrun (by simp only [phaseWeight]; omega)
  | collect hrun hcollect =>
    obtain ⟨w, -, -, rfl⟩ := collect_eq_some hcollect
    exact measure_toPhase hrun (by simp only [phaseWeight, List.length_cons]; omega)
  | joined hrun =>
    -- the measure does not look at what is collected
    show (s.toPhase _ (.terminating _)).measure < s.measure
    exact measure_toPhase hrun (by simp only [phaseWeight, List.length_nil]; omega)
  | terminate hrun hterminate =>
    obtain ⟨s₁, hsend, rfl⟩ := terminate_eq_some hterminate
    exact measure_send hrun hsend (by simp only [phaseWeight, List.length_cons]; omega)
  | reap hrun hreap =>
    obtain ⟨w, -, -, rfl⟩ := reap_eq_some hreap
    have hweight := driverWeight_eq hrun
    unfold measure
    rw [hweight]
    show 1 + 7 * _ + s.superFrames.length + s.processes.sum WorkerProcess.weight < _
    simp only [phaseWeight]
    omega
  | deallocated hrun =>
    have hweight := driverWeight_eq hrun
    unfold measure
    rw [hweight]
    show 0 + s.superFrames.length + s.processes.sum WorkerProcess.weight < _
    simp only [phaseWeight]
    omega
  | superEvent hawaits hevent => exact h.measure_superEvent hawaits hevent
  | workerStarts hstarts => exact measure_workerStarts hstarts
  | workerReads hreads => exact h.measure_workerReads hreads
  | workerFinishes hfinishes => exact measure_workerFinishes hfinishes
  | workerReturns hreturns => exact measure_workerReturns hreturns

/-! ## A test is never stuck -/

/-- Some move other than the start of a test can be made. -/
def Moves (registered : τ → Bool) (s : Cluster α τ) : Prop :=
  ∃ m : ClusterMove α τ, m.isStart = false ∧ (s.move registered m).isSome = true

/-- A process that is not at rest moves, and so does one that has something to read. -/
theorem moves_process {a : α} {p : WorkerProcess τ}
    (hp : s.processes.find? a = some p)
    (hmoves : p.activity ≠ .waiting ∨ p.unread ≠ []) : s.Moves registered := by
  cases hactivity : p.activity with
  | starting =>
    exact ⟨.workerStarts a, rfl, by
      simp [Cluster.move, Cluster.workerStarts, advance, hp, hactivity, Activity.start?]⟩
  | inTest test name =>
    exact ⟨.workerFinishes a .pass "", rfl,
      by simp [Cluster.move, Cluster.workerFinishes, hp, hactivity]⟩
  | reported =>
    exact ⟨.workerReturns a, rfl, by simp [Cluster.move, advance, hp, hactivity, Activity.return?]⟩
  | waiting =>
    have hunread : p.unread ≠ [] := hmoves.resolve_left fun hne => hne hactivity
    obtain ⟨m, ms, hm⟩ := List.exists_cons_of_ne_nil hunread
    refine ⟨.workerReads a 0, rfl, ?_⟩
    show (s.workerReads registered a 0).isSome = true
    simp only [Cluster.workerReads, hp, hm, hactivity, Option.bind_eq_bind, Option.bind_some,
      List.getElem?_cons_zero, List.take_zero]
    rw [if_pos ⟨rfl, fun m' hm' => absurd hm' List.not_mem_nil⟩]
    cases WorkerProcess.waitForEvent registered _ m <;> rfl

/-- A message on the super socket is read where the driver waits for one. -/
theorem moves_superEvent {f : SuperFrame α} (hawaits : s.awaitsSuper = true)
    (hf : f ∈ s.superFrames) : s.Moves registered := by
  obtain ⟨i, hi⟩ := List.mem_iff_getElem?.1 hf
  refine ⟨.superEvent i, rfl, ?_⟩
  simp [Cluster.move, hawaits, Cluster.superEvent, hi]

/-- There is always a pid that no child has. -/
theorem exists_pid (s : Cluster α τ) : ∃ pid : ℤ, 0 < pid ∧ s.hasChild pid = false := by
  obtain ⟨n, hn⟩ := Infinite.exists_notMem_finset
    (insert 0 (s.processes.entries.map fun e => e.2.pid.toNat).toFinset)
  rw [Finset.mem_insert, List.mem_toFinset, not_or] at hn
  refine ⟨n, by omega, hasChild_eq_false_iff.2 fun a p hp heq => hn.2 ?_⟩
  refine List.mem_map.2 ⟨(a, p), SortedMap.find?_eq_some_iff.1 hp, ?_⟩
  dsimp only
  rw [heq, Int.toNat_natCast]

theorem moves_spawning [Infinite α] (hrun : s.running = some (t, .spawning)) :
    s.Moves registered := by
  by_cases hlt : s.driver.workers.size < t.numWorkers
  · obtain ⟨addr, haddr⟩ := Infinite.exists_notMem_finset s.processes.keys.toFinset
    have hnone : s.processes.find? addr = none :=
      SortedMap.find?_eq_none_of_notMem fun hmem => haddr (List.mem_toFinset.2 hmem)
    obtain ⟨pid, hpid, hchild⟩ := s.exists_pid
    exact ⟨.spawnWorker addr pid, rfl, by
      simp [Cluster.move, hrun, hnone, hpid, hchild, Cluster.spawnWorker, DriverContext.spawnStep,
        hlt]⟩
  · have horder : s.driver.workers.Iterates s.driver.workers.keys :=
      ⟨s.driver.workers.nodup_keys, fun _ => Iff.rfl⟩
    exact ⟨.spawned s.driver.workers.keys, rfl, by
      simp [Cluster.move, hrun, Nat.le_of_not_lt hlt, horder]⟩

/-- A worker that the driver waits for at the allocation is about to announce itself. -/
theorem Inv.moves_allocating (h : s.Inv registered N external σ)
    (hcover : ∀ k < N, ∃ a, external.find? a = some k) {n : ℕ} {order : List ℕ}
    (hrun : s.running = some (t, .allocating n order)) : s.Moves registered := by
  have hphase := h.phase
  rw [hrun] at hphase
  obtain ⟨hready, -, hmem, -⟩ := hphase
  by_cases hend : n = 0 ∨ order = []
  · have horder : s.driver.allocatedWorkers.Iterates s.driver.allocatedWorkers.keys :=
      ⟨s.driver.allocatedWorkers.nodup_keys, fun _ => Iff.rfl⟩
    exact ⟨.allocated s.driver.allocatedWorkers.keys, rfl,
      by simp [Cluster.move, hrun, hend, horder]⟩
  · rw [not_or] at hend
    obtain ⟨n, rfl⟩ := Nat.exists_eq_succ_of_ne_zero hend.1
    obtain ⟨k, order, rfl⟩ := List.exists_cons_of_ne_nil hend.2
    by_cases hrunning : s.isRunning k = true
    · exact ⟨.allocate, rfl, by simp [Cluster.move, hrun, hrunning]⟩
    · have hkey := (hmem k (List.mem_cons_self ..)).1
      obtain ⟨w, hw⟩ := SortedMap.mem_keys.1 hkey
      have hnot : w.running = false := by simpa [isRunning, hw] using hrunning
      have hhost : ∃ a x, s.hosts a = some (k, x) := by
        rcases (h.keys k).1 hkey with hlt | hextra
        · obtain ⟨a, ha⟩ := hcover k hlt
          obtain ⟨x, hx⟩ := h.hosted.external a k ha
          exact ⟨a, x, hx⟩
        · exact h.hosted.extra k hextra (by rw [hready]; rfl)
      obtain ⟨a, x, ha⟩ := hhost
      cases x with
      | true =>
        refine moves_superEvent ?_ (h.announced.notRunning k w a hw hnot ha)
        rw [awaitsSuper, hrun]
        simp [hrunning]
      | false =>
        obtain ⟨p, hp, -, hstarted⟩ := hosts_eq_some.1 ha
        refine moves_process hp (Or.inl fun hwaiting => ?_)
        rw [hwaiting] at hstarted
        cases hstarted

/-- A worker that the driver waits for at the end of a test is about to send its result. -/
theorem Inv.moves_joining (h : s.Inv registered N external σ)
    (hknown : ∀ n ∈ s.name?, registered n = true) {status : Status} {before order : List ℕ}
    {result : JoinedTest} (hrun : s.running = some (t, .joining status before order result)) :
    s.Moves registered := by
  cases order with
  | nil => exact ⟨.joined, rfl, by simp [Cluster.move, hrun]⟩
  | cons k order =>
    have hphase := h.phase
    rw [hrun] at hphase
    obtain ⟨-, hstage, horder, -⟩ := hphase
    have hk := horder.mem_iff.1 (List.mem_append_right before (List.mem_cons_self ..))
    obtain ⟨w, hw⟩ := SortedMap.mem_keys.1 hk
    by_cases hdone : w.done = true
    · exact ⟨.collect, rfl, by simp [Cluster.move, hrun, Cluster.collect, hw, hdone]⟩
    · obtain ⟨hready, hstays⟩ := hstage k hk
      obtain ⟨a, -, -, hhost⟩ := h.staged.connection k w hw
      obtain ⟨p, hp, rfl, hstarted⟩ := hosts_eq_some.1 (hhost hstays)
      have hprocess := h.staged.process a p hp
      have hhandle := h.staged.handle p.id w hw
      cases hst : σ p.id with
      | ready => exact absurd hst hready
      | leaving r => rw [hst] at hstays; cases hstays
      | recorded r => rw [hst] at hhandle; exact absurd hhandle.1 hdone
      | ignored =>
        rw [hst] at hprocess
        obtain ⟨-, -, n, hn, hnot⟩ := hprocess
        rw [hknown n hn] at hnot
        cases hnot
      | sent =>
        rw [hst] at hprocess
        obtain ⟨-, n, -, hunread⟩ := hprocess
        refine moves_process hp (Or.inr ?_)
        rw [hunread]
        exact List.cons_ne_nil _ _
      | busy =>
        rw [hst] at hprocess
        obtain ⟨-, n, -, hactivity⟩ := hprocess
        refine moves_process hp (Or.inl ?_)
        rw [hactivity]
        intro hwaiting
        cases hwaiting
      | inFlight r =>
        have hframes := h.staged.frames p.id
        rw [hst] at hframes
        have hmem : r ∈ s.superFrames.filterMap (SuperFrame.finished? p.id) := by
          rw [hframes]
          exact List.mem_singleton_self r
        obtain ⟨f, hf, -⟩ := List.mem_filterMap.1 hmem
        refine moves_superEvent ?_ hf
        rw [awaitsSuper, hrun]
        simp [DriverContext.isDone, hw, hdone]

/-- The driver can send to a worker that it has not told to exit. -/
theorem Inv.send_isSome (h : s.Inv registered N external σ) {k : ℕ}
    (hk : k ∈ s.driver.allocatedWorkers.keys) (hstays : (σ k).isLeaving = false) (m : Command τ) :
    (s.send k m).isSome = true := by
  obtain ⟨w, hw⟩ := SortedMap.mem_keys.1 hk
  obtain ⟨a, hconn, -, hhost⟩ := h.staged.connection k w hw
  obtain ⟨p, hp, -⟩ := hosts_eq_some.1 (hhost hstays)
  simp [Cluster.send, hw, hconn, hp]

/-- A worker that is told to exit is about to. -/
theorem Inv.moves_awaiting (h : s.Inv registered N external σ) {k : ℕ} {ids : List ℕ}
    (hrun : s.running = some (t, .awaiting k ids)) : s.Moves registered := by
  have hphase := h.phase
  rw [hrun] at hphase
  obtain ⟨hmem, -, hleaving, -⟩ := hphase
  obtain ⟨w, hw⟩ := SortedMap.mem_keys.1 (hmem k (List.mem_cons_self ..))
  obtain ⟨b, hconn, -⟩ := h.staged.connection k w hw
  have hextra : k ∈ s.extra := by
    rw [extra, hrun]
    exact List.mem_cons_self ..
  obtain ⟨hne, honly⟩ := h.forked.allocatedWorkers k hextra w hw
  cases hchild : s.hasChild w.pid with
  | false =>
    refine ⟨.reap, rfl, ?_⟩
    simp [Cluster.move, hrun, Cluster.reap, hw, WorkerHandle.terminate, hconn, hne, hchild]
  | true =>
    -- the child with the pid is the process of the worker, which has its TERMINATE to read
    unfold hasChild at hchild
    obtain ⟨⟨a, p⟩, hentry, hpid⟩ := List.any_eq_true.1 hchild
    have hp := SortedMap.find?_eq_some_iff.2 hentry
    obtain rfl : p.id = k := (honly a p.id p.pid (children_of_find? hp)).1 (beq_iff_eq.1 hpid)
    have hprocess := h.staged.process a p hp
    refine moves_process hp (Or.inr ?_)
    cases hst : σ p.id with
    | leaving r =>
      rw [hst] at hprocess
      rw [hprocess.2.2]
      exact List.cons_ne_nil _ _
    | _ => rw [hst] at hleaving; cases hleaving

/-- As long as a test runs, somebody moves. -/
theorem Inv.moves [Infinite α] (h : s.Inv registered N external σ)
    (hcover : ∀ k < N, ∃ a, external.find? a = some k) (hknown : ∀ n ∈ s.name?, registered n = true)
    (hrun : s.running ≠ none) : s.Moves registered := by
  obtain ⟨⟨t, phase⟩, hrun⟩ := Option.ne_none_iff_exists'.1 hrun
  have hphase := h.phase
  rw [hrun] at hphase
  cases phase with
  | spawning => exact moves_spawning hrun
  | allocating n order => exact h.moves_allocating hcover hrun
  | sending order =>
    cases order with
    | nil => exact ⟨.runDriver, rfl, by simp [Cluster.move, hrun]⟩
    | cons k order =>
      have hk := hphase.2.2.1 k (List.mem_cons_self ..)
      have hsend := h.send_isSome hk (hphase.2.2.2 k hk).2 (.runTest t.name)
      exact ⟨.sendRunTest, rfl, by simp [Cluster.move, hrun, hsend]⟩
  | body =>
    have horder : s.driver.allocatedWorkers.Iterates s.driver.allocatedWorkers.keys :=
      ⟨s.driver.allocatedWorkers.nodup_keys, fun _ => Iff.rfl⟩
    exact ⟨.driverRan .pass s.driver.allocatedWorkers.keys, rfl,
      by simp [Cluster.move, hrun, horder]⟩
  | joining status before order result => exact h.moves_joining hknown hrun
  | terminating ids =>
    cases ids with
    | nil => exact ⟨.deallocated, rfl, by simp [Cluster.move, hrun]⟩
    | cons k ids =>
      have hextra : k ∈ s.extra := by
        rw [extra, hrun]
        exact List.mem_cons_self ..
      have hstays : (σ k).isLeaving = false := Bool.eq_false_of_not_eq_true fun hl =>
        (hphase.2.1 k hl).2 ((h.keys k).2 (Or.inr hextra))
      obtain ⟨s₁, hsend⟩ := Option.isSome_iff_exists.1
        (h.send_isSome (hphase.1 k (List.mem_cons_self ..)) hstays .terminate)
      exact ⟨.terminate, rfl, by simp [Cluster.move, hrun, Cluster.terminate, hsend]⟩
  | awaiting k ids => exact h.moves_awaiting hrun

/-! ## The end of a test -/

/-- Only the start of a test changes what is run. -/
theorem name?_move {m : ClusterMove α τ} (hm : m.isStart = false)
    (hmove : s.move registered m = some s') : ∀ n ∈ s'.name?, n ∈ s.name? := by
  suffices heq : s'.name? = s.name? ∨ s'.name? = none by
    intro n hn
    rcases heq with heq | heq
    · rwa [heq] at hn
    · rw [heq] at hn
      cases hn
  cases move_cases hmove with
  | start name numWorkers => cases hm
  | spawnWorker hrun _ _ _ hspawn =>
    obtain ⟨c, ids, -, rfl⟩ := spawnWorker_eq_some hspawn
    exact Or.inl (name?_of_running hrun).symm
  | collect hrun hcollect =>
    obtain ⟨w, -, -, rfl⟩ := collect_eq_some hcollect
    exact Or.inl (name?_of_running hrun).symm
  | terminate hrun hterminate =>
    obtain ⟨s₁, -, rfl⟩ := terminate_eq_some hterminate
    exact Or.inl (name?_of_running hrun).symm
  | reap hrun hreap =>
    obtain ⟨w, -, -, rfl⟩ := reap_eq_some hreap
    exact Or.inl (name?_of_running hrun).symm
  | spawned hrun | allocate hrun | allocated hrun | sendRunTest hrun | runDriver hrun
    | driverRan hrun
  | joined hrun => exact Or.inl (name?_of_running hrun).symm
  | deallocated => exact Or.inr rfl
  | superEvent _ hevent =>
    obtain ⟨f, -, rfl⟩ := superEvent_eq_some hevent
    exact Or.inl rfl
  | workerStarts hstarts =>
    obtain ⟨p, -, -, rfl⟩ := workerStarts_eq_some hstarts
    exact Or.inl rfl
  | workerReads hreads =>
    obtain ⟨p, m, -, -, -, rfl⟩ := workerReads_eq_some hreads
    exact Or.inl rfl
  | workerFinishes hfinishes =>
    obtain ⟨p, test, name, -, -, rfl⟩ := workerFinishes_eq_some hfinishes
    exact Or.inl rfl
  | workerReturns hreturns =>
    obtain ⟨p, -, -, rfl⟩ := workerReturns_eq_some hreturns
    exact Or.inl rfl

/-- The invariant of the runs that only start tests that the workers know. -/
def Going (registered : τ → Bool) (N : ℕ) (external : SortedMap α ℕ) (s : Cluster α τ) : Prop :=
  (∃ σ, s.Inv registered N external σ) ∧ ∀ n ∈ s.name?, registered n = true

theorem Going.move {m : ClusterMove α τ} (h : s.Going registered N external)
    (hm : m.Known registered) (hmove : s.move registered m = some s') :
    s'.Going registered N external := by
  obtain ⟨⟨σ, hσ⟩, hknown⟩ := h
  refine ⟨hσ.move hmove, fun n hn => ?_⟩
  cases hstart : m.isStart with
  | false => exact hknown n (name?_move hstart hmove n hn)
  | true =>
    cases move_cases hmove with
    | start name numWorkers =>
      obtain rfl : name = n := Option.some.inj hn
      exact hm
    | _ => cases hstart

omit [LinearOrder α] in
theorem known_of_not_start {m : ClusterMove α τ} (h : m.isStart = false) : m.Known registered := by
  cases m with
  | start name numWorkers => cases h
  | _ => trivial

end Cluster

open Cluster

/-- Where every worker of the pool is launched and knows the tests: as long as a test runs, some
party can make a move, and whatever moves are made, the test is over after at most `measure` of
them. -/
theorem cluster_ends [Infinite α] (registered : τ → Bool) (options : List ℕ)
    (external : SortedMap α ℕ) (h : Launched options external)
    (hcover : ∀ k < options.foldl max 0, ∃ a, external.find? a = some k)
    (ms : List (ClusterMove α τ))
    (hms : ((system registered).restrict fun _ m => m.Known registered).Admissible
      (init options external) ms) :
    let s := (system registered).exec (init options external) ms
    (s.running ≠ none → ∃ m, m.isStart = false ∧ (system registered).allowed s m) ∧
      ∀ ms', ((system registered).restrict fun _ m => m.isStart = false).Admissible s ms' →
        ms'.length ≤ s.measure := by
  have hgoing : ((system registered).exec (init options external) ms).Going registered
      (options.foldl max 0) external := by
    have hinit : (init options external : Cluster α τ).Going registered
        (options.foldl max 0) external :=
      ⟨⟨_, inv_init h⟩, nofun⟩
    exact Guarded.invariant_ofMove (I := Going registered (options.foldl max 0) external)
      (fun s m s' hs hm hmove => hs.move hm hmove) hinit hms
  refine ⟨fun hrun => ?_, fun ms' hms' => ?_⟩
  · obtain ⟨⟨σ, hσ⟩, hknown⟩ := hgoing
    exact hσ.moves hcover hknown hrun
  · refine le_trans (Nat.le_add_right _ _) (Guarded.length_le_measure
      (I := Going registered (options.foldl max 0) external) (fun s m hs hm => ?_)
        (fun s m hs hm => ?_) hgoing hms')
    · obtain ⟨s', hmove⟩ := Guarded.ofMove_allowed_iff.1 hm.1
      show ((Guarded.ofMove (Cluster.move registered)).step s m).Going registered _ external
      rw [Guarded.ofMove_step hmove]
      exact Going.move hs (known_of_not_start hm.2) hmove
    · obtain ⟨⟨σ, hσ⟩, -⟩ := hs
      obtain ⟨s', hmove⟩ := Guarded.ofMove_allowed_iff.1 hm.1
      show ((Guarded.ofMove (Cluster.move registered)).step s m).measure < s.measure
      rw [Guarded.ofMove_step hmove]
      exact hσ.measure_lt hm.2 hmove

/-- The test of two workers can go on when both messages are on their way. -/
theorem cluster_ends_spawningTest :
    let s := (system fun _ => true).exec (init [1] oneExternal) (spawningTest.take 15)
    (∃ m, m.isStart = false ∧ (system fun _ => true).allowed s m) ∧
      ∀ ms', ((system fun _ => true).restrict fun _ m => m.isStart = false).Admissible s ms' →
        ms'.length ≤ s.measure := by
  have h := cluster_ends (fun _ => true) [1] oneExternal launched_oneExternal
    (fun k hk => ⟨100, by rw [Nat.lt_one_iff.1 hk]; rfl⟩) (spawningTest.take 15) (by decide +kernel)
  exact ⟨h.1 (by decide +kernel), h.2⟩

end Dtest
