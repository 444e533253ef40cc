import Dtest.Driver.Pool

/-!
# Launching the driver and its workers

The launcher script starts the driver with `--workers N`, where `N` counts the lines of its list of
machines, and on the machines workers with the ids `1, …, N`.  The driver registers the ids
`0, …, N - 1`.  `launch_iff` says that this works for no cluster but the empty one.
-/

namespace Dtest

universe u v

variable {α : Type u} {μ : Type v}

/-- The ids `run.sh` passes to the workers, `id=id+1` starting from 0. -/
def launchedIds (n : ℕ) : List ℕ := (List.range n).map (· + 1)

/-- The WORKER_STARTED messages of the launched workers, in the order of their ids. -/
def startMessages (addr : ℕ → α) (n : ℕ) : List (SuperFrame α) :=
  (launchedIds n).map fun id => .workerStarted id (addr id)

namespace DriverContext

/-- The driver started with `--workers n`, after it has processed the messages. -/
def launched (n : ℕ) (frames : List (SuperFrame α)) : DriverContext α μ :=
  frames.foldl (fun c f => (c.waitForSuperEvent f).1) (addWorkers {} n)

/-- Every registered worker runs at the address it sent, tests of up to `n` workers start without
another message, and no worker has the id of the driver. -/
structure LaunchedWell (addr : ℕ → α) (fork : ℕ → ℤ) (n : ℕ) (c : DriverContext α μ) : Prop where
  running : ∀ k w, c.workers.find? k = some w → w.running = true ∧ w.addr = some (addr k)
  allocates : ∀ m ≤ n, ∀ order, c.workers.Iterates order →
    (c.allocateWorkers fork m order []).isSome
  driver : 0 ∉ c.workers.keys

/-- The handle of a worker from which no WORKER_STARTED came is not running. -/
theorem running_foldl {c : DriverContext α μ} {frames : List (SuperFrame α)} {k : ℕ}
    {w : WorkerHandle α} (hk : c.workers.find? k = some w) (hw : w.running = false)
    (hframes : ∀ f ∈ frames, ∀ addr, f ≠ .workerStarted k addr) :
    ∃ w', (frames.foldl (fun c f => (c.waitForSuperEvent f).1) c).workers.find? k = some w' ∧
      w'.running = false := by
  induction frames generalizing c w with
  | nil => exact ⟨w, hk, hw⟩
  | cons f frames ih =>
    rw [List.foldl_cons]
    have hk' : (c.waitForSuperEvent f).1.workers.find? k = some w := by
      cases f with
      | workerStarted id addr =>
        have hne : k ≠ id := fun h => hframes _ (List.mem_cons_self ..) addr (by rw [h])
        simp only [waitForSuperEvent]
        cases hid : c.workers.find? id with
        | none => exact hk
        | some v =>
          show (c.workers.set id _).find? k = some w
          rw [SortedMap.find?_set_of_ne hne]
          exact hk
      | finishedTest id status detailedReport =>
        simp only [waitForSuperEvent]
        cases c.allocatedWorkers.find? id <;> exact hk
      | other id => exact hk
    exact ih hk' hw fun g hg => hframes g (List.mem_cons_of_mem _ hg)

/-- The handle that `--workers` registers is not running. -/
theorem find?_addWorkers {n k : ℕ} (hk : k < n) :
    ∃ w, (addWorkers ({} : DriverContext α μ) n).workers.find? k = some w ∧ w.running = false := by
  unfold addWorkers
  induction n with
  | zero => exact absurd hk (Nat.not_lt_zero k)
  | succ n ih =>
    rw [List.range_succ, List.foldl_append]
    show ∃ w, (assignAt _ n (.ofId n)).find? k = some w ∧ _
    rw [find?_assignAt]
    split_ifs with hkn
    · exact ⟨_, rfl, rfl⟩
    · exact ih (by omega)

variable {addr : ℕ → α} {n : ℕ} {frames : List (SuperFrame α)}

/-- No launched worker has the id 0. -/
theorem ne_workerStarted_zero (h : frames.Perm (startMessages addr n)) (f : SuperFrame α)
    (hf : f ∈ frames) (a : α) : f ≠ .workerStarted 0 a := by
  obtain ⟨id, hid, rfl⟩ := List.mem_map.1 (h.mem_iff.1 hf)
  obtain ⟨i, -, rfl⟩ := List.mem_map.1 hid
  exact fun heq => Nat.succ_ne_zero i (SuperFrame.workerStarted.inj heq).1

/-- The messages add no handle. -/
theorem size_launched (n : ℕ) (frames : List (SuperFrame α)) :
    (launched n frames : DriverContext α μ).workers.size = n := by
  have hidle := (idle_empty (α := α) (μ := μ)).addWorkers n
  rw [Nat.zero_max] at hidle
  have hspawning := hidle.spawning (n := 0)
  obtain ⟨-, hkeys⟩ := hspawning.sound.testSteps (frames.map .superFrame)
  rw [List.foldl_map] at hkeys
  exact (SortedMap.size_congr hkeys.workers).trans hspawning.size

/-- A pool whose first worker is not running cannot be allocated without another message. -/
theorem allocateWorkers_blocks {c : DriverContext α μ} {fork : ℕ → ℤ} {m : ℕ} {order : List ℕ}
    {w : WorkerHandle α} (hm : 0 < m) (hsize : m ≤ c.workers.size)
    (hk : c.workers.find? 0 = some w) (hw : w.running = false) :
    c.allocateWorkers fork m (0 :: order) [] = none := by
  have hspawned : c.spawned fork m = (c, []) := by
    unfold spawned
    refine Loop.run_of_none ?_ m
    simp only [spawnStep]
    exact if_neg hsize.not_gt
  have hcond : ¬ (c.workers.find? 0).any (·.running) = true := by simp [hk, hw]
  unfold allocateWorkers
  rw [hspawned]
  simp only [allocateLoop, if_neg hm.ne', superEventsUntil, if_neg hcond]
  rfl

end DriverContext

open DriverContext

/-- The launched cluster is ready exactly if it is empty.  In every other one the driver waits for a
worker 0, which nobody starts. -/
theorem launch_iff (addr : ℕ → α) (fork : ℕ → ℤ) (n : ℕ) (frames : List (SuperFrame α))
    (h : frames.Perm (startMessages addr n)) :
    (LaunchedWell addr fork n (launched n frames : DriverContext α μ) ↔ n = 0) ∧
    (0 < n → (∃ w, (launched n frames : DriverContext α μ).workers.find? 0 = some w ∧
        w.running = false) ∧
      ∀ m order, 0 < m → m ≤ n →
      (launched n frames : DriverContext α μ).workers.Iterates (0 :: order) →
        (launched n frames : DriverContext α μ).allocateWorkers fork m (0 :: order) [] = none) := by
  have hzero (hn : 0 < n) : ∃ w, (launched n frames : DriverContext α μ).workers.find? 0 = some w ∧
      w.running = false := by
    obtain ⟨w, hw, hrun⟩ := find?_addWorkers (α := α) (μ := μ) hn
    exact running_foldl hw hrun (ne_workerStarted_zero h)
  refine ⟨⟨fun hwell => ?_, ?_⟩, fun hn => ⟨hzero hn, fun m order hm hle horder => ?_⟩⟩
  · by_contra hn
    obtain ⟨w, hw, -⟩ := hzero (Nat.pos_of_ne_zero hn)
    exact hwell.driver (SortedMap.mem_keys_of_find? hw)
  · rintro rfl
    obtain rfl : frames = [] := h.eq_nil
    have hempty : (launched 0 [] : DriverContext α μ).workers = .empty := rfl
    refine ⟨fun k w hk => ?_, fun m hm order horder => ?_, ?_⟩
    · rw [hempty, SortedMap.find?_empty] at hk
      cases hk
    · obtain rfl : m = 0 := Nat.le_zero.1 hm
      cases order <;> rfl
    · rw [hempty, SortedMap.keys_empty]
      exact List.not_mem_nil
  · obtain ⟨w, hw, hrun⟩ := hzero hn
    exact allocateWorkers_blocks hm (hle.trans (size_launched n frames).ge) hw hrun

/-- With one machine the driver waits for ever, and the message of the only worker is ignored. -/
theorem launch_one :
    let frames : List (SuperFrame ℕ) := [.workerStarted 1 101]
    frames.Perm (startMessages (100 + ·) 1) ∧
      ¬ LaunchedWell (100 + ·) (fun _ => 0) 1 (launched 1 frames : DriverContext ℕ ℕ) ∧
      (launched 1 frames : DriverContext ℕ ℕ).allocateWorkers (fun _ => 0) 1 [0] [] = none := by
  refine ⟨List.Perm.refl _, fun h => ?_, rfl⟩
  exact h.driver (by decide)

/-- The theorem at the cluster of one machine. -/
theorem launch_iff_one :
    LaunchedWell (100 + ·) (fun _ => 0) 1
        (launched 1 [.workerStarted 1 101] : DriverContext ℕ ℕ) ↔ 1 = 0 :=
  (launch_iff (100 + ·) (fun _ => 0) 1 [.workerStarted 1 101] (List.Perm.refl _)).1

end Dtest
