import Dtest.Driver.Join
import Dtest.Driver.Wait

/-!
# The worker pool over a sequence of distributed tests

Between two tests the pool holds the workers `0, …, N - 1` registered by `--workers`.  A test that
needs more spawns workers with the ids `N + 1, N + 2, …`, and gives them up again when it ends.

* `pool_tests`: in every sequence of tests a spawned id is new, exactly `n` workers are allocated
  under their ids, every spawned worker is among them with a connection, and the release of the
  workers restores the pool.
* `fresh_allocateWorkers`: the workers that a test finds are what the waits of that test start from.
-/

namespace Dtest

universe u v

variable {α : Type u} {μ : Type v}

/-- What a test between its allocation and its release does to the context: a message of either
socket is processed, or a `wait` counts notifications. -/
inductive TestEvent (α : Type u) (μ : Type v)
  | superFrame (f : SuperFrame α)
  | frame (f : Frame μ)
  | firstPass (n : ℕ) (order : List ℕ) (pulled : Finset ℕ)
  | pullEvent (id : ℕ) (pulled : Finset ℕ)
  | pop

namespace DriverContext

/-- One event of a running test. -/
def testStep (c : DriverContext α μ) : TestEvent α μ → DriverContext α μ
  | .superFrame f => (c.waitForSuperEvent f).1
  | .frame f => (c.waitForEvent f).1
  | .firstPass n order pulled => (c.firstPass n order pulled).1
  | .pullEvent id pulled => ((c.pullEvent id pulled).map Prod.fst).getD c
  | .pop => { c with userMessages := c.userMessages.tail }

end DriverContext

/-- A distributed test as the pool sees it: the number of workers, what the environment decides, and
the events while it runs. -/
structure TestRun (α : Type u) (μ : Type v) where
  n : ℕ
  fork : ℕ → ℤ
  order : List ℕ
  frames : List (SuperFrame α)
  events : List (TestEvent α μ)

namespace DriverContext

/-- A test from `_allocateWorkers` to `_deallocateWorkers`; undefined where either is. -/
def runTest (t : TestRun α μ) (c : DriverContext α μ) : Option (DriverContext α μ) :=
  match c.allocateWorkers t.fork t.n t.order t.frames with
  | none => none
  | some (c, spawnedWorkers, _) =>
    ((t.events.foldl testStep c).deallocateWorkers spawnedWorkers).map Prod.fst

end DriverContext

/-- The pools that `--workers` options and a sequence of completed tests lead to. -/
inductive PoolReachable (options : List ℕ) : DriverContext α μ → Prop
  | start : PoolReachable options (options.foldl DriverContext.addWorkers {})
  | test {c c' : DriverContext α μ} (t : TestRun α μ) (h : PoolReachable options c)
      (order : (c.spawned t.fork t.n).1.workers.Iterates t.order) (run : c.runTest t = some c') :
      PoolReachable options c'

/-! ## Handles -/

/-- A handle of `_workers` under its key: its connection works once it is running. -/
structure WorkerHandle.Pooled (k : ℕ) (w : WorkerHandle α) : Prop where
  id : w.id = k
  socket : w.socket = true
  addr : w.running = true → w.addr.isSome

/-- A handle of `_allocatedWorkers` under its key. -/
structure WorkerHandle.Allocated (k : ℕ) (w : WorkerHandle α) : Prop where
  id : w.id = k
  connection : w.connection.isSome

theorem find?_assignAt (m : SortedMap ℕ (WorkerHandle α)) (k : ℕ) (w : WorkerHandle α) (q : ℕ) :
    (assignAt m k w).find? q =
      if q = k then some (((m.find? k).getD {}).assign w) else m.find? q := by
  rw [assignAt, SortedMap.find?_set]

theorem mem_keys_assignAt {m : SortedMap ℕ (WorkerHandle α)} {k : ℕ} {w : WorkerHandle α} {q : ℕ} :
    q ∈ (assignAt m k w).keys ↔ q = k ∨ q ∈ m.keys := by
  rw [assignAt, SortedMap.mem_keys_set]

theorem WorkerHandle.Pooled.assign {k : ℕ} {w : WorkerHandle α} (h : w.Pooled k)
    (lhs : WorkerHandle α) : (lhs.assign w).Pooled k :=
  ⟨h.id, rfl, h.addr⟩

theorem pooled_assignAt {m : SortedMap ℕ (WorkerHandle α)} {k : ℕ} {w : WorkerHandle α}
    (hm : ∀ q v, m.find? q = some v → v.Pooled q) (hw : w.Pooled k) (q : ℕ) (v : WorkerHandle α)
    (hq : (assignAt m k w).find? q = some v) : v.Pooled q := by
  rw [find?_assignAt] at hq
  split_ifs at hq with hqk
  · obtain rfl := Option.some.inj hq
    rw [hqk]
    exact hw.assign _
  · exact hm q v hq

theorem pooled_ofId (k : ℕ) (pid : ℤ) : (WorkerHandle.ofId k pid : WorkerHandle α).Pooled k :=
  ⟨rfl, rfl, nofun⟩

/-- All handles are in order. -/
structure DriverContext.Sound (c : DriverContext α μ) : Prop where
  pooled : ∀ k w, c.workers.find? k = some w → w.Pooled k
  allocated : ∀ k w, c.allocatedWorkers.find? k = some w → w.Allocated k

/-- Neither map has lost or gained a key. -/
structure SameKeys (c c' : DriverContext α μ) : Prop where
  workers : ∀ k, k ∈ c'.workers.keys ↔ k ∈ c.workers.keys
  allocatedWorkers : ∀ k, k ∈ c'.allocatedWorkers.keys ↔ k ∈ c.allocatedWorkers.keys

theorem SameKeys.refl (c : DriverContext α μ) : SameKeys c c := ⟨fun _ => Iff.rfl, fun _ => Iff.rfl⟩

theorem SameKeys.trans {c c' c'' : DriverContext α μ} (h : SameKeys c c') (h' : SameKeys c' c'') :
    SameKeys c c'' :=
  ⟨fun k => (h'.workers k).trans (h.workers k),
    fun k => (h'.allocatedWorkers k).trans (h.allocatedWorkers k)⟩

namespace DriverContext

variable {c c' : DriverContext α μ}

/-- An allocated handle is replaced by one with the same identity. -/
theorem Sound.set_allocated (h : c.Sound) {k : ℕ} {w w' : WorkerHandle α}
    (hk : c.allocatedWorkers.find? k = some w) (hid : w'.id = w.id)
    (hconn : w'.connection = w.connection) :
    Sound { c with allocatedWorkers := c.allocatedWorkers.set k w' } ∧
      SameKeys c { c with allocatedWorkers := c.allocatedWorkers.set k w' } := by
  refine ⟨⟨h.pooled, fun q v hq => ?_⟩, fun q => Iff.rfl, fun q => ?_⟩
  · change (c.allocatedWorkers.set k w').find? q = some v at hq
    rw [SortedMap.find?_set] at hq
    split_ifs at hq with hqk
    · obtain rfl := Option.some.inj hq
      have hw := h.allocated k w hk
      refine ⟨?_, ?_⟩
      · rw [hid, hqk, hw.id]
      · rw [hconn]
        exact hw.connection
    · exact h.allocated q v hq
  · exact SortedMap.mem_keys_set_of_mem (SortedMap.mem_keys_of_find? hk)

theorem Sound.waitForSuperEvent (h : c.Sound) (f : SuperFrame α) :
    (c.waitForSuperEvent f).1.Sound ∧ SameKeys c (c.waitForSuperEvent f).1 := by
  cases f with
  | workerStarted id addr =>
    simp only [DriverContext.waitForSuperEvent]
    cases hid : c.workers.find? id with
    | none => exact ⟨h, SameKeys.refl c⟩
    | some w =>
      refine ⟨⟨fun q v hq => ?_, h.allocated⟩, fun q => ?_, fun q => Iff.rfl⟩
      · change (c.workers.set id _).find? q = some v at hq
        rw [SortedMap.find?_set] at hq
        split_ifs at hq with hqk
        · obtain rfl := Option.some.inj hq
          have hw := h.pooled id w hid
          exact ⟨hw.id.trans hqk.symm, hw.socket, fun _ => rfl⟩
        · exact h.pooled q v hq
      · exact SortedMap.mem_keys_set_of_mem (SortedMap.mem_keys_of_find? hid)
  | finishedTest id status detailedReport =>
    simp only [DriverContext.waitForSuperEvent]
    cases hid : c.allocatedWorkers.find? id with
    | none => exact ⟨h, SameKeys.refl c⟩
    | some w => exact h.set_allocated hid rfl rfl
  | other id => exact ⟨h, SameKeys.refl c⟩

theorem Sound.waitForEvent (h : c.Sound) (f : Frame μ) :
    (c.waitForEvent f).1.Sound ∧ SameKeys c (c.waitForEvent f).1 := by
  cases f with
  | notify id =>
    simp only [DriverContext.waitForEvent]
    cases hid : c.allocatedWorkers.find? id with
    | none => exact ⟨h, SameKeys.refl c⟩
    | some w => exact h.set_allocated hid rfl rfl
  | userMessage id m => exact ⟨⟨h.pooled, h.allocated⟩, fun _ => Iff.rfl, fun _ => Iff.rfl⟩
  | other id => exact ⟨h, SameKeys.refl c⟩

theorem Sound.decrement (h : c.Sound) {k : ℕ} {w : WorkerHandle α}
    (hk : c.allocatedWorkers.find? k = some w) :
    Sound { c with allocatedWorkers := c.allocatedWorkers.set k w.decrement } ∧
      SameKeys c { c with allocatedWorkers := c.allocatedWorkers.set k w.decrement } :=
  h.set_allocated hk (WorkerHandle.decrement_id w) rfl

theorem Sound.firstPass (h : c.Sound) (n : ℕ) (order : List ℕ) (pulled : Finset ℕ) :
    (c.firstPass n order pulled).1.Sound ∧ SameKeys c (c.firstPass n order pulled).1 := by
  induction order generalizing c pulled with
  | nil => exact ⟨h, SameKeys.refl c⟩
  | cons k order ih =>
    simp only [DriverContext.firstPass]
    split_ifs
    · exact ⟨h, SameKeys.refl c⟩
    · cases hk : c.allocatedWorkers.find? k with
      | none => exact ih h pulled
      | some w =>
        dsimp only
        split_ifs
        · obtain ⟨hs, hkeys⟩ := h.decrement hk
          obtain ⟨hs', hkeys'⟩ := ih hs (insert w.id pulled)
          exact ⟨hs', hkeys.trans hkeys'⟩
        · exact ih h pulled

theorem Sound.testStep (h : c.Sound) (e : TestEvent α μ) :
    (c.testStep e).Sound ∧ SameKeys c (c.testStep e) := by
  cases e with
  | superFrame f => exact h.waitForSuperEvent f
  | frame f => exact h.waitForEvent f
  | firstPass n order pulled => exact h.firstPass n order pulled
  | pop => exact ⟨⟨h.pooled, h.allocated⟩, fun _ => Iff.rfl, fun _ => Iff.rfl⟩
  | pullEvent id pulled =>
    simp only [DriverContext.testStep, pullEvent]
    split_ifs
    · exact ⟨h, SameKeys.refl c⟩
    · cases hid : c.allocatedWorkers.find? id with
      | none => exact ⟨h, SameKeys.refl c⟩
      | some w =>
        dsimp only
        split_ifs
        · exact h.decrement hid
        · exact ⟨h, SameKeys.refl c⟩

theorem Sound.testSteps (h : c.Sound) (es : List (TestEvent α μ)) :
    (es.foldl DriverContext.testStep c).Sound ∧ SameKeys c (es.foldl DriverContext.testStep c) := by
  induction es generalizing c with
  | nil => exact ⟨h, SameKeys.refl c⟩
  | cons e es ih =>
    obtain ⟨hs, hkeys⟩ := h.testStep e
    obtain ⟨hs', hkeys'⟩ := ih hs
    exact ⟨hs', hkeys.trans hkeys'⟩

theorem Sound.superEventsUntil (h : c.Sound) {cond : DriverContext α μ → Bool}
    {frames rest : List (SuperFrame α)} (hrun : superEventsUntil cond frames c = some (c', rest)) :
    c'.Sound ∧ SameKeys c c' ∧ cond c' = true := by
  induction frames generalizing c with
  | nil =>
    simp only [DriverContext.superEventsUntil] at hrun
    split_ifs at hrun with hcond
    obtain ⟨rfl, -⟩ := Prod.mk.inj (Option.some.inj hrun)
    exact ⟨h, SameKeys.refl c, hcond⟩
  | cons f frames ih =>
    simp only [DriverContext.superEventsUntil] at hrun
    split_ifs at hrun with hcond
    · obtain ⟨rfl, -⟩ := Prod.mk.inj (Option.some.inj hrun)
      exact ⟨h, SameKeys.refl c, hcond⟩
    · obtain ⟨hs, hkeys⟩ := h.waitForSuperEvent f
      obtain ⟨hs', hkeys', hcond'⟩ := ih hs hrun
      exact ⟨hs', hkeys.trans hkeys', hcond'⟩

/-! ## Spawning and allocating -/

/-- The spawning loop over a pool `0, …, N - 1`: the spawned ids follow on `N`. -/
structure Spawning (N n : ℕ) (c : DriverContext α μ) (s : DriverContext α μ × List ℕ) : Prop where
  sound : s.1.Sound
  ids : s.2 = (List.range s.2.length).map (N + 1 + ·)
  keys : ∀ k, k ∈ s.1.workers.keys ↔ k < N ∨ k ∈ s.2
  size : s.1.workers.size = N + s.2.length
  le : s.2 ≠ [] → s.1.workers.size ≤ n
  allocatedWorkers : s.1.allocatedWorkers = c.allocatedWorkers

variable {fork : ℕ → ℤ} {N n : ℕ} {s s' : DriverContext α μ × List ℕ}

theorem Spawning.mem_ids (h : Spawning N n c s) {k : ℕ} :
    k ∈ s.2 ↔ N + 1 ≤ k ∧ k ≤ N + s.2.length := by
  rw [h.ids]
  simp only [List.mem_map, List.mem_range, List.length_map, List.length_range]
  constructor
  · rintro ⟨i, hi, rfl⟩
    omega
  · rintro ⟨h1, h2⟩
    exact ⟨k - (N + 1), by omega, by omega⟩

/-- `_spawnWorker` gives out a new id. -/
theorem Spawning.spawn_new (h : Spawning N n c s) : s.1.workers.size + 1 ∉ s.1.workers.keys := by
  rw [h.keys, h.mem_ids, h.size]
  omega

theorem Spawning.step (h : Spawning N n c s) (hstep : spawnStep fork n s = some s') :
    Spawning N n c s' := by
  simp only [spawnStep] at hstep
  split_ifs at hstep with hlt
  obtain rfl := Option.some.inj hstep
  have hnew := h.spawn_new
  have hkeys : ∀ q, q ∈ (assignAt (s.1.spawnWorker fork).1.workers (s.1.workers.size + 1)
      (s.1.spawnWorker fork).2).keys ↔ q = s.1.workers.size + 1 ∨ q ∈ s.1.workers.keys := by
    intro q
    rw [mem_keys_assignAt]
    show q = _ ∨ q ∈ (assignAt s.1.workers _ _).keys ↔ _
    rw [mem_keys_assignAt]
    exact ⟨fun hq => hq.elim Or.inl id, Or.inr⟩
  have hsize : (assignAt (s.1.spawnWorker fork).1.workers (s.1.workers.size + 1)
      (s.1.spawnWorker fork).2).size = s.1.workers.size + 1 := by
    rw [assignAt, SortedMap.size_set, if_pos]
    · show (assignAt s.1.workers _ _).size = _
      rw [assignAt, SortedMap.size_set, if_neg hnew]
    · exact mem_keys_assignAt.2 (Or.inl rfl)
  have hid : s.1.workers.size + 1 = N + 1 + s.2.length := by
    rw [h.size]
    omega
  refine ⟨⟨?_, h.sound.allocated⟩, ?_, fun k => ?_, ?_, fun _ => ?_, h.allocatedWorkers⟩
  · exact pooled_assignAt (pooled_assignAt h.sound.pooled (pooled_ofId _ _)) (pooled_ofId _ _)
  · show s.2 ++ [s.1.workers.size + 1] = _
    rw [List.length_append, List.length_singleton, List.range_succ, List.map_append, ← h.ids, hid]
    rfl
  · apply (hkeys k).trans
    rw [h.keys, List.mem_append, List.mem_singleton, or_comm, or_assoc]
    rfl
  · apply hsize.trans
    rw [List.length_append, List.length_singleton, h.size]
    exact Nat.add_assoc ..
  · exact hsize.le.trans hlt

/-- The spawning loop ends with at least `n` workers. -/
theorem Spawning.spawned (h : Spawning N n c (c, [])) (fork : ℕ → ℤ) :
    Spawning N n c (c.spawned fork n) ∧ n ≤ (c.spawned fork n).1.workers.size := by
  have hP : ∀ s s', spawnStep fork n s = some s' → Spawning N n c s → Spawning N n c s' :=
    fun s s' hs hP => hP.step hs
  refine ⟨Loop.run_induction hP n h, ?_⟩
  have hstop : spawnStep fork n (c.spawned fork n) = none :=
    Loop.step_run_eq_none hP (fun s => n - s.1.workers.size) (fun s s' hs hstep => ?_) n h
      (Nat.sub_le ..)
  · simp only [spawnStep] at hstop
    split_ifs at hstop with hlt
    exact Nat.le_of_not_lt hlt
  · have hsize := hs.size
    have hsize' := (hs.step hstep).size
    simp only [spawnStep] at hstep
    split_ifs at hstep with hlt
    obtain rfl := Option.some.inj hstep
    rw [List.length_append, List.length_singleton] at hsize'
    dsimp only at hsize' ⊢
    omega

theorem allocate_find? {k : ℕ} {w : WorkerHandle α} (hw : c.workers.find? k = some w) :
    c.allocate k =
      { c with
        workers := c.workers.set k { w with notifyCount := 0, done := false }
        allocatedWorkers :=
          assignAt c.allocatedWorkers w.id { w with notifyCount := 0, done := false } } := by
  simp only [allocate, hw]

/-- Allocating a running worker adds its key to the allocated ones. -/
theorem Sound.allocate (h : c.Sound) {k : ℕ} {w : WorkerHandle α} (hw : c.workers.find? k = some w)
    (hrun : w.running = true) :
    (c.allocate k).Sound ∧ (∀ q, q ∈ (c.allocate k).workers.keys ↔ q ∈ c.workers.keys) ∧
      ∀ q, q ∈ (c.allocate k).allocatedWorkers.keys ↔ q = k ∨ q ∈ c.allocatedWorkers.keys := by
  have hp := h.pooled k w hw
  rw [allocate_find? hw]
  refine ⟨⟨fun q v hq => ?_, fun q v hq => ?_⟩, fun q => ?_, fun q => ?_⟩
  · change (c.workers.set k _).find? q = some v at hq
    rw [SortedMap.find?_set] at hq
    split_ifs at hq with hqk
    · obtain rfl := Option.some.inj hq
      exact ⟨hp.id.trans hqk.symm, hp.socket, hp.addr⟩
    · exact h.pooled q v hq
  · change (assignAt c.allocatedWorkers _ _).find? q = some v at hq
    rw [find?_assignAt] at hq
    split_ifs at hq with hqk
    · obtain rfl := Option.some.inj hq
      exact ⟨hqk.symm, hp.addr hrun⟩
    · exact h.allocated q v hq
  · exact SortedMap.mem_keys_set_of_mem (SortedMap.mem_keys_of_find? hw)
  · rw [← hp.id]
    exact mem_keys_assignAt

/-- The second loop of `_allocateWorkers` allocates the first `n` workers of the order. -/
theorem Sound.allocateLoop (h : c.Sound) {order : List ℕ} {frames rest : List (SuperFrame α)}
    (hmem : ∀ k ∈ order, k ∈ c.workers.keys)
    (hrun : allocateLoop order n c frames = some (c', rest)) :
    c'.Sound ∧ (∀ q, q ∈ c'.workers.keys ↔ q ∈ c.workers.keys) ∧
      ∀ q, q ∈ c'.allocatedWorkers.keys ↔ q ∈ order.take n ∨ q ∈ c.allocatedWorkers.keys := by
  induction order generalizing n c frames with
  | nil =>
    obtain ⟨rfl, -⟩ := Prod.mk.inj (Option.some.inj hrun)
    exact ⟨h, fun q => Iff.rfl, fun q => by simp⟩
  | cons k order ih =>
    cases n with
    | zero =>
      obtain ⟨rfl, -⟩ := Prod.mk.inj (Option.some.inj hrun)
      exact ⟨h, fun q => Iff.rfl, fun q => by simp⟩
    | succ n =>
      simp only [DriverContext.allocateLoop, if_neg (Nat.succ_ne_zero n)] at hrun
      obtain ⟨⟨c₁, frames₁⟩, hwait, hloop⟩ := Option.bind_eq_some_iff.1 hrun
      obtain ⟨hs₁, hkeys₁, hrunning⟩ := h.superEventsUntil hwait
      obtain ⟨w, hw⟩ := SortedMap.mem_keys.1 ((hkeys₁.workers k).2 (hmem k (List.mem_cons_self ..)))
      have hwrun : w.running = true := by simpa [hw] using hrunning
      obtain ⟨hs₂, hwork₂, hall₂⟩ := hs₁.allocate hw hwrun
      have hmem₂ : ∀ q ∈ order, q ∈ (c₁.allocate k).workers.keys := fun q hq =>
        (hwork₂ q).2 ((hkeys₁.workers q).2 (hmem q (List.mem_cons_of_mem _ hq)))
      obtain ⟨hs', hwork', hall'⟩ := ih hs₂ hmem₂ hloop
      refine ⟨hs', fun q => ?_, fun q => ?_⟩
      · rw [hwork', hwork₂, hkeys₁.workers]
      · rw [hall', hall₂, hkeys₁.allocatedWorkers, List.take_succ_cons, List.mem_cons]
        exact ⟨by tauto, by tauto⟩

/-- `_deallocateWorkers` terminates the spawned workers and removes them from the pool. -/
theorem Sound.deallocateWorkers (h : c.Sound) {ids : List ℕ}
    (hids : ∀ k ∈ ids, k ∈ c.allocatedWorkers.keys) :
    ∃ c' rs, c.deallocateWorkers ids = some (c', rs) ∧ c'.allocatedWorkers = .empty ∧
      (∀ k w, c'.workers.find? k = some w → w.Pooled k) ∧
      ∀ k, k ∈ c'.workers.keys ↔ k ∈ c.workers.keys ∧ k ∉ ids := by
  induction ids generalizing c with
  | nil => exact ⟨_, [], rfl, rfl, h.pooled, fun k => by simp⟩
  | cons k ids ih =>
    obtain ⟨w, hw⟩ := SortedMap.mem_keys.1 (hids k (List.mem_cons_self ..))
    obtain ⟨addr, haddr⟩ := Option.isSome_iff_exists.1 (h.allocated k w hw).connection
    obtain ⟨hs, hkeys⟩ := h.set_allocated hw rfl rfl
    have hs' : Sound { c with
        allocatedWorkers := c.allocatedWorkers.set k w
        workers := c.workers.erase k } := by
      refine ⟨fun q v hq => ?_, hs.allocated⟩
      change (c.workers.erase k).find? q = some v at hq
      rw [SortedMap.find?_erase] at hq
      split_ifs at hq
      exact h.pooled q v hq
    obtain ⟨c', rs, hrun, hempty, hpooled, hwork⟩ := ih hs' fun q hq =>
      (hkeys.allocatedWorkers q).2 (hids q (List.mem_cons_of_mem _ hq))
    refine ⟨c', (addr, if w.pid ≠ 0 then some w.pid else none) :: rs, ?_, hempty, hpooled,
      fun q => ?_⟩
    · simp only [DriverContext.deallocateWorkers, hw, Option.getD_some,
        WorkerHandle.terminate, haddr, Option.map_some, hrun]
    · rw [hwork, List.mem_cons, not_or]
      show q ∈ (c.workers.erase k).keys ∧ _ ↔ _
      rw [SortedMap.mem_keys_erase]
      tauto

/-- No notification is banked. -/
def NoneBanked (c : DriverContext α μ) : Prop :=
  ∀ k w, c.allocatedWorkers.find? k = some w → w.notifyCount = 0

theorem NoneBanked.waitForSuperEvent (h : c.NoneBanked) (f : SuperFrame α) :
    (c.waitForSuperEvent f).1.NoneBanked := by
  intro k w hk
  cases f with
  | workerStarted id addr =>
    simp only [DriverContext.waitForSuperEvent] at hk
    cases hid : c.workers.find? id <;> rw [hid] at hk <;> exact h k w hk
  | finishedTest id status detailedReport =>
    simp only [DriverContext.waitForSuperEvent] at hk
    cases hid : c.allocatedWorkers.find? id with
    | none =>
      rw [hid] at hk
      exact h k w hk
    | some v =>
      rw [hid] at hk
      change (c.allocatedWorkers.set id _).find? k = some w at hk
      rw [SortedMap.find?_set] at hk
      split_ifs at hk
      · obtain rfl := Option.some.inj hk
        exact h id v hid
      · exact h k w hk
  | other id => exact h k w hk

theorem NoneBanked.superEventsUntil (h : c.NoneBanked) {cond : DriverContext α μ → Bool}
    {frames rest : List (SuperFrame α)} (hrun : superEventsUntil cond frames c = some (c', rest)) :
    c'.NoneBanked := by
  induction frames generalizing c with
  | nil =>
    simp only [DriverContext.superEventsUntil] at hrun
    split_ifs at hrun
    obtain ⟨rfl, -⟩ := Prod.mk.inj (Option.some.inj hrun)
    exact h
  | cons f frames ih =>
    simp only [DriverContext.superEventsUntil] at hrun
    split_ifs at hrun
    · obtain ⟨rfl, -⟩ := Prod.mk.inj (Option.some.inj hrun)
      exact h
    · exact ih (h.waitForSuperEvent f) hrun

theorem NoneBanked.allocateLoop (h : c.NoneBanked) {order : List ℕ}
    {frames rest : List (SuperFrame α)} (hrun : allocateLoop order n c frames = some (c', rest)) :
    c'.NoneBanked := by
  induction order generalizing n c frames with
  | nil =>
    obtain ⟨rfl, -⟩ := Prod.mk.inj (Option.some.inj hrun)
    exact h
  | cons k order ih =>
    simp only [DriverContext.allocateLoop] at hrun
    split_ifs at hrun
    · obtain ⟨rfl, -⟩ := Prod.mk.inj (Option.some.inj hrun)
      exact h
    · obtain ⟨⟨c₁, frames₁⟩, hwait, hloop⟩ := Option.bind_eq_some_iff.1 hrun
      have h₁ := h.superEventsUntil hwait
      refine ih (fun q v hq => ?_) hloop
      cases hw : c₁.workers.find? k with
      | none =>
        simp only [DriverContext.allocate, hw] at hq
        exact h₁ q v hq
      | some w =>
        rw [allocate_find? hw] at hq
        change (assignAt c₁.allocatedWorkers _ _).find? q = some v at hq
        rw [find?_assignAt] at hq
        split_ifs at hq
        · obtain rfl := Option.some.inj hq
          rfl
        · exact h₁ q v hq

/-! ## Sequences of tests -/

/-- The context between two tests, with the workers `0, …, N - 1` in the pool. -/
structure Idle (N : ℕ) (c : DriverContext α μ) : Prop where
  pooled : ∀ k w, c.workers.find? k = some w → w.Pooled k
  keys : ∀ k, k ∈ c.workers.keys ↔ k < N
  allocatedWorkers : c.allocatedWorkers = .empty

theorem Idle.addWorkers (h : Idle N c) (numWorkers : ℕ) :
    Idle (max N numWorkers) (c.addWorkers numWorkers) := by
  unfold DriverContext.addWorkers
  induction numWorkers with
  | zero => rwa [Nat.max_zero]
  | succ n ih =>
    rw [List.range_succ, List.foldl_append]
    refine ⟨pooled_assignAt ih.pooled (pooled_ofId _ _), fun k => ?_, ih.allocatedWorkers⟩
    apply mem_keys_assignAt.trans
    rw [ih.keys]
    omega

theorem Idle.options (h : Idle N c) (options : List ℕ) :
    Idle (options.foldl max N) (options.foldl DriverContext.addWorkers c) := by
  induction options generalizing c N with
  | nil => exact h
  | cons n options ih => exact ih (h.addWorkers n)

theorem idle_empty : Idle 0 ({} : DriverContext α μ) := by
  refine ⟨fun k w h => ?_, fun k => ?_, rfl⟩
  · rw [show ({} : DriverContext α μ).workers.find? k = none from SortedMap.find?_empty k] at h
    cases h
  · rw [show ({} : DriverContext α μ).workers.keys = [] from SortedMap.keys_empty]
    simp

theorem Idle.spawning (h : Idle N c) : Spawning N n c (c, []) := by
  have hsize : c.workers.size = N := by
    have hrange : c.workers.Iterates (List.range N) :=
      ⟨List.nodup_range, fun k => List.mem_range.trans (h.keys k).symm⟩
    rw [← hrange.length_eq, List.length_range]
  refine ⟨⟨h.pooled, fun k w hk => ?_⟩, rfl, fun k => ?_, hsize, nofun, rfl⟩
  · rw [h.allocatedWorkers] at hk
    exact absurd hk nofun
  · rw [h.keys]
    simp

/-- What `_allocateWorkers` returns: the first `n` workers of the order are allocated, the spawned
ones among them. -/
theorem Idle.allocateWorkers (h : Idle N c) {order : List ℕ}
    (horder : (c.spawned fork n).1.workers.Iterates order) {frames rest : List (SuperFrame α)}
    {ids : List ℕ} (hrun : c.allocateWorkers fork n order frames = some (c', ids, rest)) :
    c'.Sound ∧ ids = (c.spawned fork n).2 ∧ c'.allocatedWorkers.size = n ∧
      (∀ k ∈ ids, k ∈ c'.allocatedWorkers.keys) ∧
      ∀ k, k ∈ c'.workers.keys ↔ k < N ∨ k ∈ ids := by
  obtain ⟨hspawn, hle⟩ := h.spawning.spawned fork (n := n)
  obtain ⟨⟨c₁, rest₁⟩, hloop, heq⟩ := Option.map_eq_some_iff.1 hrun
  obtain ⟨rfl, hids, rfl⟩ : c₁ = c' ∧ (c.spawned fork n).2 = ids ∧ rest₁ = rest := by
    simpa using heq
  obtain ⟨hs, hwork, hall⟩ := hspawn.sound.allocateLoop (fun k hk => horder.mem_iff.1 hk) hloop
  have htake : c₁.allocatedWorkers.Iterates (order.take n) := by
    refine ⟨horder.1.sublist (List.take_sublist n order), fun k => ?_⟩
    rw [hall, hspawn.allocatedWorkers, h.allocatedWorkers, SortedMap.keys_empty]
    simp
  refine ⟨hs, hids.symm, ?_, fun k hk => ?_, fun k => ?_⟩
  · rw [← htake.length_eq, List.length_take, horder.length_eq]
    exact Nat.min_eq_left hle
  · -- a spawned worker shows that the pool has been filled up to `n`
    have hfull : order.take n = order := by
      apply List.take_of_length_le
      rw [horder.length_eq]
      exact hspawn.le (List.ne_nil_of_mem (hids ▸ hk))
    rw [← htake.mem_iff, hfull, horder.mem_iff, hspawn.keys, hids]
    exact Or.inr hk
  · rw [hwork, hspawn.keys, hids]

/-- A test gives the pool back as it was. -/
theorem Idle.deallocateWorkers (h : Idle N c) {order : List ℕ}
    (horder : (c.spawned fork n).1.workers.Iterates order) {frames rest : List (SuperFrame α)}
    {ids : List ℕ} (hrun : c.allocateWorkers fork n order frames = some (c', ids, rest))
    (events : List (TestEvent α μ)) :
    ∃ c'' rs, (events.foldl DriverContext.testStep c').deallocateWorkers ids = some (c'', rs) ∧
      Idle N c'' := by
  obtain ⟨hs, hids, -, hmem, hwork⟩ := h.allocateWorkers horder hrun
  obtain ⟨hs', hkeys⟩ := hs.testSteps events
  obtain ⟨c'', rs, hdealloc, hempty, hpooled, hwork'⟩ :=
    hs'.deallocateWorkers fun k hk => (hkeys.allocatedWorkers k).2 (hmem k hk)
  refine ⟨c'', rs, hdealloc, hpooled, fun k => ?_, hempty⟩
  rw [hwork', hkeys.workers, hwork]
  have hspawn := (h.spawning.spawned fork (n := n)).1
  rw [hids, hspawn.mem_ids]
  omega

end DriverContext

open DriverContext in
theorem PoolReachable.idle {options : List ℕ} {c : DriverContext α μ}
    (h : PoolReachable options c) :
    Idle (options.foldl max 0) c := by
  induction h with
  | start => exact idle_empty.options options
  | @test c _ t _ order run ih =>
    simp only [runTest] at run
    cases hrun : c.allocateWorkers t.fork t.n t.order t.frames with
    | none => simp [hrun] at run
    | some r =>
      obtain ⟨c', ids, rest⟩ := r
      obtain ⟨c'', rs, hdealloc, hidle⟩ := ih.deallocateWorkers order hrun t.events
      simp only [hrun, hdealloc, Option.map_some, Option.some.injEq] at run
      exact run ▸ hidle

/-- For every pool and every sequence of tests: a spawned id is new, a test has exactly `n` workers,
found under their ids, the spawned ones among them and with a connection, and its release, whatever
happened in between, empties `_allocatedWorkers` and restores the keys of `_workers`. -/
theorem pool_tests {options : List ℕ} {c : DriverContext α μ} (h : PoolReachable options c)
    (fork : ℕ → ℤ) (n : ℕ) (order : List ℕ)
    (horder : (c.spawned fork n).1.workers.Iterates order) :
    (∀ i, (Loop.run (DriverContext.spawnStep fork n) i (c, [])).1.workers.size + 1 ∉
      (Loop.run (DriverContext.spawnStep fork n) i (c, [])).1.workers.keys) ∧
    ∀ frames c₁ ids rest, c.allocateWorkers fork n order frames = some (c₁, ids, rest) →
      c₁.allocatedWorkers.size = n ∧
      (∀ k w, c₁.allocatedWorkers.find? k = some w → w.id = k) ∧
      (∀ k ∈ ids, ∃ w addr, c₁.allocatedWorkers.find? k = some w ∧ w.connection = some addr) ∧
      ∀ events : List (TestEvent α μ), ∃ c₂ rs,
        (events.foldl DriverContext.testStep c₁).deallocateWorkers ids = some (c₂, rs) ∧
        c₂.allocatedWorkers = .empty ∧ ∀ k, k ∈ c₂.workers.keys ↔ k ∈ c.workers.keys := by
  have hidle := h.idle
  refine ⟨fun i => ?_, fun frames c₁ ids rest hrun => ?_⟩
  · exact (Loop.run_induction (fun s s' hs hP => DriverContext.Spawning.step hP hs) i
      (hidle.spawning (n := n))).spawn_new
  · obtain ⟨hs, -, hsize, hmem, -⟩ := hidle.allocateWorkers horder hrun
    refine ⟨hsize, fun k w hk => (hs.allocated k w hk).id, fun k hk => ?_, fun events => ?_⟩
    · obtain ⟨w, hw⟩ := SortedMap.mem_keys.1 (hmem k hk)
      obtain ⟨addr, haddr⟩ := Option.isSome_iff_exists.1 (hs.allocated k w hw).connection
      exact ⟨w, addr, hw, haddr⟩
    · obtain ⟨c₂, rs, hdealloc, hidle₂⟩ := hidle.deallocateWorkers horder hrun events
      exact ⟨c₂, rs, hdealloc, hidle₂.allocatedWorkers,
        fun k => (hidle₂.keys k).trans (hidle.keys k).symm⟩

open DriverContext in
/-- The waits of a test start from what its allocation leaves. -/
theorem fresh_allocateWorkers {options : List ℕ} {c c' : DriverContext α μ}
    (h : PoolReachable options c) (hoptions : options.foldl max 0 ≤ noWorker) {fork : ℕ → ℤ} {n : ℕ}
    (hn : n < noWorker) {order : List ℕ} (horder : (c.spawned fork n).1.workers.Iterates order)
    {frames rest : List (SuperFrame α)} {ids : List ℕ}
    (hrun : c.allocateWorkers fork n order frames = some (c', ids, rest)) : c'.Fresh := by
  have hidle := h.idle
  obtain ⟨hspawn, -⟩ := hidle.spawning.spawned fork (n := n)
  obtain ⟨hs, hids, -, -, -⟩ := hidle.allocateWorkers horder hrun
  obtain ⟨⟨c₁, rest₁⟩, hloop, heq⟩ := Option.map_eq_some_iff.1 hrun
  obtain ⟨rfl, -, -⟩ : c₁ = c' ∧ (c.spawned fork n).2 = ids ∧ rest₁ = rest := by simpa using heq
  obtain ⟨-, -, hall⟩ := hspawn.sound.allocateLoop (fun k hk => horder.mem_iff.1 hk) hloop
  have hempty : (c.spawned fork n).1.allocatedWorkers = .empty :=
    hspawn.allocatedWorkers.trans hidle.allocatedWorkers
  refine ⟨fun k w hk => (hs.allocated k w hk).id, fun k hk => ?_, ?_⟩
  · rw [hall, hempty, SortedMap.keys_empty] at hk
    have hk' := horder.mem_iff.1 (List.mem_of_mem_take (hk.resolve_right List.not_mem_nil))
    rcases (hspawn.keys k).1 hk' with hlt | hmem
    · exact hlt.trans_le hoptions
    · have hle := hspawn.le (List.ne_nil_of_mem hmem)
      rw [hspawn.size] at hle
      exact ((hspawn.mem_ids.1 hmem).2.trans hle).trans_lt hn
  · refine NoneBanked.allocateLoop (fun k w hk => ?_) hloop
    rw [hempty] at hk
    exact absurd hk nofun

/-- A test of three workers in a pool of two. -/
theorem pool_tests_three :
    ∃ c₁ ids rest, (DriverContext.addWorkers ({} : DriverContext ℕ ℕ) 2).allocateWorkers
        (fun _ => 77) 3 [3, 0, 1]
        [.workerStarted 0 100, .workerStarted 3 103, .workerStarted 1 101] = some (c₁, ids, rest) ∧
      ids = [3] ∧ c₁.allocatedWorkers.size = 3 ∧
      ∃ c₂ rs, c₁.deallocateWorkers ids = some (c₂, rs) ∧ c₂.allocatedWorkers = .empty ∧
        ∀ k, k ∈ c₂.workers.keys ↔
          k ∈ (DriverContext.addWorkers ({} : DriverContext ℕ ℕ) 2).workers.keys := by
  have hstart : PoolReachable [2] (DriverContext.addWorkers ({} : DriverContext ℕ ℕ) 2) := .start
  have h := (pool_tests hstart (fun _ => 77) 3 [3, 0, 1] (by decide +kernel)).2
    [.workerStarted 0 100, .workerStarted 3 103, .workerStarted 1 101] _ _ _ rfl
  exact ⟨_, _, _, rfl, rfl, h.1, h.2.2.2 []⟩

end Dtest
