import Dtest.Cluster.Invariant

/-!
# The driver's loops keep the invariant
-/

namespace Dtest

variable {α τ : Type} [LinearOrder α]

namespace Cluster

variable {registered : τ → Bool} {N : ℕ} {external : SortedMap α ℕ} {s s' : Cluster α τ}
  {σ : ℕ → Stage} {t : RunningTest τ}

theorem name?_of_running {p : TestPhase} (h : s.running = some (t, p)) : s.name? = some t.name := by
  rw [name?, h]
  rfl

theorem runsOf_eq_nil {ran : List (Ran τ)} {test : ℕ} (h : ∀ e ∈ ran, e.test ≠ test) (k : ℕ) :
    runsOf ran k test = [] :=
  List.filter_eq_nil_iff.2 fun e he hk => h e he (of_decide_eq_true hk).2

/-- Without allocated workers every stage is `ready`. -/
theorem Staged.all_ready (h : s.Staged registered σ)
    (hempty : s.driver.allocatedWorkers = .empty) (k : ℕ) :
    σ k = .ready :=
  h.ready k (by rw [hempty, SortedMap.keys_empty]; exact List.not_mem_nil)

theorem Inv.start (h : s.Inv registered N external σ) (hrun : s.running = none) (name : τ)
    (numWorkers : ℕ) :
    Inv registered N external { s with
      test := s.test + 1, running := some ({ name, numWorkers }, .spawning) } σ := by
  have hextra : s.extra = [] := by rw [extra, hrun]
  have hphase := h.phase
  rw [hrun] at hphase
  have hempty : s.driver.allocatedWorkers = .empty := hphase
  have hkeys := h.keys
  have hforked := h.forked
  have hhosted := h.hosted
  rw [hextra] at hkeys hforked hhosted
  have hidle : DriverContext.Idle N s.driver :=
    ⟨h.sound.pooled, fun k => (hkeys k).trans (or_iff_left List.not_mem_nil), hempty⟩
  have hspawning := hidle.spawning (n := numWorkers)
  refine ⟨h.sound, hkeys, hforked, hhosted, h.announced, ⟨h.staged.ready, h.staged.handle,
    h.staged.connection, h.staged.announced, fun a p hp => ?_, h.staged.frames, fun _ k => ?_⟩,
    ⟨fun e he => ?_, fun n _ e he heq => ?_, fun c hc => ?_, h.recorded.increasing⟩,
    ⟨hspawning.sound, hspawning.ids, hspawning.keys, hspawning.size, hspawning.le, hempty⟩⟩
  · have hready := h.staged.process a p hp
    rw [h.staged.all_ready hempty] at hready ⊢
    exact hready
  · rw [runsOf_eq_nil fun e he heq => ?_, h.staged.all_ready hempty]
    · rfl
    · have hle := h.recorded.bound e he
      have htest : e.test = s.test + 1 := heq
      omega
  · exact (h.recorded.bound e he).trans (Nat.le_succ _)
  · have hle := h.recorded.bound e he
    have htest : e.test = s.test + 1 := heq
    omega
  · obtain ⟨hle, -, hright⟩ := h.recorded.joined c hc
    refine ⟨hle.trans (Nat.le_succ _), fun heq => ?_, hright⟩
    have htest : c.test = s.test + 1 := heq
    omega

/-- The loop that spawns is over. -/
theorem Inv.spawned (h : s.Inv registered N external σ) (hrun : s.running = some (t, .spawning))
    {order : List ℕ} (hsize : t.numWorkers ≤ s.driver.workers.size)
    (horder : s.driver.workers.Iterates order) :
    (s.toPhase t (.allocating t.numWorkers order)).Inv registered N external σ := by
  have hspawning : DriverContext.Spawning N t.numWorkers {} (s.driver, t.extraWorkers) := by
    have hphase := h.phase
    rwa [hrun] at hphase
  have hempty : s.driver.allocatedWorkers = .empty := hspawning.allocatedWorkers
  have hnil : s.driver.allocatedWorkers.keys = [] := by rw [hempty, SortedMap.keys_empty]
  have hlen : t.numWorkers ≤ order.length := by rwa [horder.length_eq]
  refine h.toPhase (name?_of_running hrun) (by rw [extra, extra, hrun]; rfl)
    (by rw [settled, hrun]; nofun)
    ⟨h.staged.all_ready hempty, horder.1, fun k hk => ⟨horder.mem_iff.1 hk, ?_⟩, ?_, hlen,
      fun k hk => Or.inr ?_⟩
  · rw [hnil]
    exact List.not_mem_nil
  · rw [hempty]
    exact Nat.zero_add _
  · -- a spawned worker shows that the pool has been filled up to the number of workers
    have hle := hspawning.le (List.ne_nil_of_mem hk)
    rw [List.take_of_length_le (by rw [horder.length_eq]; exact hle)]
    exact horder.mem_iff.2 ((hspawning.keys k).2 (Or.inr hk))

/-- `_allocateWorkers` is over. -/
theorem Inv.allocated (h : s.Inv registered N external σ) {n : ℕ} {order order' : List ℕ}
    (hrun : s.running = some (t, .allocating n order)) (hend : n = 0 ∨ order = [])
    (horder : s.driver.allocatedWorkers.Iterates order') :
    (s.toPhase t (.sending order')).Inv registered N external σ := by
  have hphase := h.phase
  rw [hrun] at hphase
  obtain ⟨hready, -, -, hsize, hlen, hextra⟩ := hphase
  have hzero : n = 0 := by
    rcases hend with hn | hnil
    · exact hn
    · rw [hnil, List.length_nil] at hlen
      omega
  subst hzero
  refine h.toPhase (name?_of_running hrun) (by rw [extra, extra, hrun]; rfl)
    (by rw [settled, hrun]; nofun)
    ⟨⟨hsize, fun k hk => ?_⟩, horder.1, fun k hk => horder.mem_iff.1 hk, fun k hk => ⟨?_, ?_⟩⟩
  · rcases hextra k hk with hmem | hmem
    · exact hmem
    · exact absurd hmem List.not_mem_nil
  · exact ⟨fun _ => horder.mem_iff.2 hk, fun _ => hready k⟩
  · rw [hready]
    rfl

theorem Inv.runDriver (h : s.Inv registered N external σ)
    (hrun : s.running = some (t, .sending [])) :
    (s.toPhase t .body).Inv registered N external σ := by
  have hphase := h.phase
  rw [hrun] at hphase
  obtain ⟨hfull, -, -, hstage⟩ := hphase
  refine h.toPhase (name?_of_running hrun) (by rw [extra, extra, hrun]; rfl)
    (by rw [settled, hrun]; nofun) ⟨hfull, fun k hk => ⟨fun hready => ?_, (hstage k hk).2⟩⟩
  exact List.not_mem_nil ((hstage k hk).1.1 hready)

theorem Inv.driverRan (h : s.Inv registered N external σ) (hrun : s.running = some (t, .body))
    (status : Status) {order : List ℕ} (horder : s.driver.allocatedWorkers.Iterates order) :
    (s.toPhase t (.joining status [] order { status })).Inv registered N external σ := by
  have hphase := h.phase
  rw [hrun] at hphase
  obtain ⟨hfull, hstage⟩ := hphase
  exact h.toPhase (name?_of_running hrun) (by rw [extra, extra, hrun]; rfl)
    (by rw [settled, hrun]; nofun)
    ⟨hfull, hstage, horder, fun _ => (.pass, ""), rfl, fun k hk => absurd hk List.not_mem_nil⟩

/-! ## `_allocateWorkers` -/

omit [LinearOrder α] in
/-- A handle is replaced by one with the same address and `_running`. -/
theorem Announced.set_handle {hosts : α → Option (ℕ × Bool)}
    {workers : SortedMap ℕ (WorkerHandle α)} {frames : List (SuperFrame α)}
    (h : Announced hosts workers frames σ) {k : ℕ} {w w' : WorkerHandle α}
    (hw : workers.find? k = some w) (hrunning : w'.running = w.running) (haddr : w'.addr = w.addr) :
    Announced hosts (workers.set k w') frames σ := by
  have hfind : ∀ j v, (workers.set k w').find? j = some v →
      ∃ u, workers.find? j = some u ∧ v.running = u.running ∧ v.addr = u.addr := by
    intro j v hj
    rcases SortedMap.find?_set_eq_some.1 hj with ⟨rfl, rfl⟩ | ⟨-, hj⟩
    · exact ⟨w, hw, hrunning, haddr⟩
    · exact ⟨v, hj, rfl, rfl⟩
  refine ⟨h.started, h.once, fun j v a hj hr => ?_, fun j v hj hr hl => ?_, fun j v a hj hr => ?_⟩
  · obtain ⟨u, hu, hur, -⟩ := hfind j v hj
    exact h.fresh j u a hu (hur.symm.trans hr)
  · obtain ⟨u, hu, hur, hua⟩ := hfind j v hj
    rw [hua]
    exact h.running j u hu (hur.symm.trans hr) hl
  · obtain ⟨u, hu, hur, -⟩ := hfind j v hj
    exact h.notRunning j u a hu (hur.symm.trans hr)

omit [LinearOrder α] in
/-- A worker that is not allocated yet adds to the allocated ones. -/
theorem size_allocate {c : DriverContext α Unit} {k : ℕ} {w : WorkerHandle α}
    (hw : c.workers.find? k = some w) (hid : w.id = k) (hnew : k ∉ c.allocatedWorkers.keys) :
    (c.allocate k).allocatedWorkers.size = c.allocatedWorkers.size + 1 := by
  rw [DriverContext.allocate_find? hw]
  show (assignAt c.allocatedWorkers w.id _).size = _
  rw [assignAt, hid, SortedMap.size_set, if_neg hnew]

theorem Inv.allocate (h : s.Inv registered N external σ) {n k : ℕ} {order : List ℕ}
    (hrun : s.running = some (t, .allocating (n + 1) (k :: order)))
    (hrunning : s.isRunning k = true) :
    (Cluster.toPhase { s with driver := s.driver.allocate k } t (.allocating n order)).Inv
      registered N external σ := by
  have hphase := h.phase
  rw [hrun] at hphase
  obtain ⟨hready, hnodup, hmem, hsize, hlen, hextra⟩ := hphase
  obtain ⟨hnew, hnodup'⟩ := List.nodup_cons.1 hnodup
  obtain ⟨hwork, hnotAll⟩ := hmem k (List.mem_cons_self ..)
  obtain ⟨w, hw⟩ := SortedMap.mem_keys.1 hwork
  have hwrun : w.running = true := by simpa [isRunning, hw] using hrunning
  have hid : w.id = k := (h.sound.pooled k w hw).id
  obtain ⟨hsound, hkeys, hall⟩ := h.sound.allocate hw hwrun
  have heq := DriverContext.allocate_find? hw
  have hextra' : ∀ c, Cluster.extra { s with
      driver := c, running := some (t, .allocating n order) } = s.extra := by
    intro c
    rw [extra, extra, hrun]
  have hallFind : ∀ j v, (s.driver.allocate k).allocatedWorkers.find? j = some v →
      j = k ∧ v.done = false ∧ v.pid = w.pid ∧ v.connection = w.addr ∨
        s.driver.allocatedWorkers.find? j = some v := by
    intro j v hj
    rw [heq] at hj
    change (assignAt s.driver.allocatedWorkers w.id _).find? j = some v at hj
    rw [find?_assignAt, hid] at hj
    split_ifs at hj with hjk
    · obtain rfl := Option.some.inj hj
      exact Or.inl ⟨hjk, rfl, rfl, rfl⟩
    · exact Or.inr hj
  have hworkFind : ∀ j v, (s.driver.allocate k).workers.find? j = some v →
      ∃ u, s.driver.workers.find? j = some u ∧ v.pid = u.pid := by
    intro j v hj
    rw [heq] at hj
    change (s.driver.workers.set k _).find? j = some v at hj
    rcases SortedMap.find?_set_eq_some.1 hj with ⟨rfl, rfl⟩ | ⟨-, hj⟩
    · exact ⟨w, hw, rfl⟩
    · exact ⟨v, hj, rfl⟩
  obtain ⟨a, haddr, hhost⟩ := h.announced.running k w hw hwrun (by rw [hready]; rfl)
  refine ⟨hsound, fun j => ?_, ?_, ?_, ?_, ⟨fun j _ => hready j, fun j v hj => ?_, fun j v hj => ?_,
    fun j hj b hb => ?_, ?_, h.staged.frames, fun _ => h.staged.results (by rw [hrun]; rfl)⟩,
    h.recorded.congr rfl rfl rfl (fun m hm => ?_) (by rw [settled, hrun]; nofun),
    ⟨hready, hnodup', fun j hj => ⟨?_, fun hj' => ?_⟩, ?_, ?_, fun j hj => ?_⟩⟩
  · rw [Cluster.toPhase, hextra']
    exact (hkeys j).trans (h.keys j)
  · rw [Cluster.toPhase, hextra']
    refine ⟨fun j hj v hv => ?_, fun j hj v hv => ?_⟩
    · obtain ⟨u, hu, hpid⟩ := hworkFind j v hv
      rw [hpid]
      exact h.forked.workers j hj u hu
    · rcases hallFind j v hv with ⟨rfl, -, hpid, -⟩ | hv
      · rw [hpid]
        exact h.forked.workers j hj w hw
      · exact h.forked.allocatedWorkers j hj v hv
  · rw [Cluster.toPhase, hextra']
    exact h.hosted
  · show Announced s.hosts (s.driver.allocate k).workers s.superFrames σ
    rw [heq]
    exact h.announced.set_handle hw rfl rfl
  · rcases hallFind j v hj with ⟨rfl, hdone, -, -⟩ | hj
    · rw [hready]
      exact hdone
    · exact h.staged.handle j v hj
  · rcases hallFind j v hj with ⟨rfl, -, -, hconn⟩ | hj
    · refine ⟨a, hconn.trans haddr, fun b i x hb => ⟨?_, ?_⟩, fun _ => hhost⟩
      · rintro rfl
        exact (Prod.mk.inj (Option.some.inj (hb.symm.trans hhost))).1
      · rintro rfl
        exact h.hosted.inj b a _ _ _ hb hhost
    · exact h.staged.connection j v hj
  · rcases (hall j).1 hj with rfl | hj
    · exact h.announced.fresh j w b hw hwrun hb
    · exact h.staged.announced j hj b hb
  · have hprocess := h.staged.process
    rwa [name?_of_running hrun] at hprocess
  · rw [name?_of_running hrun]
    exact hm
  · exact (hkeys j).2 (hmem j (List.mem_cons_of_mem _ hj)).1
  · rcases (hall j).1 hj' with rfl | hj'
    · exact hnew hj
    · exact (hmem j (List.mem_cons_of_mem _ hj)).2 hj'
  · show (s.driver.allocate k).allocatedWorkers.size + n = t.numWorkers
    rw [size_allocate hw hid hnotAll]
    omega
  · rw [List.length_cons] at hlen
    omega
  · refine (hextra j hj).elim (fun hj => Or.inl ((hall j).2 (Or.inr hj))) fun hj => ?_
    rw [List.take_succ_cons] at hj
    rcases List.mem_cons.1 hj with rfl | hj
    · exact Or.inl ((hall j).2 (Or.inl rfl))
    · exact Or.inr hj

omit [LinearOrder α] in
/-- The handles after a worker is spawned. -/
theorem find?_spawnStep {c c' : DriverContext α Unit} {pid : ℤ} {n : ℕ} {ids ids' : List ℕ}
    (h : DriverContext.spawnStep (fun _ => pid) n (c, ids) = some (c', ids')) :
    ids' = ids ++ [c.workers.size + 1] ∧ c'.allocatedWorkers = c.allocatedWorkers ∧
      ∀ j v, c'.workers.find? j = some v →
        j = c.workers.size + 1 ∧ v.running = false ∧ v.pid = pid ∨ c.workers.find? j = some v := by
  simp only [DriverContext.spawnStep] at h
  split_ifs at h
  obtain ⟨rfl, rfl⟩ := Prod.mk.inj (Option.some.inj h)
  refine ⟨rfl, rfl, fun j v hj => ?_⟩
  change (assignAt (assignAt c.workers (c.workers.size + 1) _) (c.workers.size + 1) _).find? j =
    some v at hj
  rw [find?_assignAt] at hj
  split_ifs at hj with hjk
  · obtain rfl := Option.some.inj hj
    exact Or.inl ⟨hjk, rfl, rfl⟩
  · rw [find?_assignAt, if_neg hjk] at hj
    exact Or.inr hj

/-- A process for the new worker `k` is at `addr`. -/
structure Spawns (hosts hosts' : α → Option (ℕ × Bool)) (k : ℕ) (addr : α) : Prop where
  free : hosts addr = none
  fresh : ∀ a x, hosts a ≠ some (k, x)
  after : ∀ b, hosts' b = if b = addr then some (k, false) else hosts b

namespace Spawns

variable {hosts hosts' : α → Option (ℕ × Bool)} {k j : ℕ} {addr a : α} {x : Bool}

theorem kept (h : Spawns hosts hosts' k addr) (ha : hosts a = some (j, x)) :
    hosts' a = some (j, x) := by
  have hne : a ≠ addr := by
    rintro rfl
    cases h.free.symm.trans ha
  rw [h.after, if_neg hne]
  exact ha

theorem new_or_kept (h : Spawns hosts hosts' k addr) (ha : hosts' a = some (j, x)) :
    a = addr ∧ j = k ∧ x = false ∨ hosts a = some (j, x) := by
  rw [h.after] at ha
  split_ifs at ha with haddr
  · obtain ⟨rfl, rfl⟩ := Prod.mk.inj (Option.some.inj ha)
    exact Or.inl ⟨haddr, rfl, rfl⟩
  · exact Or.inr ha

theorem hosted (h : Spawns hosts hosts' k addr) {extra : List ℕ}
    (hhosted : Hosted external hosts extra N σ) (hnodup : (extra ++ [k]).Nodup) (habove : N < k) :
    Hosted external hosts' (extra ++ [k]) N σ := by
  refine ⟨hhosted.le, hnodup, fun j hj => ?_, fun a b j x y ha hb => ?_, fun a j x ha => ?_,
    fun a j ha => ?_, fun j hj hl => ?_⟩
  · rcases List.mem_append.1 hj with hj | hj
    · exact hhosted.above j hj
    · rwa [List.mem_singleton.1 hj]
  · rcases h.new_or_kept ha with ⟨haddr, rfl, -⟩ | ha
    · rcases h.new_or_kept hb with ⟨hbddr, -, -⟩ | hb
      · rw [haddr, hbddr]
      · exact absurd hb (h.fresh b y)
    · rcases h.new_or_kept hb with ⟨-, rfl, -⟩ | hb
      · exact absurd ha (h.fresh a x)
      · exact hhosted.inj a b j x y ha hb
  · rw [List.mem_append, List.mem_singleton]
    rcases h.new_or_kept ha with ⟨-, rfl, -⟩ | ha
    · exact Or.inr (Or.inr rfl)
    · exact (hhosted.owner a j x ha).imp_right Or.inl
  · obtain ⟨x, hx⟩ := hhosted.external a j ha
    exact ⟨x, h.kept hx⟩
  · rcases List.mem_append.1 hj with hj | hj
    · obtain ⟨a, x, ha⟩ := hhosted.extra j hj hl
      exact ⟨a, x, h.kept ha⟩
    · rw [List.mem_singleton.1 hj]
      exact ⟨addr, false, by rw [h.after, if_pos rfl]⟩

/-- The new handle is not `_running` before the WORKER_STARTED message. -/
theorem announced (h : Spawns hosts hosts' k addr) {workers workers' : SortedMap ℕ (WorkerHandle α)}
    {frames : List (SuperFrame α)} (hannounced : Announced hosts workers frames σ)
    (hfind : ∀ j v, workers'.find? j = some v → j = k ∧ v.running = false ∨
      workers.find? j = some v) :
    Announced hosts' workers' frames σ := by
  refine ⟨fun j a hj => h.kept (hannounced.started j a hj), hannounced.once, fun j w a hj hr => ?_,
    fun j w hj hr hl => ?_, fun j w a hj hr ha => ?_⟩
  · rcases hfind j w hj with ⟨-, hnot⟩ | hj
    · cases hnot.symm.trans hr
    · exact hannounced.fresh j w a hj hr
  · rcases hfind j w hj with ⟨-, hnot⟩ | hj
    · cases hnot.symm.trans hr
    · obtain ⟨a, haddr, ha⟩ := hannounced.running j w hj hr hl
      exact ⟨a, haddr, h.kept ha⟩
  · rcases h.new_or_kept ha with ⟨-, -, hx⟩ | ha
    · cases hx
    · rcases hfind j w hj with ⟨rfl, -⟩ | hj
      · exact absurd ha (h.fresh a true)
      · exact hannounced.notRunning j w a hj hr ha

end Spawns

theorem Inv.spawnWorker (h : s.Inv registered N external σ)
    (hrun : s.running = some (t, .spawning)) {addr : α} {pid : ℤ}
    (haddr : s.processes.find? addr = none) (hpid : 0 < pid) (hchild : s.hasChild pid = false)
    (hmove : s.spawnWorker t addr pid = some s') : s'.Inv registered N external σ := by
  have hspawning : DriverContext.Spawning N t.numWorkers {} (s.driver, t.extraWorkers) := by
    have hphase := h.phase
    rwa [hrun] at hphase
  obtain ⟨c, ids, hstep, rfl⟩ := spawnWorker_eq_some hmove
  have hspawning' := hspawning.step hstep
  obtain ⟨rfl, hall, hfind⟩ := find?_spawnStep hstep
  have hextra : s.extra = t.extraWorkers := by rw [extra, hrun]
  have hhosted := h.hosted
  have hforked := h.forked
  rw [hextra] at hhosted hforked
  have hempty : s.driver.allocatedWorkers = .empty := hspawning.allocatedWorkers
  have hnone : ∀ k w, c.allocatedWorkers.find? k ≠ some w := by
    intro k w hk
    rw [hall, hempty] at hk
    cases hk
  have hspawns : Spawns s.hosts (Cluster.hosts { s with
      driver := c
      running :=
        some ({ t with extraWorkers := t.extraWorkers ++ [s.driver.workers.size + 1] }, .spawning)
      processes := s.processes.insert addr { id := s.driver.workers.size + 1, pid } })
      (s.driver.workers.size + 1) addr := by
    refine ⟨by rw [hosts, haddr]; rfl, fun a x ha => ?_, fun b => ?_⟩
    · -- the id of the new worker is above all others
      have hsize := hspawning.size
      rcases hhosted.owner a _ x ha with hext | hmem
      · have := hhosted.le a _ hext
        dsimp only at hsize
        omega
      · have := (hspawning.mem_ids.1 hmem).2
        dsimp only at this hsize
        omega
    · unfold hosts
      dsimp only
      rw [SortedMap.find?_insert haddr]
      split_ifs <;> rfl
  have hnodup : (t.extraWorkers ++ [s.driver.workers.size + 1]).Nodup := by
    rw [show t.extraWorkers ++ [_] = _ from hspawning'.ids]
    exact List.nodup_range.map fun i j hij => Nat.add_left_cancel hij
  have habove : N < s.driver.workers.size + 1 :=
    (hspawning'.mem_ids.1 (List.mem_append_right _ (List.mem_singleton_self _))).1
  have hchildren : ∀ a j q, Cluster.children { s with
      driver := c
      running :=
        some ({ t with extraWorkers := t.extraWorkers ++ [s.driver.workers.size + 1] }, .spawning)
      processes := s.processes.insert addr { id := s.driver.workers.size + 1, pid } } a =
        some (j, q) →
        j = s.driver.workers.size + 1 ∧ q = pid ∨
          j ≠ s.driver.workers.size + 1 ∧ q ≠ pid ∧ s.children a = some (j, q) := by
    intro a j q ha
    unfold children at ha
    dsimp only at ha
    rw [SortedMap.find?_insert haddr] at ha
    split_ifs at ha
    · obtain ⟨rfl, rfl⟩ := Prod.mk.inj (Option.some.inj ha)
      exact Or.inl ⟨rfl, rfl⟩
    · obtain ⟨p, hp, rfl, rfl⟩ := children_eq_some.1 ha
      refine Or.inr ⟨fun hid => hspawns.fresh a p.activity.started ?_,
        hasChild_eq_false_iff.1 hchild a p hp, children_of_find? hp⟩
      rw [← hid]
      exact hosts_of_find? hp
  refine ⟨hspawning'.sound, hspawning'.keys, ⟨fun k hk w hw => ?_, fun k _ w hw => ?_⟩,
    hspawns.hosted hhosted hnodup habove,
    hspawns.announced h.announced fun k w hw => (hfind k w hw).imp_left fun hnew =>
      ⟨hnew.1, hnew.2.1⟩,
    ⟨fun k _ => h.staged.all_ready hempty k, fun k w hw => ?_, fun k w hw => ?_, fun k hk => ?_,
      fun a p hp => ?_, h.staged.frames, fun _ => h.staged.results (by rw [hrun]; rfl)⟩,
    h.recorded.congr rfl rfl rfl (fun n hn => ?_)
      (by rw [settled, hrun]; intro hs; cases hs), hspawning'⟩
  · rcases hfind k w hw with ⟨rfl, -, hpid'⟩ | hw
    · rw [hpid']
      refine ⟨hpid.ne', fun a j q ha => ?_⟩
      rcases hchildren a j q ha with ⟨hj, hq⟩ | ⟨hj, hq, -⟩
      · exact iff_of_true hq hj
      · exact iff_of_false hq hj
    · have hkey := (hspawning.keys k).1 (SortedMap.mem_keys_of_find? hw)
      have hlarge := (hspawning'.mem_ids.1 hk).1
      have hk' : k ∈ t.extraWorkers := hkey.resolve_left (by omega)
      obtain ⟨hne, honly⟩ := hforked.workers k hk' w hw
      -- the process of an older worker is there, so the new pid is another one
      obtain ⟨b, x, hb⟩ := hhosted.extra k hk' (by rw [h.staged.all_ready hempty]; rfl)
      obtain ⟨p, hp, hid, -⟩ := hosts_eq_some.1 hb
      have hold : p.pid = w.pid := (honly b p.id p.pid (children_of_find? hp)).2 hid
      have hnew : k ≠ s.driver.workers.size + 1 := fun heq => hspawns.fresh b x (heq ▸ hb)
      refine ⟨hne, fun a j q ha => ?_⟩
      rcases hchildren a j q ha with ⟨rfl, rfl⟩ | ⟨-, -, ha⟩
      · refine iff_of_false (fun heq => ?_) hnew.symm
        exact hasChild_eq_false_iff.1 hchild b p hp (hold.trans heq.symm)
      · exact honly a j q ha
  · exact absurd hw (hnone k w)
  · exact absurd hw (hnone k w)
  · exact absurd hw (hnone k w)
  · obtain ⟨w, hw⟩ := SortedMap.mem_keys.1 hk
    exact absurd hw (hnone k w)
  · change (s.processes.insert addr _).find? a = some p at hp
    rw [SortedMap.find?_insert haddr] at hp
    rw [h.staged.all_ready hempty]
    split_ifs at hp
    · obtain rfl := Option.some.inj hp
      exact ⟨rfl, rfl⟩
    · have hprocess := h.staged.process a p hp
      rw [h.staged.all_ready hempty] at hprocess
      exact hprocess
  · rw [name?_of_running hrun]
    exact hn

/-! ## `_join` -/

omit [LinearOrder α] in
theorem joinedResult_congr (status : Status) {order : List ℕ} {f g : ℕ → Status × String}
    (h : ∀ k ∈ order, f k = g k) : joinedResult status order f = joinedResult status order g := by
  unfold joinedResult
  rw [List.map_congr_left fun k hk => congrArg Prod.fst (h k hk),
    List.map_congr_left fun k hk => congrArg Prod.snd (h k hk)]
  congr 1
  exact List.foldl_ext _ _ _ fun s k hk => by rw [h k hk]

omit [LinearOrder α] in
theorem joinedResult_add (status : Status) (order : List ℕ) {f : ℕ → Status × String}
    {w : WorkerHandle α} {k : ℕ} (h : (w.status, w.detailedReport) = f k) :
    (joinedResult status order f).add w = joinedResult status (order ++ [k]) f := by
  obtain ⟨hstatus, hreport⟩ := Prod.mk.inj h
  unfold joinedResult JoinedTest.add
  rw [List.foldl_append, List.map_append, List.map_append, hstatus, hreport]
  rfl

omit [LinearOrder α] in
/-- A worker that is done is at the stage `recorded`. -/
theorem recorded_of_done {st : Stage} {w : WorkerHandle α} (h : st.Handle w)
    (hdone : w.done = true) (hl : st.isLeaving = false) :
    st = .recorded (w.status, w.detailedReport) := by
  cases st with
  | recorded r => rw [h.2]
  | leaving r => cases hl
  | _ => exact absurd (hdone.symm.trans h) nofun

theorem Inv.collect (h : s.Inv registered N external σ) {status : Status}
    {before order : List ℕ} {k : ℕ} {result : JoinedTest}
    (hrun : s.running = some (t, .joining status before (k :: order) result))
    (hmove : s.collect t status before k order result = some s') :
    s'.Inv registered N external σ := by
  have hphase := h.phase
  rw [hrun] at hphase
  obtain ⟨hfull, hstage, horder, sent, hresult, hsent⟩ := hphase
  obtain ⟨w, hw, hdone, rfl⟩ := collect_eq_some hmove
  have hk : k ∈ s.driver.allocatedWorkers.keys := SortedMap.mem_keys_of_find? hw
  have hrecorded := recorded_of_done (h.staged.handle k w hw) hdone (hstage k hk).2
  have hnew : k ∉ before := fun hmem =>
    List.disjoint_of_nodup_append horder.1 hmem (List.mem_cons_self ..)
  have hupdate : ∀ j ∈ before, sent j = Function.update sent k (w.status, w.detailedReport) j :=
    fun j hj => (Function.update_of_ne (ne_of_mem_of_not_mem hj hnew) _ _).symm
  refine h.toPhase (name?_of_running hrun) (by rw [extra, extra, hrun]; rfl)
    (by rw [settled, hrun]; nofun)
    ⟨hfull, hstage, by rwa [List.append_assoc], Function.update sent k (w.status, w.detailedReport),
      ?_, fun j hj => ?_⟩
  · rw [hresult, joinedResult_congr status hupdate]
    exact joinedResult_add status before (Function.update_self k _ sent).symm
  · rcases List.mem_append.1 hj with hj | hj
    · rw [← hupdate j hj]
      exact hsent j hj
    · rw [List.mem_singleton.1 hj, Function.update_self]
      exact hrecorded

omit [LinearOrder α] in
theorem eq_singleton_of_map {β γ : Type} {l : List β} {f : β → γ} {c : γ} (h : l.map f = [c]) :
    ∃ b, l = [b] ∧ f b = c := by
  cases l with
  | nil => cases h
  | cons b l =>
    obtain ⟨hb, hl⟩ := List.cons.inj h
    rw [List.map_eq_nil_iff.1 hl]
    exact ⟨b, rfl, hb⟩

/-- `_join` is over, and has collected one run of each worker. -/
theorem Inv.joined (h : s.Inv registered N external σ) {status : Status} {before : List ℕ}
    {result : JoinedTest} (hrun : s.running = some (t, .joining status before [] result)) :
    Inv registered N external (Cluster.toPhase { s with
      joined := s.joined ++ [⟨s.test, t.name, t.numWorkers, status, before, result⟩] } t
        (.terminating t.extraWorkers)) σ := by
  have hphase := h.phase
  rw [hrun] at hphase
  obtain ⟨hfull, hstage, horder, sent, hresult, hsent⟩ := hphase
  rw [List.append_nil] at horder
  have hsome : s.running.isSome = true := by rw [hrun]; rfl
  have hname : t.name ∈ s.name? := by rw [name?_of_running hrun]; rfl
  have hright : Collected.Right s.ran ⟨s.test, t.name, t.numWorkers, status, before, result⟩ := by
    refine ⟨horder.1, by rw [horder.length_eq]; exact hfull.size, ⟨sent, hresult, fun k hk => ?_⟩,
      fun k hk => ?_⟩
    · obtain ⟨e, he, hres⟩ := eq_singleton_of_map
        (show (runsOf s.ran k s.test).map Ran.result = [sent k] by
          rw [h.staged.results hsome k, hsent k hk]; rfl)
      have hmem : e ∈ runsOf s.ran k s.test := by rw [he]; exact List.mem_singleton_self _
      obtain ⟨hran, hke⟩ := List.mem_filter.1 hmem
      obtain ⟨hworker, htest⟩ := of_decide_eq_true hke
      have hen := h.recorded.names t.name hname e hran htest
      show runsOf s.ran k s.test = _
      rw [he, ← hres, ← hworker, ← htest, ← hen]
      rfl
    · have hready := h.staged.ready k fun hmem => hk (horder.mem_iff.2 hmem)
      exact List.map_eq_nil_iff.1 ((h.staged.results hsome k).trans (by rw [hready]; rfl))
  have hleaving : ∀ k, (σ k).isLeaving = true → k ∈ s.driver.allocatedWorkers.keys := by
    intro k hl
    by_contra hk
    rw [h.staged.ready k hk] at hl
    cases hl
  have hs : (s.toPhase t (.terminating t.extraWorkers)).Inv registered N external σ :=
    h.toPhase (name?_of_running hrun) (by rw [extra, extra, hrun]; rfl) (fun _ => rfl)
      ⟨hfull.extra, fun k hl => absurd (hl.symm.trans (hstage k (hleaving k hl)).2) nofun,
        fun k hk => ⟨_, Or.inl (hsent k (horder.mem_iff.2 hk))⟩⟩
  refine hs.record rfl rfl hright fun d hd => ?_
  obtain ⟨hle, hsettled, -⟩ := h.recorded.joined d hd
  refine lt_of_le_of_ne hle fun heq => ?_
  have := hsettled heq
  rw [settled, hrun] at this
  cases this

/-! ## Messages to the workers -/

/-- The driver sends a message to worker `k`, which is thereby at the stage `st`. -/
theorem Inv.send (h : s.Inv registered N external σ) {k : ℕ} {m : Command τ} {phase : TestPhase}
    {st : Stage} (hname : s.name? = some t.name) (hmove : s.send k m = some s')
    (hl : (σ k).isLeaving = false) (hrest : ∀ p, (σ k).Process registered s.test s.name? p →
      p.activity.quiet = true ∧ p.unread = [])
    (hst : ∀ p : WorkerProcess τ, p.activity.quiet = true → p.activity.started = true →
      p.unread = [(s.test, m)] → st.Process registered s.test s.name? p)
    (hhandle : ∀ w : WorkerHandle α, (σ k).Handle w → st.Handle w)
    (hflying : st.flying = (σ k).flying) (hresults : st.results = (σ k).results)
    (hextra : (s.toPhase t phase).extra = s.extra)
    (hsettled : s.settled = true → (s.toPhase t phase).settled = true)
    (hphase : PhaseInv N s.driver (Function.update σ k st) (some (t, phase))) :
    (s'.toPhase t phase).Inv registered N external (Function.update σ k st) := by
  obtain ⟨w, addr, p, hw, haddr, hp, rfl⟩ := send_eq_some hmove
  have hsome : s.running.isSome = true := by
    unfold name? at hname
    exact Option.isSome_map.symm.trans (by rw [hname]; rfl)
  obtain ⟨a, hconn, -, hhost⟩ := h.staged.connection k w hw
  obtain rfl := Option.some.inj (haddr.symm.trans hconn)
  obtain ⟨q, hq, rfl, hstarted⟩ := hosts_eq_some.1 (hhost hl)
  obtain rfl := Option.some.inj (hp.symm.trans hq)
  obtain ⟨hquiet, hunread⟩ := hrest p (h.staged.process addr p hp)
  refine h.restage hp rfl rfl rfl rfl (hst _ hquiet hstarted ?_) (fun w' hw' => ?_)
    (fun hk => absurd (SortedMap.mem_keys_of_find? hw) hk) (fun hk => nomatch hk.symm.trans hl)
    rfl rfl (by rw [hname]; rfl) hextra (fun _ => rfl) (fun j => ?_) (fun _ j => ?_) ?_ hphase
  · show p.unread ++ [(s.test, m)] = _
    rw [hunread, List.nil_append]
  · exact hhandle w' (h.staged.handle p.id w' hw')
  · rw [Function.update_apply]
    split_ifs with hj
    · rw [hflying, hj]
      exact h.staged.frames p.id
    · exact h.staged.frames j
  · rw [Function.update_apply]
    split_ifs with hj
    · rw [hresults, hj]
      exact h.staged.results hsome p.id
    · exact h.staged.results hsome j
  · refine h.recorded.congr rfl rfl rfl (fun n hn => ?_) hsettled
    rw [hname]
    exact hn

theorem Inv.sendRunTest (h : s.Inv registered N external σ) {k : ℕ} {order : List ℕ}
    (hrun : s.running = some (t, .sending (k :: order)))
    (hmove : s.send k (.runTest t.name) = some s') :
    (s'.toPhase t (.sending order)).Inv registered N external (Function.update σ k .sent) := by
  have hphase := h.phase
  rw [hrun] at hphase
  obtain ⟨hfull, hnodup, hmem, hstage⟩ := hphase
  have hk := hmem k (List.mem_cons_self ..)
  have hready : σ k = .ready := (hstage k hk).1.2 (List.mem_cons_self ..)
  obtain ⟨hnew, hnodup'⟩ := List.nodup_cons.1 hnodup
  refine h.send (name?_of_running hrun) hmove (by rw [hready]; rfl)
    (fun p hp => by rw [hready] at hp; exact hp)
    (fun p hquiet _ hunread => ⟨hquiet, t.name, by rw [name?_of_running hrun]; rfl, hunread⟩)
    (fun w hw => by rw [hready] at hw; exact hw) (by rw [hready]; rfl) (by rw [hready]; rfl)
    (by rw [extra, extra, hrun]; rfl) (by rw [settled, hrun]; nofun)
    ⟨hfull, hnodup', fun j hj => hmem j (List.mem_cons_of_mem _ hj), fun j hj => ?_⟩
  rw [Function.update_apply]
  split_ifs with hjk
  · subst hjk
    exact ⟨⟨nofun, fun hj' => absurd hj' hnew⟩, rfl⟩
  · rw [(hstage j hj).1, List.mem_cons, or_iff_right hjk]
    exact ⟨Iff.rfl, (hstage j hj).2⟩

theorem Inv.terminate (h : s.Inv registered N external σ) {k : ℕ} {ids : List ℕ}
    (hrun : s.running = some (t, .terminating (k :: ids))) (hmove : s.terminate t k ids = some s') :
    ∃ st, s'.Inv registered N external (Function.update σ k st) := by
  have hphase := h.phase
  rw [hrun] at hphase
  obtain ⟨hmem, hleaving, hstage⟩ := hphase
  obtain ⟨s₁, hsend, rfl⟩ := terminate_eq_some hmove
  have hextra : s.extra = k :: ids := by rw [extra, hrun]
  have hk : k ∈ s.extra := by rw [hextra]; exact List.mem_cons_self ..
  have hl : (σ k).isLeaving = false := Bool.eq_false_of_not_eq_true fun hl =>
    (hleaving k hl).2 ((h.keys k).2 (Or.inr hk))
  obtain ⟨r, hr⟩ : ∃ r, σ k = .recorded r := by
    obtain ⟨r, hr | hr⟩ := hstage k (hmem k (List.mem_cons_self ..))
    · exact ⟨r, hr⟩
    · rw [hr] at hl
      cases hl
  refine ⟨.leaving r, h.send (name?_of_running hrun) hsend hl
    (fun p hp => by rw [hr] at hp; exact hp)
    (fun p hquiet hstarted hunread => ⟨hquiet, hstarted, hunread⟩)
    (fun w hw => by rw [hr] at hw; exact hw) (by rw [hr]; rfl) (by rw [hr]; rfl)
    (by rw [hextra, extra]; rfl) (fun _ => rfl)
    ⟨hmem, fun j hj => ?_, by rw [Function.update_self]; rfl, fun j hj => ?_⟩⟩
  · rw [Function.update_apply] at hj
    split_ifs at hj with hjk
    · rw [hjk]
      exact ⟨h.hosted.above k hk, Or.inl rfl⟩
    · exact ⟨(hleaving j hj).1, Or.inr (hleaving j hj).2⟩
  · rw [Function.update_apply]
    split_ifs with hjk
    · exact ⟨r, Or.inr rfl⟩
    · exact hstage j hj

/-! ## The release of the workers -/

/-- `waitpid` returns when the process of a spawned worker is gone. -/
theorem Inv.not_hosts_of_reap (h : s.Inv registered N external σ) {k : ℕ} {ids : List ℕ}
    (hrun : s.running = some (t, .awaiting k ids)) (hmove : s.reap t k ids = some s') (a : α)
    (x : Bool) :
    s.hosts a ≠ some (k, x) := by
  intro ha
  have hk : k ∈ s.extra := by
    rw [extra, hrun]
    exact List.mem_cons_self ..
  obtain ⟨w, hw, hgone, -⟩ := reap_eq_some hmove
  obtain ⟨hne, honly⟩ := h.forked.allocatedWorkers k hk w hw
  obtain ⟨p, hp, hid, -⟩ := hosts_eq_some.1 ha
  have hpid : p.pid = w.pid := (honly a p.id p.pid (children_of_find? hp)).2 hid
  exact hasChild_eq_false_iff.1 (hgone hne) a p hp hpid

theorem Inv.reap (h : s.Inv registered N external σ) {k : ℕ} {ids : List ℕ}
    (hrun : s.running = some (t, .awaiting k ids)) (hmove : s.reap t k ids = some s') :
    s'.Inv registered N external σ := by
  have hgone := h.not_hosts_of_reap hrun hmove
  obtain ⟨w, -, -, rfl⟩ := reap_eq_some hmove
  have hphase := h.phase
  rw [hrun] at hphase
  obtain ⟨hmem, hleaving, -, hstage⟩ := hphase
  have hextra : s.extra = k :: ids := by rw [extra, hrun]
  have hkeys := h.keys
  have hforked := h.forked
  have hhosted := h.hosted
  rw [hextra] at hkeys hforked hhosted
  obtain ⟨hnew, hnodup⟩ := List.nodup_cons.1 hhosted.nodup
  have habove := hhosted.above k (List.mem_cons_self ..)
  have hfind : ∀ j w, (s.driver.workers.erase k).find? j = some w →
      j ≠ k ∧ s.driver.workers.find? j = some w := by
    intro j w hj
    rw [SortedMap.find?_erase] at hj
    split_ifs at hj with hjk
    exact ⟨hjk, hj⟩
  refine ⟨⟨fun j w hj => h.sound.pooled j w (hfind j w hj).2, h.sound.allocated⟩, fun j => ?_,
    ⟨fun j hj w hw => hforked.workers j (List.mem_cons_of_mem _ hj) w (hfind j w hw).2,
      fun j hj => hforked.allocatedWorkers j (List.mem_cons_of_mem _ hj)⟩,
    ⟨hhosted.le, hnodup, fun j hj => hhosted.above j (List.mem_cons_of_mem _ hj), hhosted.inj,
      fun a j x ha => ?_, hhosted.external,
      fun j hj => hhosted.extra j (List.mem_cons_of_mem _ hj)⟩,
    ⟨h.announced.started, h.announced.once,
      fun j w a hj => h.announced.fresh j w a (hfind j w hj).2,
      fun j w hj => h.announced.running j w (hfind j w hj).2,
      fun j w a hj => h.announced.notRunning j w a (hfind j w hj).2⟩,
    ⟨h.staged.ready, h.staged.handle, h.staged.connection, h.staged.announced, ?_,
      h.staged.frames, fun _ => h.staged.results (by rw [hrun]; rfl)⟩,
    h.recorded.congr rfl rfl rfl (fun n hn => ?_) (fun _ => rfl),
    ⟨fun j hj => hmem j (List.mem_cons_of_mem _ hj), fun j hj => ?_, hstage⟩⟩
  · rw [SortedMap.mem_keys_erase, hkeys, List.mem_cons]
    constructor
    · rintro ⟨hjk, hlt | heq | hj⟩
      · exact Or.inl hlt
      · exact absurd heq hjk
      · exact Or.inr hj
    · rintro (hlt | hj)
      · exact ⟨by omega, Or.inl hlt⟩
      · exact ⟨ne_of_mem_of_not_mem hj hnew, Or.inr (Or.inr hj)⟩
  · rcases hhosted.owner a j x ha with hj | hj
    · exact Or.inl hj
    · rcases List.mem_cons.1 hj with rfl | hj
      · exact absurd ha (hgone a x)
      · exact Or.inr hj
  · have hprocess := h.staged.process
    rwa [name?_of_running hrun] at hprocess
  · rw [name?_of_running hrun]
    exact hn
  · obtain ⟨hlt, hor⟩ := hleaving j hj
    refine ⟨hlt, fun hk => ?_⟩
    obtain ⟨hjk, hk⟩ := SortedMap.mem_keys_erase.1 hk
    exact hor.elim hjk fun hnot => hnot hk

theorem Inv.deallocated (h : s.Inv registered N external σ)
    (hrun : s.running = some (t, .terminating [])) :
    Inv registered N external { s with
      driver := { s.driver with allocatedWorkers := .empty }, running :=
  none } fun _ => .ready := by
  have hphase := h.phase
  rw [hrun] at hphase
  obtain ⟨-, hleaving, hstage⟩ := hphase
  have hextra : s.extra = [] := by rw [extra, hrun]
  have hkeys := h.keys
  have hhosted := h.hosted
  rw [hextra] at hkeys hhosted
  have hrest : ∀ k, σ k = .ready ∨ ∃ r, σ k = .recorded r ∨ σ k = .leaving r := by
    intro k
    by_cases hk : k ∈ s.driver.allocatedWorkers.keys
    · exact Or.inr (hstage k hk)
    · exact Or.inl (h.staged.ready k hk)
  refine ⟨⟨h.sound.pooled, fun k w hw => absurd hw nofun⟩, hkeys,
    ⟨fun k hk => absurd hk List.not_mem_nil, fun k hk => absurd hk List.not_mem_nil⟩,
    ⟨hhosted.le, List.nodup_nil, fun k hk => absurd hk List.not_mem_nil, hhosted.inj,
      hhosted.owner, hhosted.external, fun k hk => absurd hk List.not_mem_nil⟩,
    ⟨h.announced.started, h.announced.once, h.announced.fresh, fun k w hk hr _ => ?_,
      h.announced.notRunning⟩,
    ⟨fun _ _ => rfl, fun k w hw => absurd hw nofun, fun k w hw => absurd hw nofun,
      fun k hk => absurd hk List.not_mem_nil, fun a p hp => ?_, fun k => ?_, nofun⟩,
    h.recorded.congr rfl rfl rfl nofun (fun _ => rfl), rfl⟩
  · refine h.announced.running k w hk hr (Bool.eq_false_of_not_eq_true fun hl => ?_)
    exact (hleaving k hl).2 (SortedMap.mem_keys_of_find? hk)
  · have hprocess := h.staged.process a p hp
    rcases hrest p.id with hr | ⟨r, hr | hr⟩
    · rw [hr] at hprocess
      exact hprocess
    · rw [hr] at hprocess
      exact hprocess
    · -- the process of a spawned worker is gone
      have hlt := (hleaving p.id (by rw [hr]; rfl)).1
      rcases hhosted.owner a p.id _ (hosts_of_find? hp) with hext | hmem
      · exact absurd (hhosted.le a p.id hext) (by omega)
      · exact absurd hmem List.not_mem_nil
  · rw [h.staged.frames]
    rcases hrest k with hr | ⟨r, hr | hr⟩ <;> rw [hr] <;> rfl

end Cluster

end Dtest
