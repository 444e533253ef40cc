import Dtest.Cluster.Moves

/-!
# The invariant of the cluster

Every worker of the running test is at a `Stage`, from its handle being reset to its process being
told to exit.  The stage fixes what its process has unread and does, what it has in flight to the
driver, what the driver has in the handle, and what the history says of it.

`Hosted` and `Announced` are about who is where, and only depend on the `hosts` of the addresses;
`Forked` is about the pids of the `children`; `Staged` about the stages; `Recorded` about the
history; `PhaseInv` about the driver's loops.
-/

namespace Dtest

variable {α τ : Type}

/-- How far a worker of the running test is.  `ignored` is a worker that does not know the test, and
`leaving` one that is told to exit. -/
inductive Stage
  | ready
  | sent
  | ignored
  | busy
  | inFlight (r : Status × String)
  | recorded (r : Status × String)
  | leaving (r : Status × String)

namespace Stage

/-- The results in flight. -/
def flying : Stage → List (Status × String)
  | .inFlight r => [r]
  | _ => []

/-- The results of the worker's runs of the test. -/
def results : Stage → List (Status × String)
  | .inFlight r | .recorded r | .leaving r => [r]
  | _ => []

def isLeaving : Stage → Bool
  | .leaving _ => true
  | _ => false

/-- The worker has its test, and the driver does not have the result. -/
def pending : Stage → Bool
  | .sent | .ignored | .busy | .inFlight _ => true
  | _ => false

/-- What the driver has of the worker. -/
def Handle (w : WorkerHandle α) : Stage → Prop
  | .recorded r | .leaving r => w.done = true ∧ (w.status, w.detailedReport) = r
  | _ => w.done = false

end Stage

/-- Not in a test. -/
def Activity.quiet : Activity τ → Bool
  | .inTest _ _ => false
  | _ => true

/-- Its WORKER_STARTED message is sent. -/
def Activity.started : Activity τ → Bool
  | .starting => false
  | _ => true

/-- The process of a worker at a stage. -/
def Stage.Process (registered : τ → Bool) (test : ℕ) (name : Option τ) (p : WorkerProcess τ) :
    Stage → Prop
  | .sent => p.activity.quiet = true ∧ ∃ n ∈ name, p.unread = [(test, .runTest n)]
  | .ignored => p.activity.quiet = true ∧ p.unread = [] ∧ ∃ n ∈ name, registered n = false
  | .busy => p.unread = [] ∧ ∃ n ∈ name, p.activity = .inTest test n
  | .leaving _ =>
    p.activity.quiet = true ∧ p.activity.started = true ∧ p.unread = [(test, .terminate)]
  | _ => p.activity.quiet = true ∧ p.unread = []

/-- The address in a WORKER_STARTED message of worker `k`. -/
def SuperFrame.started? (k : ℕ) : SuperFrame α → Option α
  | .workerStarted id addr => if id = k then some addr else none
  | _ => none

theorem workerStarted_mem_iff {frames : List (SuperFrame α)} {k : ℕ} {a : α} :
    .workerStarted k a ∈ frames ↔ a ∈ frames.filterMap (SuperFrame.started? k) := by
  rw [List.mem_filterMap]
  constructor
  · exact fun hl => ⟨_, hl, if_pos rfl⟩
  · rintro ⟨f, hf, heq⟩
    cases f with
    | workerStarted id addr =>
      simp only [SuperFrame.started?] at heq
      split_ifs at heq with hid
      rw [← hid, ← Option.some.inj heq]
      exact hf
    | finishedTest id status detailedReport => cases heq
    | other id => cases heq

/-- The runs of a test by worker `k`. -/
def runsOf (ran : List (Ran τ)) (k test : ℕ) : List (Ran τ) :=
  ran.filter fun e => decide (e.worker = k ∧ e.test = test)

/-- The result that a worker sends. -/
def Ran.result (e : Ran τ) : Status × String := (e.status, e.detailedReport)

/-- What `_join` makes of the results of the workers in `order`. -/
def joinedResult (status : Status) (order : List ℕ) (sent : ℕ → Status × String) : JoinedTest where
  status := order.foldl (fun s k => if s < (sent k).1 then (sent k).1 else s) status
  childStatus := order.map fun k => (sent k).1
  childDetailedReport := order.map fun k => (sent k).2

/-- The outcome of a collected test is made of one run of the test by each of its workers, and of no
other. -/
structure Collected.Right (ran : List (Ran τ)) (c : Collected τ) : Prop where
  nodup : c.order.Nodup
  length : c.order.length = c.numWorkers
  result : ∃ sent, c.result = joinedResult c.status c.order sent ∧
    ∀ k ∈ c.order, runsOf ran k c.test = [⟨c.test, k, c.name, (sent k).1, (sent k).2⟩]
  others : ∀ k ∉ c.order, runsOf ran k c.test = []

namespace Cluster

variable [LinearOrder α]

/-- The worker id of the process at an address, and whether it has sent its WORKER_STARTED. -/
def hosts (s : Cluster α τ) (addr : α) : Option (ℕ × Bool) :=
  (s.processes.find? addr).map fun p => (p.id, p.activity.started)

/-- The worker id and the pid of the process at an address. -/
def children (s : Cluster α τ) (addr : α) : Option (ℕ × ℤ) :=
  (s.processes.find? addr).map fun p => (p.id, p.pid)

/-- The name of the running test. -/
def name? (s : Cluster α τ) : Option τ := s.running.map fun r => r.1.name

/-- The spawned workers in the pool. -/
def extra (s : Cluster α τ) : List ℕ :=
  match s.running with
  | none => []
  | some (_, .terminating ids) => ids
  | some (_, .awaiting k ids) => k :: ids
  | some (t, _) => t.extraWorkers

/-- The results of the last test are collected. -/
def settled (s : Cluster α τ) : Bool :=
  match s.running with
  | none | some (_, .terminating _) | some (_, .awaiting _ _) => true
  | _ => false

/-- Every id has one process at most: the external ones live on, the others are spawned workers. -/
structure Hosted (external : SortedMap α ℕ) (hosts : α → Option (ℕ × Bool)) (extra : List ℕ)
    (N : ℕ) (σ : ℕ → Stage) : Prop where
  le : ∀ a k, external.find? a = some k → k ≤ N
  nodup : extra.Nodup
  above : ∀ k ∈ extra, N < k
  inj : ∀ a b k x y, hosts a = some (k, x) → hosts b = some (k, y) → a = b
  owner : ∀ a k x, hosts a = some (k, x) → external.find? a = some k ∨ k ∈ extra
  external : ∀ a k, external.find? a = some k → ∃ x, hosts a = some (k, x)
  extra : ∀ k ∈ extra, (σ k).isLeaving = false → ∃ a x, hosts a = some (k, x)

/-- A worker announces its address once. -/
structure Announced (hosts : α → Option (ℕ × Bool)) (workers : SortedMap ℕ (WorkerHandle α))
    (frames : List (SuperFrame α)) (σ : ℕ → Stage) : Prop where
  started : ∀ k a, .workerStarted k a ∈ frames → hosts a = some (k, true)
  once : ∀ k, (frames.filterMap (SuperFrame.started? k)).length ≤ 1
  fresh : ∀ k w a, workers.find? k = some w → w.running = true → .workerStarted k a ∉ frames
  running : ∀ k w, workers.find? k = some w → w.running = true → (σ k).isLeaving = false →
    ∃ a, w.addr = some a ∧ hosts a = some (k, true)
  notRunning : ∀ k w a, workers.find? k = some w → w.running = false → hosts a = some (k, true) →
    .workerStarted k a ∈ frames

/-- Every worker is at its stage. -/
structure Staged (registered : τ → Bool) (s : Cluster α τ) (σ : ℕ → Stage) : Prop where
  ready : ∀ k, k ∉ s.driver.allocatedWorkers.keys → σ k = .ready
  handle : ∀ k w, s.driver.allocatedWorkers.find? k = some w → (σ k).Handle w
  connection : ∀ k w, s.driver.allocatedWorkers.find? k = some w → ∃ a, w.connection = some a ∧
    (∀ b j x, s.hosts b = some (j, x) → (b = a ↔ j = k)) ∧
      ((σ k).isLeaving = false → s.hosts a = some (k, true))
  announced : ∀ k ∈ s.driver.allocatedWorkers.keys, ∀ a, .workerStarted k a ∉ s.superFrames
  process : ∀ a p, s.processes.find? a = some p → (σ p.id).Process registered s.test s.name? p
  frames : ∀ k, s.superFrames.filterMap (SuperFrame.finished? k) = (σ k).flying
  results : s.running.isSome = true → ∀ k, (runsOf s.ran k s.test).map Ran.result = (σ k).results

/-- The history is right. -/
structure Recorded (s : Cluster α τ) : Prop where
  bound : ∀ e ∈ s.ran, e.test ≤ s.test
  names : ∀ n ∈ s.name?, ∀ e ∈ s.ran, e.test = s.test → e.name = n
  joined : ∀ c ∈ s.joined, c.test ≤ s.test ∧ (c.test = s.test → s.settled = true) ∧ c.Right s.ran
  increasing : s.joined.Pairwise fun c d => c.test < d.test

/-- A pid that only the process of worker `k` has. -/
def PidOf (children : α → Option (ℕ × ℤ)) (k : ℕ) (pid : ℤ) : Prop :=
  pid ≠ 0 ∧ ∀ a j q, children a = some (j, q) → (q = pid ↔ j = k)

/-- The driver knows the processes of the workers it has spawned. -/
structure Forked (children : α → Option (ℕ × ℤ)) (c : DriverContext α Unit) (extra : List ℕ) :
    Prop where
  workers : ∀ k ∈ extra, ∀ w, c.workers.find? k = some w → PidOf children k w.pid
  allocatedWorkers : ∀ k ∈ extra, ∀ w, c.allocatedWorkers.find? k = some w → PidOf children k w.pid

/-- The allocated workers of a test after `_allocateWorkers`. -/
structure Full (t : RunningTest τ) (c : DriverContext α Unit) : Prop where
  size : c.allocatedWorkers.size = t.numWorkers
  extra : ∀ k ∈ t.extraWorkers, k ∈ c.allocatedWorkers.keys

/-- What the driver's loops keep. -/
def PhaseInv (N : ℕ) (c : DriverContext α Unit) (σ : ℕ → Stage) :
    Option (RunningTest τ × TestPhase) → Prop
  | none => c.allocatedWorkers = .empty
  | some (t, .spawning) => DriverContext.Spawning N t.numWorkers {} (c, t.extraWorkers)
  | some (t, .allocating n order) =>
    (∀ k, σ k = .ready) ∧ order.Nodup ∧
      (∀ k ∈ order, k ∈ c.workers.keys ∧ k ∉ c.allocatedWorkers.keys) ∧
      c.allocatedWorkers.size + n = t.numWorkers ∧ n ≤ order.length ∧
      ∀ k ∈ t.extraWorkers, k ∈ c.allocatedWorkers.keys ∨ k ∈ order.take n
  | some (t, .sending order) =>
    Full t c ∧ order.Nodup ∧ (∀ k ∈ order, k ∈ c.allocatedWorkers.keys) ∧
      ∀ k ∈ c.allocatedWorkers.keys, (σ k = .ready ↔ k ∈ order) ∧ (σ k).isLeaving = false
  | some (t, .body) =>
    Full t c ∧ ∀ k ∈ c.allocatedWorkers.keys, σ k ≠ .ready ∧ (σ k).isLeaving = false
  | some (t, .joining status before order result) =>
    Full t c ∧ (∀ k ∈ c.allocatedWorkers.keys, σ k ≠ .ready ∧ (σ k).isLeaving = false) ∧
      c.allocatedWorkers.Iterates (before ++ order) ∧
      ∃ sent, result = joinedResult status before sent ∧ ∀ k ∈ before, σ k = .recorded (sent k)
  | some (_, .terminating ids) =>
    (∀ k ∈ ids, k ∈ c.allocatedWorkers.keys) ∧
      (∀ k, (σ k).isLeaving = true → N < k ∧ k ∉ c.workers.keys) ∧
      ∀ k ∈ c.allocatedWorkers.keys, ∃ r, σ k = .recorded r ∨ σ k = .leaving r
  | some (_, .awaiting k₀ ids) =>
    (∀ k ∈ k₀ :: ids, k ∈ c.allocatedWorkers.keys) ∧
      (∀ k, (σ k).isLeaving = true → N < k ∧ (k = k₀ ∨ k ∉ c.workers.keys)) ∧
      (σ k₀).isLeaving = true ∧
      ∀ k ∈ c.allocatedWorkers.keys, ∃ r, σ k = .recorded r ∨ σ k = .leaving r

/-- The invariant, with the stages of the workers. -/
structure Inv (registered : τ → Bool) (N : ℕ) (external : SortedMap α ℕ) (s : Cluster α τ)
    (σ : ℕ → Stage) : Prop where
  sound : s.driver.Sound
  keys : ∀ k, k ∈ s.driver.workers.keys ↔ k < N ∨ k ∈ s.extra
  forked : Forked s.children s.driver s.extra
  hosted : Hosted external s.hosts s.extra N σ
  announced : Announced s.hosts s.driver.workers s.superFrames σ
  staged : s.Staged registered σ
  recorded : s.Recorded
  phase : PhaseInv N s.driver σ s.running

/-! ## Lookups -/

theorem hosts_eq_some {s : Cluster α τ} {a : α} {k : ℕ} {x : Bool} :
    s.hosts a = some (k, x) ↔
      ∃ p, s.processes.find? a = some p ∧ p.id = k ∧ p.activity.started = x := by
  simp only [hosts, Option.map_eq_some_iff, Prod.mk.injEq]

theorem hosts_of_find? {s : Cluster α τ} {a : α} {p : WorkerProcess τ}
    (h : s.processes.find? a = some p) : s.hosts a = some (p.id, p.activity.started) :=
  hosts_eq_some.2 ⟨p, h, rfl, rfl⟩

/-- A process that keeps its id and does not start leaves the hosts as they are. -/
theorem hosts_set {s s' : Cluster α τ} {a : α} {p p' : WorkerProcess τ}
    (h : s.processes.find? a = some p) (hs : s'.processes = s.processes.set a p')
    (hid : p'.id = p.id) (hstarted : p'.activity.started = p.activity.started) :
    s'.hosts = s.hosts := by
  funext b
  unfold hosts
  rw [hs, SortedMap.find?_set]
  split_ifs with hb
  · rw [hb, h, Option.map_some, Option.map_some, hid, hstarted]
  · rfl

theorem children_eq_some {s : Cluster α τ} {a : α} {k : ℕ} {pid : ℤ} :
    s.children a = some (k, pid) ↔ ∃ p, s.processes.find? a = some p ∧ p.id = k ∧ p.pid = pid := by
  simp only [children, Option.map_eq_some_iff, Prod.mk.injEq]

theorem children_of_find? {s : Cluster α τ} {a : α} {p : WorkerProcess τ}
    (h : s.processes.find? a = some p) : s.children a = some (p.id, p.pid) :=
  children_eq_some.2 ⟨p, h, rfl, rfl⟩

/-- A process keeps its id and its pid. -/
theorem children_set {s s' : Cluster α τ} {a : α} {p p' : WorkerProcess τ}
    (h : s.processes.find? a = some p) (hs : s'.processes = s.processes.set a p')
    (hid : p'.id = p.id) (hpid : p'.pid = p.pid) : s'.children = s.children := by
  funext b
  unfold children
  rw [hs, SortedMap.find?_set]
  split_ifs with hb
  · rw [hb, h, Option.map_some, Option.map_some, hid, hpid]
  · rfl

omit [LinearOrder α] in
/-- Processes can go. -/
theorem Forked.mono {children children' : α → Option (ℕ × ℤ)} {c : DriverContext α Unit}
    {extra : List ℕ} (h : Forked children c extra)
    (hback : ∀ a e, children' a = some e → children a = some e) : Forked children' c extra :=
  ⟨fun k hk w hw => ⟨(h.workers k hk w hw).1, fun a j q ha =>
      (h.workers k hk w hw).2 a j q (hback a _ ha)⟩,
    fun k hk w hw => ⟨(h.allocatedWorkers k hk w hw).1, fun a j q ha =>
      (h.allocatedWorkers k hk w hw).2 a j q (hback a _ ha)⟩⟩

/-- The process of an id. -/
theorem Hosted.process_eq {external : SortedMap α ℕ} {s : Cluster α τ} {extra : List ℕ}
    {N : ℕ} {σ : ℕ → Stage} (h : Hosted external s.hosts extra N σ) {a b : α}
    {p q : WorkerProcess τ} (hp : s.processes.find? a = some p) (hq : s.processes.find? b = some q)
    (hid : p.id = q.id) : a = b :=
  h.inj a b _ _ _ (hosts_of_find? hp) (by rw [hid]; exact hosts_of_find? hq)

section Updates

variable {registered : τ → Bool} {N : ℕ} {external : SortedMap α ℕ} {s s' : Cluster α τ}
  {σ σ' : ℕ → Stage}

omit [LinearOrder α] in
theorem not_leaving (hσ : ∀ k, (σ k).isLeaving = true → (σ' k).isLeaving = true) {k : ℕ}
    (hk : (σ' k).isLeaving = false) : (σ k).isLeaving = false :=
  Bool.eq_false_of_not_eq_true fun h => nomatch (hσ k h).symm.trans hk

/-- The processes and stages change in what `hosts` does not see. -/
theorem Hosted.congr (h : Hosted external s.hosts s.extra N σ) (hhosts : s'.hosts = s.hosts)
    (hextra : s'.extra = s.extra)
    (hσ : ∀ k, (σ k).isLeaving = true → (σ' k).isLeaving = true) :
    Hosted external s'.hosts s'.extra N σ' := by
  rw [hhosts, hextra]
  exact ⟨h.le, h.nodup, h.above, h.inj, h.owner, h.external,
    fun k hk hl => h.extra k hk (not_leaving hσ hl)⟩

omit [LinearOrder α] in
theorem Announced.congr {hosts : α → Option (ℕ × Bool)} {workers : SortedMap ℕ (WorkerHandle α)}
    {frames frames' : List (SuperFrame α)} (h : Announced hosts workers frames σ)
    (hframes : ∀ k, frames'.filterMap (SuperFrame.started? k) =
      frames.filterMap (SuperFrame.started? k))
    (hσ : ∀ k, (σ k).isLeaving = true → (σ' k).isLeaving = true) :
    Announced hosts workers frames' σ' := by
  have hmem : ∀ k a, .workerStarted k a ∈ frames' ↔ .workerStarted k a ∈ frames := by
    intro k a
    rw [workerStarted_mem_iff, workerStarted_mem_iff, hframes]
  refine ⟨fun k a hk => h.started k a ((hmem k a).1 hk), fun k => ?_, fun k w a hw hr hk => ?_,
    fun k w hw hr hl => h.running k w hw hr (not_leaving hσ hl),
    fun k w a hw hr hk => (hmem k a).2 ?_⟩
  · rw [hframes]
    exact h.once k
  · exact h.fresh k w a hw hr ((hmem k a).1 hk)
  · exact h.notRunning k w a hw hr hk

theorem Recorded.congr (h : s.Recorded) (hran : s'.ran = s.ran) (hjoined : s'.joined = s.joined)
    (htest : s'.test = s.test) (hname : ∀ n ∈ s'.name?, n ∈ s.name?)
    (hsettled : s.settled = true → s'.settled = true) : s'.Recorded := by
  refine ⟨?_, fun n hn => ?_, ?_, by rw [hjoined]; exact h.increasing⟩
  · rw [hran, htest]
    exact h.bound
  · rw [hran, htest]
    exact h.names n (hname n hn)
  · rw [hran, hjoined, htest]
    exact fun c hc => ⟨(h.joined c hc).1, fun heq => hsettled ((h.joined c hc).2.1 heq),
      (h.joined c hc).2.2⟩

/-- The driver goes on to another phase of the same test. -/
theorem Inv.toPhase (h : s.Inv registered N external σ) {t : RunningTest τ} {p : TestPhase}
    (hname : s.name? = some t.name) (hextra : (s.toPhase t p).extra = s.extra)
    (hsettled : s.settled = true → (s.toPhase t p).settled = true)
    (hphase : PhaseInv N s.driver σ (some (t, p))) :
    (s.toPhase t p).Inv registered N external σ := by
  have hsome : s.running.isSome = true := by
    unfold name? at hname
    cases hr : s.running with
    | none => rw [hr] at hname; cases hname
    | some r => rfl
  refine ⟨h.sound, ?_, ?_, ?_, h.announced, ?_, ?_, hphase⟩
  · rw [hextra]; exact h.keys
  · rw [hextra]; exact h.forked
  · rw [hextra]; exact h.hosted
  · refine ⟨h.staged.ready, h.staged.handle, h.staged.connection, h.staged.announced, ?_,
      h.staged.frames, fun _ => h.staged.results hsome⟩
    rw [show (s.toPhase t p).name? = s.name? from hname.symm]
    exact h.staged.process
  · refine h.recorded.congr rfl rfl rfl (fun n hn => ?_) hsettled
    rw [hname]
    exact hn

/-- A test is added to the history. -/
theorem Inv.record (h : s.Inv registered N external σ) (hsettled : s.settled = true)
    {c : Collected τ} (htest : c.test = s.test) (hright : c.Right s.ran)
    (hlast : ∀ d ∈ s.joined, d.test < s.test) :
    Inv registered N external { s with joined := s.joined ++ [c] } σ := by
  refine ⟨h.sound, h.keys, h.forked, h.hosted, h.announced,
    ⟨h.staged.ready, h.staged.handle, h.staged.connection, h.staged.announced, h.staged.process,
      h.staged.frames, h.staged.results⟩,
    ⟨h.recorded.bound, h.recorded.names, fun c' hc' => ?_, ?_⟩, h.phase⟩
  · rcases List.mem_append.1 hc' with hc' | hc'
    · exact h.recorded.joined c' hc'
    · obtain rfl := List.mem_singleton.1 hc'
      exact ⟨htest.le, fun _ => hsettled, hright⟩
  · refine List.pairwise_append.2
      ⟨h.recorded.increasing, List.pairwise_singleton .., fun d hd e he => ?_⟩
    rw [List.mem_singleton.1 he, htest]
    exact hlast d hd

/-- A process moves on, and its worker to another stage. -/
theorem Inv.restage (h : s.Inv registered N external σ) {a : α} {p p' : WorkerProcess τ}
    {st : Stage} (hp : s.processes.find? a = some p)
    (hprocesses : s'.processes = s.processes.set a p') (hid : p'.id = p.id) (hpid : p'.pid = p.pid)
    (hstarted : p'.activity.started = p.activity.started)
    (hst : st.Process registered s.test s.name? p')
    (hhandle : ∀ w, s.driver.allocatedWorkers.find? p.id = some w → st.Handle w)
    (hready : p.id ∉ s.driver.allocatedWorkers.keys → st = .ready)
    (hleaving : (σ p.id).isLeaving = true → st.isLeaving = true) (hdriver : s'.driver = s.driver)
    (htest : s'.test = s.test) (hname : s'.name? = s.name?) (hextra : s'.extra = s.extra)
    (hannounced : ∀ k, s'.superFrames.filterMap (SuperFrame.started? k) =
      s.superFrames.filterMap (SuperFrame.started? k))
    (hframes : ∀ k, s'.superFrames.filterMap (SuperFrame.finished? k) =
      (Function.update σ p.id st k).flying)
    (hresults : s'.running.isSome = true → ∀ k,
      (runsOf s'.ran k s.test).map Ran.result = (Function.update σ p.id st k).results)
    (hrecorded : s'.Recorded)
    (hphase : PhaseInv N s.driver (Function.update σ p.id st) s'.running) :
    s'.Inv registered N external (Function.update σ p.id st) := by
  have hhosts : s'.hosts = s.hosts := hosts_set hp hprocesses hid hstarted
  have hchildren : s'.children = s.children := children_set hp hprocesses hid hpid
  have hσ : ∀ k, (σ k).isLeaving = true → (Function.update σ p.id st k).isLeaving = true := by
    intro k hk
    by_cases hkp : k = p.id
    · subst hkp
      rw [Function.update_self]
      exact hleaving hk
    · rwa [Function.update_of_ne hkp]
  refine ⟨by rw [hdriver]; exact h.sound, ?_, ?_, h.hosted.congr hhosts hextra hσ, ?_,
    ⟨?_, ?_, ?_, ?_, ?_, hframes, by rw [htest]; exact hresults⟩, hrecorded,
    by rw [hdriver]; exact hphase⟩
  · rw [hdriver, hextra]
    exact h.keys
  · rw [hdriver, hextra, hchildren]
    exact h.forked
  · rw [hdriver, hhosts]
    exact h.announced.congr hannounced hσ
  · intro k hk
    rw [hdriver] at hk
    by_cases hkp : k = p.id
    · subst hkp
      rw [Function.update_self]
      exact hready hk
    · rw [Function.update_of_ne hkp]
      exact h.staged.ready k hk
  · intro k w hw
    rw [hdriver] at hw
    by_cases hkp : k = p.id
    · subst hkp
      rw [Function.update_self]
      exact hhandle w hw
    · rw [Function.update_of_ne hkp]
      exact h.staged.handle k w hw
  · intro k w hw
    rw [hdriver] at hw
    rw [hhosts]
    obtain ⟨b, hconn, honly, hhost⟩ := h.staged.connection k w hw
    exact ⟨b, hconn, honly, fun hl => hhost (not_leaving hσ hl)⟩
  · intro k hk b
    rw [hdriver] at hk
    rw [workerStarted_mem_iff, hannounced, ← workerStarted_mem_iff]
    exact h.staged.announced k hk b
  · intro b q hq
    rw [hprocesses] at hq
    rw [htest, hname]
    rcases SortedMap.find?_set_eq_some.1 hq with ⟨-, rfl⟩ | ⟨hb, hq⟩
    · rw [hid, Function.update_self]
      exact hst
    · have hne : q.id ≠ p.id := fun heq => hb (h.hosted.process_eq hq hp heq)
      rw [Function.update_of_ne hne]
      exact h.staged.process b q hq

end Updates

end Cluster

end Dtest
