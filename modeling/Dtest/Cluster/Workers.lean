import Dtest.Cluster.Phases

/-!
# The workers and the super socket keep the invariant
-/

namespace Dtest

variable {α τ : Type}

/-! ## Frames in flight -/

section Frames

variable {β γ : Type} {l : List β} {i : ℕ} {b : β} {f : β → Option γ}

theorem filterMap_eraseIdx_of_none (h : l[i]? = some b) (hb : f b = none) :
    (l.eraseIdx i).filterMap f = l.filterMap f := by
  induction l generalizing i with
  | nil => cases h
  | cons a l ih =>
    cases i with
    | zero =>
      obtain rfl : a = b := Option.some.inj h
      rw [List.eraseIdx_cons_zero, List.filterMap_cons_none hb]
    | succ i =>
      rw [List.eraseIdx_cons_succ, List.filterMap_cons, List.filterMap_cons, ih h]

/-- The only frame with a value is taken out. -/
theorem filterMap_eraseIdx_of_some {c : γ} (h : l[i]? = some b) (hb : f b = some c)
    (hone : (l.filterMap f).length ≤ 1) :
    l.filterMap f = [c] ∧ (l.eraseIdx i).filterMap f = [] := by
  induction l generalizing i with
  | nil => cases h
  | cons a l ih =>
    cases i with
    | zero =>
      obtain rfl : a = b := Option.some.inj h
      rw [List.filterMap_cons_some hb, List.length_cons] at hone
      have hnil : l.filterMap f = [] := List.eq_nil_of_length_eq_zero (by omega)
      rw [List.eraseIdx_cons_zero, List.filterMap_cons_some hb, hnil]
      exact ⟨rfl, rfl⟩
    | succ i =>
      cases ha : f a with
      | none =>
        rw [List.filterMap_cons_none ha] at hone
        rw [List.eraseIdx_cons_succ, List.filterMap_cons_none ha, List.filterMap_cons_none ha]
        exact ih h hone
      | some c' =>
        -- the frame further on would be a second one
        rw [List.filterMap_cons_some ha, List.length_cons] at hone
        have hmem : c ∈ l.filterMap f := List.mem_filterMap.2 ⟨b, List.mem_of_getElem? h, hb⟩
        have hpos := List.length_pos_of_mem hmem
        omega

end Frames

/-- A result in flight is that of a worker at the stage `inFlight`. -/
theorem Stage.flying_eq {st : Stage} {r : Status × String} (h : st.flying = [r]) :
    st = .inFlight r := by
  cases st with
  | inFlight r' => rw [List.singleton_inj.1 h]
  | _ => cases h

theorem Stage.length_flying (st : Stage) : st.flying.length ≤ 1 := by
  cases st <;> exact Nat.le_of_ble_eq_true rfl

variable [LinearOrder α]

namespace Cluster

variable {registered : τ → Bool} {N : ℕ} {external : SortedMap α ℕ} {s s' : Cluster α τ}
  {σ : ℕ → Stage} {t : RunningTest τ}

omit [LinearOrder α] in
/-- The phases only look at the keys of the maps and at the stages of the allocated workers. -/
theorem PhaseInv.congr {c c' : DriverContext α Unit} {p : Option (RunningTest τ × TestPhase)}
    (h : PhaseInv N c σ p) (hawaits : ∃ t phase, p = some (t, phase) ∧
      ((∃ n order, phase = .allocating n order) ∨
        ∃ status before order result, phase = .joining status before order result))
    (hkeys : SameKeys c c') {k : ℕ} {st : Stage} (hallocating : σ k = .ready → st = .ready)
    (hready : σ k ≠ .ready → st ≠ .ready) (hleaving : st.isLeaving = (σ k).isLeaving)
    (hrecorded : ∀ r, σ k = .recorded r → st = .recorded r) :
    PhaseInv N c' (Function.update σ k st) p := by
  have hsize : c'.allocatedWorkers.size = c.allocatedWorkers.size :=
    SortedMap.size_congr hkeys.allocatedWorkers
  have hstage : ∀ j, (σ j ≠ .ready ∧ (σ j).isLeaving = false) →
      Function.update σ k st j ≠ .ready ∧ (Function.update σ k st j).isLeaving = false := by
    intro j hj
    rw [Function.update_apply]
    split_ifs with hjk
    · subst hjk
      exact ⟨hready hj.1, hleaving.trans hj.2⟩
    · exact hj
  obtain ⟨t, phase, rfl, ⟨n, order, rfl⟩ | ⟨status, before, order, result, rfl⟩⟩ := hawaits
  · obtain ⟨hall, hnodup, hmem, hn, hlen, hextra⟩ := h
    refine ⟨fun j => ?_, hnodup, fun j hj => ⟨(hkeys.workers j).2 (hmem j hj).1, fun hj' => ?_⟩, ?_,
      hlen, fun j hj => (hextra j hj).imp_left (hkeys.allocatedWorkers j).2⟩
    · rw [Function.update_apply]
      split_ifs
      · exact hallocating (hall k)
      · exact hall j
    · exact (hmem j hj).2 ((hkeys.allocatedWorkers j).1 hj')
    · rw [hsize, hn]
  · obtain ⟨hfull, hall, horder, sent, hresult, hsent⟩ := h
    refine ⟨⟨hsize.trans hfull.size, fun j hj => (hkeys.allocatedWorkers j).2 (hfull.extra j hj)⟩,
      fun j hj => hstage j (hall j ((hkeys.allocatedWorkers j).1 hj)),
      horder.congr fun j => (hkeys.allocatedWorkers j).symm, sent, hresult, fun j hj => ?_⟩
    rw [Function.update_apply]
    split_ifs with hjk
    · subst hjk
      exact hrecorded _ (hsent j hj)
    · exact hsent j hj

/-! ## The super socket -/

theorem awaits_of_awaitsSuper (h : s.awaitsSuper = true) : ∃ t phase, s.running = some (t, phase) ∧
    ((∃ n order, phase = .allocating n order) ∨
      ∃ status before order result, phase = .joining status before order result) := by
  unfold awaitsSuper at h
  split at h
  next t n k order hrun => exact ⟨t, _, hrun, Or.inl ⟨_, _, rfl⟩⟩
  next t status before k order result hrun => exact ⟨t, _, hrun, Or.inr ⟨_, _, _, _, rfl⟩⟩
  next => cases h

/-- The driver reads a FINISHED_TEST message: it is the one of an allocated worker. -/
theorem Inv.finishedTest (h : s.Inv registered N external σ)
    (hawaits : s.awaitsSuper = true) {i id : ℕ} {status : Status} {detailedReport : String}
    (hi : s.superFrames[i]? = some (.finishedTest id status detailedReport)) :
    Inv registered N external { s with
      driver := (s.driver.waitForSuperEvent (.finishedTest id status detailedReport)).1
      superFrames := s.superFrames.eraseIdx i }
      (Function.update σ id (.recorded (status, detailedReport))) := by
  obtain ⟨hone, hnone⟩ := filterMap_eraseIdx_of_some hi
    (show SuperFrame.finished? id (.finishedTest id status detailedReport : SuperFrame α) =
      some (status, detailedReport) from if_pos rfl)
    (by rw [h.staged.frames]; exact (σ id).length_flying)
  have hstage : σ id = .inFlight (status, detailedReport) :=
    Stage.flying_eq ((h.staged.frames id).symm.trans hone)
  have hid : id ∈ s.driver.allocatedWorkers.keys := by
    by_contra hnot
    cases hstage.symm.trans (h.staged.ready id hnot)
  obtain ⟨w, hw⟩ := SortedMap.mem_keys.1 hid
  have heq : (s.driver.waitForSuperEvent (.finishedTest id status detailedReport)).1 =
      { s.driver with allocatedWorkers :=
          s.driver.allocatedWorkers.set id { w with done := true, status, detailedReport } } := by
    simp only [DriverContext.waitForSuperEvent, hw]
  obtain ⟨hsound, hkeys⟩ := h.sound.waitForSuperEvent (.finishedTest id status detailedReport)
  have hσ : ∀ k, (Function.update σ id (.recorded (status, detailedReport)) k).isLeaving =
      (σ k).isLeaving := by
    intro k
    rw [Function.update_apply]
    split_ifs with hk
    · rw [hk, hstage]
      rfl
    · rfl
  refine ⟨hsound, fun k => (hkeys.workers k).trans (h.keys k), ?_,
    h.hosted.congr rfl rfl fun k hk => (hσ k).trans hk, ?_,
    ⟨fun k hk => ?_, fun k v hv => ?_, fun k v hv => ?_, fun k hk a ha => ?_, fun a p hp => ?_,
      fun k => ?_, fun hsome k => ?_⟩,
    h.recorded.congr rfl rfl rfl (fun _ hn => hn) (fun hs => hs),
    h.phase.congr (awaits_of_awaitsSuper hawaits) hkeys
      (fun hr => by cases hstage.symm.trans hr) (fun _ hr => by cases hr) (by rw [hstage]; rfl)
      (fun r hr => by cases hstage.symm.trans hr)⟩
  · rw [heq]
    refine ⟨h.forked.workers, fun k hk v hv => ?_⟩
    rcases SortedMap.find?_set_eq_some.1 hv with ⟨rfl, rfl⟩ | ⟨-, hv⟩
    · exact h.forked.allocatedWorkers k hk w hw
    · exact h.forked.allocatedWorkers k hk v hv
  · rw [heq]
    exact h.announced.congr (fun k => filterMap_eraseIdx_of_none hi rfl) fun k hk => (hσ k).trans hk
  · rw [hkeys.allocatedWorkers] at hk
    rw [Function.update_of_ne (ne_of_mem_of_not_mem hid hk).symm]
    exact h.staged.ready k hk
  · rw [heq] at hv
    rcases SortedMap.find?_set_eq_some.1 hv with ⟨rfl, rfl⟩ | ⟨hne, hv⟩
    · rw [Function.update_self]
      exact ⟨rfl, rfl⟩
    · rw [Function.update_of_ne hne]
      exact h.staged.handle k v hv
  · rw [heq] at hv
    rcases SortedMap.find?_set_eq_some.1 hv with ⟨rfl, rfl⟩ | ⟨-, hv⟩
    · obtain ⟨a, hconn, honly, hhost⟩ := h.staged.connection k w hw
      exact ⟨a, hconn, honly, fun hl => hhost ((hσ k).symm.trans hl)⟩
    · obtain ⟨a, hconn, honly, hhost⟩ := h.staged.connection k v hv
      exact ⟨a, hconn, honly, fun hl => hhost ((hσ k).symm.trans hl)⟩
  · exact h.staged.announced k ((hkeys.allocatedWorkers k).1 hk) a (List.mem_of_mem_eraseIdx ha)
  · have hprocess := h.staged.process a p hp
    rw [Function.update_apply]
    split_ifs with hp'
    · rw [hp', hstage] at hprocess
      exact hprocess
    · exact hprocess
  · show (s.superFrames.eraseIdx i).filterMap (SuperFrame.finished? k) = _
    by_cases hk : k = id
    · rw [hk, hnone, Function.update_self]
      rfl
    · rw [filterMap_eraseIdx_of_none hi (if_neg (Ne.symm hk)), Function.update_of_ne hk]
      exact h.staged.frames k
  · have hresults := h.staged.results hsome k
    rw [Function.update_apply]
    split_ifs with hk
    · rw [hk, hstage] at hresults
      exact hk ▸ hresults
    · exact hresults

/-- The driver processes a message that is no result. -/
theorem Inv.superFrame (h : s.Inv registered N external σ) (hawaits : s.awaitsSuper = true) {i : ℕ}
    {f : SuperFrame α} (hi : s.superFrames[i]? = some f) (hf : ∀ k, SuperFrame.finished? k f = none)
    (hall : (s.driver.waitForSuperEvent f).1.allocatedWorkers = s.driver.allocatedWorkers)
    (hforked : Forked s.children (s.driver.waitForSuperEvent f).1 s.extra)
    (hannounced : Announced s.hosts (s.driver.waitForSuperEvent f).1.workers
      (s.superFrames.eraseIdx i) σ) :
    Inv registered N external { s with
      driver := (s.driver.waitForSuperEvent f).1, superFrames := s.superFrames.eraseIdx i } σ := by
  obtain ⟨hsound, hkeys⟩ := h.sound.waitForSuperEvent f
  have hphase : PhaseInv N (s.driver.waitForSuperEvent f).1 (Function.update σ 0 (σ 0)) s.running :=
    h.phase.congr (awaits_of_awaitsSuper hawaits) hkeys (fun hr => hr) (fun hr => hr) rfl
      fun _ hr => hr
  rw [Function.update_eq_self] at hphase
  refine ⟨hsound, fun k => (hkeys.workers k).trans (h.keys k), hforked, h.hosted, hannounced,
    ⟨?_, ?_, ?_, fun k hk a ha => ?_, h.staged.process, fun k => ?_, h.staged.results⟩,
    h.recorded.congr rfl rfl rfl (fun _ hn => hn) (fun hs => hs), hphase⟩
  · rw [hall]
    exact h.staged.ready
  · rw [hall]
    exact h.staged.handle
  · rw [hall]
    exact h.staged.connection
  · exact h.staged.announced k ((hkeys.allocatedWorkers k).1 hk) a (List.mem_of_mem_eraseIdx ha)
  · exact (filterMap_eraseIdx_of_none hi (hf k)).trans (h.staged.frames k)

/-- The driver reads a WORKER_STARTED message: the worker is running from now on, if the driver has
a handle for it. -/
theorem Inv.workerStarted (h : s.Inv registered N external σ)
    (hawaits : s.awaitsSuper = true) {i id : ℕ} {addr : α}
    (hi : s.superFrames[i]? = some (.workerStarted id addr)) :
    Inv registered N external { s with
      driver := (s.driver.waitForSuperEvent (.workerStarted id addr)).1
      superFrames := s.superFrames.eraseIdx i } σ := by
  have hmem : .workerStarted id addr ∈ s.superFrames := List.mem_of_getElem? hi
  have hhost := h.announced.started id addr hmem
  obtain ⟨-, hnone⟩ := filterMap_eraseIdx_of_some hi
    (show SuperFrame.started? id (.workerStarted id addr : SuperFrame α) =
      some addr from if_pos rfl)
    (h.announced.once id)
  have hgone : ∀ a, .workerStarted id a ∉ s.superFrames.eraseIdx i := by
    intro a ha
    have hmem := workerStarted_mem_iff.1 ha
    rw [hnone] at hmem
    exact List.not_mem_nil hmem
  have hstay : ∀ k a, k ≠ id → .workerStarted k a ∈ s.superFrames →
      .workerStarted k a ∈ s.superFrames.eraseIdx i := by
    intro k a hk ha
    apply workerStarted_mem_iff.2
    rw [filterMap_eraseIdx_of_none hi (if_neg (Ne.symm hk))]
    exact workerStarted_mem_iff.1 ha
  have hsub : ∀ {f}, f ∈ s.superFrames.eraseIdx i → f ∈ s.superFrames :=
    fun hf => List.mem_of_mem_eraseIdx hf
  have honce : ∀ k, ((s.superFrames.eraseIdx i).filterMap (SuperFrame.started? k)).length ≤ 1 :=
    fun k => (((List.eraseIdx_sublist ..).filterMap _).length_le).trans (h.announced.once k)
  cases hid : s.driver.workers.find? id with
  | none =>
    have heq : (s.driver.waitForSuperEvent (.workerStarted id addr)).1 = s.driver := by
      simp only [DriverContext.waitForSuperEvent, hid]
    refine h.superFrame hawaits hi (fun _ => rfl) (by rw [heq]) (by rw [heq]; exact h.forked) ?_
    rw [heq]
    refine ⟨fun k a hk => h.announced.started k a (hsub hk), honce,
      fun k w a hk hr hf => h.announced.fresh k w a hk hr (hsub hf), h.announced.running,
      fun k w a hk hr ha => hstay k a ?_ (h.announced.notRunning k w a hk hr ha)⟩
    rintro rfl
    cases hid.symm.trans hk
  | some w =>
    have heq : (s.driver.waitForSuperEvent (.workerStarted id addr)).1 =
        { s.driver with
          workers := s.driver.workers.set id { w with addr := some addr, running := true } } := by
      simp only [DriverContext.waitForSuperEvent, hid]
    refine h.superFrame hawaits hi (fun _ => rfl) (by rw [heq])
      (by
        rw [heq]
        refine ⟨fun k hk v hv => ?_, h.forked.allocatedWorkers⟩
        rcases SortedMap.find?_set_eq_some.1 hv with ⟨rfl, rfl⟩ | ⟨-, hv⟩
        · exact h.forked.workers k hk w hid
        · exact h.forked.workers k hk v hv) ?_
    rw [heq]
    refine ⟨fun k a hk => h.announced.started k a (hsub hk), honce, fun k v a hv hr hf => ?_,
      fun k v hv hr hl => ?_, fun k v a hv hr ha => ?_⟩
    · rcases SortedMap.find?_set_eq_some.1 hv with ⟨rfl, -⟩ | ⟨-, hv⟩
      · exact hgone a hf
      · exact h.announced.fresh k v a hv hr (hsub hf)
    · rcases SortedMap.find?_set_eq_some.1 hv with ⟨rfl, rfl⟩ | ⟨-, hv⟩
      · exact ⟨addr, rfl, hhost⟩
      · exact h.announced.running k v hv hr hl
    · rcases SortedMap.find?_set_eq_some.1 hv with ⟨rfl, rfl⟩ | ⟨hne, hv⟩
      · cases hr
      · exact hstay k a hne (h.announced.notRunning k v a hv hr ha)

theorem Inv.superEvent (h : s.Inv registered N external σ) (hawaits : s.awaitsSuper = true) {i : ℕ}
    (hmove : s.superEvent i = some s') : ∃ σ', s'.Inv registered N external σ' := by
  obtain ⟨f, hi, rfl⟩ := superEvent_eq_some hmove
  cases f with
  | workerStarted id addr => exact ⟨σ, h.workerStarted hawaits hi⟩
  | finishedTest id status detailedReport => exact ⟨_, h.finishedTest hawaits hi⟩
  | other id =>
    refine ⟨σ, h.superFrame hawaits hi (fun _ => rfl) rfl h.forked ⟨fun k a hk =>
      h.announced.started k a (List.mem_of_mem_eraseIdx hk), fun k => ?_, fun k w a hk hr hf =>
      h.announced.fresh k w a hk hr (List.mem_of_mem_eraseIdx hf), h.announced.running,
      fun k w a hk hr ha => workerStarted_mem_iff.2 ?_⟩⟩
    · rw [filterMap_eraseIdx_of_none hi rfl]
      exact h.announced.once k
    · rw [filterMap_eraseIdx_of_none hi rfl]
      exact workerStarted_mem_iff.1 (h.announced.notRunning k w a hk hr ha)

/-! ## The workers -/

omit [LinearOrder α] in
/-- A worker outside a test moves on to another activity outside a test. -/
theorem process_quiet {test : ℕ} {name : Option τ} {p : WorkerProcess τ} {st : Stage}
    (h : st.Process registered test name p) {x : Activity τ} (hp : p.activity.quiet = true)
    (hx : x.quiet = true) (hstarted : p.activity.started = true → x.started = true) :
    st.Process registered test name { p with activity := x } := by
  cases st with
  | sent => exact ⟨hx, h.2⟩
  | busy =>
    obtain ⟨-, n, -, hn⟩ := h
    rw [hn] at hp
    cases hp
  | leaving r => exact ⟨hx, hstarted h.2.1, h.2.2⟩
  | _ => exact ⟨hx, h.2⟩

theorem Inv.workerReturns (h : s.Inv registered N external σ) {addr : α}
    (hmove : s.advance addr Activity.return? = some s') :
    s'.Inv registered N external σ := by
  obtain ⟨p, hp, hactivity, rfl⟩ := workerReturns_eq_some hmove
  have hrestage : Inv registered N external { s with
      processes := s.processes.set addr { p with activity := .waiting } }
      (Function.update σ p.id (σ p.id)) := by
    have hself := Function.update_eq_self p.id σ
    refine h.restage hp rfl rfl rfl (by rw [hactivity]; rfl)
      (process_quiet (h.staged.process addr p hp) (by rw [hactivity]; rfl) rfl fun _ => rfl)
      (h.staged.handle p.id) (h.staged.ready p.id) (fun hl => hl) rfl rfl rfl rfl (fun _ => rfl)
      (fun k => ?_) (fun hsome k => ?_)
        (h.recorded.congr rfl rfl rfl (fun _ hn => hn) fun hs => hs) ?_
    · rw [hself]
      exact h.staged.frames k
    · rw [hself]
      exact h.staged.results hsome k
    · rw [hself]
      exact h.phase
  rwa [Function.update_eq_self] at hrestage

/-- The worker `k` at `addr`, so far unknown to the driver, sends its WORKER_STARTED. -/
structure Starts (hosts hosts' : α → Option (ℕ × Bool)) (k : ℕ) (addr : α) : Prop where
  before : hosts addr = some (k, false)
  after : ∀ b, hosts' b = if b = addr then some (k, true) else hosts b

namespace Starts

variable {hosts hosts' : α → Option (ℕ × Bool)} {k j : ℕ} {addr a : α} {x : Bool} {extra : List ℕ}

theorem started (h : Starts hosts hosts' k addr) (ha : hosts a = some (j, true)) :
    hosts' a = some (j, true) := by
  rw [h.after]
  split_ifs with haddr
  · rw [haddr, h.before] at ha
    cases ha
  · exact ha

theorem exists_before (h : Starts hosts hosts' k addr) (ha : hosts' a = some (j, x)) :
    ∃ x, hosts a = some (j, x) := by
  rw [h.after] at ha
  split_ifs at ha with haddr
  · obtain ⟨rfl, -⟩ := Prod.mk.inj (Option.some.inj ha)
    exact ⟨false, haddr ▸ h.before⟩
  · exact ⟨x, ha⟩

theorem exists_after (h : Starts hosts hosts' k addr) (ha : hosts a = some (j, x)) :
    ∃ x, hosts' a = some (j, x) := by
  rw [h.after]
  split_ifs with haddr
  · rw [haddr, h.before] at ha
    obtain ⟨rfl, -⟩ := Prod.mk.inj (Option.some.inj ha)
    exact ⟨true, rfl⟩
  · exact ⟨x, ha⟩

/-- No process of this id is known. -/
theorem unknown (h : Starts hosts hosts' k addr)
    (hhosted : Hosted external hosts extra N σ) (a : α) :
    hosts a ≠ some (k, true) := by
  intro ha
  obtain rfl := hhosted.inj a addr _ _ _ ha h.before
  cases ha.symm.trans h.before

theorem hosted (h : Starts hosts hosts' k addr) (hhosted : Hosted external hosts extra N σ) :
    Hosted external hosts' extra N σ := by
  refine ⟨hhosted.le, hhosted.nodup, hhosted.above, fun a b j x y ha hb => ?_, fun a j x ha => ?_,
    fun a j ha => ?_, fun j hj hl => ?_⟩
  · obtain ⟨x', ha'⟩ := h.exists_before ha
    obtain ⟨y', hb'⟩ := h.exists_before hb
    exact hhosted.inj a b j x' y' ha' hb'
  · obtain ⟨x', ha'⟩ := h.exists_before ha
    exact hhosted.owner a j x' ha'
  · obtain ⟨x, hx⟩ := hhosted.external a j ha
    exact h.exists_after hx
  · obtain ⟨a, x, ha⟩ := hhosted.extra j hj hl
    exact ⟨a, h.exists_after ha⟩

omit [LinearOrder α] in
theorem mem_append_iff {frames : List (SuperFrame α)} :
    .workerStarted j a ∈ frames ++ [.workerStarted k addr] ↔
      .workerStarted j a ∈ frames ∨ j = k ∧ a = addr := by
  rw [List.mem_append, List.mem_singleton, SuperFrame.workerStarted.injEq]

/-- The driver has not heard of the worker before. -/
theorem announced (h : Starts hosts hosts' k addr) (hhosted : Hosted external hosts extra N σ)
    {workers : SortedMap ℕ (WorkerHandle α)} {frames : List (SuperFrame α)}
    (hannounced : Announced hosts workers frames σ) (hstays : (σ k).isLeaving = false) :
    Announced hosts' workers (frames ++ [.workerStarted k addr]) σ := by
  refine ⟨fun j a ha => ?_, fun j => ?_, fun j w a hj hr ha => ?_, fun j w hj hr hl => ?_,
    fun j w a hj hr ha => ?_⟩
  · rcases mem_append_iff.1 ha with ha | ⟨rfl, rfl⟩
    · exact h.started (hannounced.started j a ha)
    · rw [h.after, if_pos rfl]
  · rw [List.filterMap_append, List.length_append]
    by_cases hj : k = j
    · subst hj
      have hnil : frames.filterMap (SuperFrame.started? k) = [] :=
        List.eq_nil_iff_forall_not_mem.2 fun a ha =>
          h.unknown hhosted a (hannounced.started k a (workerStarted_mem_iff.2 ha))
      rw [hnil, List.length_nil, Nat.zero_add]
      exact List.length_filterMap_le ..
    · have hnone : SuperFrame.started? j (.workerStarted k addr : SuperFrame α) = none := if_neg hj
      rw [List.filterMap_cons_none hnone]
      exact hannounced.once j
  · rcases mem_append_iff.1 ha with ha | ⟨rfl, rfl⟩
    · exact hannounced.fresh j w a hj hr ha
    · obtain ⟨b, -, hb⟩ := hannounced.running j w hj hr hstays
      exact h.unknown hhosted b hb
  · obtain ⟨a, haddr, ha⟩ := hannounced.running j w hj hr hl
    exact ⟨a, haddr, h.started ha⟩
  · refine mem_append_iff.2 ?_
    rw [h.after] at ha
    split_ifs at ha with haddr
    · obtain ⟨rfl, -⟩ := Prod.mk.inj (Option.some.inj ha)
      exact Or.inr ⟨rfl, haddr⟩
    · exact Or.inl (hannounced.notRunning j w a hj hr ha)

end Starts

theorem Inv.workerStarts (h : s.Inv registered N external σ) {addr : α}
    (hmove : s.workerStarts addr = some s') :
    s'.Inv registered N external σ := by
  obtain ⟨p, hp, hactivity, rfl⟩ := workerStarts_eq_some hmove
  have hprocess := h.staged.process addr p hp
  have hstarts : Starts s.hosts (Cluster.hosts { s with
      processes := s.processes.set addr { p with activity := .waiting }
      superFrames := s.superFrames ++ [.workerStarted p.id addr] }) p.id addr := by
    refine ⟨by rw [hosts_of_find? hp, hactivity]; rfl, fun b => ?_⟩
    unfold hosts
    dsimp only
    rw [SortedMap.find?_set]
    split_ifs <;> rfl
  have hstays : (σ p.id).isLeaving = false := by
    cases hst : σ p.id with
    | leaving r =>
      rw [hst] at hprocess
      have hstarted := hprocess.2.1
      rw [hactivity] at hstarted
      cases hstarted
    | _ => rfl
  have hforked := h.forked
  have hchildren : Cluster.children { s with
      processes := s.processes.set addr { p with activity := .waiting }
      superFrames := s.superFrames ++ [.workerStarted p.id addr] } = s.children :=
    children_set hp rfl rfl rfl
  rw [← hchildren] at hforked
  refine ⟨h.sound, h.keys, hforked, hstarts.hosted h.hosted,
    hstarts.announced h.hosted h.announced hstays,
    ⟨h.staged.ready, h.staged.handle, fun k w hw => ?_, fun k hk a ha => ?_, fun a q hq => ?_,
      fun k => ?_, h.staged.results⟩,
    h.recorded.congr rfl rfl rfl (fun _ hn => hn) (fun hs => hs), h.phase⟩
  · obtain ⟨a, hconn, honly, ha⟩ := h.staged.connection k w hw
    refine ⟨a, hconn, fun b j x hb => ?_, fun hl => hstarts.started (ha hl)⟩
    obtain ⟨x', hb'⟩ := hstarts.exists_before hb
    exact honly b j x' hb'
  · rcases Starts.mem_append_iff.1 ha with ha | ⟨rfl, rfl⟩
    · exact h.staged.announced k hk a ha
    · obtain ⟨w, hw⟩ := SortedMap.mem_keys.1 hk
      obtain ⟨b, -, -, hb⟩ := h.staged.connection p.id w hw
      exact hstarts.unknown h.hosted b (hb hstays)
  · change (s.processes.set addr _).find? a = some q at hq
    rcases SortedMap.find?_set_eq_some.1 hq with ⟨-, rfl⟩ | ⟨-, hq⟩
    · exact process_quiet hprocess (by rw [hactivity]; rfl) rfl fun _ => rfl
    · exact h.staged.process a q hq
  · rw [List.filterMap_append, List.filterMap_cons_none rfl, List.filterMap_nil, List.append_nil]
    exact h.staged.frames k

omit [LinearOrder α] in
/-- A worker that has its test but is not done goes on to another such stage. -/
theorem PhaseInv.pending {c : DriverContext α Unit} {p : Option (RunningTest τ × TestPhase)}
    (h : PhaseInv N c σ p) {k : ℕ} {st : Stage} (hk : (σ k).pending = true)
    (hst : st.pending = true) :
    PhaseInv N c (Function.update σ k st) p := by
  have hready : σ k ≠ .ready := fun hr => by rw [hr] at hk; cases hk
  have hnotReady : st ≠ .ready := fun hr => by rw [hr] at hst; cases hst
  have hstays : st.isLeaving = false := by cases st <;> first | rfl | cases hst
  have hstage : ∀ j, (σ j ≠ .ready ∧ (σ j).isLeaving = false) →
      Function.update σ k st j ≠ .ready ∧ (Function.update σ k st j).isLeaving = false := by
    intro j hj
    rw [Function.update_apply]
    split_ifs
    · exact ⟨hnotReady, hstays⟩
    · exact hj
  have hleaving : ∀ j, (Function.update σ k st j).isLeaving = true → (σ j).isLeaving = true := by
    intro j hj
    rw [Function.update_apply] at hj
    split_ifs at hj
    · rw [hstays] at hj
      cases hj
    · exact hj
  have hdone : ∀ {j r}, σ j = .recorded r ∨ σ j = .leaving r → j ≠ k := by
    rintro j r hj rfl
    rcases hj with hj | hj <;> rw [hj] at hk <;> cases hk
  cases p with
  | none => exact h
  | some p =>
    obtain ⟨t, phase⟩ := p
    cases phase with
    | spawning => exact h
    | allocating n order => exact absurd (h.1 k) hready
    | sending order =>
      obtain ⟨hfull, hnodup, hmem, hall⟩ := h
      refine ⟨hfull, hnodup, hmem, fun j hj => ?_⟩
      rw [Function.update_apply]
      split_ifs with hjk
      · subst hjk
        exact ⟨⟨fun hr => absurd hr hnotReady, fun hj' => absurd ((hall j hj).1.2 hj') hready⟩,
          hstays⟩
      · exact hall j hj
    | body => exact ⟨h.1, fun j hj => hstage j (h.2 j hj)⟩
    | joining status before order result =>
      obtain ⟨hfull, hall, horder, sent, hresult, hsent⟩ := h
      refine ⟨hfull, fun j hj => hstage j (hall j hj), horder, sent, hresult, fun j hj => ?_⟩
      rw [Function.update_of_ne (hdone (Or.inl (hsent j hj)))]
      exact hsent j hj
    | terminating ids =>
      obtain ⟨hmem, hleft, hall⟩ := h
      refine ⟨hmem, fun j hj => hleft j (hleaving j hj), fun j hj => ?_⟩
      obtain ⟨r, hr⟩ := hall j hj
      rw [Function.update_of_ne (hdone hr)]
      exact ⟨r, hr⟩
    | awaiting k₀ ids =>
      obtain ⟨hmem, hleft, hk₀, hall⟩ := h
      refine ⟨hmem, fun j hj => hleft j (hleaving j hj), ?_, fun j hj => ?_⟩
      · obtain ⟨r, hr⟩ := hall k₀ (hmem k₀ (List.mem_cons_self ..))
        rw [Function.update_of_ne (hdone hr)]
        exact hk₀
      · obtain ⟨r, hr⟩ := hall j hj
        rw [Function.update_of_ne (hdone hr)]
        exact ⟨r, hr⟩

/-- No result is missing where the results are collected. -/
theorem Inv.not_pending (h : s.Inv registered N external σ) (hsettled : s.settled = true) (k : ℕ) :
    (σ k).pending = false := by
  by_cases hk : k ∈ s.driver.allocatedWorkers.keys
  · have hphase := h.phase
    have hdone : (∃ r, σ k = .recorded r ∨ σ k = .leaving r) → (σ k).pending = false := by
      rintro ⟨r, hr | hr⟩ <;> rw [hr] <;> rfl
    unfold settled at hsettled
    split at hsettled
    next hrun =>
      rw [hrun] at hphase
      rw [show s.driver.allocatedWorkers = .empty from hphase, SortedMap.keys_empty] at hk
      exact absurd hk List.not_mem_nil
    next hrun =>
      rw [hrun] at hphase
      exact hdone (hphase.2.2 k hk)
    next hrun =>
      rw [hrun] at hphase
      exact hdone (hphase.2.2.2 k hk)
    next => cases hsettled
  · rw [h.staged.ready k hk]
    rfl

/-- A worker that is told to exit was spawned. -/
theorem Inv.lt_of_leaving (h : s.Inv registered N external σ) {k : ℕ}
    (hk : (σ k).isLeaving = true) : N < k := by
  have hmem : k ∈ s.driver.allocatedWorkers.keys := by
    by_contra hnot
    rw [h.staged.ready k hnot] at hk
    cases hk
  have hphase := h.phase
  cases hrun : s.running with
  | none =>
    rw [hrun] at hphase
    rw [h.staged.all_ready hphase] at hk
    cases hk
  | some p =>
    obtain ⟨t, phase⟩ := p
    rw [hrun] at hphase
    cases phase with
    | spawning =>
      rw [h.staged.all_ready hphase.allocatedWorkers] at hk
      cases hk
    | allocating n order =>
      rw [hphase.1] at hk
      cases hk
    | sending order => cases hk.symm.trans (hphase.2.2.2 k hmem).2
    | body => cases hk.symm.trans (hphase.2 k hmem).2
    | joining status before order result => cases hk.symm.trans (hphase.2.1 k hmem).2
    | terminating ids => exact (hphase.2.1 k hk).1
    | awaiting k₀ ids => exact (hphase.2.1 k hk).1

theorem runsOf_append (ran : List (Ran τ)) (e : Ran τ) (k test : ℕ) :
    runsOf (ran ++ [e]) k test =
      runsOf ran k test ++ if e.worker = k ∧ e.test = test then [e] else [] := by
  unfold runsOf
  rw [List.filter_append, List.filter_cons, List.filter_nil]
  simp only [decide_eq_true_eq]

/-- A run of another test does not change what has been collected. -/
theorem right_append {ran : List (Ran τ)} {c : Collected τ} (h : c.Right ran) {e : Ran τ}
    (he : e.test ≠ c.test) : c.Right (ran ++ [e]) := by
  have hsame : ∀ k, runsOf (ran ++ [e]) k c.test = runsOf ran k c.test := by
    intro k
    rw [runsOf_append, if_neg fun hk => he hk.2, List.append_nil]
  obtain ⟨sent, hresult, hsent⟩ := h.result
  exact ⟨h.nodup, h.length, ⟨sent, hresult, fun k hk => (hsame k).trans (hsent k hk)⟩,
    fun k hk => (hsame k).trans (h.others k hk)⟩

/-- A worker whose test ends is one that the driver waits for. -/
theorem Inv.busy (h : s.Inv registered N external σ) {addr : α} {p : WorkerProcess τ}
    {test : ℕ} {name : τ} (hp : s.processes.find? addr = some p)
    (hactivity : p.activity = .inTest test name) :
    σ p.id = .busy ∧ p.unread = [] ∧ test = s.test ∧ name ∈ s.name? := by
  have hprocess := h.staged.process addr p hp
  cases hst : σ p.id with
  | busy =>
    rw [hst] at hprocess
    obtain ⟨hunread, n, hn, heq⟩ := hprocess
    rw [hactivity] at heq
    obtain ⟨rfl, rfl⟩ := Activity.inTest.inj heq
    exact ⟨rfl, hunread, rfl, hn⟩
  | _ =>
    rw [hst] at hprocess
    have hquiet := hprocess.1
    rw [hactivity] at hquiet
    cases hquiet

theorem Inv.workerFinishes (h : s.Inv registered N external σ) {addr : α} {status : Status}
    {detailedReport : String} (hmove : s.workerFinishes addr status detailedReport = some s') :
    ∃ σ', s'.Inv registered N external σ' := by
  obtain ⟨p, test, name, hp, hactivity, rfl⟩ := workerFinishes_eq_some hmove
  obtain ⟨hbusy, hunread, rfl, hname⟩ := h.busy hp hactivity
  have hpending : (σ p.id).pending = true := by rw [hbusy]; rfl
  have hnotSettled : s.settled ≠ true := fun hs => by
    cases hpending.symm.trans (h.not_pending hs p.id)
  have hall : p.id ∈ s.driver.allocatedWorkers.keys := by
    by_contra hnot
    cases hbusy.symm.trans (h.staged.ready p.id hnot)
  refine ⟨Function.update σ p.id (.inFlight (status, detailedReport)), h.restage hp rfl rfl rfl
    (by rw [hactivity]; rfl) ⟨rfl, hunread⟩ (fun w hw => ?_) (fun hnot => absurd hall hnot)
    (fun hl => by rw [hbusy] at hl; cases hl) rfl rfl rfl rfl (fun k => ?_) (fun k => ?_)
    (fun hsome k => ?_)
    ⟨fun e he => ?_, fun n hn e he htest => ?_, fun c hc => ?_, h.recorded.increasing⟩
    (h.phase.pending hpending rfl)⟩
  · have hhandle := h.staged.handle p.id w hw
    rw [hbusy] at hhandle
    exact hhandle
  · rw [List.filterMap_append, List.filterMap_cons_none rfl, List.filterMap_nil, List.append_nil]
  · rw [List.filterMap_append, h.staged.frames, Function.update_apply]
    split_ifs with hk
    · have hsome : SuperFrame.finished? k
          (.finishedTest p.id status detailedReport : SuperFrame α) =
            some (status, detailedReport) :=
        if_pos hk.symm
      rw [List.filterMap_cons_some hsome, hk, hbusy]
      rfl
    · have hnone : SuperFrame.finished? k
          (.finishedTest p.id status detailedReport : SuperFrame α) = none := if_neg (Ne.symm hk)
      rw [List.filterMap_cons_none hnone, List.filterMap_nil, List.append_nil]
  · have hresults := h.staged.results hsome k
    rw [runsOf_append, List.map_append, hresults, Function.update_apply]
    split_ifs with hrun hk hk
    · rw [hk, hbusy]
      rfl
    · exact absurd hrun.1.symm hk
    · exact absurd ⟨hk.symm, rfl⟩ hrun
    · exact List.append_nil _
  · rcases List.mem_append.1 he with he | he
    · exact h.recorded.bound e he
    · rw [List.mem_singleton.1 he]
  · rcases List.mem_append.1 he with he | he
    · exact h.recorded.names n hn e he htest
    · rw [List.mem_singleton.1 he]
      exact Option.some.inj ((Option.mem_def.1 hname).symm.trans hn)
  · obtain ⟨hle, hsettled, hright⟩ := h.recorded.joined c hc
    exact ⟨hle, fun heq => absurd (hsettled heq) hnotSettled,
      right_append hright fun heq => hnotSettled (hsettled heq.symm)⟩

/-- What a worker can have unread is its RUN_TEST or its TERMINATE. -/
theorem Inv.unread (h : s.Inv registered N external σ) {addr : α} {p : WorkerProcess τ}
    {m : ℕ × Command τ} {i : ℕ} (hp : s.processes.find? addr = some p)
    (hm : p.unread[i]? = some m) :
    p.activity.quiet = true ∧ p.unread.eraseIdx i = [] ∧
      (σ p.id = .sent ∧ (∃ n ∈ s.name?, m = (s.test, .runTest n)) ∨
        (∃ r, σ p.id = .leaving r) ∧ p.activity.started = true ∧ m = (s.test, .terminate)) := by
  have hprocess := h.staged.process addr p hp
  have hsingle : ∀ {m'}, p.unread = [m'] → m = m' ∧ p.unread.eraseIdx i = [] := by
    intro m' heq
    rw [heq] at hm ⊢
    cases i with
    | zero => exact ⟨(Option.some.inj hm).symm, rfl⟩
    | succ i => cases hm
  have hnil : p.unread ≠ [] := by
    intro heq
    rw [heq] at hm
    cases hm
  cases hst : σ p.id with
  | sent =>
    rw [hst] at hprocess
    obtain ⟨hquiet, n, hn, hunread⟩ := hprocess
    obtain ⟨rfl, herase⟩ := hsingle hunread
    exact ⟨hquiet, herase, Or.inl ⟨rfl, n, hn, rfl⟩⟩
  | leaving r =>
    rw [hst] at hprocess
    obtain ⟨hquiet, hstarted, hunread⟩ := hprocess
    obtain ⟨rfl, herase⟩ := hsingle hunread
    exact ⟨hquiet, herase, Or.inr ⟨⟨r, rfl⟩, hstarted, rfl⟩⟩
  | busy =>
    rw [hst] at hprocess
    exact absurd hprocess.1 hnil
  | ignored =>
    rw [hst] at hprocess
    exact absurd hprocess.2.1 hnil
  | _ =>
    rw [hst] at hprocess
    exact absurd hprocess.2 hnil

/-- A worker that is told to exit exits. -/
theorem Inv.exit (h : s.Inv registered N external σ) {addr : α} {p : WorkerProcess τ}
    (hp : s.processes.find? addr = some p) (hleaving : (σ p.id).isLeaving = true) :
    Inv registered N external { s with processes := s.processes.erase addr } σ := by
  have hhosts : ∀ b, Cluster.hosts { s with processes := s.processes.erase addr } b =
      if b = addr then none else s.hosts b := by
    intro b
    unfold hosts
    dsimp only
    rw [SortedMap.find?_erase]
    split_ifs <;> rfl
  have hback : ∀ {b k x},
      Cluster.hosts { s with processes := s.processes.erase addr } b = some (k, x) →
        s.hosts b = some (k, x) := by
    intro b k x hb
    rw [hhosts] at hb
    split_ifs at hb
    exact hb
  -- the other workers are elsewhere
  have hstay : ∀ {b k x}, s.hosts b = some (k, x) → k ≠ p.id →
      Cluster.hosts { s with processes := s.processes.erase addr } b = some (k, x) := by
    intro b k x hb hk
    rw [hhosts, if_neg]
    · exact hb
    · rintro rfl
      rw [hosts_of_find? hp] at hb
      exact hk (Prod.mk.inj (Option.some.inj hb)).1.symm
  have hne : ∀ {k}, (σ k).isLeaving = false → k ≠ p.id := by
    rintro k hk rfl
    cases hk.symm.trans hleaving
  have hall : p.id ∈ s.driver.allocatedWorkers.keys := by
    by_contra hnot
    rw [h.staged.ready p.id hnot] at hleaving
    cases hleaving
  have hforked : Forked (Cluster.children { s with processes := s.processes.erase addr }) s.driver
      s.extra := by
    refine h.forked.mono fun a e ha => ?_
    unfold children at ha
    dsimp only at ha
    rw [SortedMap.find?_erase] at ha
    split_ifs at ha
    · cases ha
    · exact ha
  refine ⟨h.sound, h.keys, hforked, ⟨h.hosted.le, h.hosted.nodup, h.hosted.above,
      fun a b k x y ha hb => h.hosted.inj a b k x y (hback ha) (hback hb),
      fun a k x ha => h.hosted.owner a k x (hback ha), fun a k ha => ?_, fun k hk hl => ?_⟩,
    ⟨fun k a ha => ?_, h.announced.once, h.announced.fresh, fun k w hk hr hl => ?_,
      fun k w a hk hr ha => h.announced.notRunning k w a hk hr (hback ha)⟩,
    ⟨h.staged.ready, h.staged.handle, fun k w hw => ?_, h.staged.announced, fun a q hq => ?_,
      h.staged.frames, h.staged.results⟩,
    h.recorded.congr rfl rfl rfl (fun _ hn => hn) (fun hs => hs), h.phase⟩
  · obtain ⟨x, hx⟩ := h.hosted.external a k ha
    have hle := h.hosted.le a k ha
    have hlt := h.lt_of_leaving hleaving
    exact ⟨x, hstay hx (by omega)⟩
  · obtain ⟨a, x, ha⟩ := h.hosted.extra k hk hl
    exact ⟨a, x, hstay ha (hne hl)⟩
  · refine hstay (h.announced.started k a ha) ?_
    rintro rfl
    exact h.staged.announced p.id hall a ha
  · obtain ⟨a, haddr, ha⟩ := h.announced.running k w hk hr hl
    exact ⟨a, haddr, hstay ha (hne hl)⟩
  · obtain ⟨a, hconn, honly, ha⟩ := h.staged.connection k w hw
    exact ⟨a, hconn, fun b j x hb => honly b j x (hback hb), fun hl => hstay (ha hl) (hne hl)⟩
  · change (s.processes.erase addr).find? a = some q at hq
    rw [SortedMap.find?_erase] at hq
    split_ifs at hq
    exact h.staged.process a q hq

theorem Inv.workerReads (h : s.Inv registered N external σ) {addr : α} {i : ℕ}
    (hmove : s.workerReads registered addr i = some s') :
    ∃ σ', s'.Inv registered N external σ' := by
  obtain ⟨p, m, hp, hm, hreads, rfl⟩ := workerReads_eq_some hmove
  obtain ⟨hquiet, herase, hstage⟩ := h.unread hp hm
  rw [herase]
  rcases hstage with ⟨hsent, n, hn, rfl⟩ | ⟨⟨r, hr⟩, hstarted, rfl⟩
  · have hwaiting : p.activity = .waiting := by
      cases hactivity : p.activity with
      | waiting => rfl
      | starting => rw [hactivity] at hreads; cases hreads
      | reported => rw [hactivity] at hreads; cases hreads
      | inTest test name => rw [hactivity] at hquiet; cases hquiet
    have hall : p.id ∈ s.driver.allocatedWorkers.keys := by
      by_contra hnot
      cases hsent.symm.trans (h.staged.ready p.id hnot)
    have hpending : (σ p.id).pending = true := by rw [hsent]; rfl
    -- both stages leave the driver's side as it is
    have hframes : ∀ st : Stage, st.flying = [] → ∀ k,
        s.superFrames.filterMap (SuperFrame.finished? k) =
          (Function.update σ p.id st k).flying := by
      intro st hst k
      rw [h.staged.frames, Function.update_apply]
      split_ifs with hk
      · rw [hst, hk, hsent]
        rfl
      · rfl
    have hresults : ∀ st : Stage, st.results = [] → s.running.isSome = true → ∀ k,
        (runsOf s.ran k s.test).map Ran.result = (Function.update σ p.id st k).results := by
      intro st hst hsome k
      rw [h.staged.results hsome, Function.update_apply]
      split_ifs with hk
      · rw [hst, hk, hsent]
        rfl
      · rfl
    have hhandle : ∀ w, s.driver.allocatedWorkers.find? p.id = some w → w.done = false := by
      intro w hw
      have hhandle := h.staged.handle p.id w hw
      rw [hsent] at hhandle
      exact hhandle
    simp only [WorkerProcess.waitForEvent, hwaiting]
    cases hreg : registered n with
    | true =>
      exact ⟨Function.update σ p.id .busy, h.restage hp rfl rfl rfl (by rw [hwaiting]; rfl)
        ⟨rfl, n, hn, rfl⟩ hhandle (fun hnot => absurd hall hnot)
        (fun hl => by rw [hsent] at hl; cases hl) rfl rfl rfl rfl (fun _ => rfl) (hframes _ rfl)
        (hresults _ rfl) (h.recorded.congr rfl rfl rfl (fun _ hn => hn) fun hs => hs)
        (h.phase.pending hpending rfl)⟩
    | false =>
      exact ⟨Function.update σ p.id .ignored, h.restage hp rfl rfl rfl (by rw [hwaiting]; rfl)
        ⟨rfl, rfl, n, hn, hreg⟩ hhandle (fun hnot => absurd hall hnot)
        (fun hl => by rw [hsent] at hl; cases hl) rfl rfl rfl rfl (fun _ => rfl) (hframes _ rfl)
        (hresults _ rfl) (h.recorded.congr rfl rfl rfl (fun _ hn => hn) fun hs => hs)
        (h.phase.pending hpending rfl)⟩
  · exact ⟨σ, h.exit hp (by rw [hr]; rfl)⟩

end Cluster

end Dtest
