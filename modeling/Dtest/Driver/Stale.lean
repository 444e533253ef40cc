import Dtest.Driver.Wait

/-!
# Messages of workers that are not allocated

A message on the socket of the tests may be left over from a worker of an earlier test.
`_waitForEvent` looks the sender of a NOTIFY up and returns `-1u` for an unknown one; for every
other operation code it returns the id it has read, and `wait` dereferences what it finds under it.
`wait_alive_iff` says when a `wait` gets away with that: when it has counted enough workers before
it would read such a message.
-/

namespace Dtest

universe u v

variable {α : Type u} {μ : Type v}

namespace DriverContext

/-- A message that is no NOTIFY and carries an id that is neither allocated nor `-1u`. -/
def Stale (c : DriverContext α μ) (f : Frame μ) : Prop :=
  f.isNotify f.id = false ∧ f.id ∉ c.allocatedWorkers.keys ∧ f.id ≠ noWorker

instance (c : DriverContext α μ) (f : Frame μ) : Decidable (c.Stale f) :=
  inferInstanceAs (Decidable (_ ∧ _ ∧ _))

/-- The notifications of a worker that are banked. -/
def banked (c : DriverContext α μ) (k : ℕ) : ℕ :=
  ((c.allocatedWorkers.find? k).map (·.notifyCount)).getD 0

/-- The allocated workers with a notification banked or among the messages. -/
def notified (c : DriverContext α μ) (frames : List (Frame μ)) : Finset ℕ :=
  c.allocatedWorkers.keys.toFinset.filter fun k => 0 < c.banked k + notifiesFrom k frames

/-- Before a stale message is read, `n` workers have a notification. -/
def EnoughBeforeStale (c : DriverContext α μ) (n : ℕ) (frames : List (Frame μ)) : Prop :=
  ∀ before f, before ++ [f] <+: frames → c.Stale f → n ≤ (c.notified before).card

variable {c : DriverContext α μ} {n : ℕ} {frames : List (Frame μ)}

theorem enoughBeforeStale_nil : c.EnoughBeforeStale n [] := by
  intro before f h
  exact absurd (List.prefix_nil.1 h) (by simp)

theorem enoughBeforeStale_append {f : Frame μ} : c.EnoughBeforeStale n (frames ++ [f]) ↔
    c.EnoughBeforeStale n frames ∧ (c.Stale f → n ≤ (c.notified frames).card) := by
  constructor
  · intro h
    refine ⟨fun before g hg => h before g (hg.trans (List.prefix_append _ _)), h frames f ?_⟩
    exact List.prefix_rfl
  · rintro ⟨h, hf⟩ before g hg hstale
    rcases List.prefix_concat_iff.1 hg with heq | hg
    · obtain ⟨rfl, hfg⟩ := List.append_inj' heq rfl
      obtain rfl := List.singleton_inj.1 hfg
      exact hf hstale
    · exact h before g hg hstale

theorem mem_notified {k : ℕ} : k ∈ c.notified frames ↔
    k ∈ c.allocatedWorkers.keys ∧ 0 < c.banked k + notifiesFrom k frames := by
  unfold notified
  rw [Finset.mem_filter, List.mem_toFinset]

/-- A message counts if it is a NOTIFY of an allocated worker. -/
theorem notified_append (f : Frame μ) : c.notified (frames ++ [f]) =
    if f.isNotify f.id ∧ f.id ∈ c.allocatedWorkers.keys then insert f.id (c.notified frames)
    else c.notified frames := by
  have hid : ∀ k, f.isNotify k = true ↔ f.isNotify f.id = true ∧ k = f.id := by
    intro k
    cases f <;> simp [Frame.isNotify, Frame.id, eq_comm]
  ext k
  rw [mem_notified, notifiesFrom_append]
  split_ifs with h1 h2 h2
  · obtain rfl := ((hid k).1 h1).2
    simp only [h2.2, Finset.mem_insert_self, true_and, iff_true]
    omega
  · obtain ⟨h3, rfl⟩ := (hid k).1 h1
    have hk : f.id ∉ c.allocatedWorkers.keys := fun hk => h2 ⟨h3, hk⟩
    simp only [mem_notified, hk, false_and]
  · rw [Finset.mem_insert, mem_notified]
    have hne : k ≠ f.id := fun hk => h1 ((hid k).2 ⟨h2.1, hk⟩)
    simp only [hne, false_or, Nat.add_zero]
  · rw [mem_notified, Nat.add_zero]

theorem notified_subset (f : Frame μ) : c.notified frames ⊆ c.notified (frames ++ [f]) := by
  rw [notified_append]
  split_ifs
  exacts [Finset.subset_insert _ _, Finset.Subset.refl _]

/-- A message of an unknown worker leaves the handles as they are; its id is returned, unless it is
a NOTIFY. -/
theorem waitForEvent_of_notMem (c : DriverContext α μ) {f : Frame μ}
    (h : f.id ∉ c.allocatedWorkers.keys) :
    (c.waitForEvent f).1.allocatedWorkers = c.allocatedWorkers ∧
      (c.waitForEvent f).2 = if f.isNotify f.id then noWorker else f.id := by
  cases f with
  | notify id =>
    have hnone : c.allocatedWorkers.find? id = none := SortedMap.find?_eq_none_of_notMem h
    simp [waitForEvent, hnone, Frame.id]
  | userMessage id m => exact ⟨rfl, rfl⟩
  | other id => exact ⟨rfl, rfl⟩

end DriverContext

/-! ## One wait -/

namespace WaitRun

variable {c : DriverContext α μ} {s : WaitRun α μ} {n : ℕ} {frames : List (Frame μ)}

/-- A wait that goes on has counted the workers with a notification, and nothing is banked for the
others. -/
structure Counting (c : DriverContext α μ) (frames : List (Frame μ)) (s : WaitRun α μ)
    (pulled : Finset ℕ) : Prop where
  id_eq : ∀ k w, s.ctx.allocatedWorkers.find? k = some w → w.id = k
  keys : ∀ k, k ∈ s.ctx.allocatedWorkers.keys ↔ k ∈ c.allocatedWorkers.keys
  pulled_eq : pulled = c.notified frames
  zero : ∀ k w, s.ctx.allocatedWorkers.find? k = some w → k ∉ pulled → w.notifyCount = 0

/-- What a call of `wait` has come to when the given messages have been read. -/
def Outcome (c : DriverContext α μ) (n : ℕ) (frames : List (Frame μ)) (s : WaitRun α μ) : Prop :=
  match s.call with
  | .waiting n' pulled _ => n' = n ∧ pulled.card < n ∧ s.Counting c frames pulled ∧
      c.EnoughBeforeStale n frames
  | .idle => n ≤ (c.notified frames).card ∧ c.EnoughBeforeStale n frames
  | .crashed => ¬ c.EnoughBeforeStale n frames
  | .getting => False

theorem Outcome.alive_iff (h : Outcome c n frames s) :
    s.call ≠ .crashed ↔ c.EnoughBeforeStale n frames := by
  unfold Outcome at h
  cases hcall : s.call with
  | getting => simp [hcall] at h
  | crashed =>
    simp only [hcall] at h
    simp [h]
  | idle =>
    simp only [hcall] at h
    simp [h.2]
  | waiting n' pulled start =>
    simp only [hcall] at h
    simp [h.2.2.2]

/-- The condition of the loop is tested. -/
theorem outcome_testPulled {start : ℕ} {ctx : DriverContext α μ} {pulled : Finset ℕ}
    (hid : ∀ k w, ctx.allocatedWorkers.find? k = some w → w.id = k)
    (hkeys : ∀ k, k ∈ ctx.allocatedWorkers.keys ↔ k ∈ c.allocatedWorkers.keys)
    (hsub : pulled ⊆ c.notified frames) (hcard : pulled.card ≤ n)
    (hrest : pulled.card = n ∨ pulled = c.notified frames ∧
      ∀ k w, ctx.allocatedWorkers.find? k = some w → k ∉ pulled → w.notifyCount = 0)
    (henough : c.EnoughBeforeStale n frames) :
    Outcome c n frames (s.testPulled n start (ctx, pulled)) := by
  unfold testPulled
  by_cases h : pulled.card = n
  · rw [if_pos h]
    exact ⟨h ▸ Finset.card_le_card hsub, henough⟩
  · rw [if_neg h]
    obtain ⟨hpulled, hzero⟩ := hrest.resolve_left h
    exact ⟨rfl, lt_of_le_of_ne hcard h, ⟨hid, hkeys, hpulled, hzero⟩, henough⟩

theorem outcome_wait (hid : ∀ k w, c.allocatedWorkers.find? k = some w → w.id = k) {order : List ℕ}
    (horder : c.allocatedWorkers.Iterates order) (n : ℕ) :
    Outcome c (c.waitCount n) [] (step { ctx := c } (.wait n order)) := by
  obtain ⟨P, hP⟩ := DriverContext.firstPass_spec (c.waitCount n) order c ∅ hid horder.1
    (fun k _ => Finset.notMem_empty k) (Nat.zero_le _)
  have hpulled := hP.pulled_eq
  have hcard := hP.card_le
  have hrest := hP.rest
  rw [Finset.empty_union] at hpulled hcard hrest
  have hsub : P ⊆ c.notified [] := by
    intro k hk
    obtain ⟨w, hw, hpos⟩ := hP.pulls.pos k hk
    rw [DriverContext.mem_notified]
    refine ⟨SortedMap.mem_keys_of_find? hw, ?_⟩
    unfold DriverContext.banked
    rw [hw]
    exact Nat.add_pos_left hpos _
  show Outcome c _ [] (testPulled _ _ _ (c.firstPass (c.waitCount n) order ∅))
  rw [← Prod.mk.eta (p := c.firstPass (c.waitCount n) order ∅), hpulled]
  apply outcome_testPulled (hP.pulls.id_eq hid) hP.pulls.mem_keys hsub hcard
  · apply hrest.imp_right
    intro hzero
    refine ⟨hsub.antisymm fun k hk => ?_, fun k w hw hk => ?_⟩
    · obtain ⟨hkey, hpos⟩ := DriverContext.mem_notified.1 hk
      obtain ⟨w, hw⟩ := SortedMap.mem_keys.1 hkey
      unfold DriverContext.banked at hpos
      rw [hw] at hpos
      by_contra hnot
      exact absurd (hzero k (horder.mem_iff.2 hkey) hnot w hw) (Nat.pos_iff_ne_zero.1 hpos)
    · rw [hP.pulls.find?_of_notMem hk] at hw
      exact hzero k (horder.mem_iff.2 (SortedMap.mem_keys_of_find? hw)) hk w hw
  · exact DriverContext.enoughBeforeStale_nil

/-- What the loop adds to `pulled` after a message of an allocated worker is what the message adds
to the notified workers. -/
theorem Counting.pulled_union {pulled P : Finset ℕ} {f : Frame μ} {ctx : DriverContext α μ}
    (h : s.Counting c frames pulled) (hmem : f.id ∈ c.allocatedWorkers.keys)
    (hP : s.ctx.PulledAfter f pulled ctx P) : pulled ∪ P = c.notified (frames ++ [f]) := by
  obtain ⟨v, hv⟩ := SortedMap.mem_keys.1 ((h.keys _).2 hmem)
  have hfind := s.ctx.find?_waitForEvent_self f
  rw [hv, Option.map_some] at hfind
  rw [DriverContext.notified_append, ← h.pulled_eq]
  by_cases hnotify : f.isNotify f.id = true
  · rw [if_pos ⟨hnotify, hmem⟩]
    rw [if_pos hnotify] at hfind
    have hin : f.id ∈ pulled ∪ P := by
      -- otherwise its notification would still be banked
      by_contra hnot
      have hprev := h.zero _ v hv fun hp => hnot (Finset.mem_union_left _ hp)
      have hfind' := hP.pulls.find?_of_notMem fun hp => hnot (Finset.mem_union_right _ hp)
      have hcount : (v.notifyCount + 1) % 2 ^ 32 = 0 := hP.zero _ _ (hfind'.trans hfind) hnot
      omega
    apply Finset.Subset.antisymm
    · exact Finset.union_subset (Finset.subset_insert _ _) fun k hk => by
        rw [hP.eq_id k hk]
        exact Finset.mem_insert_self _ _
    · exact Finset.insert_subset hin Finset.subset_union_left
  · rw [if_neg fun h => hnotify h.1]
    rw [if_neg hnotify] at hfind
    suffices hempty : P = ∅ by rw [hempty, Finset.union_empty]
    apply Finset.eq_empty_of_forall_notMem
    intro k hk
    obtain ⟨w, hw, hpos⟩ := hP.pulls.pos k hk
    have hnot : k ∉ pulled := Finset.disjoint_right.1 hP.disjoint hk
    obtain rfl : k = f.id := hP.eq_id k hk
    obtain rfl : v = w := Option.some.inj (hfind.symm.trans hw)
    rw [h.zero _ v hv hnot] at hpos
    exact absurd hpos (Nat.lt_irrefl 0)

/-- A wait goes on after a message of an allocated worker: the id of the sender is returned, and the
worker is counted if it can be. -/
theorem Counting.known {pulled : Finset ℕ} (h : s.Counting c frames pulled)
    (hlt : ∀ k ∈ c.allocatedWorkers.keys, k < noWorker) (hcard : pulled.card < n)
    (henough : c.EnoughBeforeStale n frames) {f : Frame μ} (hmem : f.id ∈ c.allocatedWorkers.keys)
    {start : ℕ} (hcall : s.call = .waiting n pulled start) :
    Outcome c n (frames ++ [f]) (step s (.frame f)) := by
  obtain ⟨ctx', P, hpull, hP⟩ := DriverContext.exists_pulledAfter h.id_eq ((h.keys _).2 hmem)
    (hlt _ hmem).ne h.zero
  have hpulled := h.pulled_union hmem hP
  have hkeys : ∀ k, k ∈ ctx'.allocatedWorkers.keys ↔ k ∈ c.allocatedWorkers.keys := fun k =>
    (hP.pulls.mem_keys k).trans ((s.ctx.mem_keys_waitForEvent f k).trans (h.keys k))
  show Outcome c n _ (resume _ _)
  simp only [resume, hcall, hpull]
  apply outcome_testPulled (hP.pulls.id_eq (DriverContext.id_eq_waitForEvent h.id_eq f)) hkeys
    hpulled.subset (hP.card_le hcard) (Or.inr ⟨hpulled, hP.zero⟩)
  exact DriverContext.enoughBeforeStale_append.2 ⟨henough, fun h' => absurd hmem h'.2.1⟩

/-- A wait meets a message of a worker that is not allocated: it dereferences `end()` if the message
is stale and goes on as before if not. -/
theorem Counting.unknown {pulled : Finset ℕ} (h : s.Counting c frames pulled)
    (hcard : pulled.card < n) (henough : c.EnoughBeforeStale n frames) {f : Frame μ}
    (hmem : f.id ∉ c.allocatedWorkers.keys) {start : ℕ} (hcall : s.call = .waiting n pulled start) :
    Outcome c n (frames ++ [f]) (step s (.frame f)) := by
  have hnone : f.id ∉ s.ctx.allocatedWorkers.keys := fun h' => hmem ((h.keys _).1 h')
  obtain ⟨hsame, hret⟩ := s.ctx.waitForEvent_of_notMem hnone
  show Outcome c n _ (resume _ _)
  by_cases hstale : c.Stale f
  · -- the id is returned and nothing is found under it
    have hfind : (s.ctx.waitForEvent f).1.allocatedWorkers.find? f.id = none := by
      rw [hsame]
      exact SortedMap.find?_eq_none_of_notMem hnone
    simp only [resume, hcall, hret, hstale.1, Bool.false_eq_true, if_false, DriverContext.pullEvent,
      if_neg hstale.2.2, hfind]
    intro h'
    have hle := (DriverContext.enoughBeforeStale_append.1 h').2 hstale
    rw [← h.pulled_eq] at hle
    omega
  · have hnoWorker : (s.ctx.waitForEvent f).2 = noWorker := by
      rw [hret]
      split_ifs with hnotify
      · rfl
      · by_contra hne
        exact hstale ⟨Bool.not_eq_true _ ▸ hnotify, hmem, hne⟩
    have hsame' : c.notified (frames ++ [f]) = c.notified frames := by
      rw [DriverContext.notified_append, if_neg fun h' => hmem h'.2]
    simp only [resume, hcall, hnoWorker, DriverContext.pullEvent, if_true]
    apply outcome_testPulled
    · rw [hsame]
      exact h.id_eq
    · rw [hsame]
      exact h.keys
    · rw [hsame', ← h.pulled_eq]
    · exact hcard.le
    · rw [hsame', hsame]
      exact Or.inr ⟨h.pulled_eq, h.zero⟩
    · exact DriverContext.enoughBeforeStale_append.2 ⟨henough, fun h' => absurd h' hstale⟩

/-- The call goes on after a message. -/
theorem outcome_frame (hlt : ∀ k ∈ c.allocatedWorkers.keys, k < noWorker) (f : Frame μ)
    (h : Outcome c n frames s) : Outcome c n (frames ++ [f]) (step s (.frame f)) := by
  unfold Outcome at h
  cases hcall : s.call with
  | getting => simp [hcall] at h
  | crashed =>
    simp only [hcall] at h
    show Outcome c n _ (resume _ _)
    simp only [resume, hcall, Outcome]
    intro henough
    exact h (DriverContext.enoughBeforeStale_append.1 henough).1
  | idle =>
    simp only [hcall] at h
    show Outcome c n _ (resume _ _)
    simp only [resume, hcall, Outcome]
    refine ⟨h.1.trans (Finset.card_le_card (DriverContext.notified_subset f)), ?_⟩
    exact DriverContext.enoughBeforeStale_append.2 ⟨h.2, fun _ => h.1⟩
  | waiting n' pulled start =>
    simp only [hcall] at h
    obtain ⟨rfl, hcard, hcount, henough⟩ := h
    by_cases hmem : f.id ∈ c.allocatedWorkers.keys
    · exact hcount.known hlt hcard henough hmem hcall
    · exact hcount.unknown hcard henough hmem hcall

theorem outcome_frames (hlt : ∀ k ∈ c.allocatedWorkers.keys, k < noWorker) (frames : List (Frame μ))
    (h : Outcome c n [] s) :
    Outcome c n frames (system.exec s (frames.map .frame)) := by
  induction frames using List.reverseRecOn with
  | nil => exact h
  | append_singleton frames f ih =>
    rw [List.map_append, List.map_singleton, Guarded.exec_snoc]
    exact outcome_frame hlt f ih

end WaitRun

/-- A `wait(n)`, called with any notifications banked, never dereferences `end()` over a sequence of
messages exactly if `n` workers have a notification before a message other than NOTIFY is read with
an id that is not allocated. -/
theorem wait_alive_iff (c : DriverContext α μ)
    (hid : ∀ k w, c.allocatedWorkers.find? k = some w → w.id = k)
    (hlt : ∀ k ∈ c.allocatedWorkers.keys, k < noWorker) (n : ℕ) (order : List ℕ)
    (horder : c.allocatedWorkers.Iterates order) (frames : List (Frame μ)) :
    (WaitRun.system.exec { ctx := c } (.wait n order :: frames.map .frame)).call ≠ .crashed ↔
      c.EnoughBeforeStale (c.waitCount n) frames := by
  rw [Guarded.exec_cons]
  exact (WaitRun.outcome_frames hlt frames (WaitRun.outcome_wait hid horder n)).alive_iff

/-- A NOTIFY of an unknown worker is ignored, and a user message of one is not read any more. -/
theorem wait_alive_twoWorkers :
    (WaitRun.system.exec { ctx := twoWorkers } (.wait 1 [1, 2] ::
      ([.notify 7, .notify 2, .userMessage 7 5] : List (Frame ℕ)).map .frame)).call ≠ .crashed := by
  have hids : ∀ e ∈ twoWorkers.allocatedWorkers.entries, e.2.id = e.1 := by decide
  refine (wait_alive_iff twoWorkers ?_ (by decide) 1 [1, 2] (by decide) _).2 ?_
  · exact fun k w hk => hids _ (SortedMap.find?_eq_some_iff.1 hk)
  · change twoWorkers.EnoughBeforeStale 1 ([] ++ [.notify 7] ++ [.notify 2] ++ [.userMessage 7 5])
    rw [DriverContext.enoughBeforeStale_append, DriverContext.enoughBeforeStale_append,
      DriverContext.enoughBeforeStale_append]
    exact ⟨⟨⟨DriverContext.enoughBeforeStale_nil, by decide⟩, by decide⟩, by decide⟩

/-- A user message of a worker that is not allocated is read by a `wait` that is not done: `end()`
is dereferenced. -/
theorem wait_dereferences_end :
    (WaitRun.system.exec { ctx := twoWorkers }
      [.wait 1 [1, 2], .frame (.userMessage 7 5)]).call = .crashed ∧
    7 ∉ twoWorkers.allocatedWorkers.keys := by
  exact ⟨rfl, by decide⟩

end Dtest
