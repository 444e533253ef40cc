import Dtest.Hooks.Threads
import Mathlib.Data.Fintype.Basic

/-!
# The heap hooks mirror the allocator under interleaving

Every atomic step moves the addresses it touches as one of the lemmas on `InvAt` says and frames all
others.
-/

universe u v

namespace Dtest

variable {T : Type v} {σ : Type u} [DecidableEq T] {callocTmp : ℕ}

namespace Libc

variable {heap : Heap} {q oldPtr size ptr : ℕ}

theorem find?_alloc_of_ne (h : q ≠ ptr) : (alloc heap size ptr).find? q = heap.find? q := by
  unfold alloc
  split_ifs
  exacts [rfl, SortedMap.find?_insert_of_ne h]

/-- An address that is not live and not handed out stays so. -/
theorem find?_alloc_eq_none (h : heap.find? q = none) (hne : ptr ≠ 0 → q ≠ ptr) :
    (alloc heap size ptr).find? q = none := by
  by_cases h0 : ptr = 0
  · unfold alloc
    rwa [if_pos h0]
  · rwa [find?_alloc_of_ne (hne h0)]

/-- A resized block, in place or at a fresh address. -/
theorem realloc_eq (hold : oldPtr ≠ 0) (hsize : 0 < size) (hptr : ptr ≠ 0) :
    realloc heap oldPtr size ptr = (heap.erase oldPtr).insert ptr size := by
  unfold realloc
  rw [if_neg hold, if_neg hsize.ne', if_neg hptr]

theorem realloc_null (hold : oldPtr ≠ 0) (hsize : 0 < size) :
    realloc heap oldPtr size 0 = heap := by
  unfold realloc
  rw [if_neg hold, if_neg hsize.ne', if_pos rfl]

theorem find?_erase_eq_none (h : CanRealloc heap oldPtr size ptr) (hold : oldPtr ≠ 0)
    (hsize : 0 < size) (hptr : ptr ≠ 0) : (heap.erase oldPtr).find? ptr = none := by
  unfold CanRealloc at h
  rw [if_neg hold, if_neg hsize.ne'] at h
  rw [SortedMap.find?_erase]
  split_ifs with heq
  · rfl
  · rcases h.2.resolve_left heq with h | h
    exacts [absurd h hptr, Option.isNone_iff_eq_none.1 h.2.2]

end Libc

/-- The invariant of the whole world. -/
structure WorldInv (callocTmp : ℕ) (w : ThreadsWorld T σ) : Prop where
  threads : ThreadsInv w.memory.blocks w.heap w.pending
  null : w.heap.find? 0 = none
  tmp : w.heap.find? callocTmp = none
  oldPtr_ne : ∀ t oldPtr size ptr, w.pending t = .realloc oldPtr size ptr → oldPtr ≠ 0 ∧ 0 < size

namespace WorldInv

variable {w : ThreadsWorld T σ} {t : T} {cs : σ}

omit [DecidableEq T] in
theorem ne_of_live (h : WorldInv callocTmp w) {a : ℕ} (ha : (w.heap.find? a).isSome) :
    a ≠ 0 ∧ a ≠ callocTmp := by
  constructor
  · rintro rfl
    rw [h.null] at ha
    cases ha
  · rintro rfl
    rw [h.tmp] at ha
    cases ha

theorem oldPtr_ne_update (h : WorldInv callocTmp w) {p : Pending}
    (hp : ∀ oldPtr size ptr, p = .realloc oldPtr size ptr → oldPtr ≠ 0 ∧ 0 < size) :
    ∀ u oldPtr size ptr, Function.update w.pending t p u = .realloc oldPtr size ptr →
      oldPtr ≠ 0 ∧ 0 < size := by
  intro u oldPtr size ptr hu
  rw [Function.update_apply] at hu
  split_ifs at hu
  exacts [hp _ _ _ hu, h.oldPtr_ne u _ _ _ hu]

/-- The first step of `malloc`. -/
theorem malloc (h : WorldInv callocTmp w) (ht : w.pending t = .idle) {size ptr : ℕ}
    (hptr : Libc.CanAlloc w.heap ptr) (htmp : ptr ≠ callocTmp) :
    WorldInv callocTmp { w with
      heap := Libc.alloc w.heap size ptr
      pending := Function.update w.pending t (.malloc size ptr) } := by
  refine ⟨fun a => ?_, Libc.find?_alloc_eq_none h.null (fun h0 => h0.symm),
    Libc.find?_alloc_eq_none h.tmp (fun _ => htmp.symm), h.oldPtr_ne_update nofun⟩
  obtain ⟨f, m, ha⟩ := h.threads a
  have hidle : (w.pending t).inFlux ≠ some a ∧ (w.pending t).moving ≠ some a := by
    rw [ht]
    exact ⟨nofun, nofun⟩
  by_cases h0 : ptr = 0
  · subst h0
    exact ⟨f, m, ha.frame hidle.1 hidle.2 nofun nofun⟩
  · by_cases hap : a = ptr
    · subst hap
      have hfresh := Option.isNone_iff_eq_none.1 (hptr.resolve_left h0).2.2
      have hnew : (Libc.alloc w.heap size a).find? a = some size := by
        unfold Libc.alloc
        rw [if_neg h0, SortedMap.find?_insert_self hfresh]
      dsimp only
      rw [hnew]
      rw [hfresh] at ha
      exact ha.handOut ht (if_neg h0) nofun rfl
    · dsimp only
      rw [Libc.find?_alloc_of_ne hap]
      refine ⟨f, m, ha.frame hidle.1 hidle.2 ?_ nofun⟩
      simpa [Pending.inFlux, h0] using Ne.symm hap

/-- The first step of `realloc`. -/
theorem realloc (h : WorldInv callocTmp w) (ht : w.pending t = .idle) {oldPtr size ptr : ℕ}
    (hsize : 0 < size) (hown : w.Owned oldPtr) (hptr : Libc.CanRealloc w.heap oldPtr size ptr)
    (htmp : ptr ≠ callocTmp) :
    WorldInv callocTmp { w with
      heap := Libc.realloc w.heap oldPtr size ptr
      pending := Function.update w.pending t (.realloc oldPtr size ptr) } := by
  obtain ⟨hold, -⟩ := h.ne_of_live hown.1
  have hne : ∀ u o s q, Function.update w.pending t (.realloc oldPtr size ptr) u =
      .realloc o s q → o ≠ 0 ∧ 0 < s :=
    h.oldPtr_ne_update fun o s q heq => by
      cases heq
      exact ⟨hold, hsize⟩
  have hidle : ∀ a, (w.pending t).inFlux ≠ some a ∧ (w.pending t).moving ≠ some a := fun a => by
    rw [ht]
    exact ⟨nofun, nofun⟩
  by_cases h0 : ptr = 0
  · subst h0
    rw [Libc.realloc_null hold hsize]
    refine ⟨fun a => ?_, h.null, h.tmp, hne⟩
    obtain ⟨f, m, ha⟩ := h.threads a
    exact ⟨f, m, ha.frame (hidle a).1 (hidle a).2 nofun nofun⟩
  · have hfree := Libc.find?_erase_eq_none hptr hold hsize h0
    have hflux : (Pending.realloc oldPtr size ptr).inFlux = some ptr := if_neg h0
    have hmoving : (Pending.realloc oldPtr size ptr).moving = some oldPtr := if_neg h0
    have hstay : ∀ q, q ≠ ptr → ((w.heap.erase oldPtr).insert ptr size).find? q =
        if q = oldPtr then none else w.heap.find? q := fun q hq => by
      rw [SortedMap.find?_insert_of_ne hq, SortedMap.find?_erase]
    rw [Libc.realloc_eq hold hsize h0]
    refine ⟨fun a => ?_, ?_, ?_, hne⟩
    · obtain ⟨f, m, ha⟩ := h.threads a
      dsimp only
      by_cases hap : a = ptr
      · subst hap
        rw [SortedMap.find?_insert_self hfree]
        by_cases hao : a = oldPtr
        · subst hao
          exact ha.resize hown.1 hown.2 hflux hmoving rfl
        · rw [SortedMap.find?_erase, if_neg hao] at hfree
          rw [hfree] at ha
          exact ha.handOut ht hflux (by simpa [hmoving] using Ne.symm hao) rfl
      · rw [hstay a hap]
        by_cases hao : a = oldPtr
        · subst hao
          rw [if_pos rfl]
          exact ha.giveUp hown.1 hown.2 (by simpa [hflux] using Ne.symm hap) hmoving
        · rw [if_neg hao]
          exact ⟨f, m, ha.frame (hidle a).1 (hidle a).2 (by simpa [hflux] using Ne.symm hap)
            (by simpa [hmoving] using Ne.symm hao)⟩
    · rw [hstay 0 (Ne.symm h0), h.null, ite_self]
    · rw [hstay callocTmp htmp.symm, h.tmp, ite_self]

/-- The first step of `free`: the block is removed, and no error is raised. -/
theorem free (h : WorldInv callocTmp w) (hm : w.memory.Ready) (ht : w.pending t = .idle) {ptr : ℕ}
    (hown : w.Owned ptr) (cs : σ) :
    ∃ alloc, w.act callocTmp noExemptions (.free t ptr cs) =
        ({ w with
          memory := w.memory.removeBlock ptr alloc
          pending := Function.update w.pending t (.free ptr) }, none) ∧
      WorldInv callocTmp { w with
        memory := w.memory.removeBlock ptr alloc
        pending := Function.update w.pending t (.free ptr) } := by
  obtain ⟨h0, htmp⟩ := h.ne_of_live hown.1
  obtain ⟨f, m, hptr⟩ := h.threads ptr
  obtain ⟨alloc, halloc⟩ : ∃ alloc, w.memory.blocks.find? ptr = some alloc := by
    have hlive := hown.1
    rw [← (hptr.owned hown.1 hown.2).2.2, Option.isSome_map] at hlive
    exact Option.isSome_iff_exists.1 hlive
  refine ⟨alloc, ?_, fun a => ?_, h.null, h.tmp, h.oldPtr_ne_update nofun⟩
  · unfold ThreadsWorld.act Hooks.free
    simp only [if_neg htmp, if_neg h0, hm.remove halloc]
  · obtain ⟨f, m, ha⟩ := h.threads a
    change ∃ f m, InvAt _ a ((w.memory.blocks.erase ptr).find? a) _ f m
    rw [SortedMap.find?_erase]
    split_ifs with hap
    · subst hap
      exact ha.remove hown.1 hown.2
    · refine ⟨f, m, ha.frame (by rw [ht]; exact nofun) (by rw [ht]; exact nofun) ?_ nofun⟩
      simpa [Pending.inFlux] using Ne.symm hap

/-- The second step of a hook that reports nothing. -/
theorem finishNull (h : WorldInv callocTmp w) (hflux : (w.pending t).inFlux = none)
    (hmoving : (w.pending t).moving = none) :
    WorldInv callocTmp { w with pending := Function.update w.pending t .idle } := by
  refine ⟨fun a => ?_, h.null, h.tmp, h.oldPtr_ne_update nofun⟩
  obtain ⟨f, m, ha⟩ := h.threads a
  exact ⟨f, m, ha.frame (by simp [hflux]) (by simp [hmoving]) nofun nofun⟩

omit [DecidableEq T] in
/-- A block in flux whose address no `retrack` is still to vacate has no entry. -/
theorem find?_eq_none (h : WorldInv callocTmp w) {ptr : ℕ} (ht : (w.pending t).inFlux = some ptr)
    (hmoving : ∀ u, (w.pending u).moving ≠ some ptr) : w.memory.blocks.find? ptr = none := by
  obtain ⟨f, m, hptr⟩ := h.threads ptr
  have hm : m = none := by
    cases m with
    | none => rfl
    | some u => exact absurd ((hptr.moving_iff u).2 rfl) (hmoving u)
  exact hptr.flux_absent (by simp [(hptr.flux_iff t).1 ht]) hm

/-- The second step of `malloc`. -/
theorem finishMalloc (h : WorldInv callocTmp w) {size ptr : ℕ} (h0 : ptr ≠ 0)
    (ht : w.pending t = .malloc size ptr) (hother : ∀ u, u ≠ t → (w.pending u).moving ≠ some ptr) :
    WorldInv callocTmp { w with
      memory := w.memory.trackBlock ptr size cs
      pending := Function.update w.pending t .idle } := by
  have hflux : (w.pending t).inFlux = some ptr := by
    rw [ht]
    exact if_neg h0
  have hmoving : (w.pending t).moving = none := by rw [ht]; rfl
  have hnone : w.memory.blocks.find? ptr = none := h.find?_eq_none hflux fun u => by
    by_cases hut : u = t
    · rw [hut, hmoving]
      exact nofun
    · exact hother u hut
  refine ⟨fun a => ?_, h.null, h.tmp, h.oldPtr_ne_update nofun⟩
  obtain ⟨f, m, ha⟩ := h.threads a
  change ∃ f m, InvAt _ a ((w.memory.blocks.insert ptr ⟨size, cs⟩).find? a) _ f m
  rw [SortedMap.find?_insert hnone]
  split_ifs with hap
  · subst hap
    exact ha.report hflux hother (by rw [ht]; rfl)
  · refine ⟨f, m, ha.frame ?_ (by simp [hmoving]) nofun nofun⟩
    simpa [hflux] using Ne.symm hap

/-- The second step of `realloc`: there is an entry to move. -/
theorem finishRealloc (h : WorldInv callocTmp w) {oldPtr size ptr : ℕ} (h0 : ptr ≠ 0)
    (ht : w.pending t = .realloc oldPtr size ptr)
    (hother : ∀ u, u ≠ t → (w.pending u).moving ≠ some ptr) :
    ∃ alloc, w.memory.blocks.find? oldPtr = some alloc ∧
      WorldInv callocTmp { w with
        memory := w.memory.moveBlock oldPtr alloc ptr size
        pending := Function.update w.pending t .idle } := by
  have hflux : (w.pending t).inFlux = some ptr := by
    rw [ht]
    exact if_neg h0
  have hmoving : (w.pending t).moving = some oldPtr := by
    rw [ht]
    exact if_neg h0
  obtain ⟨f, m, hold⟩ := h.threads oldPtr
  obtain ⟨alloc, halloc⟩ := Option.isSome_iff_exists.1
    (hold.moving_present (by simp [(hold.moving_iff t).1 hmoving]))
  have hnone : (w.memory.blocks.erase oldPtr).find? ptr = none := by
    rw [SortedMap.find?_erase]
    split_ifs with hpo
    · rfl
    · refine h.find?_eq_none hflux fun u => ?_
      by_cases hut : u = t
      · rw [hut, hmoving]
        simpa using Ne.symm hpo
      · exact hother u hut
  refine ⟨alloc, halloc, fun a => ?_, h.null, h.tmp, h.oldPtr_ne_update nofun⟩
  obtain ⟨f, m, ha⟩ := h.threads a
  change ∃ f m, InvAt _ a (((w.memory.blocks.erase oldPtr).insert ptr
    ⟨size, alloc.callstack⟩).find? a) _ f m
  rw [SortedMap.find?_insert hnone, SortedMap.find?_erase]
  split_ifs with hap hao
  · subst hap
    exact ha.report hflux hother (by rw [ht]; rfl)
  · subst hao
    exact ha.moveAway hmoving (by simpa [hflux] using Ne.symm hap)
  · exact ⟨f, m, ha.frame (by simpa [hflux] using Ne.symm hap)
      (by simpa [hmoving] using Ne.symm hao) nofun nofun⟩

/-- The second step of `free`. -/
theorem finishFree (h : WorldInv callocTmp w) {ptr : ℕ} (ht : w.pending t = .free ptr) :
    WorldInv callocTmp { w with
      heap := Libc.free w.heap ptr
      pending := Function.update w.pending t .idle } := by
  have hflux : (w.pending t).inFlux = some ptr := by rw [ht]; rfl
  have hlive : (w.heap.find? ptr).isSome := by
    obtain ⟨f, m, hptr⟩ := h.threads ptr
    exact hptr.flux_live (by simp [(hptr.flux_iff t).1 hflux])
  have hfree : Libc.free w.heap ptr = w.heap.erase ptr := if_neg (h.ne_of_live hlive).1
  rw [hfree]
  refine ⟨fun a => ?_, ?_, ?_, h.oldPtr_ne_update nofun⟩
  · obtain ⟨f, m, ha⟩ := h.threads a
    dsimp only
    rw [SortedMap.find?_erase]
    split_ifs with hap
    · subst hap
      exact ha.release ht
    · refine ⟨f, m, ha.frame (by simpa [hflux] using Ne.symm hap) ?_ nofun nofun⟩
      rw [ht]
      exact nofun
  · dsimp only
    rw [SortedMap.find?_erase, h.null, ite_self]
  · dsimp only
    rw [SortedMap.find?_erase, h.tmp, ite_self]

/-- Every step of a sound run keeps the invariant and raises no error. -/
theorem act (h : WorldInv callocTmp w) {ev : ThreadEvent T σ}
    (hev : ((ThreadsWorld.system callocTmp).restrict ThreadsWorld.Sound).allowed w ev) :
    WorldInv callocTmp (w.act callocTmp noExemptions ev).1 ∧
      (w.act callocTmp noExemptions ev).2 = none := by
  obtain ⟨hev, hsound⟩ := hev
  cases ev with
  | malloc t size ptr => exact ⟨h.malloc hev.2.1 hev.2.2.2.1 hev.2.2.2.2, rfl⟩
  | realloc t oldPtr size ptr =>
    obtain ⟨-, ht, hsize, hown, hptr, htmp⟩ := hev
    exact ⟨h.realloc ht hsize hown hptr htmp, rfl⟩
  | free t ptr cs =>
    obtain ⟨alloc, heq, hinv⟩ := h.free hev.1 hev.2.1 hev.2.2 cs
    rw [heq]
    exact ⟨hinv, rfl⟩
  | finish t cs =>
    obtain ⟨hm, hidle⟩ := hev
    change ∀ ptr ∈ (w.pending t).reports, ∀ u, u ≠ t → (w.pending u).moving ≠ some ptr at hsound
    unfold ThreadsWorld.act
    cases ht : w.pending t with
    | idle => exact absurd ht hidle
    | malloc size ptr =>
      simp only [ht]
      unfold Hooks.malloc trackNonNull
      split_ifs with h0
      · exact ⟨h.finishNull (by rw [ht]; exact if_pos h0) (by rw [ht]; rfl), trivial⟩
      · rw [hm.track rfl]
        rw [ht] at hsound
        exact ⟨h.finishMalloc h0 ht (hsound ptr (if_neg h0)), trivial⟩
    | realloc oldPtr size ptr =>
      simp only [ht]
      unfold Hooks.realloc
      rw [if_neg (h.oldPtr_ne t _ _ _ ht).1]
      split_ifs with h0
      · exact ⟨h.finishNull (by rw [ht]; exact if_pos h0) (by rw [ht]; exact if_pos h0), rfl⟩
      · rw [ht] at hsound
        obtain ⟨alloc, halloc, hinv⟩ := h.finishRealloc h0 ht (hsound ptr (if_neg h0))
        rw [hm.retrack halloc]
        exact ⟨hinv, rfl⟩
    | free ptr =>
      simp only [ht]
      exact ⟨h.finishFree ht, trivial⟩

end WorldInv

omit [DecidableEq T] in
theorem worldInv_init : WorldInv callocTmp ({} : ThreadsWorld T σ) := by
  refine ⟨fun a => ⟨none, none, ?_⟩, rfl, rfl, nofun⟩
  exact ⟨fun _ => iff_of_false nofun nofun, fun _ => iff_of_false nofun nofun, nofun, nofun, nofun,
    nofun, nofun, fun _ _ => rfl⟩

/-- In every interleaving whose reports are sound, the last step raises no error, and if no hook is
in progress after it, `_blocks` holds exactly the live blocks with their sizes. -/
theorem threads_faithful (callocTmp : ℕ) (evs : List (ThreadEvent T σ)) (ev : ThreadEvent T σ)
    (h : ((ThreadsWorld.system callocTmp).restrict ThreadsWorld.Sound).Admissible {}
      (evs ++ [ev])) :
    let w := (ThreadsWorld.system callocTmp).exec {} evs
    let w' := (ThreadsWorld.system callocTmp).exec {} (evs ++ [ev])
    (w.act callocTmp noExemptions ev).2 = none ∧
      ((∀ t, w'.pending t = .idle) → Mirrors w'.memory.blocks w'.heap) := by
  intro w w'
  obtain ⟨hrun, hlast⟩ := Guarded.admissible_snoc.1 h
  have hw : WorldInv callocTmp w :=
    Guarded.Admissible.invariant (G := (ThreadsWorld.system callocTmp).restrict ThreadsWorld.Sound)
      (fun w ev hw hev => (hw.act hev).1) worldInv_init hrun
  have hw' : w' = (w.act callocTmp noExemptions ev).1 := Guarded.exec_snoc _ _ _ _
  obtain ⟨hinv, herr⟩ := hw.act hlast
  refine ⟨herr, fun hidle a => ?_⟩
  rw [hw'] at hidle ⊢
  obtain ⟨f, m, ha⟩ := hinv.threads a
  refine ha.settled ?_ ?_
  · cases f with
    | none => rfl
    | some t => exact absurd ((ha.flux_iff t).2 rfl) (by rw [hidle t]; exact nofun)
  · cases m with
    | none => rfl
    | some t => exact absurd ((ha.moving_iff t).2 rfl) (by rw [hidle t]; exact nofun)

section decidable

variable [Fintype T]

instance (w : ThreadsWorld T σ) (ptr : ℕ) : Decidable (w.Owned ptr) :=
  inferInstanceAs (Decidable (_ ∧ ∀ _, _))

instance (w : ThreadsWorld T σ) (ev : ThreadEvent T σ) :
    Decidable ((ThreadsWorld.system callocTmp).allowed w ev) := by
  cases ev <;> unfold ThreadsWorld.system ThreadsWorld.Allowed <;> infer_instance

instance (w : ThreadsWorld T σ) (ev : ThreadEvent T σ) : Decidable (w.Sound ev) := by
  cases ev <;> unfold ThreadsWorld.Sound <;> infer_instance

end decidable

/-- Two threads: while one resizes its block, the other gets, uses and frees another one, and the
address given up is reused after the entry has moved. -/
def soundThreadsRun : List (ThreadEvent Bool Unit) :=
  [.malloc true 8 16, .finish true (), .malloc false 8 32, .realloc true 16 24 48, .finish false (),
    .free false 32 (), .finish true (), .malloc true 8 16, .finish true (), .finish false (),
    .realloc true 48 8 48]

theorem threads_faithful_soundThreadsRun :
    let w := (ThreadsWorld.system 4096).exec {} soundThreadsRun
    let w' := (ThreadsWorld.system 4096).exec {} (soundThreadsRun ++ [.finish true ()])
    (w.act 4096 noExemptions (.finish true ())).2 = none ∧
      ((∀ t, w'.pending t = .idle) → Mirrors w'.memory.blocks w'.heap) :=
  threads_faithful 4096 soundThreadsRun (.finish true ()) (by decide +kernel)

/-- One thread's `realloc` gives up an address, another thread gets it and reports it before the
first has moved its entry: the live block is then missing from `_blocks`. -/
def racingRun : List (ThreadEvent Bool Unit) :=
  [.malloc true 8 16, .finish true (), .realloc true 16 24 48, .malloc false 8 16,
    .finish false ()]

theorem reused_address_lost :
    ¬ ∀ (evs : List (ThreadEvent Bool Unit)) (ev : ThreadEvent Bool Unit),
      (ThreadsWorld.system 4096).Admissible {} (evs ++ [ev]) →
      let w := (ThreadsWorld.system 4096).exec {} evs
      let w' := (ThreadsWorld.system 4096).exec {} (evs ++ [ev])
      (w.act 4096 noExemptions ev).2 = none ∧
        ((∀ t, w'.pending t = .idle) → Mirrors w'.memory.blocks w'.heap) := by
  intro h
  have h16 := (h racingRun (.finish true ()) (by decide +kernel)).2 (by decide +kernel) 16
  revert h16
  decide +kernel

end Dtest
