import Dtest.Hooks.Map

/-!
# The mapping hooks touch exactly the mapped pages

The tracked bytes after a call are known exactly: a removal takes out the range it is given
(`removal_of_covered`), a recorded range adds its bytes (`tracked_trackRange`).  Comparing pages is
then a matter of the last page of each range.
-/

universe u

namespace Dtest

open Pages

variable {σ : Type u} {m : Memory σ} {ptr size : ℕ} {cs : σ}

theorem removal_of_covered (hwf : WellFormed m.orderedBlocks) (hptr : ptr ≤ 2 ^ 64)
    (hcov : Covered m.orderedBlocks ptr size) :
    (m.removal ptr size).size = 0 ∧ WellFormed (m.removal ptr size).orderedBlocks ∧
      ∀ a, Tracked (m.removal ptr size).orderedBlocks a ↔
        Tracked m.orderedBlocks a ∧ ¬ (ptr ≤ a ∧ a < ptr + size) := by
  have hfits : Removal.Fits ⟨m.orderedBlocks, m.freeSize, ptr, size⟩ := by
    unfold Removal.Fits
    dsimp only
    by_cases h0 : size = 0
    · omega
    · obtain ⟨e, he, -, hle⟩ := hcov (ptr + size - 1) (by omega) (by omega)
      have := hwf.word e he
      omega
  have hzero : (m.removal ptr size).size = 0 := (removeLoop_size_eq_zero_iff hwf hfits).2 hcov
  have h := removed_removeLoop hwf hfits
  refine ⟨hzero, h.wellFormed, fun a => ?_⟩
  have htr := h.tracked a
  change (removeLoop _).size = 0 at hzero
  rwa [hzero] at htr

theorem tracked_trackRange (cs : σ) (hwf : WellFormed m.orderedBlocks) (hsize : 0 < size)
    (hfits : ptr + size ≤ 2 ^ 64)
    (hfree : ∀ a, ptr ≤ a → a < ptr + size → ¬ Tracked m.orderedBlocks a) :
    WellFormed (m.trackRange ptr size cs).orderedBlocks ∧
      ∀ a, Tracked (m.trackRange ptr size cs).orderedBlocks a ↔
        (ptr ≤ a ∧ a < ptr + size) ∨ Tracked m.orderedBlocks a := by
  have hin : ∀ a, InEntry (lastByte ptr size, (⟨size, cs⟩ : Allocation σ)) a ↔
      ptr ≤ a ∧ a < ptr + size := fun a => by
    unfold InEntry
    rw [lastByte_eq hsize hfits]
    dsimp only
    omega
  have hkey := lastByte_eq hsize hfits
  obtain ⟨h1, -, h2⟩ := hwf.insert (k := lastByte ptr size) (v := ⟨size, cs⟩) hsize
    (by dsimp only; omega) (by omega) fun a ha => hfree a ((hin a).1 ha).1 ((hin a).1 ha).2
  exact ⟨h1, fun a => by rw [← hin]; exact h2 a⟩

/-- The invariant of runs. -/
structure MapInv (P : ℕ) (w : MapWorld σ) : Prop where
  wellFormed : WellFormed w.memory.orderedBlocks
  mirrors : w.Mirrors P

variable {P : ℕ} {w : MapWorld σ}

theorem MapInv.lt_of_mem (h : MapInv P w) {addr : ℕ} (hdvd : P ∣ addr)
    (hpage : addr / P ∈ w.pages) : addr < 2 ^ 64 := by
  obtain ⟨a, ⟨e, he, -, hle⟩, ha⟩ := (h.mirrors _).1 hpage
  have hword := h.wellFormed.word e he
  have hmul : addr / P * P ≤ a := by
    rw [← ha]
    exact Nat.div_mul_le_self a P
  rw [Nat.div_mul_cancel hdvd] at hmul
  omega

/-- Taking one range out and recording another moves the touched pages as the kernel moves the
mapped ones. -/
theorem mirrors_replace {b b₁ b₂ : SortedMap ℕ (Allocation σ)} {pages : Finset ℕ}
    (oldPtr oldSize : ℕ) (hP : 0 < P) (hold : P ∣ oldPtr) (hnew : P ∣ ptr)
    (hb : ∀ q, q ∈ pages ↔ ∃ a, Tracked b a ∧ a / P = q)
    (hb₁ : ∀ a, Tracked b₁ a ↔ Tracked b a ∧ ¬ (oldPtr ≤ a ∧ a < oldPtr + oldSize))
    (htail : TailFree P b oldPtr oldSize (pagesOf P ptr size))
    (hb₂ : ∀ a, Tracked b₂ a ↔ (ptr ≤ a ∧ a < ptr + size) ∨ Tracked b₁ a) (q : ℕ) :
    q ∈ pages \ pagesOf P oldPtr oldSize ∪ pagesOf P ptr size ↔ ∃ a, Tracked b₂ a ∧ a / P = q := by
  rw [Finset.mem_union, Finset.mem_sdiff, hb]
  constructor
  · rintro (⟨⟨a, ha, rfl⟩, hout⟩ | hq)
    · refine ⟨a, (hb₂ a).2 (Or.inr ((hb₁ a).2 ⟨ha, fun hin => hout ?_⟩)), rfl⟩
      exact div_mem_pagesOf_of_lt hP hold hin.1 hin.2
    · obtain ⟨a, h1, h2, haq⟩ := exists_of_mem_pagesOf hP hnew hq
      exact ⟨a, (hb₂ a).2 (Or.inl ⟨h1, h2⟩), haq⟩
  · rintro ⟨a, ha, rfl⟩
    rcases (hb₂ a).1 ha with ha | ha
    · exact Or.inr (div_mem_pagesOf_of_lt hP hnew ha.1 ha.2)
    · obtain ⟨htr, hout⟩ := (hb₁ a).1 ha
      by_cases hin : a / P ∈ pagesOf P oldPtr oldSize
      · -- a byte left behind in the last page of the old range
        obtain ⟨h1, h2⟩ := (div_mem_pagesOf hP hold a).1 hin
        exact Or.inr (htail a (by omega) h2 htr)
      · exact Or.inl ⟨⟨a, htr, rfl⟩, hin⟩

theorem Kernel.Places.fits {pages : Finset ℕ} {fixed : Bool} (hP : 1 < P)
    (h : Kernel.Places P pages fixed ptr size) : ptr ≠ mapFailed ∧ ptr + size ≤ 2 ^ 64 := by
  obtain ⟨-, hpos, hfits, -⟩ := h
  have hle : size ≤ pageCount P size * P := le_pageCount_mul (by omega)
  have hcount : 1 * P ≤ pageCount P size * P :=
    Nat.mul_le_mul_right P (Nat.pos_of_ne_zero fun h0 => by rw [h0] at hle; omega)
  unfold mapFailed
  omega

namespace MapInv

theorem mmap (h : MapInv P w) (hP : 1 < P) (hm : w.memory.Ready) {fixed : Bool}
    {addr len ptr : ℕ}
    (hacc : Kernel.Accepts P w.pages (.mmap fixed addr len ptr))
    (hc : MapCall.Sound P w (.mmap fixed addr len ptr)) :
    (w.call P noExemptions cs (.mmap fixed addr len ptr)).2 = none ∧
      MapInv P (w.call P noExemptions cs (.mmap fixed addr len ptr)).1 := by
  have hP0 : 0 < P := by omega
  obtain ⟨hfailed, hfits⟩ := hacc.1.fits hP
  obtain ⟨hwf, htr⟩ := tracked_trackRange cs h.wellFormed hacc.1.2.1 hfits
    fun a h1 h2 ha => by
      have := hc a h1 h2 ha
      omega
  have heq : Hooks.mmap noExemptions w.memory len ptr cs = w.memory.trackRange ptr len cs := by
    unfold Hooks.mmap
    rw [if_pos hfailed, hm.trackMapped rfl]
  refine ⟨rfl, ?_⟩
  change MapInv P ⟨Hooks.mmap noExemptions w.memory len ptr cs, w.pages ∪ pagesOf P ptr len⟩
  rw [heq]
  refine ⟨hwf, fun q => ?_⟩
  have hpages := mirrors_replace 0 0 hP0 (Nat.dvd_zero P) hacc.1.1 h.mirrors
    (fun a => ⟨fun ha => ⟨ha, by omega⟩, And.left⟩) (fun a h1 h2 => by
      rw [pageCount_zero] at h2
      omega) htr q
  rwa [pagesOf_zero, Finset.sdiff_empty] at hpages

theorem mremap (h : MapInv P w) (hP : 1 < P) (hm : w.memory.Ready) {fixed dontUnmap : Bool}
    {addr oldLen newLen ptr : ℕ}
    (hacc : Kernel.Accepts P w.pages (.mremap fixed dontUnmap addr oldLen newLen ptr))
    (hc : MapCall.Sound P w (.mremap fixed dontUnmap addr oldLen newLen ptr)) :
    (w.call P noExemptions cs (.mremap fixed dontUnmap addr oldLen newLen ptr)).2 = none ∧
      MapInv P (w.call P noExemptions cs (.mremap fixed dontUnmap addr oldLen newLen ptr)).1 := by
  have hP0 : 0 < P := by omega
  obtain ⟨hdvd, hpage, -, hplace, -, -⟩ := hacc
  obtain ⟨hkeep, hcov, htail, hfree⟩ := hc
  obtain ⟨hfailed, hfits⟩ := hplace.fits hP
  obtain ⟨hzero, hwf₁, htr₁⟩ := removal_of_covered h.wellFormed (h.lt_of_mem hdvd hpage).le hcov
  let m₁ := w.memory.afterRemoval (w.memory.removal addr oldLen)
  obtain ⟨hwf₂, htr₂⟩ := tracked_trackRange (m := m₁) cs hwf₁ hplace.2.1 hfits
    fun a h1 h2 ha => ((htr₁ a).1 ha).2 (hfree a h1 h2 ((htr₁ a).1 ha).1)
  have heq : Hooks.mremap noExemptions w.memory addr oldLen newLen ptr cs =
      (m₁.trackRange ptr newLen cs, none) := by
    unfold Hooks.mremap
    rw [if_pos hfailed, hm.retrackMapped hzero,
      if_pos (show noExemptions.canTrackAlloc cs = true from rfl)]
  have hunmapped : Kernel.unmapped P dontUnmap addr oldLen = pagesOf P addr oldLen := by
    unfold Kernel.unmapped
    rcases hkeep with rfl | rfl
    · rfl
    · rw [pagesOf_zero, ite_self]
  unfold MapWorld.call
  dsimp only
  rw [heq]
  refine ⟨rfl, hwf₂, fun q => ?_⟩
  change q ∈ w.pages \ Kernel.unmapped P dontUnmap addr oldLen ∪ pagesOf P ptr newLen ↔ _
  rw [hunmapped]
  exact mirrors_replace addr oldLen hP0 hdvd hplace.1 h.mirrors htr₁ htail htr₂ q

theorem munmap (h : MapInv P w) (hP : 1 < P) (hm : w.memory.Ready) {addr len : ℕ}
    (hacc : Kernel.Accepts P w.pages (.munmap addr len))
    (hc : MapCall.Sound P w (.munmap addr len)) :
    (w.call P noExemptions cs (.munmap addr len)).2 = none ∧
      MapInv P (w.call P noExemptions cs (.munmap addr len)).1 := by
  have hP0 : 0 < P := by omega
  obtain ⟨hdvd, hpos, hsub⟩ := hacc
  obtain ⟨h0, hcov, htail⟩ := hc
  have hpage : addr / P ∈ w.pages :=
    hsub (div_mem_pagesOf_of_lt hP0 hdvd le_rfl (by omega))
  obtain ⟨hzero, hwf₁, htr₁⟩ := removal_of_covered h.wellFormed (h.lt_of_mem hdvd hpage).le hcov
  have heq : Hooks.munmap noExemptions w.memory addr len cs =
      (w.memory.afterRemoval (w.memory.removal addr len), none) := by
    unfold Hooks.munmap
    rw [if_pos h0, hm.removeMapped hzero]
  unfold MapWorld.call
  simp only [heq]
  refine ⟨trivial, hwf₁, fun q => ?_⟩
  have hpages := mirrors_replace addr len hP0 hdvd (Nat.dvd_zero P) h.mirrors htr₁
    (by rwa [pagesOf_zero]) (fun a => ⟨Or.inr, fun ha => ha.resolve_left (by omega)⟩) q
  rwa [pagesOf_zero, Finset.union_empty] at hpages

/-- Every sound call keeps the invariant and raises no error. -/
theorem call (h : MapInv P w) (hP : 1 < P) (hm : w.memory.Ready) {c : MapCall}
    (hacc : Kernel.Accepts P w.pages c) (hc : c.Sound P w) :
    (w.call P noExemptions cs c).2 = none ∧ MapInv P (w.call P noExemptions cs c).1 := by
  cases c with
  | mmap fixed addr len ptr => exact h.mmap hP hm hacc hc
  | mremap fixed dontUnmap addr oldLen newLen ptr => exact h.mremap hP hm hacc hc
  | munmap addr len => exact h.munmap hP hm hacc hc

end MapInv

/-- In every run whose calls are sound, the last call raises no fatal error, and the tracked bytes
then touch exactly the mapped pages. -/
theorem map_hooks_faithful (P : ℕ) (hP : 1 < P) (cs : List (MapCall × σ)) (c : MapCall × σ)
    (h : ((MapWorld.system P).restrict fun w c => c.1.Sound P w).Admissible {} (cs ++ [c])) :
    let w := (MapWorld.system P).exec {} cs
    let w' := (MapWorld.system P).exec {} (cs ++ [c])
    (w.call P noExemptions c.2 c.1).2 = none ∧ w'.Mirrors P := by
  intro w w'
  obtain ⟨hrun, hlast⟩ := Guarded.admissible_snoc.1 h
  have hinit : MapInv P ({} : MapWorld σ) :=
    ⟨wellFormed_empty, fun q => iff_of_false (Finset.notMem_empty q)
      fun ⟨a, ha, _⟩ => not_tracked_empty a ha⟩
  have hw : MapInv P w :=
    Guarded.Admissible.invariant (G := (MapWorld.system P).restrict fun w c => c.1.Sound P w)
      (fun w c hw hc => (hw.call hP hc.1.1 hc.1.2 hc.2).2) hinit hrun
  have hw' : w' = (w.call P noExemptions c.2 c.1).1 := Guarded.exec_snoc _ _ _ _
  obtain ⟨herr, hinv⟩ := hw.call hP hlast.1.1 hlast.1.2 hlast.2
  exact ⟨herr, hw' ▸ hinv.mirrors⟩

instance (w : MapWorld σ) (c : MapCall × σ) : Decidable ((MapWorld.system P).allowed w c) :=
  inferInstanceAs (Decidable (_ ∧ _))

/-- A mapping of three pages whose middle page is unmapped. -/
theorem map_hooks_faithful_split :
    let w := (MapWorld.system 4096).exec {} [(.mmap false 0 12288 4096, ())]
    let w' := (MapWorld.system 4096).exec {}
      ([(.mmap false 0 12288 4096, ())] ++ [(.munmap 8192 4096, ())])
    (w.call 4096 noExemptions () (.munmap 8192 4096)).2 = none ∧ w'.Mirrors 4096 := by
  refine map_hooks_faithful 4096 (by decide) [(.mmap false 0 12288 4096, ())]
    (.munmap 8192 4096, ()) ⟨⟨by decide +kernel, ?_⟩, ⟨by decide +kernel, ?_⟩, trivial⟩
  · exact fun a _ _ ha => absurd ha (not_tracked_empty a)
  · refine ⟨by decide, fun a h1 h2 => ⟨(16383, ⟨12288, ()⟩), by decide +kernel, ?_⟩, ?_⟩
    · exact ⟨by dsimp only; omega, by dsimp only; omega⟩
    · intro a h1 h2
      have hcount : pageCount 4096 4096 = 1 := by decide
      rw [hcount] at h2
      omega

/-- `mmap` of 100 bytes maps a whole page, and unmapping that page raises the fatal error. -/
theorem munmap_page_of_short_mapping :
    ¬ ∀ (cs : List (MapCall × Unit)) (c : MapCall × Unit),
      (MapWorld.system 4096).Admissible {} (cs ++ [c]) →
      let w := (MapWorld.system 4096).exec {} cs
      let w' := (MapWorld.system 4096).exec {} (cs ++ [c])
      (w.call 4096 noExemptions c.2 c.1).2 = none ∧ w'.Mirrors 4096 := by
  intro h
  have herr := (h [(.mmap false 0 100 4096, ())] (.munmap 4096 4096, ()) (by decide +kernel)).1
  revert herr
  decide +kernel

end Dtest
