import Mathlib.Data.Finset.Card
import Mathlib.Data.List.Range
import Mathlib.Logic.Function.Basic

/-!
# File descriptors of a sandboxed run

`Sandbox::_sandbox_stdio` puts pipes in the place of the descriptors 0, 1 and 2, and
`_unsandbox_stdio` puts the saved descriptors back.  Only the descriptor table is modelled: the
bytes written and read do not touch it.  Of each pipe one end stays open, so that every run leaves
three more descriptors open (`stdio_leaks`).
-/

namespace Dtest

universe u

/-- The descriptor table of a process: the open file of each descriptor.  Descriptors from `limit`
on are closed. -/
structure Descriptors (F : Type u) where
  file : ℕ → Option F
  limit : ℕ
  closed : ∀ fd, limit ≤ fd → file fd = none

namespace Descriptors

variable {F : Type u}

/-- The lowest descriptor that is not open. -/
def lowest (t : Descriptors F) : ℕ :=
  ((List.range t.limit).find? fun fd => (t.file fd).isNone).getD t.limit

/-- Descriptor `fd` refers to the given file, or is closed. -/
def set (t : Descriptors F) (fd : ℕ) (f : Option F) : Descriptors F where
  file := Function.update t.file fd f
  limit := max t.limit (fd + 1)
  closed := fun q hq => by
    rw [Function.update_of_ne (by omega)]
    exact t.closed q (by omega)

/-- `close`. -/
def close (t : Descriptors F) (fd : ℕ) : Descriptors F := t.set fd none

/-- `dup` of an open descriptor. -/
def dup (t : Descriptors F) (fd : ℕ) : Descriptors F × ℕ := (t.set t.lowest (t.file fd), t.lowest)

/-- `dup2`. -/
def dup2 (t : Descriptors F) (oldfd newfd : ℕ) : Descriptors F := t.set newfd (t.file oldfd)

/-- `pipe2`: the two ends of a pipe, and their descriptors. -/
def pipe2 (t : Descriptors F) (ends : F × F) : Descriptors F × ℕ × ℕ :=
  let t' := t.set t.lowest (some ends.1)
  (t'.set t'.lowest (some ends.2), t.lowest, t'.lowest)

/-- `_saved_stdio[i]` and `_sandboxed_stdio[i]`. -/
structure Saved where
  saved : ℕ
  sandboxed : ℕ

/-- A standard descriptor is saved and replaced by an end of a new pipe: the read end of stdin, the
write end of the others. -/
def redirect (t : Descriptors F) (fd : ℕ) (input : Bool) (ends : F × F) : Descriptors F × Saved :=
  let (t, saved) := t.dup fd
  let (t, rd, wr) := t.pipe2 ends
  if input then (t.dup2 rd fd, ⟨saved, wr⟩) else (t.dup2 wr fd, ⟨saved, rd⟩)

/-- `Sandbox::_sandbox_stdio` with the pipes it creates. -/
def sandboxStdio (t : Descriptors F) (pipes : Fin 3 → F × F) :
    Descriptors F × Saved × Saved × Saved :=
  let (t, stdin) := t.redirect 0 true (pipes 0)
  let t := t.close stdin.sandboxed
  let (t, stdout) := t.redirect 1 false (pipes 1)
  let (t, stderr) := t.redirect 2 false (pipes 2)
  (t, stdin, stdout, stderr)

/-- `Sandbox::_unsandbox_stdio`. -/
def unsandboxStdio (t : Descriptors F) (stdin stdout stderr : Saved) : Descriptors F :=
  -- stdin
  let t := t.close 0
  let t := t.dup2 stdin.saved 0
  let t := t.close stdin.saved
  -- stdout
  let t := t.close 1
  let t := t.close stdout.sandboxed
  let t := t.dup2 stdout.saved 1
  let t := t.close stdout.saved
  -- stderr
  let t := t.close 2
  let t := t.close stderr.sandboxed
  let t := t.dup2 stderr.saved 2
  t.close stderr.saved

/-- The table after a run. -/
def run (t : Descriptors F) (pipes : Fin 3 → F × F) : Descriptors F :=
  let (t, stdin, stdout, stderr) := t.sandboxStdio pipes
  t.unsandboxStdio stdin stdout stderr

/-- The table after a sequence of runs. -/
def runs (t : Descriptors F) (runs : List (Fin 3 → F × F)) : Descriptors F := runs.foldl run t

/-! ## System calls -/

variable (t : Descriptors F)

theorem file_set (fd : ℕ) (f : Option F) (q : ℕ) :
    (t.set fd f).file q = if q = fd then f else t.file q := by
  show Function.update t.file fd f q = _
  rw [Function.update_apply]

@[simp] theorem file_set_self (fd : ℕ) (f : Option F) : (t.set fd f).file fd = f := by
  rw [file_set, if_pos rfl]

theorem file_set_of_ne {fd q : ℕ} (h : q ≠ fd) (f : Option F) : (t.set fd f).file q = t.file q := by
  rw [file_set, if_neg h]

/-- The lowest free descriptor is not open. -/
theorem file_lowest : t.file t.lowest = none := by
  unfold lowest
  cases h : (List.range t.limit).find? fun fd => (t.file fd).isNone with
  | none => exact t.closed _ le_rfl
  | some fd => simpa using List.find?_some h

/-- An open descriptor is not the lowest free one. -/
theorem ne_lowest {fd : ℕ} (h : t.file fd ≠ none) : fd ≠ t.lowest := fun e =>
  h (e ▸ t.file_lowest)

/-- `pipe2` opens two descriptors that were closed. -/
theorem pipe2_spec (ends : F × F) :
    (t.pipe2 ends).2.1 ≠ (t.pipe2 ends).2.2 ∧
      t.file (t.pipe2 ends).2.1 = none ∧ t.file (t.pipe2 ends).2.2 = none ∧
      (t.pipe2 ends).1.file (t.pipe2 ends).2.1 = some ends.1 ∧
      (t.pipe2 ends).1.file (t.pipe2 ends).2.2 = some ends.2 ∧
      ∀ q, q ≠ (t.pipe2 ends).2.1 → q ≠ (t.pipe2 ends).2.2 →
        (t.pipe2 ends).1.file q = t.file q := by
  let t' := t.set t.lowest (some ends.1)
  have hne : t.lowest ≠ t'.lowest := t'.ne_lowest (by rw [file_set_self]; exact nofun)
  refine ⟨hne, t.file_lowest, ?_, ?_, file_set_self .., fun q hq hq' => ?_⟩
  · have h := t'.file_lowest
    rwa [file_set_of_ne _ hne.symm] at h
  · exact (file_set_of_ne _ hne _).trans (file_set_self ..)
  · exact (file_set_of_ne _ hq' _).trans (file_set_of_ne _ hq _)

/-- `t'` is `t` with three more descriptors open: the one that keeps the old file of `fd`, the end
of the pipe that the parent uses, and the other end, of which a copy takes the old place. -/
structure Redirected (t : Descriptors F) (fd : ℕ) (t' : Descriptors F) (s : Saved) (kept : ℕ) :
    Prop where
  nodup : [fd, s.saved, kept, s.sandboxed].Nodup
  saved_closed : t.file s.saved = none
  kept_closed : t.file kept = none
  sandboxed_closed : t.file s.sandboxed = none
  fd_open : t'.file fd ≠ none
  saved : t'.file s.saved = t.file fd
  kept_open : t'.file kept ≠ none
  sandboxed_open : t'.file s.sandboxed ≠ none
  other : ∀ q, q ≠ fd → q ≠ s.saved → q ≠ kept → q ≠ s.sandboxed → t'.file q = t.file q

section Redirected

variable {t} {t' : Descriptors F} {fd kept q : ℕ} {s : Saved}

/-- What was open is not one of the new descriptors. -/
theorem Redirected.ne_new (h : t.Redirected fd t' s kept) (hq : t.file q ≠ none) :
    q ≠ s.saved ∧ q ≠ kept ∧ q ≠ s.sandboxed := by
  refine ⟨?_, ?_, ?_⟩
  · rintro rfl
    exact hq h.saved_closed
  · rintro rfl
    exact hq h.kept_closed
  · rintro rfl
    exact hq h.sandboxed_closed

theorem Redirected.keeps (h : t.Redirected fd t' s kept) (hq : t.file q ≠ none) (hfd : q ≠ fd) :
    t'.file q = t.file q := by
  obtain ⟨h1, h2, h3⟩ := h.ne_new hq
  exact h.other q hfd h1 h2 h3

/-- What was open still is. -/
theorem Redirected.still_open (h : t.Redirected fd t' s kept) (hq : t.file q ≠ none) :
    t'.file q ≠ none := by
  by_cases hfd : q = fd
  · rw [hfd]
    exact h.fd_open
  · rwa [h.keeps hq hfd]

/-- What is closed was closed before. -/
theorem Redirected.was_closed (h : t.Redirected fd t' s kept) (hq : t'.file q = none) :
    t.file q = none := by
  by_contra hopen
  exact h.still_open hopen hq

end Redirected

theorem redirect_spec {fd : ℕ} (hfd : t.file fd ≠ none) (input : Bool) (ends : F × F) {s : Saved}
    {t' : Descriptors F} (h : t.redirect fd input ends = (t', s)) :
    ∃ kept, t.Redirected fd t' s kept := by
  have hsaved := t.ne_lowest hfd
  have hdup : ∀ q, q ≠ t.lowest → (t.dup fd).1.file q = t.file q :=
    fun q hq => file_set_of_ne _ hq _
  have hdup' : (t.dup fd).1.file t.lowest = t.file fd := file_set_self ..
  obtain ⟨hne, hrd, hwr, hrd', hwr', hother⟩ := (t.dup fd).1.pipe2_spec ends
  rcases hp : (t.dup fd).1.pipe2 ends with ⟨t'', rd, wr⟩
  rw [hp] at hne hrd hwr hrd' hwr' hother
  dsimp only at hne hrd hwr hrd' hwr' hother
  have hrds : rd ≠ t.lowest := fun e => hfd (by rw [← hdup', ← e, hrd])
  have hwrs : wr ≠ t.lowest := fun e => hfd (by rw [← hdup', ← e, hwr])
  rw [hdup rd hrds] at hrd
  rw [hdup wr hwrs] at hwr
  have hrdfd : fd ≠ rd := fun e => hfd (e ▸ hrd)
  have hwrfd : fd ≠ wr := fun e => hfd (e ▸ hwr)
  have hsaved' : t''.file t.lowest = t.file fd := (hother _ hrds.symm hwrs.symm).trans hdup'
  simp only [redirect, dup] at h hp
  rw [hp] at h
  dsimp only at h
  -- what the last step, the copy of one end of the pipe to `fd`, leaves alone
  have hlast (f : Option F) (hf : f ≠ none) : (t''.set fd f).file fd ≠ none ∧
      (t''.set fd f).file t.lowest = t.file fd ∧
      (t''.set fd f).file rd ≠ none ∧ (t''.set fd f).file wr ≠ none ∧
      ∀ q, q ≠ fd → q ≠ t.lowest → q ≠ rd → q ≠ wr → (t''.set fd f).file q = t.file q := by
    refine ⟨?_, (file_set_of_ne _ hsaved.symm _).trans hsaved', ?_, ?_, fun q hq hqs hqr hqw => ?_⟩
    · rwa [file_set_self]
    · rw [file_set_of_ne _ hrdfd.symm, hrd']
      exact nofun
    · rw [file_set_of_ne _ hwrfd.symm, hwr']
      exact nofun
    · rw [file_set_of_ne _ hq, hother q hqr hqw]
      exact hdup q hqs
  cases input with
  | true =>
    obtain ⟨rfl, rfl⟩ := Prod.mk.inj h
    obtain ⟨h0, h1, h2, h3, h4⟩ := hlast (t''.file rd) (by rw [hrd']; exact nofun)
    exact ⟨rd, by simp [hsaved, hrdfd, hwrfd, hrds.symm, hwrs.symm, hne], t.file_lowest,
      hrd, hwr, h0, h1, h2, h3, h4⟩
  | false =>
    obtain ⟨rfl, rfl⟩ := Prod.mk.inj h
    obtain ⟨h0, h1, h2, h3, h4⟩ := hlast (t''.file wr) (by rw [hwr']; exact nofun)
    exact ⟨wr, by simp [hsaved, hrdfd, hwrfd, hrds.symm, hwrs.symm, hne.symm],
      t.file_lowest, hwr, hrd, h0, h1, h3, h2, fun q hq hqs hqw hqr => h4 q hq hqs hqr hqw⟩

/-- The descriptors the parent works with while the test runs. -/
def held (stdin stdout stderr : Saved) : List ℕ :=
  [0, 1, 2, stdin.saved, stdout.saved, stdout.sandboxed, stderr.saved, stderr.sandboxed]

/-- The saved files are copied back, their copies and the parent's ends of the pipes closed. -/
theorem unsandboxStdio_spec {s0 s1 s2 : Saved} (hd : (held s0 s1 s2).Nodup) :
    (t.unsandboxStdio s0 s1 s2).file 0 = t.file s0.saved ∧
      (t.unsandboxStdio s0 s1 s2).file 1 = t.file s1.saved ∧
      (t.unsandboxStdio s0 s1 s2).file 2 = t.file s2.saved ∧
      (∀ fd ∈ [s0.saved, s1.saved, s1.sandboxed, s2.saved, s2.sandboxed],
        (t.unsandboxStdio s0 s1 s2).file fd = none) ∧
      ∀ fd, fd ∉ held s0 s1 s2 → (t.unsandboxStdio s0 s1 s2).file fd = t.file fd := by
  simp only [held, List.nodup_cons, List.mem_cons, not_or, List.not_mem_nil, not_false_eq_true,
    List.nodup_nil, and_true] at hd
  obtain ⟨⟨h01, h02, h0⟩, ⟨h12, h1⟩, h2, hs0, hs1, hb1, hs2⟩ := hd
  have hfile (q : ℕ) : (t.unsandboxStdio s0 s1 s2).file q =
      if q = s2.saved then none else if q = 2 then t.file s2.saved
        else if q = s2.sandboxed then none
      else if q = s1.saved then none else if q = 1 then t.file s1.saved
      else if q = s1.sandboxed then none else if q = s0.saved then none
      else if q = 0 then t.file s0.saved else t.file q := by
    simp only [unsandboxStdio, close, dup2, file_set]
    grind only
  refine ⟨?_, ?_, ?_, ?_, fun fd hfd => ?_⟩
  · rw [hfile]
    grind only
  · rw [hfile]
    grind only
  · rw [hfile]
    grind only
  · simp only [List.forall_mem_cons, hfile]
    grind only [List.not_mem_nil]
  · simp only [held, List.mem_cons, not_or, List.not_mem_nil, not_false_eq_true, and_true] at hfd
    rw [hfile]
    grind only

/-- The table while the test runs: the old files are saved, one end of each pipe is open besides the
one the parent uses, and nothing else has changed. -/
theorem sandboxStdio_spec (h0 : t.file 0 ≠ none) (h1 : t.file 1 ≠ none) (h2 : t.file 2 ≠ none)
    (pipes : Fin 3 → F × F) {t' : Descriptors F} {s0 s1 s2 : Saved}
    (h : t.sandboxStdio pipes = (t', s0, s1, s2)) :
    ∃ k0 k1 k2, ([k0, k1, k2] ++ held s0 s1 s2).Nodup ∧
      t'.file s0.saved = t.file 0 ∧ t'.file s1.saved = t.file 1 ∧ t'.file s2.saved = t.file 2 ∧
      (∀ fd ∈ [k0, k1, k2], t.file fd = none ∧ t'.file fd ≠ none) ∧
      (∀ fd ∈ [s0.saved, s1.saved, s1.sandboxed, s2.saved, s2.sandboxed], t.file fd = none) ∧
      ∀ fd, fd ∉ [k0, k1, k2] ++ held s0 s1 s2 → t'.file fd = t.file fd := by
  rcases hr0 : t.redirect 0 true (pipes 0) with ⟨t0, r0⟩
  obtain ⟨k0, ht⟩ := t.redirect_spec h0 true (pipes 0) hr0
  -- the parent closes its end of the pipe of stdin at once
  generalize hclose : t0.close r0.sandboxed = u0
  have hu (q : ℕ) (hq : q ≠ r0.sandboxed) : u0.file q = t0.file q := by
    rw [← hclose]
    exact file_set_of_ne _ hq _
  have hd0 := ht.nodup
  simp only [List.nodup_cons, List.mem_cons, not_or, List.not_mem_nil, not_false_eq_true, and_true,
    List.nodup_nil] at hd0
  obtain ⟨⟨h0s, h0k, h0b⟩, ⟨hsk, hsb⟩, hkb⟩ := hd0
  have hu1 : u0.file 1 = t.file 1 := (hu 1 (ht.ne_new h1).2.2).trans (ht.keeps h1 (by decide))
  have hu2 : u0.file 2 = t.file 2 := (hu 2 (ht.ne_new h2).2.2).trans (ht.keeps h2 (by decide))
  have hus : u0.file r0.saved = t.file 0 := (hu _ hsb).trans ht.saved
  have huf : u0.file 0 ≠ none := by
    rw [hu 0 h0b]
    exact ht.fd_open
  have huk : u0.file k0 ≠ none := by
    rw [hu k0 hkb]
    exact ht.kept_open
  have hother0 (q : ℕ) (hq : q ≠ 0) (hqs : q ≠ r0.saved) (hqk : q ≠ k0) : u0.file q = t.file q := by
    by_cases hqb : q = r0.sandboxed
    · rw [hqb, ht.sandboxed_closed, ← hclose]
      exact file_set_self ..
    · exact (hu q hqb).trans (ht.other q hq hqs hqk hqb)
  have hclosed0 (q : ℕ) (hq : u0.file q = none) : t.file q = none := by
    by_cases hqb : q = r0.sandboxed
    · rw [hqb]
      exact ht.sandboxed_closed
    · exact ht.was_closed ((hu q hqb).symm.trans hq)
  rcases hr1 : u0.redirect 1 false (pipes 1) with ⟨t1, r1⟩
  obtain ⟨k1, hu0⟩ := u0.redirect_spec (hu1 ▸ h1) false (pipes 1) hr1
  have h1s : (1 : ℕ) ≠ r0.saved ∧ (1 : ℕ) ≠ k0 := ⟨(ht.ne_new h1).1, (ht.ne_new h1).2.1⟩
  have h2s : (2 : ℕ) ≠ r0.saved ∧ (2 : ℕ) ≠ k0 := ⟨(ht.ne_new h2).1, (ht.ne_new h2).2.1⟩
  have hv2 : t1.file 2 = t.file 2 := (hu0.keeps (hu2 ▸ h2) (by decide)).trans hu2
  have hvs : t1.file r0.saved = t.file 0 := (hu0.keeps (hus ▸ h0) h1s.1.symm).trans hus
  rcases hr2 : t1.redirect 2 false (pipes 2) with ⟨t2, r2⟩
  obtain ⟨k2, hv⟩ := t1.redirect_spec (hv2 ▸ h2) false (pipes 2) hr2
  obtain ⟨rfl, rfl, rfl, rfl⟩ : t2 = t' ∧ r0 = s0 ∧ r1 = s1 ∧ r2 = s2 := by
    simpa [sandboxStdio, hr0, hclose, hr1, hr2] using h
  -- what is open when a descriptor is redirected is none of the new ones
  have ha0 := hu0.ne_new huf
  have ha2 := hu0.ne_new (hu2 ▸ h2)
  have has := hu0.ne_new (hus ▸ h0)
  have hak := hu0.ne_new huk
  have hb0 := hv.ne_new (hu0.still_open huf)
  have hb1 := hv.ne_new hu0.fd_open
  have hbs := hv.ne_new (hvs ▸ h0)
  have hbk := hv.ne_new (hu0.still_open huk)
  have hbs1 := hv.ne_new (hu0.saved ▸ hu1 ▸ h1)
  have hbk1 := hv.ne_new hu0.kept_open
  have hbb1 := hv.ne_new hu0.sandboxed_open
  have hd1 := hu0.nodup
  have hd2 := hv.nodup
  simp only [List.nodup_cons, List.mem_cons, not_or, List.not_mem_nil, not_false_eq_true] at hd1 hd2
  refine ⟨k0, k1, k2, ?_, ?_, ?_, ?_, ?_, ?_, ?_⟩
  · simp only [held, List.cons_append, List.nil_append, List.nodup_cons, List.mem_cons, not_or,
      List.not_mem_nil, not_false_eq_true, List.nodup_nil, and_true]
    grind only
  · rw [hv.keeps (hvs ▸ h0) h2s.1.symm, hvs]
  · rw [hv.keeps (hu0.saved ▸ hu1 ▸ h1) ha2.1.symm, hu0.saved, hu1]
  · rw [hv.saved, hv2]
  · simp only [List.forall_mem_cons]
    exact ⟨⟨ht.kept_closed, hv.still_open (hu0.still_open huk)⟩,
      ⟨hclosed0 _ hu0.kept_closed, hv.still_open hu0.kept_open⟩,
      ⟨hclosed0 _ (hu0.was_closed hv.kept_closed), hv.kept_open⟩, nofun⟩
  · simp only [List.forall_mem_cons]
    exact ⟨ht.saved_closed, hclosed0 _ hu0.saved_closed, hclosed0 _ hu0.sandboxed_closed,
      hclosed0 _ (hu0.was_closed hv.saved_closed), hclosed0 _ (hu0.was_closed hv.sandboxed_closed),
      nofun⟩
  · intro q hq
    simp only [held, List.cons_append, List.nil_append, List.mem_cons, not_or, List.not_mem_nil,
      not_false_eq_true, and_true] at hq
    obtain ⟨hk0q, hk1q, hk2q, h0q, h1q, h2q, hs0q, hs1q, hb1q, hs2q, hb2q⟩ := hq
    rw [hv.other q h2q hs2q hk2q hb2q, hu0.other q h1q hs1q hk1q hb1q, hother0 q h0q hs0q hk0q]

/-- `t'` is `t` with `n` more descriptors open. -/
def Leaks (t t' : Descriptors F) (n : ℕ) : Prop :=
  ∃ leaked : Finset ℕ, leaked.card = n ∧ (∀ fd ∈ leaked, t.file fd = none ∧ t'.file fd ≠ none) ∧
    ∀ fd, fd ∉ leaked → t'.file fd = t.file fd

section Leaks

variable {t} {t' t'' : Descriptors F} {n m : ℕ}

theorem Leaks.refl (t : Descriptors F) : t.Leaks t 0 :=
  ⟨∅, rfl, fun fd hfd => absurd hfd (Finset.notMem_empty fd), fun _ _ => rfl⟩

theorem Leaks.trans (h : t.Leaks t' n) (h' : t'.Leaks t'' m) : t.Leaks t'' (n + m) := by
  obtain ⟨leaked, rfl, hleaked, hother⟩ := h
  obtain ⟨leaked', rfl, hleaked', hother'⟩ := h'
  have hdisj : Disjoint leaked leaked' := Finset.disjoint_left.2 fun fd hfd hfd' =>
    (hleaked fd hfd).2 (hleaked' fd hfd').1
  refine ⟨leaked ∪ leaked', Finset.card_union_of_disjoint hdisj, fun fd hfd => ?_, fun fd hfd => ?_⟩
  · rcases Finset.mem_union.1 hfd with hfd | hfd
    · rw [hother' fd (Finset.disjoint_left.1 hdisj hfd)]
      exact hleaked fd hfd
    · rw [← hother fd (Finset.disjoint_right.1 hdisj hfd)]
      exact hleaked' fd hfd
  · rw [Finset.mem_union, not_or] at hfd
    exact (hother' fd hfd.2).trans (hother fd hfd.1)

/-- A descriptor that is open stays open. -/
theorem Leaks.still_open (h : t.Leaks t' n) {fd : ℕ} (hfd : t.file fd ≠ none) :
    t'.file fd ≠ none := by
  obtain ⟨leaked, -, hleaked, hother⟩ := h
  rw [hother fd fun hmem => hfd (hleaked fd hmem).1]
  exact hfd

/-- A table that is the same as before has leaked nothing. -/
theorem Leaks.eq_zero (h : t.Leaks t' n) (hfile : t'.file = t.file) : n = 0 := by
  obtain ⟨leaked, rfl, hleaked, -⟩ := h
  rw [Finset.card_eq_zero]
  apply Finset.eq_empty_of_forall_notMem
  intro fd hfd
  obtain ⟨hclosed, hopen⟩ := hleaked fd hfd
  rw [hfile] at hopen
  exact hopen hclosed

end Leaks

/-- After a run the table has three more descriptors open than before. -/
theorem run_leaks (h0 : t.file 0 ≠ none) (h1 : t.file 1 ≠ none) (h2 : t.file 2 ≠ none)
    (pipes : Fin 3 → F × F) : t.Leaks (t.run pipes) 3 := by
  rcases hs : t.sandboxStdio pipes with ⟨t', s0, s1, s2⟩
  obtain ⟨k0, k1, k2, hd, hs0, hs1, hs2, hleak, hfree, hother⟩ :=
    t.sandboxStdio_spec h0 h1 h2 pipes hs
  obtain ⟨hdk, hdheld, hdisj⟩ := List.nodup_append.1 hd
  have hrun : t.run pipes = t'.unsandboxStdio s0 s1 s2 := by simp only [run, hs]
  obtain ⟨hr0, hr1, hr2, hclosed, hkeep⟩ := t'.unsandboxStdio_spec hdheld
  rw [← hrun] at hr0 hr1 hr2 hclosed hkeep
  refine ⟨[k0, k1, k2].toFinset, List.toFinset_card_of_nodup hdk, fun fd hfd => ?_,
    fun fd hfd => ?_⟩
  · -- the other ends of the pipes are never touched again
    have hmem := List.mem_toFinset.1 hfd
    have hnot : fd ∉ held s0 s1 s2 := fun hheld => hdisj fd hmem fd hheld rfl
    rw [hkeep fd hnot]
    exact hleak fd hmem
  · have hnot : fd ∉ [k0, k1, k2] := fun hmem => hfd (List.mem_toFinset.2 hmem)
    by_cases hheld : fd ∈ held s0 s1 s2
    · -- put back, or closed again
      have hback : fd = 0 ∨ fd = 1 ∨ fd = 2 ∨
          fd ∈ [s0.saved, s1.saved, s1.sandboxed, s2.saved, s2.sandboxed] := by
        simpa only [held, List.mem_cons] using hheld
      rcases hback with rfl | rfl | rfl | hmem
      · exact hr0.trans hs0
      · exact hr1.trans hs1
      · exact hr2.trans hs2
      · exact (hclosed fd hmem).trans (hfree fd hmem).symm
    · rw [hkeep fd hheld]
      exact hother fd fun hmem => (List.mem_append.1 hmem).elim hnot hheld

theorem runs_leaks (h0 : t.file 0 ≠ none) (h1 : t.file 1 ≠ none) (h2 : t.file 2 ≠ none)
    (rs : List (Fin 3 → F × F)) : t.Leaks (t.runs rs) (3 * rs.length) := by
  induction rs generalizing t with
  | nil => exact Leaks.refl t
  | cons pipes rs ih =>
    have hrun := t.run_leaks h0 h1 h2 pipes
    have hrest := ih (t.run pipes) (hrun.still_open h0) (hrun.still_open h1) (hrun.still_open h2)
    rw [List.length_cons, Nat.mul_succ, Nat.add_comm]
    exact hrun.trans hrest

end Descriptors

open Descriptors

/-- After `k` runs exactly `3 * k` descriptors are open that were not open before, and everything
else is as before: the table is the same only after no run at all. -/
theorem stdio_leaks {F : Type*} (t : Descriptors F) (h0 : t.file 0 ≠ none) (h1 : t.file 1 ≠ none)
    (h2 : t.file 2 ≠ none) (rs : List (Fin 3 → F × F)) :
    (∃ leaked : Finset ℕ, leaked.card = 3 * rs.length ∧
      (∀ fd ∈ leaked, t.file fd = none ∧ (t.runs rs).file fd ≠ none) ∧
      ∀ fd, fd ∉ leaked → (t.runs rs).file fd = t.file fd) ∧
    ((t.runs rs).file = t.file ↔ rs = []) := by
  have hleaks := t.runs_leaks h0 h1 h2 rs
  refine ⟨hleaks, fun hfile => ?_, ?_⟩
  · have hzero := hleaks.eq_zero hfile
    exact List.length_eq_zero_iff.1 (by omega)
  · rintro rfl
    rfl

/-- The files 10 to 15 as ends of pipes. -/
def threePipes (i : Fin 3) : ℕ × ℕ := (10 + 2 * i, 11 + 2 * i)

/-- Three descriptors, of which 0, 1 and 2 are open. -/
def threeOpen : Descriptors ℕ where
  file fd := if fd < 3 then some fd else none
  limit := 3
  closed := fun fd hfd => if_neg (by omega)

/-- Runs one after another leave three more descriptors open each. -/
theorem stdio_leaks_twoRuns :
    ∃ leaked : Finset ℕ, leaked.card = 3 * [threePipes, threePipes].length ∧
      ∀ fd ∈ leaked, threeOpen.file fd = none ∧
        (threeOpen.runs [threePipes, threePipes]).file fd ≠ none :=
  let ⟨leaked, hcard, hleaked, _⟩ :=
    (stdio_leaks threeOpen nofun nofun nofun [threePipes, threePipes]).1
  ⟨leaked, hcard, hleaked⟩

/-- The write end of the pipe that stood for stdout is still open after the run, as descriptor 7. -/
theorem stdout_pipe_left_open : ¬ (threeOpen.runs [threePipes]).file = threeOpen.file := fun h =>
  absurd (congrFun h 7) (by decide)

end Dtest
