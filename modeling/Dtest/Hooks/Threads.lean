import Dtest.Hooks.HeapFaithful
import Mathlib.Logic.Function.Basic

/-!
# The heap hooks under interleaving

Each hook is two atomic steps, in the order of the code: for `malloc` and `realloc` the call of libc
and then the operation of the tracker, for `free` the other way round.  Between the two steps other
threads may run, and the allocator may hand out an address that a `realloc` has just given up.

`ThreadsInv` says what `_blocks` holds at each address while hooks are in progress.  It is kept as
long as no thread reports a block at an address whose old entry another thread has yet to move
(`threads_faithful`, in the next module).
-/

universe u v

namespace Dtest

/-- Where a thread is: outside the hooks, or between the two steps of one, with its arguments and
the answer of libc. -/
inductive Pending
  | idle
  | malloc (size ptr : ℕ)
  | realloc (oldPtr size ptr : ℕ)
  | free (ptr : ℕ)
  deriving DecidableEq

namespace Pending

/-- The live block that the hook in progress allocates, resizes or frees. -/
def inFlux : Pending → Option ℕ
  | .idle => none
  | .malloc _ ptr | .realloc _ _ ptr => if ptr = 0 then none else some ptr
  | .free ptr => some ptr

/-- The address whose entry a `retrack` is still to move. -/
def moving : Pending → Option ℕ
  | .realloc oldPtr _ ptr => if ptr = 0 then none else some oldPtr
  | _ => none

/-- The address that the second step reports as a new one. -/
def reports : Pending → Option ℕ
  | .malloc _ ptr | .realloc _ _ ptr => if ptr = 0 then none else some ptr
  | _ => none

/-- The size that the allocator has on record for the block in flux. -/
def size : Pending → Option ℕ
  | .malloc size _ | .realloc _ size _ => some size
  | _ => none

end Pending

variable {T : Type v} {σ : Type u} [DecidableEq T]

/-- The tracker, the allocator and the threads. -/
structure ThreadsWorld (T : Type v) (σ : Type u) where
  memory : Memory σ := { tracking := true }
  heap : Heap := .empty
  pending : T → Pending := fun _ => .idle

/-- One atomic step of a thread: the first step of a hook, or the second one of the hook it is
in. -/
inductive ThreadEvent (T : Type v) (σ : Type u)
  | malloc (t : T) (size ptr : ℕ)
  | realloc (t : T) (oldPtr size ptr : ℕ)
  | free (t : T) (ptr : ℕ) (callstack : σ)
  | finish (t : T) (callstack : σ)

namespace ThreadsWorld

variable (callocTmp : ℕ) (w : ThreadsWorld T σ)

/-- A step, with the fatal error that the tracker raises in it. -/
def act (ex : Exemptions σ) : ThreadEvent T σ → ThreadsWorld T σ × Option SandboxFatalException
  | .malloc t size ptr =>
    ({ w with
      heap := Libc.alloc w.heap size ptr
      pending := Function.update w.pending t (.malloc size ptr) }, none)
  | .realloc t oldPtr size ptr =>
    ({ w with
      heap := Libc.realloc w.heap oldPtr size ptr
      pending := Function.update w.pending t (.realloc oldPtr size ptr) }, none)
  | .free t ptr cs =>
    match Hooks.free ex w.memory callocTmp ptr cs with
    | none => (w, none)
    | some (m, some e) => ({ w with memory := m }, some e)
    | some (m, none) =>
      ({ w with memory := m, pending := Function.update w.pending t (.free ptr) }, none)
  | .finish t cs =>
    let pending := Function.update w.pending t .idle
    match w.pending t with
    | .idle => (w, none)
    | .malloc size ptr =>
      ({ w with memory := Hooks.malloc ex w.memory size ptr cs, pending := pending }, none)
    | .realloc oldPtr size ptr =>
      let r := Hooks.realloc ex w.memory oldPtr size ptr cs
      ({ w with memory := r.1, pending := pending }, r.2)
    | .free ptr => ({ w with heap := Libc.free w.heap ptr, pending := pending }, none)

/-- A block that the program may pass to `free` and `realloc`: it is live, and no hook is about to
hand it out, to resize it or to free it. -/
def Owned (ptr : ℕ) : Prop :=
  (w.heap.find? ptr).isSome ∧ ∀ t, (w.pending t).inFlux ≠ some ptr

/-- The threads run a correct program while tracking is on, and the allocator keeps its contract. -/
def Allowed : ThreadEvent T σ → Prop
  | .malloc t size ptr =>
    w.memory.Ready ∧ w.pending t = .idle ∧ 0 < size ∧ Libc.CanAlloc w.heap ptr ∧ ptr ≠ callocTmp
  | .realloc t oldPtr size ptr =>
    w.memory.Ready ∧ w.pending t = .idle ∧ 0 < size ∧ w.Owned oldPtr ∧
      Libc.CanRealloc w.heap oldPtr size ptr ∧ ptr ≠ callocTmp
  | .free t ptr _ => w.memory.Ready ∧ w.pending t = .idle ∧ w.Owned ptr
  | .finish t _ => w.memory.Ready ∧ w.pending t ≠ .idle

/-- No thread reports a block at an address whose old entry another thread has yet to move. -/
def Sound : ThreadEvent T σ → Prop
  | .finish t _ => ∀ ptr ∈ (w.pending t).reports, ∀ u, u ≠ t → (w.pending u).moving ≠ some ptr
  | _ => True

/-- The threads of a program none of whose call stacks is exempt. -/
def system : Guarded (ThreadsWorld T σ) (ThreadEvent T σ) :=
  ⟨Allowed callocTmp, fun w ev => (w.act callocTmp noExemptions ev).1⟩

end ThreadsWorld

/-- What `_blocks` (with the entry `entry`) and the allocator (with the size `live`) hold at the
address `a` while hooks are in progress: `f` is the thread that has the block there in flux, and `m`
the one that is still to move the entry. -/
structure InvAt (pending : T → Pending) (a : ℕ) (entry : Option (Allocation σ)) (live : Option ℕ)
    (f m : Option T) : Prop where
  flux_iff : ∀ t, (pending t).inFlux = some a ↔ f = some t
  moving_iff : ∀ t, (pending t).moving = some a ↔ m = some t
  /-- A block in flux is live, with the size just requested. -/
  flux_live : f.isSome → live.isSome
  flux_size : ∀ t s, f = some t → (pending t).size = some s → live = some s
  /-- An entry that is to be moved is there; if its address is live, the block is not reported
  yet. -/
  moving_present : m.isSome → entry.isSome
  moving_flux : m.isSome → live.isSome → f.isSome
  /-- Otherwise a block in flux has no entry, and any other block has the entry that mirrors it. -/
  flux_absent : f.isSome → m = none → entry = none
  settled : f = none → m = none → entry.map Allocation.size = live

/-- The invariant of the threads: at every address `InvAt`. -/
def ThreadsInv (b : SortedMap ℕ (Allocation σ)) (heap : Heap) (pending : T → Pending) : Prop :=
  ∀ a, ∃ f m, InvAt pending a (b.find? a) (heap.find? a) f m

namespace InvAt

variable {pending : T → Pending} {a : ℕ} {entry : Option (Allocation σ)} {live : Option ℕ} {t : T}
  {p : Pending} {f m : Option T}

/-- Where thread `t` goes on to `p` and neither `p` nor its last place involve `a`. -/
theorem frame (h : InvAt pending a entry live f m) (h1 : (pending t).inFlux ≠ some a)
    (h2 : (pending t).moving ≠ some a) (h3 : p.inFlux ≠ some a) (h4 : p.moving ≠ some a) :
    InvAt (Function.update pending t p) a entry live f m := by
  have hf : f ≠ some t := fun hf => h1 ((h.flux_iff t).2 hf)
  have hm : m ≠ some t := fun hm => h2 ((h.moving_iff t).2 hm)
  refine ⟨fun u => ?_, fun u => ?_, h.flux_live, fun u s hu hs => ?_, h.moving_present,
    h.moving_flux, h.flux_absent, h.settled⟩
  · rw [Function.update_apply]
    split_ifs with hut
    · rw [hut]
      exact iff_of_false h3 hf
    · exact h.flux_iff u
  · rw [Function.update_apply]
    split_ifs with hut
    · rw [hut]
      exact iff_of_false h4 hm
    · exact h.moving_iff u
  · have hut : u ≠ t := fun hut => hf (hut ▸ hu)
    rw [Function.update_of_ne hut] at hs
    exact h.flux_size u s hu hs

/-- How the thread in flux changes with the place of thread `t`. -/
theorem update_iff {g : Pending → Option ℕ} {f f' : Option T}
    (h : ∀ u, g (pending u) = some a ↔ f = some u) (hp : g p = some a ↔ f' = some t)
    (hne : ∀ u, u ≠ t → (f' = some u ↔ f = some u)) (u : T) :
    g (Function.update pending t p u) = some a ↔ f' = some u := by
  rw [Function.update_apply]
  split_ifs with hut
  · rw [hp, hut]
  · rw [h, hne u hut]

/-- The allocator hands out the address. -/
theorem handOut (h : InvAt pending a entry none f m) {s : ℕ} (ht : pending t = .idle)
    (hp : p.inFlux = some a) (hm : p.moving ≠ some a) (hs : p.size = some s) :
    ∃ f m, InvAt (Function.update pending t p) a entry (some s) f m := by
  have hf : f = none := by
    by_contra hf
    exact absurd (h.flux_live (Option.isSome_iff_ne_none.2 hf)) (by simp)
  have hmt : m ≠ some t := fun hm => by
    have := (h.moving_iff t).2 hm
    rw [ht] at this
    cases this
  subst hf
  refine ⟨some t, m, update_iff h.flux_iff (by simp [hp]) (by simp +contextual [eq_comm]),
    update_iff h.moving_iff (by simp [hm, hmt]) (by simp), by simp, ?_, h.moving_present, by simp,
    fun _ hm => by simpa using h.settled rfl hm, by simp⟩
  intro u s' hu hs'
  cases hu
  rw [Function.update_self, hs] at hs'
  exact hs'

omit [DecidableEq T] in
/-- What the program owns has its entry. -/
theorem owned (h : InvAt pending a entry live f m) (hlive : live.isSome)
    (hflux : ∀ u, (pending u).inFlux ≠ some a) :
    f = none ∧ m = none ∧ entry.map Allocation.size = live := by
  have hf : f = none := by
    cases f with
    | none => rfl
    | some u => exact absurd ((h.flux_iff u).2 rfl) (hflux u)
  have hm : m = none := by
    cases m with
    | none => rfl
    | some u => exact absurd (h.moving_flux rfl hlive) (by simp [hf])
  exact ⟨hf, hm, h.settled hf hm⟩

/-- The allocator resizes an owned block in place. -/
theorem resize (h : InvAt pending a entry live f m) (hlive : live.isSome)
    (hflux : ∀ u, (pending u).inFlux ≠ some a) {s : ℕ} (hp : p.inFlux = some a)
    (hm : p.moving = some a) (hs : p.size = some s) :
    ∃ f m, InvAt (Function.update pending t p) a entry (some s) f m := by
  obtain ⟨rfl, rfl, hentry⟩ := h.owned hlive hflux
  have hpresent : entry.isSome := by rwa [← hentry, Option.isSome_map] at hlive
  refine ⟨some t, some t, update_iff h.flux_iff (by simp [hp]) (by simp +contextual [eq_comm]),
    update_iff h.moving_iff (by simp [hm]) (by simp +contextual [eq_comm]), by simp, ?_,
    fun _ => hpresent, by simp, by simp, by simp⟩
  intro u s' hu hs'
  cases hu
  rw [Function.update_self, hs] at hs'
  exact hs'

/-- The allocator moves an owned block away. -/
theorem giveUp (h : InvAt pending a entry live f m) (hlive : live.isSome)
    (hflux : ∀ u, (pending u).inFlux ≠ some a) (hp : p.inFlux ≠ some a) (hm : p.moving = some a) :
    ∃ f m, InvAt (Function.update pending t p) a entry none f m := by
  obtain ⟨rfl, rfl, hentry⟩ := h.owned hlive hflux
  have hpresent : entry.isSome := by rwa [← hentry, Option.isSome_map] at hlive
  exact ⟨none, some t, update_iff h.flux_iff (by simp [hp]) (by simp),
    update_iff h.moving_iff (by simp [hm]) (by simp +contextual [eq_comm]), by simp, by simp,
    fun _ => hpresent, by simp, by simp, by simp⟩

/-- The tracker removes the entry of an owned block. -/
theorem remove (h : InvAt pending a entry live f m) (hlive : live.isSome)
    (hflux : ∀ u, (pending u).inFlux ≠ some a) :
    ∃ f m, InvAt (Function.update pending t (.free a)) a
    (none : Option (Allocation σ)) live f m := by
  obtain ⟨rfl, rfl, -⟩ := h.owned hlive hflux
  refine ⟨some t, none, update_iff h.flux_iff (by simp [Pending.inFlux])
    (by simp +contextual [eq_comm]), update_iff h.moving_iff (by simp [Pending.moving]) (by simp),
    fun _ => hlive, ?_, by simp, by simp, by simp, by simp⟩
  intro u s' hu hs'
  cases hu
  rw [Function.update_self] at hs'
  cases hs'

/-- The tracker enters the block that thread `t` has in flux. -/
theorem report (h : InvAt pending a entry live f m) (ht : (pending t).inFlux = some a)
    (hmoving : ∀ u, u ≠ t → (pending u).moving ≠ some a) {v : Allocation σ}
    (hs : (pending t).size = some v.size) :
    ∃ f m, InvAt (Function.update pending t .idle) a (some v) live f m := by
  have hf : f = some t := (h.flux_iff t).1 ht
  have hm : ∀ u, u ≠ t → m ≠ some u := fun u hu hm => hmoving u hu ((h.moving_iff u).2 hm)
  refine ⟨none, none, update_iff h.flux_iff (by simp [Pending.inFlux]) fun u hu => ?_,
    update_iff h.moving_iff (by simp [Pending.moving]) fun u hu => ?_, by simp, by simp, by simp,
    by simp, by simp, fun _ _ => (h.flux_size t _ hf hs).symm⟩
  · exact iff_of_false nofun (by simpa [hf] using hu.symm)
  · exact iff_of_false nofun (hm u hu)

/-- The tracker moves the entry of a block away. -/
theorem moveAway (h : InvAt pending a entry live f m) (ht : (pending t).moving = some a)
    (hflux : (pending t).inFlux ≠ some a) :
    ∃ f m, InvAt (Function.update pending t .idle) a (none : Option (Allocation σ)) live f m := by
  have hm : m = some t := (h.moving_iff t).1 ht
  have hf : f ≠ some t := fun hf => hflux ((h.flux_iff t).2 hf)
  refine ⟨f, none, update_iff h.flux_iff (by simpa [Pending.inFlux] using hf) (by simp),
    update_iff h.moving_iff (by simp [Pending.moving]) fun u hu => ?_, h.flux_live, ?_, by simp,
    by simp, by simp, fun hf _ => ?_⟩
  · exact iff_of_false nofun (by simpa [hm] using hu.symm)
  · intro u s hu hs
    have hut : u ≠ t := fun hut => hf (hut ▸ hu)
    rw [Function.update_of_ne hut] at hs
    exact h.flux_size u s hu hs
  · cases live with
    | none => rfl
    | some s => exact absurd (h.moving_flux (by simp [hm]) rfl) (by simp [hf])

/-- The allocator takes back the block that thread `t` has in flux. -/
theorem release (h : InvAt pending a entry live f m) (ht : pending t = .free a) :
    ∃ f m, InvAt (Function.update pending t .idle) a entry none f m := by
  have hf : f = some t := (h.flux_iff t).1 (by rw [ht]; rfl)
  have hm : m ≠ some t := fun hm => by
    have := (h.moving_iff t).2 hm
    rw [ht] at this
    cases this
  refine ⟨none, m, update_iff h.flux_iff (by simp [Pending.inFlux]) fun u hu => ?_,
    update_iff h.moving_iff (by simpa [Pending.moving] using hm) (by simp), by simp, by simp,
    h.moving_present, by simp, by simp, fun _ hm => ?_⟩
  · exact iff_of_false nofun (by simpa [hf] using hu.symm)
  · rw [h.flux_absent (by simp [hf]) hm]
    rfl

end InvAt

end Dtest
