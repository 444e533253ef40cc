import Dtest.Lib.Guarded
import Dtest.Memory.Tracking

/-!
# `malloc` and friends over a libc allocator

The hooks are functions of the tracker, their arguments and the answer of libc, which is part of the
call.  `Libc` is the allocator's contract: its live blocks with the sizes last requested, and which
answers it may give.  `_mmgr_instance` is taken to exist.

In every run that keeps to `HeapCall.Sound`, `_blocks` mirrors the live blocks and `free` raises the
fatal error exactly for what is not a live block (`heap_hooks_faithful`).
-/

universe u

namespace Dtest

variable {σ : Type u}

/-! ## The allocator -/

/-- The live heap blocks, with the sizes last requested. -/
abbrev Heap := SortedMap ℕ ℕ

namespace Libc

/-- The heap after an allocation that has returned `ptr`. -/
def alloc (heap : Heap) (size ptr : ℕ) : Heap := if ptr = 0 then heap else heap.insert ptr size

/-- An allocation fails, or returns an address that is not the one of a live block. -/
def CanAlloc (heap : Heap) (ptr : ℕ) : Prop := ptr = 0 ∨ FreshKey heap ptr

/-- The heap after `realloc (oldPtr, size)` has returned `ptr`. -/
def realloc (heap : Heap) (oldPtr size ptr : ℕ) : Heap :=
  if oldPtr = 0 then alloc heap size ptr
  else if size = 0 then heap.erase oldPtr
  else if ptr = 0 then heap
  else (heap.erase oldPtr).insert ptr size

/-- `realloc` takes null or a live block; size zero frees a block and returns null; otherwise it
fails, keeps the address or moves the block. -/
def CanRealloc (heap : Heap) (oldPtr size ptr : ℕ) : Prop :=
  if oldPtr = 0 then CanAlloc heap ptr
  else (heap.find? oldPtr).isSome ∧
    if size = 0 then ptr = 0 else ptr = oldPtr ∨ CanAlloc heap ptr

/-- The heap after `free`. -/
def free (heap : Heap) (ptr : ℕ) : Heap := if ptr = 0 then heap else heap.erase ptr

instance (heap : Heap) (ptr : ℕ) : Decidable (CanAlloc heap ptr) :=
  inferInstanceAs (Decidable (_ ∨ _))

instance (heap : Heap) (oldPtr size ptr : ℕ) : Decidable (CanRealloc heap oldPtr size ptr) := by
  unfold CanRealloc
  infer_instance

end Libc

/-- The keys of `_blocks` are the live blocks, with their last requested sizes. -/
def Mirrors (b : SortedMap ℕ (Allocation σ)) (heap : Heap) : Prop :=
  ∀ ptr, (b.find? ptr).map Allocation.size = heap.find? ptr

/-! ## The hooks -/

/-- The test at the end of an allocating hook: what is not null is tracked. -/
def trackNonNull (ex : Exemptions σ) (m : Memory σ) (ptr size : ℕ) (cs : σ) : Memory σ :=
  if ptr = 0 then m else m.track ex ptr size cs

/-- A call of a hook; `ptr` is what libc answers (for `posix_memalign` the value it leaves in
`*memptr`, which was `before`), and `resolved` says whether `libc().calloc` has been looked up. -/
inductive HeapCall
  | malloc (size ptr : ℕ)
  | calloc (resolved : Bool) (nmemb size ptr : ℕ)
  | memalign (alignment size ptr : ℕ)
  | posixMemalign (before alignment size retval ptr : ℕ)
  | valloc (size ptr : ℕ)
  | pvalloc (size ptr : ℕ)
  | alignedAlloc (alignment size ptr : ℕ)
  | realloc (oldPtr size ptr : ℕ)
  | reallocarray (oldPtr nmemb size ptr : ℕ)
  | free (ptr : ℕ)

namespace Hooks

variable (ex : Exemptions σ) (m : Memory σ)

/-- `malloc`. -/
def malloc (size ptr : ℕ) (cs : σ) : Memory σ := trackNonNull ex m ptr size cs

/-- `calloc`; until libc's is known, it hands out a static buffer. -/
def calloc (resolved : Bool) (nmemb size ptr : ℕ) (cs : σ) : Memory σ :=
  if resolved then trackNonNull ex m ptr (wmul nmemb size) cs else m

/-- `memalign`. -/
def memalign (size ptr : ℕ) (cs : σ) : Memory σ := trackNonNull ex m ptr size cs

/-- `posix_memalign`: the test is on `*memptr`, not on the returned value. -/
def posixMemalign (size memptr : ℕ) (cs : σ) : Memory σ := trackNonNull ex m memptr size cs

/-- `valloc`. -/
def valloc (size ptr : ℕ) (cs : σ) : Memory σ := trackNonNull ex m ptr size cs

/-- `pvalloc`. -/
def pvalloc (size ptr : ℕ) (cs : σ) : Memory σ := trackNonNull ex m ptr size cs

/-- `aligned_alloc`. -/
def alignedAlloc (size ptr : ℕ) (cs : σ) : Memory σ := trackNonNull ex m ptr size cs

/-- `realloc`. -/
def realloc (oldPtr size ptr : ℕ) (cs : σ) : Memory σ × Option SandboxFatalException :=
  if oldPtr = 0 then (trackNonNull ex m ptr size cs, none)
  else if ptr = 0 then (m, none)
  else m.retrack ex oldPtr ptr size cs

/-- `reallocarray`. -/
def reallocarray (oldPtr nmemb size ptr : ℕ) (cs : σ) : Memory σ × Option SandboxFatalException :=
  realloc ex m oldPtr (wmul nmemb size) ptr cs

/-- `free` before its call of `libc().free`; `none` where it returns without that call. -/
def free (callocTmp ptr : ℕ) (cs : σ) : Option (Memory σ × Option SandboxFatalException) :=
  if ptr = callocTmp then none
  else if ptr = 0 then some (m, none)
  else some (m.remove ex ptr cs)

end Hooks

/-! ## Runs -/

/-- The tracker beside the allocator. -/
structure HeapWorld (σ : Type u) where
  memory : Memory σ := {}
  heap : Heap := .empty

/-- A hook is called, or tracking is turned on or off. -/
inductive HeapEvent (σ : Type u)
  | call (c : HeapCall) (callstack : σ)
  | trackActivity (val : Bool)

/-- The contract of libc: what it may answer. -/
def HeapCall.LibcSpec (callocTmp : ℕ) (heap : Heap) : HeapCall → Prop
  | .malloc _ ptr | .memalign _ _ ptr | .valloc _ ptr | .pvalloc _ ptr | .alignedAlloc _ _ ptr =>
    Libc.CanAlloc heap ptr
  | .calloc resolved nmemb size ptr =>
    if resolved then ptr = 0 ∨ nmemb * size < 2 ^ 64 ∧ Libc.CanAlloc heap ptr
    else ptr = callocTmp
  | .posixMemalign before _ _ retval ptr =>
    if retval = 0 then Libc.CanAlloc heap ptr else ptr = before
  | .realloc oldPtr size ptr => Libc.CanRealloc heap oldPtr size ptr
  | .reallocarray oldPtr nmemb size ptr =>
    if nmemb * size < 2 ^ 64 then Libc.CanRealloc heap oldPtr (nmemb * size) ptr
    else ptr = 0 ∧ (oldPtr = 0 ∨ (heap.find? oldPtr).isSome)
  | .free _ => True

instance (callocTmp : ℕ) (heap : Heap) (c : HeapCall) : Decidable (c.LibcSpec callocTmp heap) := by
  cases c <;> unfold HeapCall.LibcSpec <;> infer_instance

namespace HeapWorld

variable (ex : Exemptions σ) (callocTmp : ℕ) (w : HeapWorld σ)

/-- A call of a hook, with the fatal error it ends in. -/
def call (cs : σ) : HeapCall → HeapWorld σ × Option SandboxFatalException
  | .malloc size ptr => (⟨Hooks.malloc ex w.memory size ptr cs, Libc.alloc w.heap size ptr⟩, none)
  | .calloc resolved nmemb size ptr =>
    (⟨Hooks.calloc ex w.memory resolved nmemb size ptr cs,
      if resolved then Libc.alloc w.heap (nmemb * size) ptr else w.heap⟩, none)
  | .memalign _ size ptr =>
    (⟨Hooks.memalign ex w.memory size ptr cs, Libc.alloc w.heap size ptr⟩, none)
  | .posixMemalign _ _ size retval ptr =>
    (⟨Hooks.posixMemalign ex w.memory size ptr cs,
      if retval = 0 then Libc.alloc w.heap size ptr else w.heap⟩, none)
  | .valloc size ptr => (⟨Hooks.valloc ex w.memory size ptr cs, Libc.alloc w.heap size ptr⟩, none)
  | .pvalloc size ptr => (⟨Hooks.pvalloc ex w.memory size ptr cs, Libc.alloc w.heap size ptr⟩, none)
  | .alignedAlloc _ size ptr =>
    (⟨Hooks.alignedAlloc ex w.memory size ptr cs, Libc.alloc w.heap size ptr⟩, none)
  | .realloc oldPtr size ptr =>
    let r := Hooks.realloc ex w.memory oldPtr size ptr cs
    (⟨r.1, Libc.realloc w.heap oldPtr size ptr⟩, r.2)
  | .reallocarray oldPtr nmemb size ptr =>
    let r := Hooks.reallocarray ex w.memory oldPtr nmemb size ptr cs
    (⟨r.1, if nmemb * size < 2 ^ 64 then Libc.realloc w.heap oldPtr (nmemb * size) ptr
      else w.heap⟩, r.2)
  | .free ptr =>
    match Hooks.free ex w.memory callocTmp ptr cs with
    | none => (w, none)
    | some (m, some e) => (⟨m, w.heap⟩, some e)
    | some (m, none) => (⟨m, Libc.free w.heap ptr⟩, none)

/-- One event of a program none of whose call stacks is exempt. -/
def step (w : HeapWorld σ) : HeapEvent σ → HeapWorld σ
  | .call c cs => (w.call noExemptions callocTmp cs c).1
  | .trackActivity val => { w with memory := w.memory.trackActivity val }

/-- Hooks are called while tracking is on, and libc keeps its contract. -/
def Allowed (w : HeapWorld σ) : HeapEvent σ → Prop
  | .call c _ => w.memory.Ready ∧ c.LibcSpec callocTmp w.heap
  | .trackActivity _ => True

/-- The tracked program. -/
def system : Guarded (HeapWorld σ) (HeapEvent σ) := ⟨Allowed callocTmp, step callocTmp⟩

/-- The call raises the fatal error exactly when it frees what is not null and not a live block. -/
def RaisesRightly (c : HeapCall) (cs : σ) : Prop :=
  (w.call noExemptions callocTmp cs c).2 = match c with
    | .free ptr => if ptr ≠ 0 ∧ w.heap.find? ptr = none then some (noValidBlock ptr) else none
    | _ => none

end HeapWorld

/-- The call does not reach what the hooks get wrong: a block resized to nothing, which libc frees
and the tracker keeps; a failing `posix_memalign` that leaves in `*memptr` an address other than
that of a live block, which the tracker takes for a new block; and the silent `free` of the static
buffer of `calloc`. -/
def HeapCall.Sound (callocTmp : ℕ) (heap : Heap) : HeapCall → Prop
  | .realloc oldPtr size _ => oldPtr = 0 ∨ size ≠ 0
  | .reallocarray oldPtr nmemb size _ => oldPtr = 0 ∨ nmemb * size ≠ 0
  | .posixMemalign before _ _ retval _ =>
    retval = 0 ∨ before = 0 ∨ (heap.find? before).isSome
  | .free ptr => ptr ≠ callocTmp
  | _ => True

/-- Every call is sound. -/
def HeapEvent.Sound (callocTmp : ℕ) (w : HeapWorld σ) : HeapEvent σ → Prop
  | .call c _ => c.Sound callocTmp w.heap
  | .trackActivity _ => True

instance (callocTmp : ℕ) (w : HeapWorld σ) (ev : HeapEvent σ) :
    Decidable ((HeapWorld.system callocTmp).allowed w ev) := by
  cases ev <;> unfold HeapWorld.system HeapWorld.Allowed <;> infer_instance

instance (callocTmp : ℕ) (heap : Heap) (c : HeapCall) : Decidable (c.Sound callocTmp heap) := by
  cases c <;> unfold HeapCall.Sound <;> infer_instance

instance (callocTmp : ℕ) (w : HeapWorld σ) (ev : HeapEvent σ) :
    Decidable (ev.Sound callocTmp w) := by
  cases ev <;> unfold HeapEvent.Sound <;> infer_instance

end Dtest
