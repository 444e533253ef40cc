import Dtest.Lib.Loop
import Dtest.Lib.SortedMap
import Dtest.Lib.Word
import Mathlib.Data.Nat.Notation
import Mathlib.Order.Nat

/-!
# `Memory`: the tracker of heap blocks and mappings

Addresses and sizes are the naturals below `2 ^ 64`, with the arithmetic of machine words.  A call
stack is a value of an arbitrary type `σ`; what the tables `allocEx` and `deallocEx` say about it is
the parameter `Exemptions σ`, and `trackingExceptions` computes one from the two tables.  `_locked`
is the lock depth of the calling thread.

The two removal loops of the source are the same code on different locals, so there is one
`removeStep`.  An operation returns the fatal error it throws, if any.
-/

universe u

namespace Dtest

/-- `Memory::Allocation`. -/
structure Allocation (σ : Type u) where
  size : ℕ
  callstack : σ
  deriving DecidableEq

/-- `TrackingException`, after `Memory::reinitialize` has looked up its addresses. -/
structure TrackingException where
  stackPos : ℕ
  addressLow : ℕ
  addressHigh : ℕ

/-- The address is a heap pointer that is not a key of `b`. -/
def FreshKey {ν : Type u} (b : SortedMap ℕ ν) (ptr : ℕ) : Prop :=
  0 < ptr ∧ ptr < 2 ^ 64 ∧ (b.find? ptr).isNone

instance {ν : Type u} (b : SortedMap ℕ ν) (ptr : ℕ) : Decidable (FreshKey b ptr) :=
  inferInstanceAs (Decidable (_ ∧ _ ∧ _))

/-- What `_canTrackAlloc` and `_canTrackDealloc` say about a call stack. -/
structure Exemptions (σ : Type u) where
  canTrackAlloc : σ → Bool
  canTrackDealloc : σ → Bool

/-- The return addresses of `CallStack::stack()`, by position. -/
abbrev CallStack := ℕ → ℕ

/-- The loop of `_canTrackAlloc` and of `_canTrackDealloc` over their table. -/
def canTrack (table : List TrackingException) (callstack : CallStack) : Bool :=
  !table.any fun ex =>
    ex.addressLow ≤ callstack ex.stackPos && callstack ex.stackPos < ex.addressHigh

/-- The exemptions given by `allocEx` and `deallocEx`. -/
def trackingExceptions (allocEx deallocEx : List TrackingException) : Exemptions CallStack :=
  ⟨canTrack allocEx, canTrack deallocEx⟩

/-- `FatalError`. -/
inductive FatalError
  | memoryBlockDoesNotExist
  deriving DecidableEq, Repr

/-- A `SandboxFatalException`, up to the call stack in its text. -/
structure SandboxFatalException where
  code : FatalError
  msg : String
  deriving DecidableEq

/-- `%p`. -/
def formatPointer (ptr : ℕ) : String :=
  if ptr = 0 then "(nil)" else "0x" ++ String.ofList (Nat.toDigits 16 ptr)

/-- The error for an address without a block. -/
def noValidBlock (ptr : ℕ) : SandboxFatalException :=
  ⟨.memoryBlockDoesNotExist, "no valid memory block at " ++ formatPointer ptr⟩

/-- The tracker. -/
structure Memory (σ : Type u) where
  tracking : Bool := false
  locked : ℕ := 0
  blocks : SortedMap ℕ (Allocation σ) := .empty
  orderedBlocks : SortedMap ℕ (Allocation σ) := .empty
  allocateSize : ℕ := 0
  freeSize : ℕ := 0
  allocateCount : ℕ := 0
  freeCount : ℕ := 0
  maxAllocate : ℕ := 0
  maxAllocateCount : ℕ := 0

/-- The last byte of a mapping, its key in `_orderedBlocks`. -/
def lastByte (ptr size : ℕ) : ℕ := wsub (wadd ptr size) 1

/-- The first byte of a mapping with key `last`. -/
def firstByte (last size : ℕ) : ℕ := wadd (wsub last size) 1

/-- The locals and fields that a removal loop changes: `remove_mapped` runs it on `ptr` and `size`,
`retrack_mapped` on `oldPtr` and `oldSize`. -/
structure Removal (σ : Type u) where
  orderedBlocks : SortedMap ℕ (Allocation σ)
  freeSize : ℕ
  ptr : ℕ
  size : ℕ

variable {σ : Type u}

/-- The body of a removal loop once it has found the block `last ↦ alloc`, whose first byte `p` is
not above `ptr`. -/
def removeFrom (s : Removal σ) (last : ℕ) (alloc : Allocation σ) (p : ℕ) : Removal σ :=
  let rest := s.orderedBlocks.erase last
  if s.ptr = p then
    if s.size < alloc.size then
      let size := alloc.size - s.size
      { orderedBlocks := rest.insert (lastByte (wadd p s.size) size) { alloc with size := size }
        freeSize := wadd s.freeSize s.size
        ptr := s.ptr
        size := 0 }
    else
      { orderedBlocks := rest
        freeSize := wadd s.freeSize alloc.size
        ptr := wadd s.ptr alloc.size
        size := s.size - alloc.size }
  else
    let off := wsub s.ptr p
    let rem := wsub alloc.size off
    let front := rest.insert (lastByte p off) { alloc with size := off }
    if s.size < rem then
      let size := rem - s.size
      { orderedBlocks :=
          front.insert (lastByte (wadd s.ptr s.size) size) { alloc with size := size }
        freeSize := wadd s.freeSize s.size
        ptr := s.ptr
        size := 0 }
    else
      { orderedBlocks := front
        freeSize := wadd s.freeSize rem
        ptr := wadd s.ptr rem
        size := s.size - rem }

/-- One turn of a removal loop; it ends at `size = 0` or at a `break`. -/
def removeStep (s : Removal σ) : Option (Removal σ) :=
  if s.size = 0 then none
  else match s.orderedBlocks.lowerBound s.ptr with
    | none => none
    | some (last, alloc) =>
      let p := firstByte last alloc.size
      if s.ptr < p then none else some (removeFrom s last alloc p)

/-- A removal loop: every turn takes at least one byte off `size`
(`Dtest.removed_of_step`). -/
def removeLoop (s : Removal σ) : Removal σ := Loop.run removeStep s.size s

namespace Memory

/-- `_enter`: `none` where it returns `false`. -/
def enter (m : Memory σ) : Option (Memory σ) :=
  if !m.tracking || m.locked ≠ 0 then none else some { m with locked := wadd m.locked 1 }

/-- `_exit`. -/
def exit (m : Memory σ) : Memory σ := { m with locked := wsub m.locked 1 }

/-- `trackActivity`. -/
def trackActivity (m : Memory σ) (val : Bool) : Memory σ := { m with tracking := val }

/-- `lock`. -/
def lock (m : Memory σ) : Memory σ := { m with locked := wadd m.locked 1 }

/-- `unlock`. -/
def unlock (m : Memory σ) : Memory σ := { m with locked := wsub m.locked 1 }

/-- `resetMaxAllocation`. -/
def resetMaxAllocation (m : Memory σ) : Memory σ := { m with maxAllocate := 0 }

/-- The two updates of the maxima that end every allocation event. -/
def updateMax (m : Memory σ) : Memory σ :=
  { m with
    maxAllocate := max m.maxAllocate (wsub m.allocateSize m.freeSize)
    maxAllocateCount := max m.maxAllocateCount (wsub m.allocateCount m.freeCount) }

/-- The error path: unless the call stack is exempt, `exitAll` turns tracking off and the error is
thrown. -/
def fatal (ex : Exemptions σ) (m : Memory σ) (ptr : ℕ) (callstack : σ) :
    Memory σ × Option SandboxFatalException :=
  if ex.canTrackDealloc callstack then (m.exit.trackActivity false, some (noValidBlock ptr))
  else (m.exit, none)

/-- The insertion into `_blocks` of `track`, with its counters. -/
def trackBlock (m : Memory σ) (ptr size : ℕ) (callstack : σ) : Memory σ :=
  updateMax { m with
    blocks := m.blocks.insert ptr ⟨size, callstack⟩
    allocateSize := wadd m.allocateSize size
    allocateCount := wadd m.allocateCount 1 }

/-- `Memory::track`. -/
def track (ex : Exemptions σ) (m : Memory σ) (ptr size : ℕ) (callstack : σ) : Memory σ :=
  match m.enter with
  | none => m
  | some m => (if ex.canTrackAlloc callstack then m.trackBlock ptr size callstack else m).exit

/-- The insertion into `_orderedBlocks` of `track_mapped` and `retrack_mapped`, with its
counters. -/
def trackRange (m : Memory σ) (ptr size : ℕ) (callstack : σ) : Memory σ :=
  updateMax { m with
    orderedBlocks := m.orderedBlocks.insert (lastByte ptr size) ⟨size, callstack⟩
    allocateSize := wadd m.allocateSize size }

/-- `Memory::track_mapped`. -/
def trackMapped (ex : Exemptions σ) (m : Memory σ) (ptr size : ℕ) (callstack : σ) : Memory σ :=
  match m.enter with
  | none => m
  | some m => (if ex.canTrackAlloc callstack then m.trackRange ptr size callstack else m).exit

/-- The move of the entry `oldPtr ↦ alloc` of `_blocks` to `newPtr`, with its counters. -/
def moveBlock (m : Memory σ) (oldPtr : ℕ) (alloc : Allocation σ) (newPtr newSize : ℕ) : Memory σ :=
  updateMax { m with
    blocks := (m.blocks.erase oldPtr).insert newPtr { alloc with size := newSize }
    allocateSize := wadd m.allocateSize (wsub newSize alloc.size) }

/-- `Memory::retrack`. -/
def retrack (ex : Exemptions σ) (m : Memory σ) (oldPtr newPtr newSize : ℕ) (callstack : σ) :
    Memory σ × Option SandboxFatalException :=
  match m.enter with
  | none => (m, none)
  | some m =>
    match m.blocks.find? oldPtr with
    | none => m.fatal ex oldPtr callstack
    | some alloc => ((m.moveBlock oldPtr alloc newPtr newSize).exit, none)

/-- The removal loop run on the tracker. -/
def removal (m : Memory σ) (ptr size : ℕ) : Removal σ :=
  removeLoop ⟨m.orderedBlocks, m.freeSize, ptr, size⟩

/-- The tracker with what a removal loop has left in it. -/
def afterRemoval (m : Memory σ) (s : Removal σ) : Memory σ :=
  { m with orderedBlocks := s.orderedBlocks, freeSize := s.freeSize }

/-- `Memory::retrack_mapped`. -/
def retrackMapped (ex : Exemptions σ) (m : Memory σ) (oldPtr oldSize newPtr newSize : ℕ)
    (callstack : σ) : Memory σ × Option SandboxFatalException :=
  match m.enter with
  | none => (m, none)
  | some m =>
    let s := m.removal oldPtr oldSize
    let m := m.afterRemoval s
    if 0 < s.size then m.fatal ex s.ptr callstack
    else ((if ex.canTrackAlloc callstack then m.trackRange newPtr newSize callstack else m).exit,
      none)

/-- The removal of the entry `ptr ↦ alloc` of `_blocks`, with its counters. -/
def removeBlock (m : Memory σ) (ptr : ℕ) (alloc : Allocation σ) : Memory σ :=
  { m with
    freeSize := wadd m.freeSize alloc.size
    freeCount := wadd m.freeCount 1
    blocks := m.blocks.erase ptr }

/-- `Memory::remove`. -/
def remove (ex : Exemptions σ) (m : Memory σ) (ptr : ℕ) (callstack : σ) :
    Memory σ × Option SandboxFatalException :=
  match m.enter with
  | none => (m, none)
  | some m =>
    match m.blocks.find? ptr with
    | none => m.fatal ex ptr callstack
    | some alloc => ((m.removeBlock ptr alloc).exit, none)

/-- `Memory::remove_mapped`. -/
def removeMapped (ex : Exemptions σ) (m : Memory σ) (ptr size : ℕ) (callstack : σ) :
    Memory σ × Option SandboxFatalException :=
  match m.enter with
  | none => (m, none)
  | some m =>
    let s := m.removal ptr size
    let m := m.afterRemoval s
    if 0 < s.size then m.fatal ex s.ptr callstack else (m.exit, none)

/-- The body of `Memory::clear`: each block is counted as freed. -/
def clearBlocks (m : Memory σ) : Memory σ :=
  let m := m.blocks.entries.foldl
    (fun m block => { m with
      freeSize := wadd m.freeSize block.2.size, freeCount := wadd m.freeCount 1 }) m
  let m := { m with blocks := .empty }
  let m := m.orderedBlocks.entries.foldl
    (fun m block => { m with freeSize := wadd m.freeSize block.2.size }) m
  { m with orderedBlocks := .empty }

/-- `Memory::clear`, which does not look at the result of `_enter`. -/
def clear (m : Memory σ) : Memory σ := ((m.enter.getD m).clearBlocks).exit

end Memory

end Dtest
