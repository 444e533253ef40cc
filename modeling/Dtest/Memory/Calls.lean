import Dtest.Lib.Guarded
import Dtest.Memory.Mapped

/-!
# Calls of the tracker

`Call` is a call of one of the operations, `Call.Allowed` what its caller sees to, and `Memory.flow`
the exact number of bytes by which it changes what is live.
-/

universe u

namespace Dtest

variable {σ : Type u}

/-- A call of an operation of the tracker; `callstack` is what `CallStack::trace` returns in it. -/
inductive Call (σ : Type u)
  | track (ptr size : ℕ) (callstack : σ)
  | trackMapped (ptr size : ℕ) (callstack : σ)
  | retrack (oldPtr newPtr newSize : ℕ) (callstack : σ)
  | retrackMapped (oldPtr oldSize newPtr newSize : ℕ) (callstack : σ)
  | remove (ptr : ℕ) (callstack : σ)
  | removeMapped (ptr size : ℕ) (callstack : σ)
  | clear

/-- What happens to a tracker. -/
inductive Event (σ : Type u)
  | call (c : Call σ)
  | resetMaxAllocation
  | trackActivity (val : Bool)
  | lock
  | unlock

namespace Memory

variable (ex : Exemptions σ) (m : Memory σ)

/-- A call, with the fatal error it ends in. -/
def call : Call σ → Memory σ × Option SandboxFatalException
  | .track ptr size cs => (m.track ex ptr size cs, none)
  | .trackMapped ptr size cs => (m.trackMapped ex ptr size cs, none)
  | .retrack oldPtr newPtr newSize cs => m.retrack ex oldPtr newPtr newSize cs
  | .retrackMapped oldPtr oldSize newPtr newSize cs =>
    m.retrackMapped ex oldPtr oldSize newPtr newSize cs
  | .remove ptr cs => m.remove ex ptr cs
  | .removeMapped ptr size cs => m.removeMapped ex ptr size cs
  | .clear => (m.clear, none)

/-- One event. -/
def event : Event σ → Memory σ
  | .call c => (m.call ex c).1
  | .resetMaxAllocation => m.resetMaxAllocation
  | .trackActivity val => m.trackActivity val
  | .lock => m.lock
  | .unlock => m.unlock

/-- A list of events. -/
def events (evs : List (Event σ)) : Memory σ := evs.foldl (event ex) m

theorem events_append (evs evs' : List (Event σ)) :
    m.events ex (evs ++ evs') = (m.events ex evs).events ex evs' := List.foldl_append ..

/-- The call is an allocation event: it records a new block or the new place of an old one. -/
def allocates : Call σ → Bool
  | .track _ _ cs | .trackMapped _ _ cs => m.enter.isSome && ex.canTrackAlloc cs
  | .retrack oldPtr _ _ _ => m.enter.isSome && (m.blocks.find? oldPtr).isSome
  | .retrackMapped oldPtr oldSize _ _ cs =>
    m.enter.isSome && (m.removal oldPtr oldSize).size == 0 && ex.canTrackAlloc cs
  | .remove .. | .removeMapped .. | .clear => false

/-- The bytes in `_blocks` and `_orderedBlocks`. -/
def liveBytes : ℕ := m.blocks.sum Allocation.size + mappedSize m.orderedBlocks

/-- The entries of `_blocks`. -/
def liveCount : ℕ := m.blocks.size

end Memory

/-- No byte of the range belongs to an entry. -/
def FreeRange (b : SortedMap ℕ (Allocation σ)) (ptr size : ℕ) : Prop :=
  ∀ e ∈ b.entries, e.1 < ptr ∨ ptr + size + e.2.size ≤ e.1 + 1

instance (b : SortedMap ℕ (Allocation σ)) (ptr size : ℕ) : Decidable (FreeRange b ptr size) :=
  inferInstanceAs (Decidable (∀ e ∈ b.entries, _))

/-- What the callers of the tracker see to: a newly reported heap pointer is not a key (for
`retrack`: is the old pointer or not a key), and a newly reported range is non-empty, does not wrap
and is disjoint from the ranges still tracked (for `retrack_mapped`: once the old range is out). -/
def Call.Allowed (m : Memory σ) : Call σ → Prop
  | .track ptr _ _ => FreshKey m.blocks ptr
  | .trackMapped ptr size _ => 0 < size ∧ ptr + size ≤ 2 ^ 64 ∧ FreeRange m.orderedBlocks ptr size
  | .retrack oldPtr newPtr _ _ => newPtr = oldPtr ∨ FreshKey m.blocks newPtr
  | .retrackMapped oldPtr oldSize newPtr newSize _ =>
    0 < newSize ∧ newPtr + newSize ≤ 2 ^ 64 ∧
      FreeRange (m.removal oldPtr oldSize).orderedBlocks newPtr newSize
  | .remove .. | .removeMapped .. | .clear => True

instance (m : Memory σ) (c : Call σ) : Decidable (c.Allowed m) := by
  cases c <;> unfold Call.Allowed <;> infer_instance

/-- How many bytes a call adds to the live ones by recording or growing blocks, and how many it
takes away by shrinking and by freeing. -/
@[ext]
structure Flow where
  grown : ℕ := 0
  shrunk : ℕ := 0
  freed : ℕ := 0

/-- One flow after another. -/
def Flow.add (f g : Flow) : Flow := ⟨f.grown + g.grown, f.shrunk + g.shrunk, f.freed + g.freed⟩

namespace Memory

variable (ex : Exemptions σ) (m : Memory σ)

/-- The flow of a call. -/
def flow : Call σ → Flow
  | .track _ size cs | .trackMapped _ size cs =>
    if m.enter.isSome && ex.canTrackAlloc cs then { grown := size } else {}
  | .retrack oldPtr _ newSize _ =>
    if m.enter.isSome then match m.blocks.find? oldPtr with
      | none => {}
      | some alloc => { grown := newSize - alloc.size, shrunk := alloc.size - newSize }
    else {}
  | .retrackMapped oldPtr oldSize _ newSize cs =>
    if m.enter.isSome then
      let size := (m.removal oldPtr oldSize).size
      { freed := oldSize - size
        grown := if size = 0 ∧ ex.canTrackAlloc cs then newSize else 0 }
    else {}
  | .remove ptr _ =>
    if m.enter.isSome then match m.blocks.find? ptr with
      | none => {}
      | some alloc => { freed := alloc.size }
    else {}
  | .removeMapped ptr size _ =>
    if m.enter.isSome then { freed := size - (m.removal ptr size).size } else {}
  | .clear => { freed := m.liveBytes }

/-- The flow of an event. -/
def eventFlow : Event σ → Flow
  | .call c => m.flow ex c
  | _ => {}

/-- The flow of a list of events. -/
def flows (m : Memory σ) : List (Event σ) → Flow
  | [] => {}
  | ev :: evs => (m.eventFlow ex ev).add (flows (m.event ex ev) evs)

/-- The guard of an event. -/
def Allowed : Event σ → Prop
  | .call c => c.Allowed m
  | _ => True

/-- The tracker driven by its callers. -/
def system : Guarded (Memory σ) (Event σ) := ⟨Allowed, event ex⟩

instance (ev : Event σ) : Decidable ((system ex).allowed m ev) := by
  cases ev <;> unfold system Allowed <;> infer_instance

end Memory

end Dtest
