import Dtest.Memory.Accounting
import Dtest.Memory.Tracking

/-!
# The lock depth of a thread

Every operation of `Memory` leaves `_locked` as it found it, except that `clear` and `report` do not
look at the result of `_enter` and call `_exit` all the same, and that `report` writes to a string
stream whose buffer is allocated while the lock is held and released after `_exit`
(`locked_operation`).  Over a run, `_locked` is the number of locks that are open, as long as the
two are called only where they can enter and no report is lost with its buffer (`locked_balanced`).
-/

universe u

namespace Dtest

variable {σ : Type u}

/-- `std::ostream << void *`. -/
def streamPointer (ptr : ℕ) : String :=
  if ptr = 0 then "0" else "0x" ++ String.ofList (Nat.toDigits 16 ptr)

namespace Memory

/-- What `Memory::report` writes for a block. -/
def reportBlock (callstackString : σ → String) (ptr : ℕ) (callstack : σ) : String :=
  "\nBlock @ " ++ streamPointer ptr ++ " allocated from:\n" ++ callstackString callstack

/-- The text of `Memory::report`; `order` is the iteration order of `_blocks`. -/
def reportText (callstackString : σ → String) (order : List (ℕ × Allocation σ)) (m : Memory σ) :
    String :=
  String.join (order.map fun block => reportBlock callstackString block.1 block.2.callstack) ++
    String.join (m.orderedBlocks.entries.map fun block =>
      reportBlock callstackString (firstByte block.1 block.2.size) block.2.callstack)

/-- Nothing is to be reported. -/
def Unreported (order : List (ℕ × Allocation σ)) (m : Memory σ) : Prop :=
  order = [] ∧ m.orderedBlocks.entries = []

instance (order : List (ℕ × Allocation σ)) (m : Memory σ) : Decidable (m.Unreported order) :=
  decidable_of_iff (order.isEmpty ∧ m.orderedBlocks.entries.isEmpty) <| by
    rw [List.isEmpty_iff, List.isEmpty_iff, Unreported]

end Memory

/-- Where a call of `report` has its text: the buffer of the stream, which is there until the end,
and the copy that it returns, with the call stacks of the allocation of the copy and of the release
of the buffer. -/
structure ReportHeap (σ : Type u) where
  buffer : ℕ
  copy : ℕ
  copySize : ℕ
  ne : buffer ≠ copy
  allocated : σ
  released : σ

namespace Memory

/-- `Memory::report`, which does not look at the result of `_enter`: `none` where it does not
return.  A stream to which nothing is written allocates nothing.  Otherwise its buffer is allocated
between `_enter` and `_exit`, so that it is not tracked; the copy in the result and the release of
the buffer come after `_exit`.  The release is made by `operator delete`, which is `noexcept`: a
fatal error in it ends the process. -/
def report (ex : Exemptions σ) (callstackString : σ → String) (order : List (ℕ × Allocation σ))
    (heap : ReportHeap σ) (m : Memory σ) : Option (Memory σ × String) :=
  let m := m.enter.getD m
  let s := m.reportText callstackString order
  if m.Unreported order then some (m.exit, s)
  else
    let m := m.exit.track ex heap.copy heap.copySize heap.allocated
    match m.remove ex heap.buffer heap.released with
    | (m, none) => some (m, s)
    | (_, some _) => none

end Memory

/-- An operation of `Memory` other than `lock` and `unlock`. -/
inductive Operation (σ : Type u)
  | call (c : Call σ)
  | report (callstackString : σ → String) (order : List (ℕ × Allocation σ)) (heap : ReportHeap σ)

/-- The operations that call `_exit` whether or not `_enter` has entered. -/
def Operation.Unchecked : Operation σ → Prop
  | .call .clear | .report .. => True
  | .call _ => False

instance : ∀ op : Operation σ, Decidable op.Unchecked
  | .call .clear | .report .. => isTrue trivial
  | .call (.track ..) | .call (.trackMapped ..) | .call (.retrack ..) | .call (.retrackMapped ..)
  | .call (.remove ..) | .call (.removeMapped ..) => isFalse id

namespace Memory

variable (ex : Exemptions σ)

/-- The tracker after an operation, whether it returns or raises the fatal error; `none` where the
process ends in it. -/
def operation (m : Memory σ) : Operation σ → Option (Memory σ)
  | .call c => some (m.call ex c).1
  | .report callstackString order heap => (m.report ex callstackString order heap).map Prod.fst

/-- The release of the buffer of a report, if there is one, raises no error: its call stack is
exempt, or there is an entry at its address still. -/
def Releases (m : Memory σ) : Operation σ → Prop
  | .call _ => True
  | .report _ order heap =>
    m.Unreported order ∨ ex.canTrackDealloc heap.released = false ∨
      (m.blocks.find? heap.buffer).isSome = true

instance (m : Memory σ) : ∀ op : Operation σ, Decidable (m.Releases ex op)
  | .call _ => isTrue trivial
  | .report .. => inferInstanceAs (Decidable (_ ∨ _ ∨ _))

end Memory

/-! ## One operation -/

namespace Memory

variable {m m' : Memory σ} {ex : Exemptions σ}

theorem enter_eq_none_iff : m.enter = none ↔ ¬ m.Ready := by
  unfold Memory.enter Ready
  cases m.tracking <;> simp

theorem locked_fatal (ptr : ℕ) (cs : σ) :
    (m.fatal ex ptr cs).1.locked = wsub m.locked 1 := by
  unfold Memory.fatal
  split_ifs <;> rfl

/-- Leaving undoes entering, whatever happens in between. -/
theorem Ready.locked_exit (h : m.Ready) (hm : m'.locked = wadd 0 1) :
    m'.exit.locked = m.locked := by
  rw [h.exit_enter m' hm]

theorem Ready.locked_fatal (h : m.Ready) (hm : m'.locked = wadd 0 1) (ptr : ℕ) (cs : σ) :
    (m'.fatal ex ptr cs).1.locked = m.locked := by
  rw [Memory.locked_fatal, hm, h.2]
  rfl

theorem locked_clearBlocks (m : Memory σ) : m.clearBlocks.locked = m.locked := by
  rw [clearBlocks_eq]

/-- While tracking is on and the lock is free, every call keeps the lock depth. -/
theorem Ready.locked_call (h : m.Ready) (c : Call σ) : (m.call ex c).1.locked = m.locked := by
  cases c with
  | track ptr size cs =>
    simp only [call, Memory.track, h.enter]
    split_ifs <;> exact h.locked_exit rfl
  | trackMapped ptr size cs =>
    simp only [call, Memory.trackMapped, h.enter]
    split_ifs <;> exact h.locked_exit rfl
  | retrack oldPtr newPtr newSize cs =>
    simp only [call, Memory.retrack, h.enter]
    cases m.blocks.find? oldPtr with
    | none => exact h.locked_fatal rfl oldPtr cs
    | some alloc => exact h.locked_exit rfl
  | retrackMapped oldPtr oldSize newPtr newSize cs =>
    simp only [call, Memory.retrackMapped, h.enter]
    split_ifs
    exacts [h.locked_fatal rfl _ cs, h.locked_exit rfl, h.locked_exit rfl]
  | remove ptr cs =>
    simp only [call, Memory.remove, h.enter]
    cases m.blocks.find? ptr with
    | none => exact h.locked_fatal rfl ptr cs
    | some alloc => exact h.locked_exit rfl
  | removeMapped ptr size cs =>
    simp only [call, Memory.removeMapped, h.enter]
    split_ifs
    exacts [h.locked_fatal rfl _ cs, h.locked_exit rfl]
  | clear =>
    simp only [call, Memory.clear, h.enter, Option.getD_some]
    apply h.locked_exit
    rw [locked_clearBlocks]

/-- Where a call does not enter, it keeps the lock depth unless it is one of `clear`. -/
theorem locked_call_of_not_ready (h : ¬ m.Ready) (c : Call σ) :
    (m.call ex c).1.locked =
      if (Operation.call c).Unchecked then wsub m.locked 1 else m.locked := by
  have hm : m.enter = none := enter_eq_none_iff.2 h
  cases c with
  | clear =>
    rw [if_pos (show Operation.Unchecked (.call (.clear : Call σ)) from trivial)]
    show ((m.enter.getD m).clearBlocks).exit.locked = wsub m.locked 1
    rw [hm]
    show wsub m.clearBlocks.locked 1 = wsub m.locked 1
    rw [locked_clearBlocks]
  | track | trackMapped | retrack | retrackMapped | remove | removeMapped =>
    simp only [call, Memory.track, Memory.trackMapped, Memory.retrack, Memory.retrackMapped,
      Memory.remove, Memory.removeMapped, hm]
    exact (if_neg id).symm

/-- A call other than `clear` keeps the lock depth. -/
theorem locked_call {c : Call σ} (hc : ¬ (Operation.call c).Unchecked) :
    (m.call ex c).1.locked = m.locked := by
  by_cases h : m.Ready
  · exact h.locked_call c
  · rw [locked_call_of_not_ready h, if_neg hc]

variable {callstackString : σ → String} {order : List (ℕ × Allocation σ)} {heap : ReportHeap σ}
  {s : String}

/-- A report that returns ends with the lock depth that `_exit` has left. -/
theorem locked_report (h : m.report ex callstackString order heap = some (m', s)) :
    m'.locked = (m.enter.getD m).exit.locked := by
  unfold report at h
  dsimp only at h
  split_ifs at h
  · exact congrArg locked (Prod.ext_iff.1 (Option.some.inj h)).1.symm
  · generalize hcopy : (m.enter.getD m).exit.track ex heap.copy heap.copySize
      heap.allocated = m₁ at h
    have htrack : m₁.locked = (m.enter.getD m).exit.locked := by
      rw [← hcopy]
      exact locked_call (c := .track ..) id
    have hremove : (m₁.remove ex heap.buffer heap.released).1.locked = m₁.locked :=
      locked_call (c := .remove ..) id
    rw [← htrack, ← hremove]
    cases hr : m₁.remove ex heap.buffer heap.released with
    | mk m₂ err =>
      rw [hr] at h
      cases err with
      | none => exact congrArg locked (Prod.ext_iff.1 (Option.some.inj h)).1.symm
      | some e => cases h

/-- Where the copy of a report is tracked, the entries at other addresses stay. -/
theorem find?_track_of_ne {ptr q : ℕ} (h : q ≠ ptr) (size : ℕ) (cs : σ) :
    (m.track ex ptr size cs).blocks.find? q = m.blocks.find? q := by
  unfold Memory.track
  cases hm : m.enter with
  | none => rfl
  | some m₁ =>
    have hblocks : m₁.blocks = m.blocks := by
      unfold Memory.enter at hm
      split_ifs at hm
      rw [← Option.some.inj hm]
    rw [← hblocks]
    dsimp only
    split_ifs
    · exact SortedMap.find?_insert_of_ne h
    · rfl

theorem Ready.ready_track (h : m.Ready) (ptr size : ℕ) (cs : σ) :
    (m.track ex ptr size cs).Ready := by
  have hlocked : (m.track ex ptr size cs).locked = m.locked :=
    Memory.locked_call (c := .track ..) id
  refine ⟨?_, hlocked.trans h.2⟩
  by_cases hcs : ex.canTrackAlloc cs = true
  · rw [h.track hcs]
    exact h.1
  · unfold Memory.track
    rw [h.enter]
    dsimp only
    rw [if_neg hcs, h.exit_enter _ rfl]
    exact h.1

/-- `remove` raises the fatal error while tracking is on, if there is no entry and no exemption. -/
theorem Ready.remove_ok_iff (h : m.Ready) {ptr : ℕ} {cs : σ} :
    (m.remove ex ptr cs).2 = none ↔
      ex.canTrackDealloc cs = false ∨ (m.blocks.find? ptr).isSome = true := by
  unfold Memory.remove
  rw [h.enter]
  dsimp only
  cases m.blocks.find? ptr with
  | some alloc => exact iff_of_true rfl (.inr rfl)
  | none =>
    unfold Memory.fatal
    cases ex.canTrackDealloc cs with
    | true => exact iff_of_false (fun h => by cases h) (fun h => by rcases h with h | h <;> cases h)
    | false => exact iff_of_true rfl (.inl rfl)

/-- A report that enters returns exactly if the release of its buffer raises no error. -/
theorem Ready.report_returns_iff (h : m.Ready) :
    (∃ r, m.report ex callstackString order heap = some r) ↔
      m.Releases ex (.report callstackString order heap) := by
  have hexit : (m.enter.getD m).exit = m := by
    rw [h.enter, Option.getD_some, h.exit_enter _ rfl]
  have hunreported : (m.enter.getD m).Unreported order ↔ m.Unreported order := by
    rw [h.enter]
    rfl
  unfold report
  dsimp only
  rw [hexit]
  by_cases hun : m.Unreported order
  · rw [if_pos (hunreported.2 hun)]
    exact iff_of_true ⟨_, rfl⟩ (.inl hun)
  · rw [if_neg (mt hunreported.1 hun)]
    have hready : (m.track ex heap.copy heap.copySize heap.allocated).Ready := h.ready_track ..
    have hok : (Memory.remove ex (m.track ex heap.copy heap.copySize heap.allocated) heap.buffer
        heap.released).2 = none ↔ _ := hready.remove_ok_iff
    rw [find?_track_of_ne heap.ne] at hok
    refine Iff.trans ?_ (hok.trans (or_iff_right hun).symm)
    cases Memory.remove ex (m.track ex heap.copy heap.copySize heap.allocated) heap.buffer
      heap.released with
    | mk m₁ err =>
      cases err with
      | none => exact iff_of_true ⟨_, rfl⟩ rfl
      | some e => exact iff_of_false (fun h => by obtain ⟨r, hr⟩ := h; cases hr) fun h => by cases h

/-- An operation ends with the lock depth it began with, unless it is one of the unchecked ones and
does not enter, or a report with which the process ends. -/
theorem locked_operation (op : Operation σ) :
    (∃ m', m.operation ex op = some m' ∧ m'.locked = m.locked) ↔
      (op.Unchecked → m.Ready) ∧ m.Releases ex op := by
  cases op with
  | call c =>
    have hcall : (∃ m', m.operation ex (.call c) = some m' ∧ m'.locked = m.locked) ↔
        (m.call ex c).1.locked = m.locked := by
      constructor
      · rintro ⟨m', hm, hlocked⟩
        rwa [Option.some.inj hm]
      · exact fun h => ⟨_, rfl, h⟩
    rw [hcall]
    by_cases h : m.Ready
    · exact iff_of_true (h.locked_call c) ⟨fun _ => h, trivial⟩
    · rw [locked_call_of_not_ready h]
      split_ifs with hc
      · refine iff_of_false (fun heq => ?_) fun hready => h (hready.1 hc)
        unfold wsub at heq
        omega
      · exact iff_of_true rfl ⟨fun hc' => absurd hc' hc, trivial⟩
  | report callstackString order heap =>
    have hreport : (∃ m', m.operation ex (.report callstackString order heap) = some m' ∧
          m'.locked = m.locked) ↔
        (∃ r, m.report ex callstackString order heap = some r) ∧
          (m.enter.getD m).exit.locked = m.locked := by
      constructor
      · rintro ⟨m', hm, hlocked⟩
        obtain ⟨r, hr, rfl⟩ := Option.map_eq_some_iff.1 hm
        exact ⟨⟨r, hr⟩, (locked_report hr).symm.trans hlocked⟩
      · rintro ⟨⟨r, hr⟩, hlocked⟩
        exact ⟨r.1, Option.map_eq_some_iff.2 ⟨r, hr, rfl⟩, (locked_report hr).trans hlocked⟩
    rw [hreport]
    by_cases h : m.Ready
    · have hexit : (m.enter.getD m).exit.locked = m.locked := by
        rw [h.enter]
        exact h.locked_exit rfl
      rw [h.report_returns_iff]
      exact ⟨fun hr => ⟨fun _ => h, hr.1⟩, fun hr => ⟨hr.2, hexit⟩⟩
    · refine iff_of_false (fun hr => ?_) fun hr => h (hr.1 trivial)
      have heq := hr.2
      rw [enter_eq_none_iff.2 h] at heq
      change wsub m.locked 1 = m.locked at heq
      unfold wsub at heq
      omega

end Memory

/-! ## A run of one thread -/

/-- What a thread does to the tracker, or sees another thread do to the tracking flag. -/
inductive LockEvent (σ : Type u)
  | operation (op : Operation σ)
  | resetMaxAllocation
  | trackActivity (val : Bool)
  | lock
  | unlock

/-- The tracker as one thread sees it, with the number of locks of the thread that are open;
`terminated` tells that the process has ended in an operation. -/
structure LockRun (σ : Type u) where
  memory : Memory σ
  openLocks : ℕ := 0
  terminated : Bool := false

namespace LockRun

variable (ex : Exemptions σ)

/-- One event. -/
def step (s : LockRun σ) : LockEvent σ → LockRun σ
  | .operation op =>
    match s.memory.operation ex op with
    | some memory => { s with memory := memory }
    | none => { s with terminated := true }
  | .resetMaxAllocation => { s with memory := s.memory.resetMaxAllocation }
  | .trackActivity val => { s with memory := s.memory.trackActivity val }
  | .lock => { s with memory := s.memory.lock, openLocks := s.openLocks + 1 }
  | .unlock => { s with memory := s.memory.unlock, openLocks := s.openLocks - 1 }

/-- The process is there, and every `unlock` is matched to an earlier `lock`. -/
def Allowed (s : LockRun σ) (ev : LockEvent σ) : Prop :=
  s.terminated = false ∧
    match ev with
    | .unlock => 0 < s.openLocks
    | _ => True

/-- The tracker driven by one thread. -/
def system : Guarded (LockRun σ) (LockEvent σ) := ⟨Allowed, step ex⟩

/-- An unchecked operation enters, a report returns, and the number of open locks fits into
`_locked`. -/
def Balanced (s : LockRun σ) : LockEvent σ → Prop
  | .operation op => (op.Unchecked → s.memory.Ready) ∧ s.memory.Releases ex op
  | .lock => s.openLocks + 1 < 2 ^ 64
  | _ => True

instance (s : LockRun σ) (ev : LockEvent σ) : Decidable ((system ex).allowed s ev) := by
  change Decidable (s.Allowed ev)
  cases ev <;> unfold Allowed <;> infer_instance

instance (s : LockRun σ) (ev : LockEvent σ) : Decidable (s.Balanced ex ev) := by
  cases ev <;> unfold Balanced <;> infer_instance

variable {ex} {s : LockRun σ}

/-- The invariant: the process is there, and `_locked` is the number of open locks. -/
structure Inv (s : LockRun σ) : Prop where
  running : s.terminated = false
  locked : s.memory.locked = s.openLocks
  lt : s.openLocks < 2 ^ 64

theorem inv_step (s : LockRun σ) (ev : LockEvent σ) (h : s.Inv)
    (hev : ((system ex).restrict (Balanced ex)).allowed s ev) :
    Inv (((system ex).restrict (Balanced ex)).step s ev) := by
  obtain ⟨⟨-, hallowed⟩, hbalanced⟩ := hev
  cases ev with
  | operation op =>
    obtain ⟨memory, hop, hlocked⟩ := (Memory.locked_operation op).2 hbalanced
    have hstep : ((system ex).restrict (Balanced ex)).step s (.operation op) =
        { s with memory := memory } := by
      show step ex s (.operation op) = _
      unfold step
      dsimp only
      rw [hop]
    rw [hstep]
    exact ⟨h.running, hlocked.trans h.locked, h.lt⟩
  | resetMaxAllocation => exact ⟨h.running, h.locked, h.lt⟩
  | trackActivity val => exact ⟨h.running, h.locked, h.lt⟩
  | lock =>
    refine ⟨h.running, ?_, hbalanced⟩
    show wadd s.memory.locked 1 = s.openLocks + 1
    rw [h.locked, wadd_of_lt hbalanced]
  | unlock =>
    refine ⟨h.running, ?_, (Nat.sub_le _ _).trans_lt h.lt⟩
    show wsub s.memory.locked 1 = s.openLocks - 1
    rw [h.locked, wsub_of_le h.lt hallowed]

end LockRun

/-- An operation ends with the `_locked` it began with exactly if it is not `clear` or `report`
called where `_enter` does not enter, nor a report that is not empty and whose buffer is released
with the fatal error.  In every run of a thread without such a call, `_locked` is the number of
locks still open. -/
theorem locked_balanced (ex : Exemptions σ) :
    (∀ (m : Memory σ) (op : Operation σ),
      (∃ m', m.operation ex op = some m' ∧ m'.locked = m.locked) ↔
        (op.Unchecked → m.Ready) ∧ m.Releases ex op) ∧
    ∀ (m : Memory σ) (evs : List (LockEvent σ)), m.locked = 0 →
      ((LockRun.system ex).restrict (LockRun.Balanced ex)).Admissible { memory := m } evs →
      ((LockRun.system ex).exec { memory := m } evs).terminated = false ∧
        ((LockRun.system ex).exec { memory := m } evs).memory.locked =
          ((LockRun.system ex).exec { memory := m } evs).openLocks := by
  refine ⟨fun m op => Memory.locked_operation op, fun m evs hm h => ?_⟩
  have hinv : ((LockRun.system ex).exec { memory := m } evs).Inv :=
    h.invariant LockRun.inv_step ⟨rfl, hm, Nat.two_pow_pos 64⟩
  exact ⟨hinv.running, hinv.locked⟩

/-- Strings of a report somewhere. -/
def sampleHeap : ReportHeap ℕ := ⟨4096, 8192, 64, by decide, 0, 0⟩

/-- A thread that locks twice, reports inside and outside the lock, and unlocks once. -/
theorem locked_balanced_sample :
    let evs : List (LockEvent ℕ) :=
      [.trackActivity true, .operation (.report toString [] sampleHeap), .lock,
        .operation (.call (.remove 16 0)), .lock, .unlock, .trackActivity false,
        .operation (.call (.track 16 8 0))]
    let s := (LockRun.system noExemptions).exec { memory := {} } evs
    (s.terminated = false ∧ s.memory.locked = s.openLocks) ∧ s.openLocks = 1 :=
  ⟨(locked_balanced noExemptions).2 {} _ rfl (by decide +kernel), by decide +kernel⟩

/-- `report` while tracking is off: the lock depth wraps below zero, and the thread is not tracked
any more when tracking is turned on. -/
theorem report_unlocks :
    let m := ({} : Memory ℕ).operation noExemptions (.report toString [] sampleHeap)
    ({} : Memory ℕ).locked = 0 ∧ m.map Memory.locked = some (2 ^ 64 - 1) ∧
      m.map (fun m => ((m.trackActivity true).track noExemptions 16 8 0).blocks.entries.length) =
        some 0 := by
  decide +kernel

/-- `report` where it enters and finds a block: the process ends in it. -/
theorem report_terminates :
    let m := ({ tracking := true } : Memory ℕ).track noExemptions 16 8 0
    m.Ready ∧ m.operation noExemptions (.report toString m.blocks.entries sampleHeap) = none := by
  refine ⟨?_, ?_⟩ <;> decide +kernel

end Dtest
