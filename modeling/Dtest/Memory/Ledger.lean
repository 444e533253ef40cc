import Dtest.Memory.Accounting

/-!
# The counters of `Memory` over any sequence of calls

`Ledger` adds two history variables to the tracker, from which the two maxima can be told;
`accounting` is what the counters say after any run.
-/

universe u

namespace Dtest

variable {σ : Type u}

/-- A tracker with two history variables: its states at the end of every allocation event, and of
every one since the last `resetMaxAllocation`, the latest first. -/
structure Ledger (σ : Type u) where
  memory : Memory σ := {}
  allocations : List (Memory σ) := []
  sinceReset : List (Memory σ) := []

namespace Ledger

variable (ex : Exemptions σ)

/-- One event. -/
def step (l : Ledger σ) : Event σ → Ledger σ
  | .call c =>
    let m := (l.memory.call ex c).1
    if l.memory.allocates ex c then
      { memory := m, allocations := m :: l.allocations, sinceReset := m :: l.sinceReset }
    else { l with memory := m }
  | .resetMaxAllocation => { l with memory := l.memory.resetMaxAllocation, sinceReset := [] }
  | ev => { l with memory := l.memory.event ex ev }

/-- The tracker driven by its callers, with its history. -/
def system : Guarded (Ledger σ) (Event σ) := ⟨fun l ev => l.memory.Allowed ev, step ex⟩

instance (l : Ledger σ) (ev : Event σ) : Decidable ((system ex).allowed l ev) :=
  inferInstanceAs (Decidable ((Memory.system ex).allowed l.memory ev))

end Ledger

/-- The largest value of `f`, zero for the empty list. -/
def peak {α : Type u} (f : α → ℕ) (l : List α) : ℕ := (l.map f).foldr max 0

variable {m : Memory σ} {ex : Exemptions σ}

/-- The accounts, and what the maxima are of. -/
structure LedgerInv (l : Ledger σ) : Prop where
  accounts : Accounts l.memory
  maxCount : l.memory.maxAllocateCount = peak Memory.liveCount l.allocations
  maxBytes : l.memory.maxAllocate = peak (fun m => m.liveBytes % 2 ^ 64) l.sinceReset

theorem LedgerInv.of_level {l : Ledger σ} (h : LedgerInv l) (hm : Accounts m)
    (hlevel : Level l.memory m) : LedgerInv { l with memory := m } :=
  ⟨hm, hlevel.2.trans h.maxCount, hlevel.1.trans h.maxBytes⟩

theorem LedgerInv.of_peaked {l : Ledger σ} (h : LedgerInv l) (hm : Accounts m)
    (hpeaked : Peaked l.memory m) : LedgerInv (⟨m, m :: l.allocations, m :: l.sinceReset⟩) := by
  refine ⟨hm, ?_, ?_⟩
  · change m.maxAllocateCount = max m.liveCount (peak Memory.liveCount l.allocations)
    rw [hpeaked.2, hm.count, Nat.mod_eq_of_lt hm.liveCount_lt, h.maxCount, max_comm]
  · change m.maxAllocate =
      max (m.liveBytes % 2 ^ 64) (peak (fun m => m.liveBytes % 2 ^ 64) l.sinceReset)
    rw [hpeaked.1, hm.bytes, h.maxBytes, max_comm]

theorem LedgerInv.step {l : Ledger σ} (h : LedgerInv l) {ev : Event σ}
    (hev : (Ledger.system ex).allowed l ev) : LedgerInv ((Ledger.system ex).step l ev) := by
  cases ev with
  | call c =>
    have hm : Accounts (l.memory.call ex c).1 := (booked_call h.accounts hev).accounts
    have hmax : if l.memory.allocates ex c then Peaked l.memory (l.memory.call ex c).1
      else Level l.memory (l.memory.call ex c).1 := max_call l.memory c
    change LedgerInv (if l.memory.allocates ex c then _ else _)
    split_ifs with hc
    · rw [if_pos hc] at hmax
      exact h.of_peaked hm hmax
    · rw [if_neg hc] at hmax
      exact h.of_level hm hmax
  | resetMaxAllocation => exact ⟨h.accounts.congr rfl rfl rfl rfl rfl rfl, h.maxCount, rfl⟩
  | trackActivity val => exact h.of_level (h.accounts.congr rfl rfl rfl rfl rfl rfl) ⟨rfl, rfl⟩
  | lock => exact h.of_level (h.accounts.congr rfl rfl rfl rfl rfl rfl) ⟨rfl, rfl⟩
  | unlock => exact h.of_level (h.accounts.congr rfl rfl rfl rfl rfl rfl) ⟨rfl, rfl⟩

/-- After any sequence of calls on a fresh tracker whose reports are admissible, with any exemptions
and with calls that end in the fatal error: the byte counters give the live bytes modulo `2 ^ 64`
and the block counters the live blocks, `_orderedBlocks` is well formed, `_maxAllocateCount` is the
largest number of blocks that was live at the end of an allocation event, and `_maxAllocate` the
largest number of live bytes modulo `2 ^ 64` since the last reset. -/
theorem accounting (ex : Exemptions σ) (evs : List (Event σ))
    (h : (Ledger.system ex).Admissible {} evs) :
    let l := (Ledger.system ex).exec {} evs
    wsub l.memory.allocateSize l.memory.freeSize = l.memory.liveBytes % 2 ^ 64 ∧
    wsub l.memory.allocateCount l.memory.freeCount = l.memory.liveCount ∧
    WellFormed l.memory.orderedBlocks ∧
    l.memory.maxAllocateCount = peak Memory.liveCount l.allocations ∧
    l.memory.maxAllocate = peak (fun m => m.liveBytes % 2 ^ 64) l.sinceReset := by
  intro l
  have hinv : LedgerInv l :=
    h.invariant (fun l ev hl hev => hl.step hev) ⟨accounts_init, rfl, rfl⟩
  refine ⟨hinv.accounts.bytes, ?_, hinv.accounts.wellFormed, hinv.maxCount, hinv.maxBytes⟩
  rw [hinv.accounts.count, Nat.mod_eq_of_lt hinv.accounts.liveCount_lt]

/-- A run with a shrinking `realloc`, a mapping split by `munmap`, a moved mapping, and a removal
that stops at an untracked byte in the fatal error. -/
def sampleRun : List (Event ℕ) :=
  [.trackActivity true, .call (.track 16 100 0), .call (.trackMapped 4096 12288 0),
    .call (.retrack 16 32 40 0), .call (.removeMapped 8192 4096 0), .resetMaxAllocation,
    .call (.retrackMapped 4096 4096 8192 2048 0), .call (.removeMapped 8192 8192 0),
    .trackActivity true, .call (.remove 32 0), .call .clear]

theorem accounting_sampleRun :
    let l := (Ledger.system ⟨fun _ => true, fun _ => true⟩).exec {} sampleRun
    wsub l.memory.allocateSize l.memory.freeSize = l.memory.liveBytes % 2 ^ 64 ∧
    wsub l.memory.allocateCount l.memory.freeCount = l.memory.liveCount ∧
    WellFormed l.memory.orderedBlocks ∧
    l.memory.maxAllocateCount = peak Memory.liveCount l.allocations ∧
    l.memory.maxAllocate = peak (fun m => m.liveBytes % 2 ^ 64) l.sinceReset :=
  accounting ⟨fun _ => true, fun _ => true⟩ sampleRun (by decide +kernel)

end Dtest
