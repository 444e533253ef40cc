import Dtest.Memory.Accounting
import Dtest.Memory.Removal

/-!
# The four totals of a run

`Turnover` counts the heap blocks that are recorded and removed, as `Flow` does the bytes, and the
block counters of a tracker move by it (`tallied_events`).  While fewer than `2 ^ 64` bytes have
been recorded, the byte counters are exact totals (`byte_totals`).
-/

universe u

namespace Dtest

variable {σ : Type u}

/-- The numbers of heap blocks that are recorded and removed. -/
@[ext]
structure Turnover where
  recorded : ℕ := 0
  removed : ℕ := 0

/-- One turnover after another. -/
def Turnover.add (t t' : Turnover) : Turnover := ⟨t.recorded + t'.recorded, t.removed + t'.removed⟩

namespace Memory

variable (ex : Exemptions σ) (m : Memory σ)

/-- The turnover of a call. -/
def turnover : Call σ → Turnover
  | .track _ _ cs => if m.enter.isSome && ex.canTrackAlloc cs then { recorded := 1 } else {}
  | .remove ptr _ =>
    if m.enter.isSome && (m.blocks.find? ptr).isSome then { removed := 1 } else {}
  | .clear => { removed := m.liveCount }
  | .trackMapped .. | .retrack .. | .retrackMapped .. | .removeMapped .. => {}

/-- The turnover of an event. -/
def eventTurnover : Event σ → Turnover
  | .call c => m.turnover ex c
  | _ => {}

/-- The turnover of a list of events. -/
def turnovers (m : Memory σ) : List (Event σ) → Turnover
  | [] => {}
  | ev :: evs => (m.eventTurnover ex ev).add (turnovers (m.event ex ev) evs)

end Memory

/-- The live blocks and the block counters after a step with the given turnover. -/
structure Tallied (m m' : Memory σ) (t : Turnover) : Prop where
  live : m'.liveCount + t.removed = m.liveCount + t.recorded
  allocateCount : m'.allocateCount % 2 ^ 64 = (m.allocateCount + t.recorded) % 2 ^ 64
  freeCount : m'.freeCount % 2 ^ 64 = (m.freeCount + t.removed) % 2 ^ 64

/-- The counters are machine words. -/
structure Words (m : Memory σ) : Prop where
  allocateSize : m.allocateSize < 2 ^ 64
  freeSize : m.freeSize < 2 ^ 64
  allocateCount : m.allocateCount < 2 ^ 64
  freeCount : m.freeCount < 2 ^ 64

variable {m m' : Memory σ} {ex : Exemptions σ}

theorem words_init : Words ({} : Memory σ) :=
  have hzero : 0 < 2 ^ 64 := Nat.two_pow_pos 64
  ⟨hzero, hzero, hzero, hzero⟩

theorem Words.congr (h : Words m) (h1 : m'.allocateSize = m.allocateSize)
    (h2 : m'.freeSize = m.freeSize) (h3 : m'.allocateCount = m.allocateCount)
    (h4 : m'.freeCount = m.freeCount) : Words m' :=
  ⟨h1 ▸ h.allocateSize, h2 ▸ h.freeSize, h3 ▸ h.allocateCount, h4 ▸ h.freeCount⟩

theorem Words.afterRemoval (h : Words m) (ptr size : ℕ) :
    Words (m.afterRemoval (m.removal ptr size)) := by
  refine ⟨h.allocateSize, ?_, h.allocateCount, h.freeCount⟩
  rcases freeSize_removeLoop ⟨m.orderedBlocks, m.freeSize, ptr, size⟩ with heq | hlt
  · show (removeLoop _).freeSize < 2 ^ 64
    rw [heq]
    exact h.freeSize
  · exact hlt

theorem foldl_wadd_lt {α : Type*} (f : α → ℕ) (l : List α) {a : ℕ} (ha : a < 2 ^ 64) :
    l.foldl (fun n x => wadd n (f x)) a < 2 ^ 64 := by
  induction l generalizing a with
  | nil => exact ha
  | cons x l ih => exact ih (wadd_lt _ _)

theorem Words.clearBlocks (h : Words m) : Words m.clearBlocks := by
  rw [Memory.clearBlocks_eq]
  refine ⟨h.allocateSize, ?_, h.allocateCount, ?_⟩
  · exact foldl_wadd_lt _ _ (foldl_wadd_lt _ _ h.freeSize)
  · exact foldl_wadd_lt (fun _ => 1) _ h.freeCount

theorem Words.call (h : Words m) (c : Call σ) : Words (m.call ex c).1 := by
  obtain ⟨m', heffect, tracking, locked, hsame⟩ := Memory.call_effect ex m c
  rw [hsame]
  suffices hwords : Words m' from hwords.congr rfl rfl rfl rfl
  cases heffect with
  | idle => exact h
  | track => exact ⟨wadd_lt _ _, h.freeSize, wadd_lt _ _, h.freeCount⟩
  | trackMapped | retrack => exact ⟨wadd_lt _ _, h.freeSize, h.allocateCount, h.freeCount⟩
  | @retrackMapped oldPtr oldSize =>
    have hremoved := h.afterRemoval oldPtr oldSize
    exact ⟨wadd_lt _ _, hremoved.freeSize, hremoved.allocateCount, hremoved.freeCount⟩
  | unmapped | removeMapped => exact h.afterRemoval _ _
  | remove => exact ⟨h.allocateSize, wadd_lt _ _, h.allocateCount, wadd_lt _ _⟩
  | clear => exact h.clearBlocks

theorem Words.events (h : Words m) (evs : List (Event σ)) : Words (m.events ex evs) := by
  induction evs generalizing m with
  | nil => exact h
  | cons ev evs ih =>
    apply ih
    cases ev with
    | call c => exact h.call c
    | resetMaxAllocation | trackActivity _ | lock | unlock => exact h.congr rfl rfl rfl rfl

/-! ## The blocks -/

theorem tallied_of_eq (h1 : m'.liveCount = m.liveCount) (h2 : m'.allocateCount = m.allocateCount)
    (h3 : m'.freeCount = m.freeCount) : Tallied m m' {} :=
  ⟨by rw [h1], by rw [h2]; rfl, by rw [h3]; rfl⟩

theorem Tallied.trans {m'' : Memory σ} {t t' : Turnover} (h : Tallied m m' t)
    (h' : Tallied m' m'' t') : Tallied m m'' (t.add t') := by
  obtain ⟨h1, h2, h3⟩ := h
  obtain ⟨h1', h2', h3'⟩ := h'
  unfold Turnover.add
  refine ⟨?_, ?_, ?_⟩ <;> dsimp only <;> omega

theorem tallied_clearBlocks (m : Memory σ) :
    Tallied m m.clearBlocks { removed := m.liveCount } := by
  rw [Memory.clearBlocks_eq]
  refine ⟨Nat.zero_add _, rfl, ?_⟩
  show m.blocks.entries.foldl (fun n _ => wadd n 1) m.freeCount % 2 ^ 64 =
    (m.freeCount + m.liveCount) % 2 ^ 64
  rw [foldl_wadd (fun _ => 1), List.map_const', List.sum_replicate_nat, Nat.mul_one]
  rfl

theorem Memory.turnover_of_idle {c : Call σ} (h : m.effective ex c = false) :
    m.turnover ex c = {} := by
  cases c with
  | track => exact if_neg (Bool.eq_false_iff.1 h)
  | remove => exact if_neg (Bool.eq_false_iff.1 h)
  | trackMapped | retrack | retrackMapped | removeMapped => rfl
  | clear => exact Bool.noConfusion h

/-- Every call has its turnover. -/
theorem tallied_call {c : Call σ} (hc : c.Allowed m) :
    Tallied m (m.call ex c).1 (m.turnover ex c) := by
  obtain ⟨m', heffect, tracking, locked, hsame⟩ := Memory.call_effect ex m c
  rw [hsame]
  suffices htallied : Tallied m m' (m.turnover ex c) from
    ⟨htallied.live, htallied.allocateCount, htallied.freeCount⟩
  cases heffect with
  | idle hidle =>
    rw [Memory.turnover_of_idle hidle]
    exact tallied_of_eq rfl rfl rfl
  | track enters hex =>
    simp only [Memory.turnover, enters, hex, Bool.and_self, if_true]
    exact ⟨SortedMap.size_insert (Option.isNone_iff_eq_none.1 hc.2.2), Nat.mod_mod _ _, rfl⟩
  | retrack enters hold => exact tallied_of_eq (Memory.size_moveBlock hold hc) rfl rfl
  | trackMapped | retrackMapped | unmapped | removeMapped => exact tallied_of_eq rfl rfl rfl
  | remove enters hptr =>
    simp only [Memory.turnover, enters, hptr, Option.isSome_some, Bool.and_self, if_true]
    exact ⟨SortedMap.size_erase hptr, rfl, Nat.mod_mod _ _⟩
  | clear => exact tallied_clearBlocks m

/-- The turnover of a run. -/
theorem tallied_events {evs : List (Event σ)} (hevs : (Memory.system ex).Admissible m evs) :
    Tallied m (m.events ex evs) (m.turnovers ex evs) := by
  induction evs generalizing m with
  | nil => exact tallied_of_eq rfl rfl rfl
  | cons ev evs ih =>
    have hev : Tallied m (m.event ex ev) (m.eventTurnover ex ev) := by
      cases ev with
      | call c => exact tallied_call hevs.1
      | resetMaxAllocation | trackActivity _ | lock | unlock => exact tallied_of_eq rfl rfl rfl
    exact hev.trans (ih hevs.2)

/-- While fewer than `2 ^ 64` bytes have been recorded, the two byte counters are totals, and no
more has been given up than was recorded. -/
theorem byte_totals {evs : List (Event σ)} (hevs : (Memory.system ex).Admissible {} evs)
    (hbytes : (({} : Memory σ).flows ex evs).grown < 2 ^ 64) :
    let m := ({} : Memory σ).events ex evs
    let fl := ({} : Memory σ).flows ex evs
    fl.freed + fl.shrunk ≤ fl.grown ∧ m.allocateSize = fl.grown - fl.shrunk ∧
      m.freeSize = fl.freed := by
  intro m fl
  obtain ⟨hlive, hsize, hfreed⟩ := (booked_events accounts_init hevs).conserved
  have hwords : Words m := words_init.events evs
  have hzero : ({} : Memory σ).liveBytes = 0 := rfl
  have h1 := hwords.allocateSize
  have h2 := hwords.freeSize
  dsimp only [m, fl] at *
  refine ⟨?_, ?_, ?_⟩ <;> omega

/-! ## One list of events after another -/

theorem Flow.add_assoc (f g h : Flow) : (f.add g).add h = f.add (g.add h) := by
  ext <;> exact Nat.add_assoc _ _ _

theorem Memory.flows_append (m : Memory σ) (evs evs' : List (Event σ)) :
    m.flows ex (evs ++ evs') = (m.flows ex evs).add ((m.events ex evs).flows ex evs') := by
  induction evs generalizing m with
  | nil => ext <;> exact (Nat.zero_add _).symm
  | cons ev evs ih =>
    show (m.eventFlow ex ev).add ((m.event ex ev).flows ex (evs ++ evs')) = _
    rw [ih, ← Flow.add_assoc]
    rfl

/-- The two byte counters over the later part of such a run. -/
theorem byte_window {prior window : List (Event σ)}
    (hadm : (Memory.system ex).Admissible {} (prior ++ window))
    (hbytes : (({} : Memory σ).flows ex (prior ++ window)).grown < 2 ^ 64) :
    let m := ({} : Memory σ).events ex prior
    let m' := m.events ex window
    let fl := m.flows ex window
    m'.allocateSize + fl.shrunk = m.allocateSize + fl.grown ∧
      m'.freeSize = m.freeSize + fl.freed := by
  intro m m' fl
  have hm' : ({} : Memory σ).events ex (prior ++ window) = m' := Memory.events_append ..
  obtain ⟨hle', hsize', hfreed'⟩ := byte_totals hadm hbytes
  rw [Memory.flows_append] at hle' hsize' hfreed' hbytes
  rw [hm'] at hsize' hfreed'
  obtain ⟨hle, hsize, hfreed⟩ := byte_totals (Guarded.admissible_append.1 hadm).1
    ((Nat.le_add_right _ _).trans_lt hbytes)
  dsimp only [Flow.add, m, fl] at *
  refine ⟨?_, ?_⟩ <;> omega

end Dtest
