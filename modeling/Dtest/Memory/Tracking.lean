import Dtest.Memory.Model

/-!
# The operations of `Memory` while tracking is on

With tracking on and the thread's lock free, an operation is its inner update: entering and leaving
cancel out, and the lookup decides between the update and the fatal error.
-/

universe u

namespace Dtest

variable {σ : Type u} {m : Memory σ} {ex : Exemptions σ} {cs : σ}

/-- The exemptions of a program none of whose call stacks is exempt. -/
def noExemptions : Exemptions σ := ⟨fun _ => true, fun _ => true⟩

namespace Memory

/-- Tracking is on and the calling thread holds no lock. -/
def Ready (m : Memory σ) : Prop := m.tracking = true ∧ m.locked = 0

instance (m : Memory σ) : Decidable m.Ready := inferInstanceAs (Decidable (_ ∧ _))

theorem Ready.enter (h : m.Ready) : m.enter = some { m with locked := wadd 0 1 } := by
  unfold Memory.enter
  rw [h.1, h.2]
  rfl

/-- Leaving undoes entering. -/
theorem Ready.exit_enter (h : m.Ready) (m' : Memory σ) (hm : m'.locked = wadd 0 1) :
    m'.exit = { m' with locked := m.locked } := by
  have hzero : wsub (wadd 0 1) 1 = 0 := by decide
  unfold Memory.exit
  rw [hm, hzero, h.2]

theorem Ready.track (h : m.Ready) (hex : ex.canTrackAlloc cs) (ptr size : ℕ) :
    m.track ex ptr size cs = m.trackBlock ptr size cs := by
  unfold Memory.track
  rw [h.enter]
  dsimp only
  rw [if_pos hex, h.exit_enter _ rfl]
  rfl

theorem Ready.trackMapped (h : m.Ready) (hex : ex.canTrackAlloc cs) (ptr size : ℕ) :
    m.trackMapped ex ptr size cs = m.trackRange ptr size cs := by
  unfold Memory.trackMapped
  rw [h.enter]
  dsimp only
  rw [if_pos hex, h.exit_enter _ rfl]
  rfl

theorem Ready.fatal (h : m.Ready) (hex : ex.canTrackDealloc cs) (ptr : ℕ) :
    Memory.fatal ex { m with locked := wadd 0 1 } ptr cs =
      (m.trackActivity false, some (noValidBlock ptr)) := by
  unfold Memory.fatal
  rw [if_pos hex, h.exit_enter _ rfl]

theorem Ready.retrack (h : m.Ready) {oldPtr : ℕ} {alloc : Allocation σ}
    (hold : m.blocks.find? oldPtr = some alloc) (newPtr newSize : ℕ) :
    m.retrack ex oldPtr newPtr newSize cs = (m.moveBlock oldPtr alloc newPtr newSize, none) := by
  unfold Memory.retrack
  rw [h.enter]
  dsimp only
  rw [hold]
  dsimp only
  rw [h.exit_enter _ rfl]
  rfl

theorem Ready.remove (h : m.Ready) {ptr : ℕ} {alloc : Allocation σ}
    (hptr : m.blocks.find? ptr = some alloc) :
    m.remove ex ptr cs = (m.removeBlock ptr alloc, none) := by
  unfold Memory.remove
  rw [h.enter]
  dsimp only
  rw [hptr]
  dsimp only
  rw [h.exit_enter _ rfl]
  rfl

theorem Ready.remove_of_none (h : m.Ready) (hex : ex.canTrackDealloc cs) {ptr : ℕ}
    (hptr : m.blocks.find? ptr = none) :
    m.remove ex ptr cs = (m.trackActivity false, some (noValidBlock ptr)) := by
  unfold Memory.remove
  rw [h.enter]
  dsimp only
  rw [hptr]
  exact h.fatal hex ptr

theorem Ready.removeMapped (h : m.Ready) {ptr size : ℕ} (hsize : (m.removal ptr size).size = 0) :
    m.removeMapped ex ptr size cs = (m.afterRemoval (m.removal ptr size), none) := by
  unfold Memory.removeMapped
  rw [h.enter]
  dsimp only
  rw [if_neg (show ¬ 0 < (Memory.removal { m with locked := wadd 0 1 } ptr size).size from
    hsize.not_gt), h.exit_enter _ rfl]
  rfl

theorem Ready.retrackMapped (h : m.Ready) {oldPtr oldSize : ℕ}
    (hsize : (m.removal oldPtr oldSize).size = 0) (newPtr newSize : ℕ) :
    m.retrackMapped ex oldPtr oldSize newPtr newSize cs =
      (if ex.canTrackAlloc cs then
        (m.afterRemoval (m.removal oldPtr oldSize)).trackRange newPtr newSize cs
      else m.afterRemoval (m.removal oldPtr oldSize), none) := by
  unfold Memory.retrackMapped
  rw [h.enter]
  dsimp only
  rw [if_neg (show ¬ 0 < (Memory.removal { m with locked := wadd 0 1 } oldPtr oldSize).size from
    hsize.not_gt)]
  split_ifs with hex <;> rw [h.exit_enter _ rfl] <;> rfl

end Memory

end Dtest
