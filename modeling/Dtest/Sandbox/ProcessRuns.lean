import Dtest.Sandbox.ProcessInvariant

/-!
# Runs in the sandbox

* `sandbox_adequate`: the results of the processes are those of `Sandbox.run`, for the ends that a
  run can have.
* `sandbox_reaps`: the child is waited for once, and neither signalled nor waited for afterwards.
* `sandbox_ends`: a run is over after a number of moves that the deadline bounds, whatever a forked
  child does or does not do.
-/

namespace Dtest

universe u

/-- The end of a run that has been in time. -/
def SandboxEnd.inTime : SandboxEnd → Bool
  | .complete terminates | .error _ terminates | .unexpected terminates => terminates
  | .timeout => false

namespace SandboxMove

variable {T : Type u}

/-- A move of the child's program. -/
def isChilds : SandboxMove T → Bool
  | .connect | .writeOther | .returns _ | .throws _ _ | .crashes _ _ _ | .exits => true
  | _ => false

/-- `poll` waits for 10 ms, and so does the loop over `waitpid`. -/
def Paced (_ : SandboxState T) : SandboxMove T → Prop
  | .pollTimeout elapsed | .waitpid elapsed => 10000000 ≤ elapsed
  | _ => True

instance (s : SandboxState T) : ∀ m : SandboxMove T, Decidable (Paced s m)
  | .pollTimeout elapsed | .waitpid elapsed => inferInstanceAs (Decidable (10000000 ≤ elapsed))
  | .connect | .writeOther | .returns _ | .throws _ _ | .crashes _ _ _ | .exits | .dies | .join
  | .accept | .receive | .dispose | .waitKilled => inferInstanceAs (Decidable True)

end SandboxMove

namespace SandboxArgs

variable {T : Type u} (a : SandboxArgs T) {t : T} {s s' : SandboxState T}
  {ms : List (SandboxMove T)}

/-- The system of the processes. -/
def system : Guarded (SandboxState T) (SandboxMove T) := .ofMove (SandboxState.move a)

variable {a}

theorem inv_exec (h : a.system.Admissible (SandboxState.init a t) ms) :
    (a.system.exec (SandboxState.init a t) ms).Inv a t := by
  refine Guarded.Admissible.invariant (I := fun s => s.Inv a t) (fun s m hinv hallowed => ?_)
    SandboxState.inv_init h
  obtain ⟨s', hmove⟩ := Guarded.ofMove_allowed_iff.1 hallowed
  show SandboxState.Inv a ((Guarded.ofMove (SandboxState.move a)).step s m) t
  rw [Guarded.ofMove_step hmove]
  exact hinv.move hmove

/-! ## The ends of a run -/

/-- A child that is there when its message has been dispatched can be gone in time or not. -/
theorem reaches_returned {finished : Bool} (terminates : Bool) (hfork : a.fork = true)
    (hphase : s.phase = .waiting finished)
    (halive : s.activity = .running ∨ s.activity = .replied) (hnow : s.now ≤ a.timeoutNanos) :
    ∃ s', Guarded.Reaches (SandboxState.move a) s s' ∧ s'.phase = .returned finished ∧
      s'.object = Sandbox.late a.formatDuration a.callbacks a.fork a.timeoutNanos
        terminates s.object ∧
      s'.outcome = s.outcome ∧ s'.spoiled = s.spoiled ∧
      terminates = decide (s'.now ≤ a.timeoutNanos) := by
  rw [hfork]
  cases terminates with
  | true =>
    refine ⟨{ s with activity := .reaped, phase := .returned finished },
      .head .dies (if_pos ⟨hfork, halive⟩) (.head (.waitpid 0) ?_ (.refl _)), rfl, rfl, rfl, rfl,
      (decide_eq_true hnow).symm⟩
    simp [SandboxState.move, SandboxState.waitpid, hphase]
  | false =>
    have hlate : a.timeoutNanos < s.now + (a.timeoutNanos + 1) := by omega
    refine ⟨{ s with
      activity := .reaped
      now := s.now + (a.timeoutNanos + 1)
      killed := true
      object := a.callbacks.onError a.overdue s.object
      phase := .returned finished },
      .head (.waitpid (a.timeoutNanos + 1)) (show s.move a _ = some { s with
        now := s.now + (a.timeoutNanos + 1)
        killed := true
        phase := .killing a.overdue finished } from ?_) (.head .dies (if_pos ⟨hfork, halive⟩)
        (.head .waitKilled rfl (.refl _))), rfl, rfl, rfl, rfl,
      (decide_eq_false (Nat.not_le_of_lt hlate)).symm⟩
    rcases halive with halive | halive <;>
      simp [SandboxState.move, SandboxState.waitpid, hphase, halive, hlate]

/-- A forked child can send any message. -/
theorem reaches_waiting (a : SandboxArgs T) (t left : T) (e : SandboxEnd) (hfork : a.fork = true)
    (he : e ≠ .timeout) : ∃ (s : SandboxState T) (finished : Bool),
      Guarded.Reaches (SandboxState.move a) (SandboxState.init a t) s ∧
        s.phase = .waiting finished ∧ (s.activity = .running ∨ s.activity = .replied) ∧ s.now = 0 ∧
        Sandbox.run a.formatDuration a.callbacks a.fork a.timeoutNanos left t e =
          (Sandbox.late a.formatDuration a.callbacks a.fork a.timeoutNanos e.inTime s.object,
            finished) ∧
        ∀ s' : SandboxState T, s'.outcome = s.outcome → s'.spoiled = s.spoiled →
          e.inTime = decide (s'.now ≤ a.timeoutNanos) → s'.Ends a left e := by
  obtain ⟨formatDuration, cb, fork, timeoutNanos⟩ := a
  obtain rfl : fork = true := hfork
  cases e with
  | complete terminates =>
    exact ⟨_, true, .head .connect rfl (.head (.returns left) rfl (.head .accept rfl
      (.head .receive rfl (.refl _)))), rfl, Or.inr rfl, rfl, rfl,
      fun s' houtcome hspoiled hnow => ⟨houtcome, hspoiled, hnow⟩⟩
  | error reason terminates =>
    exact ⟨_, true, .head .connect rfl
      (.head (.throws (.sandbox reason) left) rfl (.head .accept rfl
      (.head .receive rfl (.refl _)))), rfl, Or.inr rfl, rfl, rfl,
      fun s' houtcome hspoiled hnow => ⟨houtcome, hspoiled, hnow⟩⟩
  | unexpected terminates =>
    refine ⟨_, false, .head .connect rfl (.head .writeOther rfl (.head .accept rfl
      (.head .receive rfl (.refl _)))), rfl, Or.inl rfl, rfl, rfl,
      fun s' houtcome hspoiled hnow => ⟨hspoiled, hnow, fun hin => ?_⟩⟩
    cases hin
  | timeout => exact absurd rfl he

/-- Every end is that of a run; without a fork a run is in time. -/
theorem exists_run (a : SandboxArgs T) (t left : T) (e : SandboxEnd)
    (he : a.fork = true ∨ e.inTime = true) : ∃ (s : SandboxState T) (finished : Bool),
      Guarded.Reaches (SandboxState.move a) (SandboxState.init a t) s ∧
        s.phase = .returned finished ∧ s.Ends a left e ∧ (s.object, finished) =
          Sandbox.run a.formatDuration a.callbacks a.fork a.timeoutNanos left t e := by
  cases hfork : a.fork with
  | true =>
    by_cases htimeout : e = .timeout
    · have hlate : a.timeoutNanos < 0 + (a.timeoutNanos + 1) := by omega
      subst htimeout
      obtain ⟨formatDuration, cb, fork, timeoutNanos⟩ := a
      obtain rfl : fork = true := hfork
      exact ⟨_, false, .head (.pollTimeout (timeoutNanos + 1)) (if_pos hlate) (.head .dies rfl
        (.head .waitKilled rfl (.refl _))), rfl, ⟨rfl, hlate⟩, rfl⟩
    · obtain ⟨s, finished, hfirst, hphase, halive, hnow, hresult, hends⟩ :=
        reaches_waiting a t left e hfork htimeout
      obtain ⟨s', hrest, hreturned, hobject, houtcome, hspoiled, hin⟩ :=
        reaches_returned e.inTime hfork hphase halive (hnow ▸ Nat.zero_le _)
      refine ⟨s', finished, hfirst.trans hrest, hreturned, hends s' houtcome hspoiled hin, ?_⟩
      rw [← hfork, hresult, hobject]
  | false =>
    obtain ⟨formatDuration, cb, fork, timeoutNanos⟩ := a
    obtain rfl : fork = false := hfork
    have hnow : true = decide (0 ≤ timeoutNanos) := (decide_eq_true (Nat.zero_le _)).symm
    have hin : e.inTime = true := he.resolve_left fun hfork => by cases hfork
    cases e with
    | complete terminates =>
      obtain rfl : terminates = true := hin
      exact ⟨_, true, .head .connect rfl (.head (.returns left) rfl (.head .join rfl
        (.head .accept rfl (.head .receive rfl (.refl _))))), rfl, ⟨rfl, rfl, hnow⟩, rfl⟩
    | error reason terminates =>
      obtain rfl : terminates = true := hin
      exact ⟨_, true, .head .connect rfl
        (.head (.throws (.sandbox reason) left) rfl (.head .join rfl
        (.head .accept rfl (.head .receive rfl (.refl _))))), rfl, ⟨rfl, rfl, hnow⟩, rfl⟩
    | unexpected terminates =>
      obtain rfl : terminates = true := hin
      exact ⟨_, false, .head .connect rfl (.head .writeOther rfl (.head (.throws .unknown left) rfl
        (.head .join rfl (.head .accept rfl (.head .receive rfl (.refl _)))))), rfl,
        ⟨rfl, hnow, fun _ => rfl⟩, rfl⟩
    | timeout => cases hin

end SandboxArgs

/-- The results of the processes are those of `Sandbox.run` for the ends that a run can have: an end
is that of a run by what the function has come to, by what it has written to the socket, and by the
clock; without a fork a run is in time. -/
theorem sandbox_adequate {T : Type u} (a : SandboxArgs T) (t : T) :
    (∀ ms finished, a.system.Admissible (SandboxState.init a t) ms →
      (a.system.exec (SandboxState.init a t) ms).phase = .returned finished →
      ∃ left e, (a.system.exec (SandboxState.init a t) ms).Ends a left e ∧
        ((a.system.exec (SandboxState.init a t) ms).object, finished) =
          Sandbox.run a.formatDuration a.callbacks a.fork a.timeoutNanos left t e) ∧
    ∀ left e, (a.fork = true ∨ e.inTime = true) →
      ∃ ms finished, a.system.Admissible (SandboxState.init a t) ms ∧
        (a.system.exec (SandboxState.init a t) ms).phase = .returned finished ∧
        (a.system.exec (SandboxState.init a t) ms).Ends a left e ∧
        ((a.system.exec (SandboxState.init a t) ms).object, finished) =
          Sandbox.run a.formatDuration a.callbacks a.fork a.timeoutNanos left t e := by
  constructor
  · intro ms finished h hphase
    have hp := (SandboxArgs.inv_exec h).phase
    rw [hphase] at hp
    exact hp.2
  · intro left e he
    obtain ⟨s, finished, ⟨ms, hadm, rfl⟩, hrun⟩ := SandboxArgs.exists_run a t left e he
    exact ⟨ms, finished, hadm, hrun⟩

/-! ## The child is waited for once -/

namespace SandboxState

variable {T : Type u} {a : SandboxArgs T} {t : T} {s s' : SandboxState T}

theorem reply_eq_none (h : s.activity ≠ .running) (o : SandboxOutcome T) : s.reply a o = none :=
  if_neg fun hguard => h hguard.1

/-- A run that has returned is over. -/
theorem Inv.move_returned (h : s.Inv a t) {finished : Bool} (hphase : s.phase = .returned finished)
    (m : SandboxMove T) : s.move a m = none := by
  have hp := h.phase
  rw [hphase] at hp
  have hgone : s.activity ≠ .running ∧ (a.fork = true → s.activity = .reaped) ∧
      s.activity ≠ .replied := by
    rw [hp.1]
    cases a.fork <;> decide
  obtain ⟨hrunning, hreaped, hreplied⟩ := hgone
  cases m with
  | connect => exact if_neg fun hguard => hrunning hguard.1
  | writeOther => exact if_neg fun hguard => hrunning hguard.1
  | returns left => exact reply_eq_none hrunning _
  | throws e left => exact reply_eq_none hrunning _
  | crashes signal trace left =>
    show (if a.fork then _ else _) = _
    rw [reply_eq_none hrunning, ite_self]
  | exits => exact if_neg fun hguard => hreplied hguard.2
  | dies => exact if_neg fun hguard => hguard.2.elim hrunning hreplied
  | join => exact if_neg fun hguard => by simp [hphase] at hguard
  | pollTimeout elapsed => exact if_neg fun hguard => by simp [hphase] at hguard
  | accept => exact if_neg fun hguard => by simp [hphase] at hguard
  | receive => simp [SandboxState.move, SandboxState.receive, hphase]
  | dispose => exact if_neg fun hguard => by simp [hphase] at hguard
  | waitpid elapsed => simp [SandboxState.move, SandboxState.waitpid, hphase]
  | waitKilled => simp [SandboxState.move, SandboxState.waitKilled, hphase]

/-- A child that has been waited for is that of a run that has returned. -/
theorem Inv.reaped (h : s.Inv a t) (hreaped : s.activity = .reaped) :
    ∃ finished, s.phase = .returned finished := by
  have hp := h.phase
  cases hphase : s.phase with
  | returned finished => exact ⟨finished, rfl⟩
  | joining =>
    rw [hphase] at hp
    rcases hp.2.2 with halive | halive <;> rw [hreaped] at halive <;> cases halive
  | polling =>
    rw [hphase] at hp
    exact absurd hreaped hp.2.1
  | waiting finished =>
    rw [hphase] at hp
    exact absurd hreaped hp.2.1
  | killing report finished =>
    rw [hphase] at hp
    exact absurd hreaped hp.2.1

end SandboxState

/-- A forked child is waited for when `Sandbox::run` returns, and nothing happens afterwards: there
is no `kill` and no `waitpid` for a process that is gone. -/
theorem sandbox_reaps {T : Type u} (a : SandboxArgs T) (t : T) (ms : List (SandboxMove T))
    (h : a.system.Admissible (SandboxState.init a t) ms) :
    let s := a.system.exec (SandboxState.init a t) ms
    (s.killed = true → a.fork = true) ∧
      (∀ m s', s.move a m = some s' → s.activity ≠ .reaped) ∧
      ∀ finished, s.phase = .returned finished →
        s.activity = (if a.fork then .reaped else .exited) ∧ ∀ m, s.move a m = none := by
  have hinv := SandboxArgs.inv_exec h
  refine ⟨hinv.killed, fun m s' hmove hreaped => ?_, fun finished hphase => ⟨?_, ?_⟩⟩
  · obtain ⟨finished, hphase⟩ := hinv.reaped hreaped
    rw [hinv.move_returned hphase] at hmove
    cases hmove
  · have hp := hinv.phase
    rw [hphase] at hp
    exact hp.1
  · exact hinv.move_returned hphase

/-- A run with a fork on an object that lists the callbacks. -/
def listedArgs : SandboxArgs (List String) where
  formatDuration := toString
  callbacks :=
    { onComplete := fun t => t ++ ["completed"]
      onSuccess := fun sent t => t ++ sent
      onError := fun error t => t ++ [error] }
  fork := true
  timeoutNanos := 2000000000

/-- A run whose child is there at the deadline after its message. -/
def lateMoves : List (SandboxMove (List String)) :=
  [.connect, .returns [], .accept, .receive, .waitpid 10000000, .waitpid 2000000000, .dies,
    .waitKilled]

theorem sandbox_reaps_lateMoves :
    listedArgs.system.Admissible (SandboxState.init listedArgs []) lateMoves ∧
      let s := listedArgs.system.exec (SandboxState.init listedArgs []) lateMoves
      (s.killed = true → listedArgs.fork = true) ∧
        (∀ m s', s.move listedArgs m = some s' → s.activity ≠ .reaped) ∧
        ∀ finished, s.phase = .returned finished →
          s.activity = (if listedArgs.fork then .reaped else .exited) ∧
            ∀ m, s.move listedArgs m = none := by
  have hadmissible : listedArgs.system.Admissible (SandboxState.init listedArgs []) lateMoves := by
    unfold SandboxArgs.system
    decide
  exact ⟨hadmissible, sandbox_reaps listedArgs [] lateMoves hadmissible⟩

/-! ## A run is over -/

/-- The moves that are left for the connection. -/
def ClientLink.left : ClientLink → ℕ
  | .unmade => 3
  | .queued => 2
  | .accepted => 1
  | .disposed => 0

/-- The moves that are left for the child. -/
def ChildActivity.left : ChildActivity → ℕ
  | .running => 3
  | .replied => 2
  | .exited => 1
  | .reaped => 0

/-- The moves that are left for the waiting process, but for those that read the clock. -/
def SandboxPhase.left : SandboxPhase → ℕ
  | .joining => 5
  | .polling => 4
  | .waiting _ => 3
  | .killing _ _ => 2
  | .returned _ => 0

namespace SandboxState

variable {T : Type u} {a : SandboxArgs T} {t : T} {s s' : SandboxState T}

/-- A bound on the moves that are left, of which those that read the clock take 10 ms each. -/
def measure (a : SandboxArgs T) (s : SandboxState T) : ℕ :=
  s.phase.left + s.activity.left + s.link.left + (if s.spoiled then 0 else 1) +
    (a.timeoutNanos - s.now) / 10000000

theorem measure_reply {o : SandboxOutcome T} (h : s.reply a o = some s') :
    s'.measure a < s.measure a := by
  obtain ⟨hrunning, -, rfl⟩ := reply_eq_some h
  simp only [measure, hrunning, ChildActivity.left]
  omega

theorem measure_afterMessage (hphase : s.phase = .polling) (finished killed : Bool)
    (frames : List (SandboxMessage T)) (t' : T) :
    (afterMessage a { s with frames, killed } finished t').measure a < s.measure a := by
  have hleft : SandboxPhase.left
      (if a.fork then .waiting finished else .returned finished) < 4 := by
    split_ifs
    · exact Nat.lt_succ_self 3
    · exact Nat.zero_lt_succ 3
  have hpolling : s.phase.left = 4 := by
    rw [hphase]
    rfl
  unfold measure
  show SandboxPhase.left (if a.fork then .waiting finished else .returned finished) +
    s.activity.left + s.link.left + (if s.spoiled then 0 else 1) +
    (a.timeoutNanos - s.now) / 10000000 < _
  rw [hpolling]
  omega

theorem measure_receive (h : s.receive a = some s') : s'.measure a < s.measure a := by
  unfold SandboxState.receive at h
  split at h
  · rename_i m frames hphase hlink hframes
    cases m <;> obtain rfl := Option.some.inj h <;> exact measure_afterMessage hphase _ _ _ _
  · cases h

/-- Every move of a system that keeps its pace makes the bound less. -/
theorem measure_move {m : SandboxMove T} (hpaced : m.Paced s) (hmove : s.move a m = some s') :
    s'.measure a < s.measure a := by
  cases m with
  | returns left => exact measure_reply hmove
  | throws e left => exact measure_reply hmove
  | receive => exact measure_receive hmove
  | connect =>
    obtain ⟨hguard, hs'⟩ := Option.ite_none_right_eq_some.1 hmove
    obtain rfl := Option.some.inj hs'
    simp only [measure, hguard.2, ClientLink.left]
    omega
  | writeOther =>
    obtain ⟨hguard, hs'⟩ := Option.ite_none_right_eq_some.1 hmove
    obtain rfl := Option.some.inj hs'
    simp only [measure, hguard.2.2]
    simp
  | crashes signal trace left =>
    obtain ⟨-, hreply⟩ := Option.ite_none_right_eq_some.1 hmove
    exact measure_reply hreply
  | exits =>
    obtain ⟨hguard, hs'⟩ := Option.ite_none_right_eq_some.1 hmove
    obtain rfl := Option.some.inj hs'
    simp only [measure, hguard.2, ChildActivity.left]
    omega
  | dies =>
    obtain ⟨⟨-, hguard⟩, hs'⟩ := Option.ite_none_right_eq_some.1 hmove
    obtain rfl := Option.some.inj hs'
    rcases hguard with hguard | hguard <;> simp only [measure, hguard, ChildActivity.left] <;> omega
  | join =>
    obtain ⟨hguard, hs'⟩ := Option.ite_none_right_eq_some.1 hmove
    obtain rfl := Option.some.inj hs'
    simp only [measure, hguard.1, hguard.2, SandboxPhase.left, ChildActivity.left]
    omega
  | accept =>
    obtain ⟨hguard, hs'⟩ := Option.ite_none_right_eq_some.1 hmove
    obtain rfl := Option.some.inj hs'
    simp only [measure, hguard.2, ClientLink.left]
    omega
  | dispose =>
    obtain ⟨hguard, hs'⟩ := Option.ite_none_right_eq_some.1 hmove
    obtain rfl := Option.some.inj hs'
    simp only [measure, hguard.2.1, ClientLink.left]
    omega
  | pollTimeout elapsed =>
    have helapsed : 10000000 ≤ elapsed := hpaced
    obtain ⟨hphase, -, ⟨hnow, rfl⟩ | ⟨-, -, rfl⟩ | ⟨-, -, rfl⟩⟩ := pollTimeout_cases hmove <;>
      simp only [measure, hphase, SandboxPhase.left] <;> omega
  | waitpid elapsed =>
    have helapsed : 10000000 ≤ elapsed := hpaced
    obtain ⟨finished, hphase, ⟨hexited, rfl⟩ | ⟨hnow, rfl⟩ | ⟨-, rfl⟩⟩ := waitpid_cases hmove
    · simp only [measure, hphase, hexited, SandboxPhase.left, ChildActivity.left]
      omega
    · simp only [measure, hphase]
      omega
    · simp only [measure, hphase, SandboxPhase.left]
      omega
  | waitKilled =>
    obtain ⟨report, finished, hphase, hexited, rfl⟩ := waitKilled_cases hmove
    simp only [measure, hphase, hexited, SandboxPhase.left, ChildActivity.left]
    omega

/-- A move can be made that needs nothing of a forked child. -/
def Moves (a : SandboxArgs T) (s : SandboxState T) : Prop :=
  ∃ m, (a.fork = true → m.isChilds = false) ∧ (m = .dies → s.killed = true) ∧ m.Paced s ∧
    ∃ s', s.move a m = some s'

theorem moves_polling (hphase : s.phase = .polling) : s.Moves a := by
  cases hready : s.ready with
  | false =>
    refine ⟨.pollTimeout 10000000, fun _ => rfl, fun hdies => ?_, le_refl 10000000,
      Option.isSome_iff_exists.1 ?_⟩
    · cases hdies
    · simp only [SandboxState.move, SandboxState.pollTimeout, hphase, hready]
      split_ifs <;> simp_all
  | true =>
    unfold SandboxState.ready at hready
    split at hready
    · rename_i hlink
      refine ⟨.accept, fun _ => rfl, fun hdies => ?_, trivial, _, if_pos ⟨hphase, hlink⟩⟩
      cases hdies
    · rename_i hlink
      cases hframes : s.frames with
      | nil =>
        rw [hframes] at hready
        refine ⟨.dispose, fun _ => rfl, fun hdies => ?_, trivial, _,
          if_pos ⟨hphase, hlink, hframes, beq_iff_eq.1 hready⟩⟩
        cases hdies
      | cons m frames =>
        refine ⟨.receive, fun _ => rfl, fun hdies => ?_, trivial, Option.isSome_iff_exists.1 ?_⟩
        · cases hdies
        · cases m <;> simp [SandboxState.move, SandboxState.receive, hphase, hlink, hframes]
    · cases hready

/-- A run that has not returned goes on. -/
theorem Inv.moves (h : s.Inv a t) : (∃ finished, s.phase = .returned finished) ∨ s.Moves a := by
  have hp := h.phase
  cases hphase : s.phase with
  | returned finished => exact Or.inl ⟨finished, rfl⟩
  | polling => exact Or.inr (moves_polling hphase)
  | joining =>
    rw [hphase] at hp
    obtain ⟨-, hfork, hrunning | hreplied⟩ := hp
    · by_cases hlink : s.link = .unmade
      · refine Or.inr ⟨.connect, fun htrue => ?_, fun hdies => ?_, trivial, _,
          if_pos ⟨hrunning, hlink⟩⟩
        · rw [hfork] at htrue
          cases htrue
        · cases hdies
      · refine Or.inr ⟨.returns t, fun htrue => ?_, fun hdies => ?_, trivial, _,
          if_pos ⟨hrunning, hlink⟩⟩
        · rw [hfork] at htrue
          cases htrue
        · cases hdies
    · refine Or.inr ⟨.join, fun _ => rfl, fun hdies => ?_, trivial, _, if_pos ⟨hphase, hreplied⟩⟩
      cases hdies
  | waiting finished =>
    rw [hphase] at hp
    refine Or.inr ⟨.waitpid 10000000, fun _ => rfl, fun hdies => ?_, le_refl 10000000,
      Option.isSome_iff_exists.1 ?_⟩
    · cases hdies
    · simp only [SandboxState.move, SandboxState.waitpid, hphase]
      cases hactivity : s.activity with
      | reaped => exact absurd hactivity hp.2.1
      | exited => rfl
      | _ =>
        dsimp only
        split_ifs <;> rfl
  | killing report finished =>
    rw [hphase] at hp
    obtain ⟨hfork, hreaped, hkilled, -⟩ := hp
    have hdies : s.activity = .running ∨ s.activity = .replied → s.Moves a := fun halive =>
      ⟨.dies, fun _ => rfl, fun _ => hkilled, trivial, _, if_pos ⟨hfork, halive⟩⟩
    cases hactivity : s.activity with
    | reaped => exact absurd hactivity hreaped
    | running => exact Or.inr (hdies (Or.inl hactivity))
    | replied => exact Or.inr (hdies (Or.inr hactivity))
    | exited =>
      refine Or.inr ⟨.waitKilled, fun _ => rfl, fun hdies => ?_, trivial,
        Option.isSome_iff_exists.1 ?_⟩
      · cases hdies
      · simp [SandboxState.move, SandboxState.waitKilled, hphase, hactivity]

end SandboxState

/-- A run in the sandbox is over after a number of moves that the deadline bounds.  As long as it is
not it can go on, a run with a fork without the child, but that a child it has killed must die. -/
theorem sandbox_ends {T : Type u} (a : SandboxArgs T) (t : T) (ms : List (SandboxMove T))
    (h : (a.system.restrict SandboxMove.Paced).Admissible (SandboxState.init a t) ms) :
    let s := (a.system.restrict SandboxMove.Paced).exec (SandboxState.init a t) ms
    ms.length ≤ a.timeoutNanos / 10000000 + 12 ∧
      ((∃ finished, s.phase = .returned finished) ∨ s.Moves a) := by
  have hbound : ms.length ≤ (SandboxState.init a t).measure a := by
    refine Nat.le_of_add_right_le (Guarded.length_le_measure (I := fun _ => True)
      (μ := SandboxState.measure a) (fun _ _ _ _ => trivial) (fun s m _ hm => ?_) trivial h)
    obtain ⟨s', hmove⟩ := Guarded.ofMove_allowed_iff.1 hm.1
    show ((Guarded.ofMove (SandboxState.move a)).step s m).measure a < _
    rw [Guarded.ofMove_step hmove]
    exact SandboxState.measure_move hm.2 hmove
  have hstart : (SandboxState.init a t).measure a ≤ a.timeoutNanos / 10000000 + 12 := by
    cases hfork : a.fork with
    | true =>
      simp only [SandboxState.measure, SandboxState.init, hfork, if_pos, SandboxPhase.left,
        ChildActivity.left, ClientLink.left, Bool.false_eq_true, if_false]
      omega
    | false =>
      simp only [SandboxState.measure, SandboxState.init, hfork, SandboxPhase.left,
        ChildActivity.left, ClientLink.left, Bool.false_eq_true, if_false]
      omega
  exact ⟨hbound.trans hstart, (SandboxArgs.inv_exec (Guarded.admissible_restrict h)).moves⟩

theorem sandbox_ends_lateMoves :
    (listedArgs.system.restrict SandboxMove.Paced).Admissible (SandboxState.init listedArgs [])
        lateMoves ∧
      let s := (listedArgs.system.restrict SandboxMove.Paced).exec (SandboxState.init listedArgs [])
        lateMoves
      lateMoves.length ≤ listedArgs.timeoutNanos / 10000000 + 12 ∧
        ((∃ finished, s.phase = .returned finished) ∨ s.Moves listedArgs) := by
  have hadmissible : (listedArgs.system.restrict SandboxMove.Paced).Admissible
      (SandboxState.init listedArgs []) lateMoves := by
    unfold SandboxArgs.system
    decide
  exact ⟨hadmissible, sandbox_ends listedArgs [] lateMoves hadmissible⟩

end Dtest
