import Dtest.Sandbox.Process

/-!
# What holds at every point of a run in the sandbox

The invariant `Inv` says for each phase of the waiting process what the child can have done, and,
once a message is read or the deadline has passed, which end of `Sandbox.run` the object agrees
with.  A move of the child changes nothing but its own part (`Inv.child`).
-/

namespace Dtest

universe u

namespace SandboxState

variable {T : Type u} (a : SandboxArgs T) (s : SandboxState T)

/-- The run ends with `e`, as far as is known, for a function that has left `left`. -/
def Ends (left : T) : SandboxEnd → Prop
  | .complete terminates =>
    s.outcome = some (.returned left) ∧ s.spoiled = false ∧
      terminates = decide (s.now ≤ a.timeoutNanos)
  | .error reason terminates =>
    s.outcome = some (.failed reason left) ∧ s.spoiled = false ∧
      terminates = decide (s.now ≤ a.timeoutNanos)
  | .unexpected terminates =>
    s.spoiled = true ∧ terminates = decide (s.now ≤ a.timeoutNanos) ∧
      (a.fork = false → s.outcome.map a.worked = some left)
  | .timeout => a.fork = true ∧ a.timeoutNanos < s.now

/-- The result `r` is that of an end which the run can have. -/
def Agrees (t : T) (r : T × Bool) : Prop :=
  ∃ left e, s.Ends a left e ∧
    r = Sandbox.run a.formatDuration a.callbacks a.fork a.timeoutNanos left t e

/-- Nothing has been read yet. -/
structure Unread (t : T) : Prop where
  frames : s.frames = (if s.spoiled then [.unexpected] else []) ++ s.outcome.toList.map a.message
  object : s.object = if a.fork then t else s.outcome.elim t a.worked
  linked : s.spoiled = true ∨ s.outcome.isSome = true → s.link ≠ .unmade
  now : s.now ≤ a.timeoutNanos

/-- What holds in each phase. -/
def PhaseInv (t : T) : SandboxPhase → Prop
  | .joining => s.Unread a t ∧ a.fork = false ∧ (s.activity = .running ∨ s.activity = .replied)
  | .polling =>
    s.Unread a t ∧ s.activity ≠ .reaped ∧
      (a.fork = false → s.activity = .exited ∧ s.outcome.isSome = true)
  | .waiting finished =>
    a.fork = true ∧ s.activity ≠ .reaped ∧ s.now ≤ a.timeoutNanos ∧
      s.Agrees a t (s.object, finished)
  | .killing report finished =>
    a.fork = true ∧ s.activity ≠ .reaped ∧ s.killed = true ∧
      s.Agrees a t (a.callbacks.onError report s.object, finished)
  | .returned finished =>
    s.activity = (if a.fork then .reaped else .exited) ∧ s.Agrees a t (s.object, finished)

/-- The invariant. -/
structure Inv (t : T) : Prop where
  silent : s.activity = .running → s.outcome = none
  replied : s.activity = .replied → s.outcome.isSome = true
  disposed : s.link = .disposed → s.outcome = none ∧ s.activity ≠ .running
  killed : s.killed = true → a.fork = true
  phase : s.PhaseInv a t s.phase

variable {a s} {s' : SandboxState T} {t : T}

theorem inv_init : (init a t).Inv a t := by
  refine ⟨fun _ => rfl, fun h => ?_, fun h => ?_, fun h => ?_, ?_⟩
  · cases h
  · cases h
  · cases h
  · have hunread : (init a t).Unread a t := by
      refine ⟨rfl, ?_, fun h => ?_, Nat.zero_le _⟩
      · show t = if a.fork then t else t
        rw [ite_self]
      · rcases h with h | h <;> cases h
    show PhaseInv a (init a t) t (if a.fork then .polling else .joining)
    cases hfork : a.fork with
    | false => exact ⟨hunread, hfork, Or.inl rfl⟩
    | true =>
      refine ⟨hunread, fun h => ?_, fun h => ?_⟩
      · cases h
      · rw [hfork] at h
        cases h

/-! ## Moves of the child -/

/-- What is known of the end stays known: only a function that has not come to anything goes on. -/
theorem Ends.child {left : T} {e : SandboxEnd} (h : s.Ends a left e) (hfork : a.fork = true)
    (hnow : s'.now = s.now) (hspoiled : s.spoiled = true → s'.spoiled = true)
    (houtcome : s.outcome = none ∨ s'.outcome = s.outcome ∧ s'.spoiled = s.spoiled) :
    s'.Ends a left e := by
  cases e with
  | complete terminates =>
    obtain ⟨hreturned, hclean, hterminates⟩ := h
    rcases houtcome with hnone | ⟨hsame, hsame'⟩
    · rw [hnone] at hreturned
      cases hreturned
    · exact ⟨hsame.trans hreturned, hsame'.trans hclean, hnow ▸ hterminates⟩
  | error reason terminates =>
    obtain ⟨hfailed, hclean, hterminates⟩ := h
    rcases houtcome with hnone | ⟨hsame, hsame'⟩
    · rw [hnone] at hfailed
      cases hfailed
    · exact ⟨hsame.trans hfailed, hsame'.trans hclean, hnow ▸ hterminates⟩
  | unexpected terminates =>
    refine ⟨hspoiled h.1, hnow ▸ h.2.1, fun hin => ?_⟩
    rw [hfork] at hin
    cases hin
  | timeout => exact ⟨hfork, hnow ▸ h.2⟩

theorem Agrees.child {r : T × Bool} (h : s.Agrees a t r) (hfork : a.fork = true)
    (hnow : s'.now = s.now) (hspoiled : s.spoiled = true → s'.spoiled = true)
    (houtcome : s.outcome = none ∨ s'.outcome = s.outcome ∧ s'.spoiled = s.spoiled) :
    s'.Agrees a t r := by
  obtain ⟨left, e, hends, hr⟩ := h
  exact ⟨left, e, hends.child hfork hnow hspoiled houtcome, hr⟩

/-- A move of a child that is not gone, which changes nothing of the waiting process but the object
the two share without a fork. -/
theorem Inv.child (h : s.Inv a t) (halive : s.activity = .running ∨ s.activity = .replied)
    (hphase : s'.phase = s.phase) (hkilled : s'.killed = s.killed) (hnow : s'.now = s.now)
    (hobject : a.fork = true → s'.object = s.object) (hunread : s.Unread a t → s'.Unread a t)
    (hactivity : s'.activity ≠ .reaped)
    (hjoining : a.fork = false → s'.activity = .running ∨ s'.activity = .replied)
    (hsilent : s'.activity = .running → s'.outcome = none)
    (hreplied : s'.activity = .replied → s'.outcome.isSome = true)
    (hdisposed : s'.link = .disposed → s.link = .disposed)
    (hspoiled : s.spoiled = true → s'.spoiled = true)
    (houtcome : s.outcome = none ∨ s'.outcome = s.outcome ∧ s'.spoiled = s.spoiled) :
    s'.Inv a t := by
  refine ⟨hsilent, hreplied, fun hlink => ?_, fun hk => h.killed (hkilled ▸ hk), ?_⟩
  · obtain ⟨hnone, hnot⟩ := h.disposed (hdisposed hlink)
    have hsome := h.replied (halive.resolve_left hnot)
    rw [hnone] at hsome
    cases hsome
  have hp := h.phase
  rw [hphase]
  cases hs : s.phase with
  | joining =>
    rw [hs] at hp
    exact ⟨hunread hp.1, hp.2.1, hjoining hp.2.1⟩
  | polling =>
    rw [hs] at hp
    refine ⟨hunread hp.1, hactivity, fun hfork => ?_⟩
    have hexited := (hp.2.2 hfork).1
    rw [hexited] at halive
    rcases halive with halive | halive <;> cases halive
  | waiting finished =>
    rw [hs] at hp
    obtain ⟨hfork, -, hle, hagrees⟩ := hp
    refine ⟨hfork, hactivity, hnow ▸ hle, ?_⟩
    rw [hobject hfork]
    exact hagrees.child hfork hnow hspoiled houtcome
  | killing report finished =>
    rw [hs] at hp
    obtain ⟨hfork, -, hdead, hagrees⟩ := hp
    refine ⟨hfork, hactivity, hkilled ▸ hdead, ?_⟩
    rw [hobject hfork]
    exact hagrees.child hfork hnow hspoiled houtcome
  | returned finished =>
    rw [hs] at hp
    have hgone := hp.1
    rcases halive with halive | halive <;> rw [halive] at hgone <;> split at hgone <;> cases hgone

theorem Unread.congr (h : s.Unread a t) (hframes : s'.frames = s.frames)
    (hobject : s'.object = s.object) (hspoiled : s'.spoiled = s.spoiled)
    (houtcome : s'.outcome = s.outcome) (hlink : s.link ≠ .unmade → s'.link ≠ .unmade)
    (hnow : s'.now ≤ a.timeoutNanos) :
    s'.Unread a t := by
  refine ⟨?_, ?_, ?_, hnow⟩
  · rw [hframes, hspoiled, houtcome, h.frames]
  · rw [hobject, houtcome, h.object]
  · rw [hspoiled, houtcome]
    exact fun hsent => hlink (h.linked hsent)

theorem Inv.connect (h : s.Inv a t) (hrunning : s.activity = .running) :
    Inv a { s with link := .queued } t := by
  refine h.child (Or.inl hrunning) rfl rfl rfl (fun _ => rfl)
    (fun hu => hu.congr rfl rfl rfl rfl (fun _ hlink => ?_) hu.now) ?_ (fun _ => Or.inl hrunning)
    h.silent h.replied (fun hlink => ?_) (fun hs => hs) (Or.inr ⟨rfl, rfl⟩)
  · cases hlink
  · rw [hrunning]
    intro hreaped
    cases hreaped
  · cases hlink

theorem Inv.writeOther (h : s.Inv a t) (hrunning : s.activity = .running) (hlink : s.link ≠ .unmade)
    (hclean : s.spoiled = false) :
    Inv a { s with frames := s.frames ++ [.unexpected], spoiled := true } t := by
  have hnone := h.silent hrunning
  refine h.child (Or.inl hrunning) rfl rfl rfl (fun _ => rfl) (fun hu => ?_) ?_
    (fun _ => Or.inl hrunning) h.silent h.replied (fun hl => hl) (fun _ => rfl) (Or.inl hnone)
  · refine ⟨?_, hu.object, fun _ => hlink, hu.now⟩
    show s.frames ++ [.unexpected] = [.unexpected] ++ s.outcome.toList.map a.message
    rw [hu.frames, hclean, hnone]
    rfl
  · rw [hrunning]
    intro hreaped
    cases hreaped

theorem reply_eq_some {o : SandboxOutcome T} (h : s.reply a o = some s') :
    s.activity = .running ∧ s.link ≠ .unmade ∧
      s' = { s with
        activity := .replied
        frames := s.frames ++ [a.message o]
        outcome := some o
        object := if a.fork then s.object else a.worked o } := by
  unfold SandboxState.reply at h
  by_cases hguard : s.activity = .running ∧ s.link ≠ .unmade
  · rw [if_pos hguard] at h
    exact ⟨hguard.1, hguard.2, (Option.some.inj h).symm⟩
  · rw [if_neg hguard] at h
    cases h

theorem Inv.reply (h : s.Inv a t) {o : SandboxOutcome T} (hmove : s.reply a o = some s') :
    s'.Inv a t := by
  obtain ⟨hrunning, hlink, rfl⟩ := reply_eq_some hmove
  have hnone := h.silent hrunning
  refine h.child (Or.inl hrunning) rfl rfl rfl (fun hfork => if_pos hfork) (fun hu => ?_)
    (fun hreaped => ?_) (fun _ => Or.inr rfl) (fun hrun => ?_) (fun _ => rfl) (fun hl => hl)
    (fun hs => hs) (Or.inl hnone)
  · refine ⟨?_, ?_, fun _ => hlink, hu.now⟩
    · show s.frames ++ [a.message o] = (if s.spoiled then [.unexpected] else []) ++ [a.message o]
      rw [hu.frames, hnone]
      simp
    · show (if a.fork then s.object else a.worked o) = if a.fork then t else a.worked o
      rw [hu.object]
      split_ifs <;> rfl
  · cases hreaped
  · cases hrun

theorem Inv.exits (h : s.Inv a t) (hfork : a.fork = true)
    (halive : s.activity = .running ∨ s.activity = .replied) :
    Inv a { s with activity := .exited } t := by
  refine h.child halive rfl rfl rfl (fun _ => rfl)
    (fun hu => hu.congr rfl rfl rfl rfl (fun hlink => hlink) hu.now) (fun hreaped => ?_)
    (fun hin => ?_) (fun hrun => ?_) (fun hrep => ?_) (fun hl => hl) (fun hs => hs)
    (Or.inr ⟨rfl, rfl⟩)
  · cases hreaped
  · rw [hfork] at hin
    cases hin
  · cases hrun
  · cases hrep

/-! ## Moves of the waiting process -/

theorem Inv.join (h : s.Inv a t) (hphase : s.phase = .joining) (hreplied : s.activity = .replied) :
    Inv a { s with phase := .polling, activity := .exited } t := by
  have hp := h.phase
  rw [hphase] at hp
  have hunread : Unread a { s with phase := .polling, activity := .exited } t :=
    hp.1.congr rfl rfl rfl rfl (fun hlink => hlink) hp.1.now
  refine ⟨fun hrun => ?_, fun hrep => ?_, fun hlink => ⟨(h.disposed hlink).1, fun hrun => ?_⟩,
    h.killed, hunread, fun hreaped => ?_, fun _ => ⟨rfl, h.replied hreplied⟩⟩
  · cases hrun
  · cases hrep
  · cases hrun
  · cases hreaped

/-- Without a fork there is always something to report to `poll`. -/
theorem Inv.ready (h : s.Inv a t) (hphase : s.phase = .polling) (hfork : a.fork = false) :
    s.ready = true := by
  have hp := h.phase
  rw [hphase] at hp
  obtain ⟨hexited, hsome⟩ := hp.2.2 hfork
  unfold SandboxState.ready
  cases hlink : s.link with
  | unmade => exact absurd hlink (hp.1.linked (Or.inr hsome))
  | queued => rfl
  | accepted =>
    rw [hexited]
    exact Bool.or_true _
  | disposed =>
    rw [(h.disposed hlink).1] at hsome
    cases hsome

/-- What a round that reads the clock does. -/
theorem pollTimeout_cases {elapsed : ℕ} (h : s.pollTimeout a elapsed = some s') :
    s.phase = .polling ∧ s.ready = false ∧
      (s.now + elapsed ≤ a.timeoutNanos ∧ s' = { s with now := s.now + elapsed } ∨
        a.timeoutNanos < s.now + elapsed ∧ a.fork = true ∧
          s' = { s with
            now := s.now + elapsed
            killed := true
            phase := .killing a.exceeded false } ∨
        a.timeoutNanos < s.now + elapsed ∧ a.fork = false ∧
          s' = { s with
            now := s.now + elapsed
            object := a.callbacks.onError a.exceeded s.object
            phase := .returned false }) := by
  unfold SandboxState.pollTimeout at h
  split_ifs at h with hguard hlate hfork <;> obtain rfl := Option.some.inj h
  · exact ⟨hguard.1, hguard.2, Or.inr (Or.inl ⟨hlate, hfork, rfl⟩)⟩
  · exact ⟨hguard.1, hguard.2, Or.inr (Or.inr ⟨hlate, Bool.eq_false_of_not_eq_true hfork, rfl⟩)⟩
  · exact ⟨hguard.1, hguard.2, Or.inl ⟨Nat.le_of_not_lt hlate, rfl⟩⟩

/-- The clock goes on before the deadline. -/
theorem Inv.elapse (h : s.Inv a t) {now : ℕ} (hphase : s.phase = .polling)
    (hnow : now ≤ a.timeoutNanos) :
    Inv a { s with now } t := by
  have hp := h.phase
  rw [hphase] at hp
  refine ⟨h.silent, h.replied, h.disposed, h.killed, ?_⟩
  show PhaseInv a { s with now } t s.phase
  rw [hphase]
  exact ⟨hp.1.congr rfl rfl rfl rfl (fun hlink => hlink) hnow, hp.2.1, hp.2.2⟩

theorem Inv.pollTimeout (h : s.Inv a t) {elapsed : ℕ} (hmove : s.pollTimeout a elapsed = some s') :
    s'.Inv a t := by
  obtain ⟨hphase, hready, ⟨hnow, rfl⟩ | ⟨hlate, hfork, rfl⟩ | ⟨-, hfork, -⟩⟩ :=
    pollTimeout_cases hmove
  · exact h.elapse hphase hnow
  · have hp := h.phase
    rw [hphase] at hp
    have hobject : s.object = t := by rw [hp.1.object, if_pos hfork]
    have hresult : (a.callbacks.onError a.exceeded s.object, false) =
        Sandbox.run a.formatDuration a.callbacks a.fork a.timeoutNanos t t .timeout := by
      rw [hobject]
      show _ = (a.callbacks.onError a.exceeded (if a.fork then t else t), false)
      rw [ite_self]
    exact ⟨h.silent, h.replied, h.disposed, fun _ => hfork, hfork, hp.2.1, rfl, t, .timeout,
      ⟨hfork, hlate⟩, hresult⟩
  · rw [h.ready hphase hfork] at hready
    cases hready

theorem Inv.accept (h : s.Inv a t) (hphase : s.phase = .polling) :
    Inv a { s with link := .accepted } t := by
  have hp := h.phase
  rw [hphase] at hp
  refine ⟨h.silent, h.replied, fun hlink => ?_, h.killed, ?_⟩
  · cases hlink
  · show PhaseInv a { s with link := .accepted } t s.phase
    rw [hphase]
    refine ⟨hp.1.congr rfl rfl rfl rfl (fun _ hlink => ?_) hp.1.now, hp.2.1, hp.2.2⟩
    cases hlink

theorem Inv.dispose (h : s.Inv a t) (hphase : s.phase = .polling) (hframes : s.frames = [])
    (hexited : s.activity = .exited) : Inv a { s with link := .disposed } t := by
  have hp := h.phase
  rw [hphase] at hp
  have hnone : s.outcome = none := by
    have hempty := hp.1.frames.symm.trans hframes
    exact Option.toList_eq_nil_iff.1 (List.map_eq_nil_iff.1 (List.append_eq_nil_iff.1 hempty).2)
  refine ⟨h.silent, h.replied, fun _ => ⟨hnone, fun hrun => ?_⟩, h.killed, ?_⟩
  · rw [hexited] at hrun
    cases hrun
  · show PhaseInv a { s with link := .disposed } t s.phase
    rw [hphase]
    refine ⟨hp.1.congr rfl rfl rfl rfl (fun _ hlink => ?_) hp.1.now, hp.2.1, hp.2.2⟩
    cases hlink

/-- The first message says what the child has done first. -/
theorem Unread.head (h : s.Unread a t) {m : SandboxMessage T} {frames : List (SandboxMessage T)}
    (hframes : s.frames = m :: frames) :
    s.spoiled = true ∧ m = .unexpected ∨
      s.spoiled = false ∧ ∃ o, s.outcome = some o ∧ m = a.message o := by
  have hsent := hframes.symm.trans h.frames
  cases hspoiled : s.spoiled with
  | true =>
    rw [hspoiled] at hsent
    exact Or.inl ⟨rfl, (List.cons.inj hsent).1⟩
  | false =>
    rw [hspoiled] at hsent
    cases houtcome : s.outcome with
    | none =>
      rw [houtcome] at hsent
      cases hsent
    | some o =>
      rw [houtcome] at hsent
      exact Or.inr ⟨rfl, o, rfl, (List.cons.inj hsent).1⟩

/-- The callback for a message leaves what an end of the run leaves. -/
theorem Inv.afterMessage (h : s.Inv a t) (hphase : s.phase = .polling) {left t' : T}
    {e : SandboxEnd} {finished killed : Bool} {frames : List (SandboxMessage T)}
    (hends : s.Ends a left e) (hkilled : killed = true → a.fork = true)
    (hresult : (t', finished) =
      Sandbox.run a.formatDuration a.callbacks a.fork a.timeoutNanos left t e) :
    Inv a (SandboxState.afterMessage a { s with frames, killed } finished t') t := by
  have hp := h.phase
  rw [hphase] at hp
  refine ⟨h.silent, h.replied, h.disposed, hkilled, ?_⟩
  have hagrees : Agrees a (SandboxState.afterMessage a { s with frames, killed } finished t') t
      (t', finished) := by
    refine ⟨left, e, ?_, hresult⟩
    cases e <;> exact hends
  show PhaseInv a _ t (if a.fork then .waiting finished else .returned finished)
  cases hfork : a.fork with
  | true => exact ⟨hfork, hp.2.1, hp.1.now, hagrees⟩
  | false =>
    refine ⟨?_, hagrees⟩
    rw [hfork]
    exact (hp.2.2 hfork).1

theorem Inv.receive (h : s.Inv a t) (hmove : s.receive a = some s') : s'.Inv a t := by
  unfold SandboxState.receive at hmove
  split at hmove
  · rename_i m frames hphase hlink hframes
    have hp := h.phase
    rw [hphase] at hp
    have hnow : true = decide (s.now ≤ a.timeoutNanos) := (decide_eq_true hp.1.now).symm
    have hobject := hp.1.object
    rcases hp.1.head hframes with ⟨hspoiled, rfl⟩ | ⟨hclean, o, houtcome, rfl⟩
    · obtain rfl := Option.some.inj hmove
      have hleft : ∃ left, (a.fork = false → s.outcome.map a.worked = some left) ∧
          (s.object = if a.fork then t else left) := by
        cases hfork : a.fork with
        | true => exact ⟨t, fun hin => Bool.noConfusion hin, by rw [hobject, hfork]; rfl⟩
        | false =>
          obtain ⟨o, ho⟩ := Option.isSome_iff_exists.1 (hp.2.2 hfork).2
          refine ⟨a.worked o, fun _ => by rw [ho]; rfl, ?_⟩
          rw [hobject, hfork, ho]
          rfl
      obtain ⟨left, hworked, hleft⟩ := hleft
      refine h.afterMessage hphase (e := .unexpected true)
        ⟨hspoiled, hnow, hworked⟩ (fun hk => ?_) ?_
      · rcases Bool.or_eq_true_iff.1 hk with hk | hk
        · exact h.killed hk
        · exact hk
      · simp [Sandbox.run, Sandbox.late, hleft]
    · rw [houtcome] at hobject
      cases o with
      | returned left =>
        obtain rfl := Option.some.inj hmove
        refine h.afterMessage hphase (e := .complete true)
          ⟨houtcome, hclean, hnow⟩ h.killed ?_
        show (a.callbacks.onSuccess _ s.object, true) = _
        rw [hobject]
        simp [Sandbox.run, Sandbox.late, SandboxArgs.worked]
      | failed reason left =>
        obtain rfl := Option.some.inj hmove
        refine h.afterMessage hphase (e := .error reason true)
          ⟨houtcome, hclean, hnow⟩ h.killed ?_
        show (a.callbacks.onError reason s.object, true) = _
        rw [hobject]
        simp [Sandbox.run, Sandbox.late, SandboxArgs.worked]
  · cases hmove

theorem Ends.congr {left : T} {e : SandboxEnd} (h : s.Ends a left e)
    (houtcome : s'.outcome = s.outcome) (hspoiled : s'.spoiled = s.spoiled)
    (hnow : s'.now ≤ a.timeoutNanos ↔ s.now ≤ a.timeoutNanos) : s'.Ends a left e := by
  have hdecide : decide (s'.now ≤ a.timeoutNanos) = decide (s.now ≤ a.timeoutNanos) :=
    decide_eq_decide.2 hnow
  cases e with
  | complete terminates =>
    exact ⟨houtcome.trans h.1, hspoiled.trans h.2.1, h.2.2.trans hdecide.symm⟩
  | error reason terminates =>
    exact ⟨houtcome.trans h.1, hspoiled.trans h.2.1, h.2.2.trans hdecide.symm⟩
  | unexpected terminates =>
    refine ⟨hspoiled.trans h.1, h.2.1.trans hdecide.symm, fun hfork => ?_⟩
    rw [houtcome]
    exact h.2.2 hfork
  | timeout => exact ⟨h.1, Nat.lt_of_not_le fun hle => absurd (hnow.1 hle) (Nat.not_le_of_lt h.2)⟩

/-- A child that is there at the deadline. -/
theorem Agrees.overdue {finished : Bool} (h : s.Agrees a t (s.object, finished))
    (hfork : a.fork = true) (hnow : s.now ≤ a.timeoutNanos) {now : ℕ} (hlate : a.timeoutNanos < now)
    (houtcome : s'.outcome = s.outcome) (hspoiled : s'.spoiled = s.spoiled) (hnow' : s'.now = now) :
    s'.Agrees a t (a.callbacks.onError a.overdue s.object, finished) := by
  obtain ⟨left, e, hends, hresult⟩ := h
  have hintime : decide (s.now ≤ a.timeoutNanos) = true := decide_eq_true hnow
  have hover : false = decide (s'.now ≤ a.timeoutNanos) :=
    (decide_eq_false (hnow' ▸ Nat.not_le_of_lt hlate)).symm
  cases e with
  | complete terminates =>
    obtain ⟨hreturned, hclean, rfl⟩ := hends
    refine ⟨left, .complete false, ⟨houtcome.trans hreturned, hspoiled.trans hclean, hover⟩, ?_⟩
    rw [hintime, hfork] at hresult
    obtain ⟨hobject, rfl⟩ := Prod.mk.inj hresult
    rw [hobject, hfork]
    rfl
  | error reason terminates =>
    obtain ⟨hfailed, hclean, rfl⟩ := hends
    refine ⟨left, .error reason false, ⟨houtcome.trans hfailed, hspoiled.trans hclean, hover⟩, ?_⟩
    rw [hintime, hfork] at hresult
    obtain ⟨hobject, rfl⟩ := Prod.mk.inj hresult
    rw [hobject, hfork]
    rfl
  | unexpected terminates =>
    obtain ⟨hspoilt, rfl, -⟩ := hends
    refine ⟨left, .unexpected false, ⟨hspoiled.trans hspoilt, hover, fun hin => ?_⟩, ?_⟩
    · rw [hfork] at hin
      cases hin
    · rw [hintime, hfork] at hresult
      obtain ⟨hobject, rfl⟩ := Prod.mk.inj hresult
      rw [hobject, hfork]
      rfl
  | timeout => exact absurd hnow (Nat.not_le_of_lt hends.2)

/-- What a round of the loop over `waitpid` does. -/
theorem waitpid_cases {elapsed : ℕ} (h : s.waitpid a elapsed = some s') : ∃ finished,
    s.phase = .waiting finished ∧
      (s.activity = .exited ∧ s' = { s with activity := .reaped, phase := .returned finished } ∨
        s.now + elapsed ≤ a.timeoutNanos ∧ s' = { s with now := s.now + elapsed } ∨
        a.timeoutNanos < s.now + elapsed ∧
          s' = { s with
            now := s.now + elapsed
            killed := true
            phase := .killing a.overdue finished }) := by
  unfold SandboxState.waitpid at h
  split at h
  · cases h
  · rename_i finished hphase hactivity
    exact ⟨finished, hphase, Or.inl ⟨hactivity, (Option.some.inj h).symm⟩⟩
  · rename_i finished hphase _ _
    split_ifs at h with hlate
    · exact ⟨finished, hphase, Or.inr (Or.inr ⟨hlate, (Option.some.inj h).symm⟩)⟩
    · exact ⟨finished, hphase, Or.inr (Or.inl ⟨Nat.le_of_not_lt hlate, (Option.some.inj h).symm⟩)⟩
  · cases h

theorem Inv.waitpid (h : s.Inv a t) {elapsed : ℕ} (hmove : s.waitpid a elapsed = some s') :
    s'.Inv a t := by
  obtain ⟨finished, hphase, hcases⟩ := waitpid_cases hmove
  have hp := h.phase
  rw [hphase] at hp
  obtain ⟨hfork, hreaped, hnow, hagrees⟩ := hp
  rcases hcases with ⟨hexited, rfl⟩ | ⟨hle, rfl⟩ | ⟨hlate, rfl⟩
  · refine ⟨fun hrun => ?_, fun hrep => ?_, fun hlink => ⟨(h.disposed hlink).1, fun hrun => ?_⟩,
      h.killed, (if_pos hfork).symm, hagrees.child hfork rfl (fun hs => hs) (Or.inr ⟨rfl, rfl⟩)⟩
    · cases hrun
    · cases hrep
    · cases hrun
  · refine ⟨h.silent, h.replied, h.disposed, h.killed, ?_⟩
    show PhaseInv a { s with now := s.now + elapsed } t s.phase
    rw [hphase]
    obtain ⟨left, e, hends, hresult⟩ := hagrees
    exact ⟨hfork, hreaped, hle, left, e, hends.congr rfl rfl (iff_of_true hle hnow), hresult⟩
  · exact ⟨h.silent, h.replied, h.disposed, fun _ => hfork, hfork, hreaped, rfl,
      hagrees.overdue hfork hnow hlate rfl rfl rfl⟩

theorem waitKilled_cases (h : s.waitKilled a = some s') : ∃ report finished,
    s.phase = .killing report finished ∧ s.activity = .exited ∧
      s' = { s with
        activity := .reaped
        object := a.callbacks.onError report s.object
        phase := .returned finished } := by
  unfold SandboxState.waitKilled at h
  split at h
  · rename_i report finished hphase hactivity
    exact ⟨report, finished, hphase, hactivity, (Option.some.inj h).symm⟩
  · cases h

theorem Inv.waitKilled (h : s.Inv a t) (hmove : s.waitKilled a = some s') : s'.Inv a t := by
  obtain ⟨report, finished, hphase, hexited, rfl⟩ := waitKilled_cases hmove
  have hp := h.phase
  rw [hphase] at hp
  obtain ⟨hfork, -, -, hagrees⟩ := hp
  refine ⟨fun hrun => ?_, fun hrep => ?_, fun hlink => ⟨(h.disposed hlink).1, fun hrun => ?_⟩,
    h.killed, (if_pos hfork).symm, hagrees.child hfork rfl (fun hs => hs) (Or.inr ⟨rfl, rfl⟩)⟩
  · cases hrun
  · cases hrep
  · cases hrun

/-- Every move keeps the invariant. -/
theorem Inv.move (h : s.Inv a t) {m : SandboxMove T} (hmove : s.move a m = some s') :
    s'.Inv a t := by
  cases m with
  | returns left => exact h.reply hmove
  | throws e left => exact h.reply hmove
  | pollTimeout elapsed => exact h.pollTimeout hmove
  | receive => exact h.receive hmove
  | waitpid elapsed => exact h.waitpid hmove
  | waitKilled => exact h.waitKilled hmove
  | connect =>
    obtain ⟨hguard, hs'⟩ := Option.ite_none_right_eq_some.1 hmove
    obtain rfl := Option.some.inj hs'
    exact h.connect hguard.1
  | writeOther =>
    obtain ⟨hguard, hs'⟩ := Option.ite_none_right_eq_some.1 hmove
    obtain rfl := Option.some.inj hs'
    exact h.writeOther hguard.1 hguard.2.1 hguard.2.2
  | crashes signal trace left =>
    obtain ⟨-, hreply⟩ := Option.ite_none_right_eq_some.1 hmove
    exact h.reply hreply
  | exits =>
    obtain ⟨hguard, hs'⟩ := Option.ite_none_right_eq_some.1 hmove
    obtain rfl := Option.some.inj hs'
    exact h.exits hguard.1 (Or.inr hguard.2)
  | dies =>
    obtain ⟨hguard, hs'⟩ := Option.ite_none_right_eq_some.1 hmove
    obtain rfl := Option.some.inj hs'
    exact h.exits hguard.1 hguard.2
  | join =>
    obtain ⟨hguard, hs'⟩ := Option.ite_none_right_eq_some.1 hmove
    obtain rfl := Option.some.inj hs'
    exact h.join hguard.1 hguard.2
  | accept =>
    obtain ⟨hguard, hs'⟩ := Option.ite_none_right_eq_some.1 hmove
    obtain rfl := Option.some.inj hs'
    exact h.accept hguard.1
  | dispose =>
    obtain ⟨hguard, hs'⟩ := Option.ite_none_right_eq_some.1 hmove
    obtain rfl := Option.some.inj hs'
    exact h.dispose hguard.1 hguard.2.2.1 hguard.2.2.2

end SandboxState

end Dtest
