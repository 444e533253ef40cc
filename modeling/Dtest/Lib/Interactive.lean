import Mathlib.Data.List.Basic
import Mathlib.Logic.Basic

/-!
# Computations that meet outcomes

An `Interactive` computation works on a state and consumes the outcomes of its environment in order.
It returns, raises an exception or halts for good; it is undefined where it goes on waiting, or
where an outcome is not one of what it is doing.

`Keeps obs Fails` says of a computation that it leaves an observation of the state as it was, and
that it raises an exception exactly if an outcome that it consumes is a failure.  It is closed under
the operations (`Keeps.bind`, `Keeps.meet`, `Keeps.within`, `Keeps.loop`); `bracketed_bracket` is
about a computation between two changes of the observation, of which an exception skips the second.
`loop_eq` and `whileDo_eq` are the equations of the loops.
-/

universe u

/-- How a computation ends. -/
inductive Ending (X E A : Type u) where
  | returned (a : A)
  | raised (e : E)
  | halted (x : X)
  deriving DecidableEq

/-- A computation on states `S` that consumes outcomes `O`, with what is left of them. -/
def Interactive (S O X E A : Type u) : Type u := S → List O → Option (Ending X E A × S × List O)

namespace Interactive

variable {S O X E A B : Type u}

/-- Continues a computation that has returned. -/
def continueWith (f : A → Interactive S O X E B) :
    Ending X E A × S × List O → Option (Ending X E B × S × List O)
  | (.returned a, s, os) => f a s os
  | (.raised e, s, os) => some (.raised e, s, os)
  | (.halted x, s, os) => some (.halted x, s, os)

instance : Monad (Interactive S O X E) where
  pure a s os := some (.returned a, s, os)
  bind x f s os := (x s os).bind (continueWith f)

theorem id_map_eq (x : Interactive S O X E A) : id <$> x = x := by
  funext s os
  cases h : x s os with
  | none => exact congrArg (Option.bind · _) h
  | some r =>
    refine (congrArg (Option.bind · _) h).trans ?_
    obtain ⟨e, s', rest⟩ := r
    cases e <;> rfl

theorem bind_bind_eq {C : Type u} (x : Interactive S O X E A) (f : A → Interactive S O X E B)
    (g : B → Interactive S O X E C) : x >>= f >>= g = x >>= fun a => f a >>= g := by
  funext s os
  refine (Option.bind_assoc _ _ _).trans (congrArg _ (funext fun r => ?_))
  obtain ⟨e, s', rest⟩ := r
  cases e <;> rfl

instance : LawfulMonad (Interactive S O X E) :=
  LawfulMonad.mk' _ id_map_eq (fun _ _ => rfl) bind_bind_eq

/-- The state. -/
def state : Interactive S O X E S := fun s os => some (.returned s, s, os)

theorem state_bind (f : S → Interactive S O X E A) (s : S) (os : List O) :
    (state >>= f) s os = f s s os := rfl

def update (f : S → S) : Interactive S O X E PUnit := fun s os => some (.returned ⟨⟩, f s, os)

def raise (e : E) : Interactive S O X E A := fun s os => some (.raised e, s, os)

def halt (x : X) : Interactive S O X E A := fun s os => some (.halted x, s, os)

def undefined : Interactive S O X E A := fun _ _ => none

/-- The next outcome. -/
def meet : Interactive S O X E O
  | _, [] => none
  | s, o :: os => some (.returned o, s, os)

/-- The value of an option; halts where there is none. -/
def demand (x : X) : Option A → Interactive S O X E A
  | none => halt x
  | some a => pure a

/-- A computation in the scope of an object: `destroy` runs when it returns and when it raises. -/
def within (destroy : S → S) (x : Interactive S O X E A) : Interactive S O X E A := fun s os =>
  (x s os).map fun r => match r.1 with
    | .halted _ => r
    | _ => (r.1, destroy r.2.1, r.2.2)

/-- `enter` before a computation and `leave` after it, which an exception skips. -/
def bracket (enter leave : S → S) (x : Interactive S O X E A) : Interactive S O X E A := do
  update enter
  let a ← x
  update leave
  pure a

/-- At most `n` rounds of `body`, up to one that gives a result. -/
def loopFor (body : B → Interactive S O X E (B ⊕ A)) : ℕ → B → Interactive S O X E A
  | 0, _ => undefined
  | n + 1, b => body b >>= Sum.elim (loopFor body n) pure

/-- Rounds of `body` up to one that gives a result.  A round that does not is to consume an
outcome. -/
def loop (body : B → Interactive S O X E (B ⊕ A)) (b : B) : Interactive S O X E A := fun s os =>
  loopFor body (os.length + 1) b s os

/-- A round of `while (cond) x`. -/
def whileRound (cond : S → Bool) (x : Interactive S O X E A) (b : PUnit.{u + 1}) :
    Interactive S O X E (PUnit.{u + 1} ⊕ PUnit.{u + 1}) := do
  if cond (← state) then
    let _ ← x
    pure (.inl b)
  else pure (.inr b)

/-- `while (cond) x`. -/
def whileDo (cond : S → Bool) (x : Interactive S O X E A) : Interactive S O X E PUnit :=
  loop (whileRound cond x) ⟨⟩

/-! ## Specifications -/

/-- Every run of `x` satisfies `R`, a relation between the state, the outcomes consumed, the ending
and the state it leaves. -/
def Meets (x : Interactive S O X E A) (R : S → List O → Ending X E A → S → Prop) : Prop :=
  ∀ s os e s' rest, x s os = some (e, s', rest) → ∃ used, os = used ++ rest ∧ R s used e s'

section Keeps

variable {D : Type*} (obs : S → D) (Fails : O → Prop)

/-- The observation is kept, and the ending is an exception if and only if an outcome is a
failure. -/
def Kept (s : S) (used : List O) : Ending X E A → S → Prop
  | .returned _, s' => obs s' = obs s ∧ ∀ o ∈ used, ¬ Fails o
  | .raised _, s' => obs s' = obs s ∧ ∃ o ∈ used, Fails o
  | .halted _, _ => True

def Keeps (x : Interactive S O X E A) : Prop := x.Meets (Kept obs Fails)

/-- The computation does not return, and keeps the observation where it raises. -/
def Raises (x : Interactive S O X E A) : Prop :=
  x.Meets fun s _ e s' => match e with
    | .returned _ => False
    | .raised _ => obs s' = obs s
    | .halted _ => True

/-- What a computation between two changes of the observation does, of which the second undoes the
first: an exception, which skips the second, leaves the observation after the first. -/
def Bracketed (next : D → D) (x : Interactive S O X E A) : Prop :=
  x.Meets fun s used e s' => match e with
    | .returned _ => obs s' = obs s ∧ ∀ o ∈ used, ¬ Fails o
    | .raised _ => obs s' = next (obs s) ∧ ∃ o ∈ used, Fails o
    | .halted _ => True

variable {obs Fails} {x : Interactive S O X E A} {f : A → Interactive S O X E B}

theorem Keeps.pure (a : A) : Keeps obs Fails (Pure.pure a : Interactive S O X E A) := by
  intro s os e s' rest h
  cases h
  exact ⟨[], rfl, rfl, fun o ho => absurd ho List.not_mem_nil⟩

theorem Keeps.state : Keeps obs Fails (state : Interactive S O X E S) := by
  intro s os e s' rest h
  cases h
  exact ⟨[], rfl, rfl, fun o ho => absurd ho List.not_mem_nil⟩

theorem Keeps.update {g : S → S} (hg : ∀ s, obs (g s) = obs s) :
    Keeps obs Fails (update g : Interactive S O X E PUnit) := by
  intro s os e s' rest h
  cases h
  exact ⟨[], rfl, hg s, fun o ho => absurd ho List.not_mem_nil⟩

theorem Keeps.halt (y : X) : Keeps obs Fails (halt y : Interactive S O X E A) := by
  intro s os e s' rest h
  cases h
  exact ⟨[], rfl, trivial⟩

theorem Keeps.undefined : Keeps obs Fails (undefined : Interactive S O X E A) := by
  intro s os e s' rest h
  cases h

theorem Keeps.demand (y : X) (a : Option A) :
    Keeps obs Fails (demand y a : Interactive S O X E A) := by
  cases a with
  | none => exact Keeps.halt y
  | some a => exact Keeps.pure a

theorem Keeps.bind (hx : Keeps obs Fails x) (hf : ∀ a, Keeps obs Fails (f a)) :
    Keeps obs Fails (x >>= f) := by
  intro s os e s'' rest h
  obtain ⟨⟨e₁, s', rest₁⟩, h₁, h₂⟩ := Option.bind_eq_some_iff.mp h
  obtain ⟨used, rfl, hkept⟩ := hx s os e₁ s' rest₁ h₁
  cases e₁ with
  | returned a =>
    obtain ⟨used', rfl, hkept'⟩ := hf a s' rest₁ e s'' rest h₂
    refine ⟨used ++ used', (List.append_assoc ..).symm, ?_⟩
    cases e with
    | returned b =>
      refine ⟨hkept'.1.trans hkept.1, fun o ho => ?_⟩
      rcases List.mem_append.mp ho with ho | ho
      exacts [hkept.2 o ho, hkept'.2 o ho]
    | raised e =>
      obtain ⟨o, ho, hfail⟩ := hkept'.2
      exact ⟨hkept'.1.trans hkept.1, o, List.mem_append_right _ ho, hfail⟩
    | halted y => trivial
  | raised e₁ =>
    cases h₂
    exact ⟨used, rfl, hkept⟩
  | halted y =>
    cases h₂
    exact ⟨used, rfl, trivial⟩

theorem Keeps.update_bind {g : S → S} {f : PUnit → Interactive S O X E A}
    (hg : ∀ s, obs (g s) = obs s) (hf : ∀ a, Keeps obs Fails (f a)) :
    Keeps obs Fails (Interactive.update g >>= f) :=
  (Keeps.update hg).bind hf

theorem raises_raise (e : E) : Raises obs (raise e : Interactive S O X E A) := by
  intro s os e s' rest h
  cases h
  exact ⟨[], rfl, rfl⟩

theorem raises_undefined : Raises obs (undefined : Interactive S O X E A) := by
  intro s os e s' rest h
  cases h

theorem Raises.update_bind {g : S → S} (hg : ∀ s, obs (g s) = obs s) {x : Interactive S O X E A}
    (hx : Raises obs x) : Raises obs (Interactive.update g >>= fun _ => x) := by
  intro s os e s' rest h
  obtain ⟨used, hos, hraises⟩ := hx (g s) os e s' rest h
  refine ⟨used, hos, ?_⟩
  cases e with
  | returned a => exact hraises
  | raised e => exact Eq.trans hraises (hg s)
  | halted y => trivial

/-- What follows an outcome raises after a failure and keeps the observation otherwise. -/
theorem Keeps.meet {f : O → Interactive S O X E A} (hok : ∀ o, ¬ Fails o → Keeps obs Fails (f o))
    (hfail : ∀ o, Fails o → Raises obs (f o)) : Keeps obs Fails (Interactive.meet >>= f) := by
  intro s os e s' rest h
  cases os with
  | nil => cases h
  | cons o os =>
    replace h : f o s os = some (e, s', rest) := h
    by_cases ho : Fails o
    · obtain ⟨used, rfl, hraises⟩ := hfail o ho s os e s' rest h
      refine ⟨o :: used, rfl, ?_⟩
      cases e with
      | returned a => exact hraises.elim
      | raised e => exact ⟨hraises, o, List.mem_cons_self, ho⟩
      | halted y => trivial
    · obtain ⟨used, rfl, hkept⟩ := hok o ho s os e s' rest h
      refine ⟨o :: used, rfl, ?_⟩
      cases e with
      | returned a => exact ⟨hkept.1, List.forall_mem_cons.mpr ⟨ho, hkept.2⟩⟩
      | raised e =>
        obtain ⟨o', ho', hfail'⟩ := hkept.2
        exact ⟨hkept.1, o', List.mem_cons_of_mem o ho', hfail'⟩
      | halted y => trivial

theorem Keeps.within {destroy : S → S} (hd : ∀ s, obs (destroy s) = obs s)
    (hx : Keeps obs Fails x) :
    Keeps obs Fails (within destroy x) := by
  intro s os e s'' rest h
  obtain ⟨⟨e₁, s', rest₁⟩, h₁, h₂⟩ := Option.map_eq_some_iff.mp h
  obtain ⟨used, rfl, hkept⟩ := hx s os e₁ s' rest₁ h₁
  refine ⟨used, ?_⟩
  cases e₁ with
  | returned a =>
    cases h₂
    exact ⟨rfl, (hd s').trans hkept.1, hkept.2⟩
  | raised e₁ =>
    cases h₂
    exact ⟨rfl, (hd s').trans hkept.1, hkept.2⟩
  | halted y =>
    cases h₂
    exact ⟨rfl, trivial⟩

/-- The invariant rule for loops: what every round keeps is kept. -/
theorem Keeps.loop {body : B → Interactive S O X E (B ⊕ A)} (hbody : ∀ b, Keeps obs Fails (body b))
    (b : B) : Keeps obs Fails (loop body b) := by
  have hfor : ∀ n b, Keeps obs Fails (loopFor body n b) := by
    intro n
    induction n with
    | zero => exact fun _ => Keeps.undefined
    | succ n ih =>
      refine fun b => (hbody b).bind fun r => ?_
      cases r with
      | inl b => exact ih b
      | inr a => exact Keeps.pure a
  exact fun s os => hfor (os.length + 1) b s os

theorem Keeps.whileDo (cond : S → Bool) (hx : Keeps obs Fails x) :
    Keeps obs Fails (whileDo cond x) := by
  refine Keeps.loop (fun b => Keeps.state.bind fun s => ?_) _
  cases cond s with
  | true => exact hx.bind fun _ => Keeps.pure _
  | false => exact Keeps.pure _

theorem Bracketed.map {next : D → D} (h : Bracketed obs Fails next x) (g : A → B) :
    Bracketed obs Fails next (g <$> x) := by
  intro s os e s'' rest hr
  obtain ⟨⟨e₁, s', rest₁⟩, h₁, h₂⟩ := Option.bind_eq_some_iff.mp hr
  obtain ⟨used, hos, hleft⟩ := h s os e₁ s' rest₁ h₁
  cases e₁ <;> cases h₂ <;> exact ⟨used, hos, hleft⟩

theorem bracketed_bracket {enter leave : S → S} {next : D → D}
    (henter : ∀ s, obs (enter s) = next (obs s))
    (hleave : ∀ s d, obs s = next d → obs (leave s) = d) (hx : Keeps obs Fails x) :
    Bracketed obs Fails next (bracket enter leave x) := by
  intro s os e s'' rest h
  obtain ⟨⟨e₁, s', rest₁⟩, h₁, h₂⟩ := Option.bind_eq_some_iff.mp
    (show (x (enter s) os).bind _ = some (e, s'', rest) from h)
  obtain ⟨used, hos, hkept⟩ := hx (enter s) os e₁ s' rest₁ h₁
  cases e₁ with
  | returned a =>
    cases h₂
    exact ⟨used, hos, hleave s' _ (hkept.1.trans (henter s)), hkept.2⟩
  | raised e₁ =>
    cases h₂
    exact ⟨used, hos, hkept.1.trans (henter s), hkept.2⟩
  | halted y =>
    cases h₂
    exact ⟨used, hos, trivial⟩

end Keeps

/-! ## The equations of the loops -/

/-- Where it returns, the computation has consumed an outcome. -/
def Consumes (x : Interactive S O X E A) : Prop :=
  ∀ s os a s' rest, x s os = some (.returned a, s', rest) → rest.length < os.length

/-- A round that gives no result has consumed an outcome. -/
def Advances (body : B → Interactive S O X E (B ⊕ A)) : Prop :=
  ∀ b s os b' s' rest, body b s os = some (.returned (.inl b'), s', rest) → rest.length < os.length

variable {x : Interactive S O X E A} {body : B → Interactive S O X E (B ⊕ A)}

theorem Meets.length_le {R : S → List O → Ending X E A → S → Prop} (h : x.Meets R) {s s' : S}
    {os rest : List O} {e : Ending X E A} (hx : x s os = some (e, s', rest)) :
    rest.length ≤ os.length := by
  obtain ⟨used, rfl, -⟩ := h s os e s' rest hx
  rw [List.length_append]
  exact Nat.le_add_left _ _

theorem consumes_meet : Consumes (meet : Interactive S O X E O) := by
  intro s os a s' rest h
  cases os with
  | nil => cases h
  | cons o os =>
    cases h
    exact Nat.lt_succ_self _

theorem Consumes.bind {f : A → Interactive S O X E B} (hx : Consumes x)
    (hf : ∀ a, ∃ R, (f a).Meets R) : Consumes (x >>= f) := by
  intro s os b s'' rest h
  obtain ⟨⟨e, s', rest'⟩, h₁, h₂⟩ := Option.bind_eq_some_iff.mp h
  cases e with
  | raised e => cases h₂
  | halted y => cases h₂
  | returned a =>
    obtain ⟨R, hR⟩ := hf a
    exact Nat.lt_of_le_of_lt (hR.length_le h₂) (hx s os a s' rest' h₁)

theorem Consumes.within {destroy : S → S} (hx : Consumes x) : Consumes (within destroy x) := by
  intro s os a s'' rest h
  obtain ⟨⟨e, s', rest'⟩, h₁, h₂⟩ := Option.map_eq_some_iff.mp h
  cases e with
  | raised e => cases h₂
  | halted y => cases h₂
  | returned b =>
    cases h₂
    exact hx s os _ s' rest' h₁

theorem Consumes.advances (h : ∀ b, Consumes (body b)) : Advances body :=
  fun b s os b' s' rest hb => h b s os (.inl b') s' rest hb

theorem loopFor_eq (h : Advances body) {n m : ℕ} (b : B) (s : S) (os : List O) (hn : os.length < n)
    (hm : os.length < m) : loopFor body n b s os = loopFor body m b s os := by
  induction n generalizing m b s os with
  | zero => exact absurd hn (Nat.not_lt_zero _)
  | succ n ih =>
    obtain ⟨m, rfl⟩ := Nat.exists_eq_succ_of_ne_zero (Nat.ne_zero_of_lt hm)
    refine Option.bind_congr fun r hr => ?_
    obtain ⟨e, s', rest⟩ := r
    cases e with
    | raised e => rfl
    | halted y => rfl
    | returned r =>
      cases r with
      | inr a => rfl
      | inl b' =>
        have hlt := h b s os b' s' rest hr
        exact ih b' s' rest (by omega) (by omega)

/-- A loop is a round with the loop after it. -/
theorem loop_eq (h : Advances body) (b : B) :
    loop body b = body b >>= Sum.elim (loop body) pure := by
  funext s os
  refine Option.bind_congr fun r hr => ?_
  obtain ⟨e, s', rest⟩ := r
  cases e with
  | raised e => rfl
  | halted y => rfl
  | returned r =>
    cases r with
    | inr a => rfl
    | inl b' =>
      have hlt := h b s os b' s' rest hr
      exact loopFor_eq h b' s' rest hlt (Nat.lt_succ_self _)

theorem consumes_loop (h : ∀ b, Consumes (body b)) (b : B) : Consumes (loop body b) := by
  have hfor : ∀ n b, Consumes (loopFor body n b) := by
    intro n
    induction n with
    | zero => exact fun _ _ _ _ _ _ h => by cases h
    | succ n ih =>
      intro b s os a s'' rest hr
      obtain ⟨⟨e, s', rest'⟩, h₁, h₂⟩ := Option.bind_eq_some_iff.mp hr
      cases e with
      | raised e => cases h₂
      | halted y => cases h₂
      | returned r =>
        have hlt := h b s os r s' rest' h₁
        cases r with
        | inl b' => exact Nat.lt_trans (ih b' s' rest' a s'' rest h₂) hlt
        | inr a' =>
          cases h₂
          exact hlt
  exact fun s os => hfor (os.length + 1) b s os

theorem Consumes.whileRound (cond : S → Bool) (hx : Consumes x) : Advances (whileRound cond x) := by
  intro b s os b' s'' rest h
  cases hc : cond s with
  | false =>
    have hpure : Interactive.whileRound cond x b s os = some (.returned (.inr b), s, os) := by
      rw [Interactive.whileRound, state_bind, hc]
      rfl
    rw [hpure] at h
    cases h
  | true =>
    rw [Interactive.whileRound, state_bind, hc] at h
    exact hx.bind (fun _ => ⟨Kept id fun _ => False, Keeps.pure _⟩) s os _ s'' rest h

theorem whileDo_eq (cond : S → Bool) (hx : Consumes x) :
    whileDo cond x = (do
      if cond (← state) then
        let _ ← x
        whileDo cond x
      else pure ⟨⟩) := by
  refine (loop_eq (hx.whileRound cond) _).trans ?_
  simp only [Interactive.whileRound, bind_assoc]
  refine congrArg _ (funext fun s => ?_)
  cases cond s with
  | false => rfl
  | true => exact bind_assoc x _ _

end Interactive
