import Dtest.Scheduler.Model
import Mathlib.Data.Finset.Lattice.Basic
import Mathlib.Data.List.Perm.Basic

/-!
# Registration of tests and of module dependencies

Static initialisation constructs the tests, declares their dependencies and declares the
dependencies of modules, in an order that depends on the order of the files.  A constructor copies
the dependencies declared for its module so far, and a declaration for a module adds them to the
tests known so far.  `registration_iff` gives the exact condition under which the outcome does not
depend on the order: a second declaration for a module replaces the first in `__globalDependencies`.
-/

namespace Dtest

/-- A registration action: the constructor of a test, `dependsOn` on a test, and `dependsOn` on a
module. -/
inductive Registration
  | construct (t : TestPtr) (module : String)
  | dependsOn (t : TestPtr) (dependencies : Finset String)
  | moduleDependsOn (module : String) (dependencies : Finset String)
  deriving DecidableEq

/-- The static state that registration writes. -/
structure Registered where
  tests : String → List TestPtr := fun _ => []
  globalDependencies : String → Option (Finset String) := fun _ => none
  dependencies : TestPtr → Finset String := fun _ => ∅

namespace Registered

/-- `Test::setGlobalModuleDependencies`. -/
def setGlobalModuleDependencies (s : Registered) (module : String) (deps : Finset String) :
    Registered :=
  { s with
    globalDependencies := Function.update s.globalDependencies module (some deps)
    dependencies := fun t =>
      if t ∈ s.tests module then s.dependencies t ∪ deps else s.dependencies t }

def step (s : Registered) : Registration → Registered
  | .construct t module =>
    { s with
      tests := Function.update s.tests module (s.tests module ++ [t])
      dependencies := Function.update s.dependencies t ((s.globalDependencies module).getD ∅) }
  | .dependsOn t deps =>
    { s with dependencies := Function.update s.dependencies t (s.dependencies t ∪ deps) }
  | .moduleDependsOn module deps => s.setGlobalModuleDependencies module deps

end Registered

/-- The static state after a list of actions. -/
def register (as : List Registration) : Registered := as.foldl Registered.step {}

namespace Registration

/-- The order of actions is possible: a test is constructed once, and before its own `dependsOn`;
`known` lists the tests constructed earlier. -/
def Valid : List TestPtr → List Registration → Prop
  | _, [] => True
  | known, .construct t _ :: as => t ∉ known ∧ Valid (t :: known) as
  | known, .dependsOn t _ :: as => t ∈ known ∧ Valid known as
  | known, .moduleDependsOn _ _ :: as => Valid known as

instance decidableValid : ∀ known as, Decidable (Valid known as)
  | _, [] => inferInstanceAs (Decidable True)
  | known, .construct t _ :: as =>
    have := decidableValid (t :: known) as
    inferInstanceAs (Decidable (_ ∧ _))
  | known, .dependsOn _ _ :: as =>
    have := decidableValid known as
    inferInstanceAs (Decidable (_ ∧ _))
  | known, .moduleDependsOn _ _ :: as => decidableValid known as

/-- All dependencies that `f` finds in the actions. -/
def collect (f : Registration → Option (Finset String)) : List Registration → Finset String
  | [] => ∅
  | a :: as => (f a).getD ∅ ∪ collect f as

/-- What an action declares for the test `t` itself. -/
def own? (t : TestPtr) : Registration → Option (Finset String)
  | .dependsOn t' deps => if t' = t then some deps else none
  | _ => none

/-- What an action declares for the module `m`. -/
def declared? (m : String) : Registration → Option (Finset String)
  | .moduleDependsOn m' deps => if m' = m then some deps else none
  | _ => none

/-- The dependencies that a test declares itself. -/
def own (t : TestPtr) (as : List Registration) : Finset String := collect (own? t) as

/-- The dependencies declared for a module. -/
def declared (m : String) (as : List Registration) : Finset String := collect (declared? m) as

/-- The tests constructed. -/
def constructed : List Registration → List TestPtr
  | [] => []
  | .construct t _ :: as => t :: constructed as
  | _ :: as => constructed as

variable {t : TestPtr} {m : String} {d : String} {as bs : List Registration} {known : List TestPtr}

theorem mem_collect {f : Registration → Option (Finset String)} :
    d ∈ collect f as ↔ ∃ a ∈ as, ∃ deps, f a = some deps ∧ d ∈ deps := by
  induction as with
  | nil => simp [collect]
  | cons a as ih =>
    rw [collect, Finset.mem_union, ih]
    cases hf : f a with
    | none => simp [hf]
    | some deps => simp [hf]

theorem own?_eq_some {a : Registration} {deps : Finset String} :
    own? t a = some deps ↔ a = .dependsOn t deps := by
  cases a <;> simp [own?, eq_comm]

theorem declared?_eq_some {a : Registration} {deps : Finset String} :
    declared? m a = some deps ↔ a = .moduleDependsOn m deps := by
  cases a <;> simp [declared?, eq_comm]

/-- What the actions `g deps` collect, where only these name dependencies. -/
theorem mem_collect_of {f : Registration → Option (Finset String)}
    {g : Finset String → Registration} (hf : ∀ a deps, f a = some deps ↔ a = g deps) :
    d ∈ collect f as ↔ ∃ deps, g deps ∈ as ∧ d ∈ deps := by
  simp only [mem_collect, hf]
  constructor
  · rintro ⟨_, hmem, deps, rfl, hd⟩
    exact ⟨deps, hmem, hd⟩
  · rintro ⟨deps, hmem, hd⟩
    exact ⟨_, hmem, deps, rfl, hd⟩

theorem mem_own : d ∈ own t as ↔ ∃ deps, .dependsOn t deps ∈ as ∧ d ∈ deps :=
  mem_collect_of fun _ _ => own?_eq_some

theorem mem_declared : d ∈ declared m as ↔ ∃ deps, .moduleDependsOn m deps ∈ as ∧ d ∈ deps :=
  mem_collect_of fun _ _ => declared?_eq_some

theorem valid_append :
    Valid known (as ++ bs) ↔ Valid known as ∧ Valid ((constructed as).reverse ++ known) bs := by
  induction as generalizing known with
  | nil => simp [Valid, constructed]
  | cons a as ih => cases a <;> simp [Valid, constructed, ih, and_assoc]

theorem Valid.notMem_constructed (h : Valid known as) (ht : t ∈ known) : t ∉ constructed as := by
  induction as generalizing known with
  | nil => exact List.not_mem_nil
  | cons a as ih =>
    cases a with
    | construct t' m' =>
      have hne : t ≠ t' := fun e => h.1 (e ▸ ht)
      exact fun hmem => (List.mem_cons.1 hmem).elim hne (ih h.2 (List.mem_cons_of_mem _ ht))
    | dependsOn t' deps => exact ih h.2 ht
    | moduleDependsOn m' deps => exact ih h ht

theorem Valid.mem_of_dependsOn (h : Valid known as) {deps : Finset String}
    (hmem : .dependsOn t deps ∈ as) : t ∈ known ∨ t ∈ constructed as := by
  induction as generalizing known with
  | nil => exact absurd hmem List.not_mem_nil
  | cons a as ih =>
    cases a with
    | construct t' m' =>
      have hmem' := (List.mem_cons.1 hmem).resolve_left nofun
      rcases ih h.2 hmem' with ht | ht
      · rcases List.mem_cons.1 ht with rfl | ht
        · exact Or.inr (List.mem_cons_self ..)
        · exact Or.inl ht
      · exact Or.inr (List.mem_cons_of_mem _ ht)
    | dependsOn t' deps' =>
      rcases List.mem_cons.1 hmem with heq | hmem'
      · obtain ⟨rfl, -⟩ := dependsOn.inj heq
        exact Or.inl h.1
      · exact ih h.2 hmem'
    | moduleDependsOn m' deps' => exact ih h ((List.mem_cons.1 hmem).resolve_left nofun)

/-! ## What the actions leave -/

/-- Only a declaration for the module changes its entry of `__globalDependencies`. -/
theorem globalDependencies_foldl (s : Registered) (h : ∀ deps, .moduleDependsOn m deps ∉ as) :
    (as.foldl Registered.step s).globalDependencies m = s.globalDependencies m := by
  induction as generalizing s with
  | nil => rfl
  | cons a as ih =>
    rw [List.foldl_cons, ih _ fun deps hmem => h deps (List.mem_cons_of_mem _ hmem)]
    cases a with
    | construct t' m' => rfl
    | dependsOn t' deps => rfl
    | moduleDependsOn m' deps =>
      refine Function.update_of_ne (fun e => ?_) _ _
      exact h deps (e ▸ List.mem_cons_self ..)

/-- An entry of `__globalDependencies` comes from a declaration. -/
theorem declared_of_globalDependencies {s : Registered} {deps : Finset String}
    (h : (as.foldl Registered.step s).globalDependencies m = some deps) :
    s.globalDependencies m = some deps ∨ .moduleDependsOn m deps ∈ as := by
  induction as generalizing s with
  | nil => exact Or.inl h
  | cons a as ih =>
    rcases ih h with hs | hmem
    · cases a with
      | construct t' m' => exact Or.inl hs
      | dependsOn t' deps' => exact Or.inl hs
      | moduleDependsOn m' deps' =>
        change Function.update s.globalDependencies m' (some deps') m = some deps at hs
        by_cases hm : m = m'
        · subst hm
          rw [Function.update_self] at hs
          exact Or.inr (Option.some.inj hs ▸ List.mem_cons_self ..)
        · rw [Function.update_of_ne hm] at hs
          exact Or.inl hs
    · exact Or.inr (List.mem_cons_of_mem _ hmem)

/-- A declaration for a module leaves an entry. -/
theorem globalDependencies_ne_none {s : Registered}
    (h : s.globalDependencies m ≠ none ∨ ∃ deps, .moduleDependsOn m deps ∈ as) :
    (as.foldl Registered.step s).globalDependencies m ≠ none := by
  induction as generalizing s with
  | nil => exact h.resolve_right fun ⟨_, hmem⟩ => List.not_mem_nil hmem
  | cons a as ih =>
    apply ih
    cases a with
    | construct t' m' =>
      exact h.imp_right fun ⟨deps, hmem⟩ => ⟨deps, (List.mem_cons.1 hmem).resolve_left nofun⟩
    | dependsOn t' deps' =>
      exact h.imp_right fun ⟨deps, hmem⟩ => ⟨deps, (List.mem_cons.1 hmem).resolve_left nofun⟩
    | moduleDependsOn m' deps' =>
      show Function.update s.globalDependencies m' (some deps') m ≠ none ∨ _
      by_cases hm : m = m'
      · subst hm
        rw [Function.update_self]
        exact Or.inl nofun
      · rw [Function.update_of_ne hm]
        refine h.imp_right fun ⟨deps, hmem⟩ =>
          ⟨deps, (List.mem_cons.1 hmem).resolve_left fun e => ?_⟩
        exact hm (moduleDependsOn.inj e).1

theorem mem_tests {s : Registered} (h : t ∈ (as.foldl Registered.step s).tests m) :
    t ∈ s.tests m ∨ t ∈ constructed as := by
  induction as generalizing s with
  | nil => exact Or.inl h
  | cons a as ih =>
    cases a with
    | construct t' m' =>
      rcases ih h with hs | hmem
      · change t ∈ Function.update s.tests m' (s.tests m' ++ [t']) m at hs
        by_cases hm : m = m'
        · subst hm
          rw [Function.update_self] at hs
          rcases List.mem_append.1 hs with hs | hs
          · exact Or.inl hs
          · exact Or.inr (List.mem_singleton.1 hs ▸ List.mem_cons_self ..)
        · rw [Function.update_of_ne hm] at hs
          exact Or.inl hs
      · exact Or.inr (List.mem_cons_of_mem _ hmem)
    | dependsOn t' deps' => exact ih (s := s.step (.dependsOn t' deps')) h
    | moduleDependsOn m' deps' => exact ih (s := s.step (.moduleDependsOn m' deps')) h

/-- After its construction a test collects its own dependencies and those declared for its
module. -/
theorem mem_dependencies_foldl {s : Registered} (htests : ∀ m', t ∈ s.tests m' ↔ m' = m)
    (ht : t ∉ constructed as) :
    d ∈ (as.foldl Registered.step s).dependencies t ↔
      d ∈ s.dependencies t ∨ d ∈ own t as ∨ d ∈ declared m as := by
  induction as generalizing s with
  | nil => simp [own, declared, collect]
  | cons a as ih =>
    rw [List.foldl_cons]
    simp only [own, declared, collect, Finset.mem_union] at ih ⊢
    cases a with
    | construct t' m' =>
      have hne : t ≠ t' := fun e => ht (e ▸ List.mem_cons_self ..)
      have htests' : ∀ q, t ∈ (s.step (.construct t' m')).tests q ↔ q = m := fun q => by
        show t ∈ Function.update s.tests m' (s.tests m' ++ [t']) q ↔ q = m
        by_cases hq : q = m'
        · subst hq
          rw [Function.update_self, List.mem_append, List.mem_singleton, htests]
          exact ⟨fun h => h.resolve_right hne, Or.inl⟩
        · rw [Function.update_of_ne hq]
          exact htests q
      rw [ih htests' fun h => ht (List.mem_cons_of_mem _ h)]
      simp [Registered.step, own?, declared?, Function.update_of_ne hne]
    | dependsOn t' deps =>
      rw [ih (s := s.step (.dependsOn t' deps)) htests ht]
      by_cases hne : t = t'
      · subst hne
        simp [Registered.step, own?, declared?, or_assoc]
      · simp [Registered.step, own?, declared?, Function.update_of_ne hne, Ne.symm hne]
    | moduleDependsOn m' deps =>
      rw [ih (s := s.step (.moduleDependsOn m' deps)) htests ht]
      by_cases hm : m' = m
      · subst hm
        simp [Registered.step, Registered.setGlobalModuleDependencies, own?, declared?, htests]
        tauto
      · simp [Registered.step, Registered.setGlobalModuleDependencies, own?, declared?, htests, hm]

/-- The dependencies of a test: those stored for its module when it was constructed, its own, and
those declared for its module since. -/
theorem mem_dependencies {pre post : List Registration}
    (h : Valid [] (pre ++ .construct t m :: post)) :
    d ∈ (register (pre ++ .construct t m :: post)).dependencies t ↔
      (∃ deps, (register pre).globalDependencies m = some deps ∧ d ∈ deps) ∨
        d ∈ own t (pre ++ .construct t m :: post) ∨ d ∈ declared m post := by
  obtain ⟨hpre, hnew, hpost⟩ := valid_append.1 h
  rw [List.append_nil, List.mem_reverse] at hnew
  have htests : ∀ m', t ∈ ((register pre).step (.construct t m)).tests m' ↔ m' = m := fun m' => by
    have hold : ∀ q, t ∉ (register pre).tests q := fun q hq =>
      (mem_tests hq).elim List.not_mem_nil hnew
    show t ∈ Function.update (register pre).tests m ((register pre).tests m ++ [t]) m' ↔ m' = m
    by_cases hm : m' = m
    · subst hm
      simp
    · rw [Function.update_of_ne hm]
      exact iff_of_false (hold m') hm
  have hown : d ∈ own t (pre ++ .construct t m :: post) ↔ d ∈ own t post := by
    rw [mem_own, mem_own]
    refine ⟨fun ⟨deps, hmem, hd⟩ => ⟨deps, ?_, hd⟩, fun ⟨deps, hmem, hd⟩ => ⟨deps, ?_, hd⟩⟩
    · rcases List.mem_append.1 hmem with hmem | hmem
      · exact absurd (hpre.mem_of_dependsOn hmem) (not_or.2 ⟨List.not_mem_nil, hnew⟩)
      · exact (List.mem_cons.1 hmem).resolve_left nofun
    · exact List.mem_append_right _ (List.mem_cons_of_mem _ hmem)
  have hexec : register (pre ++ .construct t m :: post) =
      post.foldl Registered.step ((register pre).step (.construct t m)) := by
    unfold register
    rw [List.foldl_append, List.foldl_cons]
  rw [hexec, mem_dependencies_foldl htests (hpost.notMem_constructed (List.mem_cons_self ..)), hown]
  show d ∈ Function.update (register pre).dependencies t _ t ∨ _ ↔ _
  rw [Function.update_self]
  cases (register pre).globalDependencies m <;> simp

/-! ## Moving the declarations of a module to the front -/

/-- The action declares dependencies of module `m`. -/
def declares (m : String) (a : Registration) : Bool := (declared? m a).isSome

theorem declares_iff {a : Registration} :
    declares m a = true ↔ ∃ deps, a = .moduleDependsOn m deps := by
  simp only [declares, Option.isSome_iff_exists, declared?_eq_some]

theorem Valid.filter_not (h : Valid known as) (m : String) :
    Valid known (as.filter fun a => !declares m a) := by
  induction as generalizing known with
  | nil => exact h
  | cons a as ih =>
    cases a with
    | construct t' m' => exact ⟨h.1, ih h.2⟩
    | dependsOn t' deps => exact ⟨h.1, ih h.2⟩
    | moduleDependsOn m' deps =>
      rw [List.filter_cons]
      split_ifs
      · exact ih h
      · exact ih h

theorem valid_of_declares (h : ∀ a ∈ as, declares m a = true) (hbs : Valid known bs) :
    Valid known (as ++ bs) := by
  induction as with
  | nil => exact hbs
  | cons a as ih =>
    obtain ⟨deps, rfl⟩ := declares_iff.1 (h a (List.mem_cons_self ..))
    exact ih fun a ha => h a (List.mem_cons_of_mem _ ha)

/-- An order in which all declarations of a module come first, the given one last among them. -/
theorem exists_front (h : Valid [] as) {deps : Finset String}
    (hmem : .moduleDependsOn m deps ∈ as) :
    ∃ front rest, (front ++ .moduleDependsOn m deps :: rest).Perm as ∧
      Valid [] (front ++ .moduleDependsOn m deps :: rest) ∧ (∀ a ∈ front, declares m a = true) ∧
      ∀ deps', .moduleDependsOn m deps' ∉ rest := by
  have hdecl : .moduleDependsOn m deps ∈ as.filter (declares m) :=
    List.mem_filter.2 ⟨hmem, declares_iff.2 ⟨deps, rfl⟩⟩
  have hperm := List.perm_cons_erase hdecl
  have hfront : ∀ a ∈ (as.filter (declares m)).erase (.moduleDependsOn m deps),
      declares m a = true := fun a ha => (List.mem_filter.1 (List.mem_of_mem_erase ha)).2
  refine ⟨(as.filter (declares m)).erase (.moduleDependsOn m deps),
    as.filter fun a => !declares m a, ?_, ?_, hfront, fun deps' hrest => ?_⟩
  · apply List.perm_middle.trans
    rw [← List.cons_append]
    exact (hperm.symm.append_right _).trans (List.filter_append_perm _ as)
  · rw [List.append_cons]
    refine valid_of_declares (m := m) (fun a ha => ?_) (h.filter_not m)
    rcases List.mem_append.1 ha with ha | ha
    · exact hfront a ha
    · rw [List.mem_singleton.1 ha]
      exact declares_iff.2 ⟨deps, rfl⟩
  · have := (List.mem_filter.1 hrest).2
    rw [declares_iff.2 ⟨deps', rfl⟩] at this
    exact absurd this (by decide)

end Registration

open Registration

/-- The dependencies of every test are its own and those declared for its module, in whatever order
the actions are executed. -/
def OrderIndependent (as : List Registration) : Prop :=
  ∀ bs : List Registration, bs.Perm as → Valid [] bs → ∀ t m, .construct t m ∈ bs →
    (register bs).dependencies t = own t as ∪ declared m as

/-- Registration does not depend on the order exactly if, for every test, each declaration of its
module contains all of them, up to what the test declares itself. -/
theorem registration_iff (as : List Registration) (h : Valid [] as) :
    OrderIndependent as ↔ ∀ t m deps, .construct t m ∈ as → .moduleDependsOn m deps ∈ as →
      declared m as ⊆ deps ∪ own t as := by
  constructor
  · intro hind t m deps ht hdeps d hd
    obtain ⟨front, rest, hperm, hvalid, hfront, hrest⟩ := exists_front h hdeps
    have ht' : .construct t m ∈ front ++ .moduleDependsOn m deps :: rest := hperm.mem_iff.2 ht
    have hdep := hind _ hperm hvalid t m ht'
    -- the test is constructed after all declarations of its module
    have htrest : .construct t m ∈ rest := by
      rcases List.mem_append.1 ht' with ht' | ht'
      · obtain ⟨deps', heq⟩ := declares_iff.1 (hfront _ ht')
        exact absurd heq nofun
      · exact (List.mem_cons.1 ht').resolve_left nofun
    obtain ⟨pre, post, rfl⟩ := List.append_of_mem htrest
    have hglobal : (register (front ++ .moduleDependsOn m deps :: pre)).globalDependencies m =
        some deps := by
      unfold register
      rw [List.foldl_append, List.foldl_cons, globalDependencies_foldl]
      · exact Function.update_self ..
      · exact fun deps' hmem => hrest deps' (List.mem_append_left _ hmem)
    rw [← List.cons_append, ← List.append_assoc] at hdep hvalid
    have hmem : d ∈ own t as ∪ declared m as := Finset.mem_union_right _ hd
    rw [← hdep, mem_dependencies hvalid, List.append_assoc, List.cons_append] at hmem
    rcases hmem with ⟨deps', hdeps', hd'⟩ | hd' | hd'
    · rw [hglobal] at hdeps'
      exact Finset.mem_union_left _ (Option.some.inj hdeps' ▸ hd')
    · obtain ⟨deps', hmem', hdd⟩ := mem_own.1 hd'
      exact Finset.mem_union_right _ (mem_own.2 ⟨deps', hperm.mem_iff.1 hmem', hdd⟩)
    · obtain ⟨deps', hmem', -⟩ := mem_declared.1 hd'
      exact absurd (List.mem_append_right _ (List.mem_cons_of_mem _ hmem')) (hrest deps')
  · intro hcond bs hperm hvalid t m ht
    obtain ⟨pre, post, rfl⟩ := List.append_of_mem ht
    have hown : ∀ d, d ∈ own t (pre ++ .construct t m :: post) ↔ d ∈ own t as := fun d => by
      simp only [mem_own, hperm.mem_iff]
    ext d
    rw [mem_dependencies hvalid, hown, Finset.mem_union]
    constructor
    · rintro (⟨deps, hdeps, hd⟩ | hd | hd)
      · have hmem := (declared_of_globalDependencies hdeps).resolve_left nofun
        exact Or.inr (mem_declared.2 ⟨deps, hperm.mem_iff.1 (List.mem_append_left _ hmem), hd⟩)
      · exact Or.inl hd
      · obtain ⟨deps, hmem, hd⟩ := mem_declared.1 hd
        exact Or.inr (mem_declared.2
          ⟨deps, hperm.mem_iff.1 (List.mem_append_right _ (List.mem_cons_of_mem _ hmem)), hd⟩)
    · rintro (hd | hd)
      · exact Or.inr (Or.inl hd)
      · obtain ⟨deps, hmem, hdd⟩ := mem_declared.1 hd
        rcases List.mem_append.1 (hperm.mem_iff.2 hmem) with hpre | hpost
        · -- declared before the construction: the stored set has it, or the test itself
          cases hg : (register pre).globalDependencies m with
          | none => exact absurd hg (globalDependencies_ne_none (Or.inr ⟨deps, hpre⟩))
          | some last =>
            have hlast := (declared_of_globalDependencies hg).resolve_left nofun
            have hsub := hcond t m last (hperm.mem_iff.1 ht)
              (hperm.mem_iff.1 (List.mem_append_left _ hlast)) hd
            exact (Finset.mem_union.1 hsub).imp (fun hd => ⟨last, rfl, hd⟩) Or.inl
        · have hpost' := (List.mem_cons.1 hpost).resolve_left nofun
          exact Or.inr (Or.inr (mem_declared.2 ⟨deps, hpost', hdd⟩))

/-- Two declarations of one module that contain each other up to the test's own dependencies. -/
theorem registration_iff_nested :
    let as : List Registration := [.construct 0 "m", .moduleDependsOn "m" {"a"}, .dependsOn 0 {"b"},
      .moduleDependsOn "m" {"a", "b"}]
    OrderIndependent as ↔ ∀ t m deps, .construct t m ∈ as → .moduleDependsOn m deps ∈ as →
      declared m as ⊆ deps ∪ own t as :=
  registration_iff _ (by decide)

/-- A second declaration for a module, made before the test is constructed, drops the first. -/
theorem second_declaration_drops_first :
    let as : List Registration :=
      [.moduleDependsOn "m" {"a"}, .moduleDependsOn "m" {"b"}, .construct 0 "m"]
    Valid [] as ∧ (register as).dependencies 0 = {"b"} ∧ own 0 as ∪ declared "m" as = {"a", "b"} ∧
      ¬ OrderIndependent as := by
  refine ⟨by decide, by decide, by decide, fun h => ?_⟩
  have hdep := h _ (List.Perm.refl _) (by decide) 0 "m" (by decide)
  exact absurd hdep (by decide)

end Dtest
