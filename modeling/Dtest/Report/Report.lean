import Dtest.Report.Text
import Dtest.UnitTest.Resources

/-!
# Reports of tests

`_report` of the test classes and what it calls.  Each report is the inside of a JSON object
(`leads_report`): the sections decide their own commas, and together they balance.

Times are printed from `double`s: `fixed nanos unit` stands for what a stream writes for
`nanos / unit` in fixed notation with three decimals.
-/

namespace Dtest

open Json

/-- The classes of tests. -/
inductive TestClass
  | unitTest
  | performanceTest
  | distributedUnitTest

/-- What a test object holds for its report; the last two times are members of the derived
classes. -/
structure Findings where
  errors : List String := []
  usedResources : ResourceSnapshot := {}
  out : String := ""
  err : String := ""
  initTime : ℕ := 0
  bodyTime : ℕ := 0
  completeTime : ℕ := 0
  baselineTime : ℕ := 0
  workerBodyTime : ℕ := 0

/-- `formatDurationJSON`. -/
def formatDurationJSON (fixed : ℕ → ℕ → String) (nanos : ℕ) : String :=
  if nanos < 1000 then "\x7b \"value\": " ++ fixed nanos 1 ++ ", \"unit\": \"ns\" \x7d"
  else if nanos < 1000000 then "\x7b \"value\": " ++ fixed nanos 1000 ++ ", \"unit\": \"us\" \x7d"
  else if nanos < 1000000000 then "\x7b \"value\": " ++ fixed nanos 1000000 ++
    ", \"unit\": \"ms\" \x7d"
  else "\x7b \"value\": " ++ fixed nanos 1000000000 ++ ", \"unit\": \"s\" \x7d"

/-- An entry of a memory or network report. -/
def Quantity.report (q : Quantity) (name count : String) : String :=
  "\"" ++ name ++ "\": \x7b\n  \"size\": " ++ toString q.size
    ++ ",\n  \"" ++ count ++ "\": " ++ toString q.count ++ "\n\x7d"

namespace Findings

variable (fixed : ℕ → ℕ → String) (f : Findings)

/-- `Test::_errorReport`. -/
def errorReport : String :=
  if f.errors ≠ [] then
    "\"errors\": [" ++ commas true (f.errors.map fun e => "\n" ++ indent (jsonify e) 2) ++ "\n]"
  else ""

/-- `UnitTest::_hasMemoryReport`. -/
def hasMemoryReport : Prop :=
  0 < f.usedResources.allocate.size ∨ 0 < f.usedResources.deallocate.size

instance : Decidable f.hasMemoryReport := inferInstanceAs (Decidable (_ ∨ _))

/-- `UnitTest::_memoryReport`. -/
def memoryReport : String :=
  let r := f.usedResources
  (if 0 < r.allocate.size then
    r.allocate.report "allocated" "blocks"
      ++ (if 0 < r.deallocate.size ∨ 0 < r.max.size then ",\n" else "")
  else "")
  ++ ((if 0 < r.deallocate.size then
    r.deallocate.report "freed" "blocks" ++ (if 0 < r.max.size then ",\n" else "")
  else "")
  ++ (if 0 < r.max.size then r.max.report "max" "blocks" else ""))

/-- `DistributedUnitTest::_hasNetworkReport`. -/
def hasNetworkReport : Prop :=
  0 < f.usedResources.send.count ∨ 0 < f.usedResources.receive.count

instance : Decidable f.hasNetworkReport := inferInstanceAs (Decidable (_ ∨ _))

/-- `DistributedUnitTest::_networkReport`. -/
def networkReport : String :=
  let r := f.usedResources
  (if 0 < r.send.count then
    r.send.report "send" "count" ++ (if 0 < r.receive.count then ",\n" else "")
  else "")
  ++ (if 0 < r.receive.count then r.receive.report "receive" "count" else "")

/-- The errors in front of a report. -/
def errorSection : String := if f.errors ≠ [] then f.errorReport ++ ",\n" else ""

/-- The initialization time in front of the other times. -/
def initSection : String :=
  if 0 < f.initTime then
    "\n  \"initialization\": " ++ formatDurationJSON fixed f.initTime ++ ","
  else ""

/-- The cleanup time after the other times. -/
def cleanupSection : String :=
  if f.completeTime ≠ 0 then
    ",\n  \"cleanup\": " ++ formatDurationJSON fixed f.completeTime
  else ""

/-- The memory report as a member of the report. -/
def memorySection : String :=
  if f.hasMemoryReport then ",\n\"memory\": \x7b\n" ++ indent f.memoryReport 2 ++ "\n\x7d" else ""

/-- The network report as a member of the report. -/
def networkSection : String :=
  if f.hasNetworkReport then ",\n\"network\": \x7b\n" ++ indent f.networkReport 2 ++ "\n\x7d"
    else ""

/-- Captured output as a member of the report. -/
def outputSection (name buf : String) : String :=
  if 0 < buf.length then ",\n\"" ++ name ++ "\": \n" ++ indent (jsonify buf) 2 else ""

/-- `UnitTest::_report`. -/
def unitTestReport : String :=
  f.errorSection ++ "\"time\": \x7b" ++ f.initSection fixed
    ++ "\n  \"body\": " ++ formatDurationJSON fixed f.bodyTime
    ++ f.cleanupSection fixed ++ "\n\x7d" ++ f.memorySection
    ++ outputSection "stdout" f.out ++ outputSection "stderr" f.err

/-- `PerformanceTest::_report`. -/
def performanceTestReport : String :=
  f.errorSection ++ "\"time\": \x7b" ++ f.initSection fixed
    ++ "\n  \"body\": " ++ formatDurationJSON fixed f.bodyTime
    ++ ",\n  \"baseline\": " ++ formatDurationJSON fixed f.baselineTime
    ++ f.cleanupSection fixed ++ "\n\x7d" ++ f.memorySection

/-- `DistributedUnitTest::_report`. -/
def distributedUnitTestReport (driver : Bool) : String :=
  (if driver then f.unitTestReport fixed
  else f.errorSection ++ "\"time\": \x7b" ++ "\n  \"body\": " ++
    formatDurationJSON fixed f.workerBodyTime
    ++ "\n\x7d" ++ f.memorySection)
  ++ f.networkSection

/-- `_report`. -/
def report (cls : TestClass) (driver : Bool) : String :=
  match cls with
  | .unitTest => f.unitTestReport fixed
  | .performanceTest => f.performanceTestReport fixed
  | .distributedUnitTest => f.distributedUnitTestReport fixed driver

/-- Error texts and captured output hold no backslashes and no control characters but newlines. -/
structure Clean : Prop where
  errors : ∀ e ∈ f.errors, PlainLines e
  out : PlainLines f.out
  err : PlainLines f.err

instance : Decidable f.Clean :=
  decidable_of_iff ((∀ e ∈ f.errors, PlainLines e) ∧ PlainLines f.out ∧ PlainLines f.err)
    ⟨fun h => ⟨h.1, h.2.1, h.2.2⟩, fun h => ⟨h.errors, h.out, h.err⟩⟩

end Findings

/-! ## Reports are JSON -/

section

variable {st : List Bracket} {q : State} {fixed : ℕ → ℕ → String} {f : Findings}

/-- The first digit of a positive number is not zero. -/
theorem toDigits_pos {n : ℕ} (hn : 0 < n) : ∃ c ds,
    Nat.toDigits 10 n = c :: ds ∧ c.isDigit = true ∧ c ≠ '0' ∧ Digits ds := by
  have hdigit : ∀ m, m < 10 → m.digitChar.isDigit = true := by decide
  induction n using Nat.strong_induction_on with
  | _ n ih =>
    by_cases h : n < 10
    · have hzero : ∀ m, m < 10 → 0 < m → m.digitChar ≠ '0' := by decide
      exact ⟨_, [], Nat.toDigits_of_lt_base h, hdigit n h, hzero n h hn, Digits.nil⟩
    · obtain ⟨c, ds, heq, hc, hc', hds⟩ := ih (n / 10) (by omega) (by omega)
      refine ⟨c, ds ++ [(n % 10).digitChar], ?_, hc, hc', ?_⟩
      · rw [Nat.toDigits_of_base_le (by decide) (by omega), heq]
        rfl
      · exact List.forall_mem_append.2 ⟨hds, Digits.nil.cons (hdigit _ (Nat.mod_lt n (by decide)))⟩

theorem intPart_toString (n : ℕ) : IntPart (toString n).toList := by
  rw [Nat.toString_eq_ofList_toDigits, String.toList_ofList]
  rcases Nat.eq_zero_or_pos n with rfl | hn
  · exact .zero
  · obtain ⟨c, ds, heq, hc, hc', hds⟩ := toDigits_pos hn
    rw [heq]
    exact .pos hc hc' hds

/-- Integers print as JSON numbers. -/
theorem number_toString (n : ℕ) : Number (toString n).toList :=
  .inl ⟨_, [], [], intPart_toString n, .none, .none, (List.append_nil _).symm⟩

theorem endsIn_toString (n : ℕ) : EndsIn st (run (.value, st) (toString n).toList) :=
  run_number (number_toString n)

theorem leads_formatDurationJSON (hfixed : ∀ n d, Number (fixed n d).toList) (nanos : ℕ) :
    Leads (.value, st) (formatDurationJSON fixed nanos) (.after, st) := by
  have hopen : Leads (.value, st) "\x7b \"value\": " (.value, .object :: st) := rfl
  have hnumber (n d : ℕ) : EndsIn (.object :: st)
      (run (.value, .object :: st) (fixed n d).toList) :=
    run_number (hfixed n d)
  unfold formatDurationJSON
  split_ifs
  · exact hopen.value (hnumber _ _) rfl rfl
  · exact hopen.value (hnumber _ _) rfl rfl
  · exact hopen.value (hnumber _ _) rfl rfl
  · exact hopen.value (hnumber _ _) rfl rfl

theorem AtKey.leads {t : String} {q' : State} (hq : AtKey st q)
    (h : Leads (.opened .object, st) t q') (h' : Leads (.key, st) t q') : Leads q t q' := by
  rcases hq with rfl | rfl
  · exact h
  · exact h'

theorem Plain.chars {s : String} (h : Plain s) : Chars s.toList := by
  unfold Plain at h
  generalize s.toList = cs at h ⊢
  induction cs with
  | nil => exact .nil
  | cons c cs ih =>
    obtain ⟨⟨hc, hquote, hesc⟩, hcs⟩ := List.forall_mem_cons.1 h
    exact .char hc hquote hesc (ih hcs)

theorem leads_quantity (hq : AtKey st q) (r : Quantity) {name count : String} (hname : Plain name)
    (hcount : Plain count) :
    Leads q (r.report name count) (.after, .object :: st) := by
  have h1 : Leads q "\"" (.str true, st) := hq.leads rfl rfl
  have h2 : Leads (.str true, st) "\": \x7b\n  \"size\": " (.value, .object :: .object :: st) := rfl
  have h3 : Leads (.after, .object :: .object :: st) ",\n  \"" (.str true, .object :: st) := rfl
  have h4 : Leads (.str true, .object :: st) "\": " (.value, .object :: .object :: st) := rfl
  have hsize :=
    ((h1.append (leads_chars hname.chars)).append h2).value (endsIn_toString r.size) rfl h3
  exact ((hsize.append (leads_chars hcount.chars)).append h4).value
    (endsIn_toString r.count) rfl rfl

/-- The memory report is the inside of an object. -/
theorem leads_memoryReport (h : f.hasMemoryReport) :
    Leads (.opened .object, st) f.memoryReport (.after, .object :: st) := by
  have hcomma : Leads (.after, .object :: st) ",\n" (.key, st) := rfl
  have hentry {q : State} (hq : AtKey st q) (r : Quantity) {name : String} (hname : Plain name) :
      Leads q (r.report name "blocks") (.after, .object :: st) :=
        leads_quantity hq r hname (by decide)
  -- the parts after the first
  have hrest {q : State} (hq : AtKey st q)
      (h : 0 < f.usedResources.deallocate.size ∨ 0 < f.usedResources.max.size) :
      Leads q ((if 0 < f.usedResources.deallocate.size then
        f.usedResources.deallocate.report "freed" "blocks"
          ++ (if 0 < f.usedResources.max.size then ",\n" else "") else "")
        ++ (if 0 < f.usedResources.max.size then f.usedResources.max.report "max" "blocks" else ""))
        (.after, .object :: st) := by
    by_cases hd : 0 < f.usedResources.deallocate.size
    · by_cases hm : 0 < f.usedResources.max.size
      · rw [if_pos hd, if_pos hm, if_pos hm]
        exact ((hentry hq _ (by decide)).append hcomma).append (hentry (.inr rfl) _ (by decide))
      · rw [if_pos hd, if_neg hm, if_neg hm]
        exact ((hentry hq _ (by decide)).append (leads_empty _)).append (leads_empty _)
    · rw [if_neg hd, if_pos (h.resolve_left hd)]
      exact (leads_empty q).append (hentry hq _ (by decide))
  have hfirst : Leads (.opened .object, st) (f.usedResources.allocate.report "allocated" "blocks")
      (.after, .object :: st) := hentry (.inl rfl) _ (by decide)
  unfold Findings.memoryReport
  dsimp only
  by_cases ha : 0 < f.usedResources.allocate.size
  · by_cases hdm : 0 < f.usedResources.deallocate.size ∨ 0 < f.usedResources.max.size
    · rw [if_pos ha, if_pos hdm]
      exact (hfirst.append hcomma).append (hrest (.inr rfl) hdm)
    · rw [if_pos ha, if_neg hdm, if_neg (not_or.1 hdm).1, if_neg (not_or.1 hdm).2]
      exact (hfirst.append (leads_empty _)).append ((leads_empty _).append (leads_empty _))
  · rw [if_neg ha]
    exact (leads_empty _).append (hrest (.inl rfl) (.inl (h.resolve_left ha)))

/-- The network report is the inside of an object. -/
theorem leads_networkReport (h : f.hasNetworkReport) :
    Leads (.opened .object, st) f.networkReport (.after, .object :: st) := by
  have hcomma : Leads (.after, .object :: st) ",\n" (.key, st) := rfl
  have hentry {q : State} (hq : AtKey st q) (r : Quantity) {name : String} (hname : Plain name) :
      Leads q (r.report name "count") (.after, .object :: st) :=
        leads_quantity hq r hname (by decide)
  have hsend : Leads (.opened .object, st) (f.usedResources.send.report "send" "count")
      (.after, .object :: st) := hentry (.inl rfl) _ (by decide)
  unfold Findings.networkReport
  dsimp only
  by_cases hs : 0 < f.usedResources.send.count
  · by_cases hr : 0 < f.usedResources.receive.count
    · rw [if_pos hs, if_pos hr, if_pos hr]
      exact (hsend.append hcomma).append (hentry (.inr rfl) _ (by decide))
    · rw [if_pos hs, if_neg hr, if_neg hr]
      exact (hsend.append (leads_empty _)).append (leads_empty _)
  · rw [if_neg hs, if_pos (h.resolve_left hs)]
    exact (leads_empty _).append (hentry (.inl rfl) _ (by decide))

/-- The list of errors is a member. -/
theorem leads_errorReport (hne : f.errors ≠ []) (h : ∀ e ∈ f.errors, PlainLines e) :
    Leads (.opened .object, st) f.errorReport (.after, .object :: st) := by
  have hopen : Leads (.opened .object, st) "\"errors\": [" (.opened .array, .object :: st) := rfl
  have hline : Leads (.value, .array :: .object :: st) "\n" (.value, .array :: .object :: st) := rfl
  have hitem : ∀ t ∈ f.errors.map fun e => "\n" ++ indent (jsonify e) 2, ∃ m : Mode,
      m.ends ∧ Leads (start (.object :: st) .array) t (m, .array :: .object :: st) := fun t ht => by
    obtain ⟨e, he, rfl⟩ := List.mem_map.1 ht
    exact ⟨.after, rfl, hline.append (leads_indent rfl (leads_jsonify (h e he)) 2)⟩
  obtain ⟨q, hq, hitems⟩ := leads_commas_opened hitem
  rw [Findings.errorReport, if_pos hne]
  exact (hopen.append hitems).append (hq.leads rfl rfl rfl)

theorem leads_errorSection (st : List Bracket) (h : ∀ e ∈ f.errors, PlainLines e) :
    ∃ q, AtKey st q ∧ Leads (.opened .object, st) f.errorSection q := by
  unfold Findings.errorSection
  by_cases hne : f.errors ≠ []
  · rw [if_pos hne]
    exact ⟨_, .inr rfl, (leads_errorReport hne h).append rfl⟩
  · rw [if_neg hne]
    exact ⟨_, .inl rfl, leads_empty _⟩

theorem leads_initSection (st : List Bracket) (hfixed : ∀ n d, Number (fixed n d).toList) :
    ∃ q, AtKey st q ∧ Leads (.opened .object, st) (f.initSection fixed) q := by
  have hopen : Leads (.opened .object, st) "\n  \"initialization\": " (.value, .object :: st) := rfl
  unfold Findings.initSection
  by_cases h : 0 < f.initTime
  · rw [if_pos h]
    exact ⟨_, .inr rfl, (hopen.append (leads_formatDurationJSON hfixed _)).append rfl⟩
  · rw [if_neg h]
    exact ⟨_, .inl rfl, leads_empty _⟩

theorem leads_cleanupSection (hfixed : ∀ n d, Number (fixed n d).toList) :
    Leads (.after, .object :: st) (f.cleanupSection fixed) (.after, .object :: st) := by
  have hopen : Leads (.after, .object :: st) ",\n  \"cleanup\": " (.value, .object :: st) := rfl
  unfold Findings.cleanupSection
  split_ifs
  · exact hopen.append (leads_formatDurationJSON hfixed _)
  · exact leads_empty _

theorem leads_memorySection :
    Leads (.after, .object :: st) f.memorySection (.after, .object :: st) := by
  have hopen : Leads (.after, .object :: st) ",\n\"memory\": \x7b\n"
      (.opened .object, .object :: st) := rfl
  unfold Findings.memorySection
  split_ifs with h
  · exact (hopen.append (leads_indent rfl (leads_memoryReport h) 2)).append rfl
  · exact leads_empty _

theorem leads_networkSection :
    Leads (.after, .object :: st) f.networkSection (.after, .object :: st) := by
  have hopen : Leads (.after, .object :: st) ",\n\"network\": \x7b\n"
      (.opened .object, .object :: st) := rfl
  unfold Findings.networkSection
  split_ifs with h
  · exact (hopen.append (leads_indent rfl (leads_networkReport h) 2)).append rfl
  · exact leads_empty _

theorem leads_outputSection {name buf : String} (hname : Plain name) (hbuf : PlainLines buf) :
    Leads (.after, .object :: st) (Findings.outputSection name buf) (.after, .object :: st) := by
  have hopen : Leads (.after, .object :: st) ",\n\"" (.str true, st) := rfl
  have hcolon : Leads (.str true, st) "\": \n" (.value, .object :: st) := rfl
  unfold Findings.outputSection
  split_ifs
  · exact ((hopen.append (leads_chars hname.chars)).append hcolon).append
      (leads_indent rfl (leads_jsonify hbuf) 2)
  · exact leads_empty _

variable (hfixed : ∀ n d, Number (fixed n d).toList) (hf : f.Clean)

include hfixed hf

/-- The reports of a test and of a benchmark up to the time of the body. -/
theorem leads_untilBody (st : List Bracket) :
    Leads (.opened .object, st)
      (f.errorSection ++ "\"time\": \x7b" ++ f.initSection fixed ++ "\n  \"body\": ")
      (.value, .object :: .object :: st) := by
  obtain ⟨q, hq, herrors⟩ := leads_errorSection st hf.errors
  obtain ⟨q', hq', hinit⟩ := leads_initSection (.object :: st) (f := f) hfixed
  have htime : Leads q "\"time\": \x7b" (.opened .object, .object :: st) := hq.leads rfl rfl
  have hbody : Leads q' "\n  \"body\": " (.value, .object :: .object :: st) := hq'.leads rfl rfl
  exact ((herrors.append htime).append hinit).append hbody

theorem leads_unitTestReport :
    Leads (.opened .object, st) (f.unitTestReport fixed) (.after, .object :: st) := by
  have hclose : Leads (.after, .object :: .object :: st) "\n\x7d" (.after, .object :: st) := rfl
  have htimes := ((leads_untilBody hfixed hf st).append
    (leads_formatDurationJSON hfixed f.bodyTime)).append (leads_cleanupSection (f := f) hfixed)
  exact (((htimes.append hclose).append leads_memorySection).append
    (leads_outputSection (by decide) hf.out)).append (leads_outputSection (by decide) hf.err)

theorem leads_performanceTestReport :
    Leads (.opened .object, st) (f.performanceTestReport fixed) (.after, .object :: st) := by
  have hbaseline : Leads (.after, .object :: .object :: st) ",\n  \"baseline\": "
      (.value, .object :: .object :: st) := rfl
  have hclose : Leads (.after, .object :: .object :: st) "\n\x7d" (.after, .object :: st) := rfl
  have htimes := ((leads_untilBody hfixed hf st).append
    (leads_formatDurationJSON hfixed f.bodyTime)).append hbaseline
  exact (((htimes.append (leads_formatDurationJSON hfixed f.baselineTime)).append
    (leads_cleanupSection (f := f) hfixed)).append hclose).append leads_memorySection

theorem leads_distributedUnitTestReport (driver : Bool) :
    Leads (.opened .object, st) (f.distributedUnitTestReport fixed driver)
      (.after, .object :: st) := by
  refine Leads.append ?_ leads_networkSection
  cases driver with
  | true => exact leads_unitTestReport hfixed hf
  | false =>
    obtain ⟨q, hq, herrors⟩ := leads_errorSection st hf.errors
    have htime : Leads q "\"time\": \x7b" (.opened .object, .object :: st) := hq.leads rfl rfl
    have hbody : Leads (.opened .object, .object :: st) "\n  \"body\": "
        (.value, .object :: .object :: st) := rfl
    have hclose : Leads (.after, .object :: .object :: st) "\n\x7d" (.after, .object :: st) := rfl
    exact ((((herrors.append htime).append hbody).append
      (leads_formatDurationJSON hfixed f.workerBodyTime)).append hclose).append leads_memorySection

/-- Every report is the inside of an object. -/
theorem leads_report (cls : TestClass) (driver : Bool) :
    Leads (.opened .object, st) (f.report fixed cls driver) (.after, .object :: st) := by
  cases cls with
  | unitTest => exact leads_unitTestReport hfixed hf
  | performanceTest => exact leads_performanceTestReport hfixed hf
  | distributedUnitTest => exact leads_distributedUnitTestReport hfixed hf driver

end

end Dtest
