import Dtest.Report.Report

/-!
# The log of `runAll`

`runAllLog` is what `Test::runAll` writes to `out`, for the tests in the order in which the main
loop takes them from `ready`.  It is one JSON object (`runAllLog_isObject`), provided that no name
has to be escaped: keys of the configuration are written as they are (`runAllLog_unescaped_key`).
-/

namespace Dtest

open Json

/-- `statusString`. -/
def statusString : Status → String
  | .pass => "PASS"
  | .skip => "SKIP"
  | .passWithMemoryLeak => "PASS (memory leak)"
  | .memoryLimitExceeded => "PASS (memory limit exceeded)"
  | .tooSlow => "TOO SLOW"
  | .timeout => "TIMEOUT"
  | .fail => "FAIL"
  | .pending => "PENDING"

/-- `__statusStringPastTense`. -/
def statusStringPastTense : Status → String
  | .pass => "PASSED"
  | .skip => "SKIPPED"
  | .passWithMemoryLeak => "PASSED (memory leak)"
  | .memoryLimitExceeded => "PASSED (memory limit exceeded)"
  | .tooSlow => "TOO SLOW"
  | .timeout => "TIMED OUT"
  | .fail => "FAILED"
  | .pending => "PENDING"

/-- What a worker sends about its part of a test: a test that is not enabled leaves no report. -/
structure WorkerResult where
  status : Status
  enabled : Bool := true
  findings : Findings

/-- A test after its turn of the main loop, as far as the log reads it. -/
structure TestResult where
  module : String
  name : String
  dependencies : List String := []
  cls : TestClass := .unitTest
  enabled : Bool := true
  status : Status
  success : Bool
  findings : Findings
  workers : List WorkerResult := []

/-- The locals of `runAll` that the log depends on; `out` is what the main loop has written. -/
structure LogState where
  out : String := ""
  firstLog : Bool := true
  runCount : ℕ := 0
  successCount : ℕ := 0
  expectedStatusSummary : List (Status × ℕ) := []
  unExpectedStatusSummary : List (Status × ℕ) := []

/-- `++summary[status]`. -/
def increment (summary : List (Status × ℕ)) (status : Status) : List (Status × ℕ) :=
  match summary with
  | [] => [(status, 1)]
  | r :: rs =>
    if r.1 = status then (status, (r.2 + 1) % 2 ^ 32) :: rs else r :: increment rs status

section

variable (fixed : ℕ → ℕ → String)

/-- `_detailedReport` of a worker's test. -/
def WorkerResult.detailedReport (w : WorkerResult) : String :=
  if w.enabled then w.findings.report fixed .distributedUnitTest false else ""

/-- `_detailedReport` of the driver's test. -/
def TestResult.detailedReport (t : TestResult) : String :=
  if t.enabled then t.findings.report fixed t.cls true else ""

/-- The entry of a worker. -/
def WorkerResult.entry (w : WorkerResult) : String :=
  "\n        \x7b\n          \"status\": \"" ++ statusString w.status ++ "\","
    ++ "\n          \"report\": \x7b\n" ++ indent (w.detailedReport fixed) 12
    ++ "\n          \x7d\n        \x7d"

namespace TestResult

variable (t : TestResult)

/-- The dependencies in the entry of a test. -/
def dependencySection : String :=
  if t.dependencies ≠ [] then
    "\n      \"dependencies\": " ++ jsonifyAll t.dependencies 6 ++ ","
  else ""

/-- The workers in the entry of a test. -/
def workerSection : String :=
  if t.workers ≠ [] then
    ",\n      \"workers\": [" ++ commas true (t.workers.map (·.entry fixed)) ++ "\n      ]"
  else ""

/-- The entry of the test that is run as number `i`. -/
def entry (i : ℕ) : String :=
  "\n    \"" ++ t.module ++ "::" ++ t.name ++ "\": \x7b" ++ t.dependencySection
    ++ "\n      \"i\": " ++ toString i ++ ","
    ++ "\n      \"success\": " ++ (if t.success then "true" else "false") ++ ","
    ++ "\n      \"status\": \"" ++ statusString t.status ++ "\","
    ++ "\n      \"report\": \x7b\n" ++ indent (t.detailedReport fixed) 8 ++ "\n      \x7d"
    ++ t.workerSection fixed ++ "\n    \x7d"

end TestResult

namespace LogState

/-- What a turn of the main loop writes. -/
def write (s : LogState) (t : TestResult) : LogState :=
  if t.status = .skip then s
  else
    { s with
      firstLog := false
      out := s.out ++ (if s.firstLog then "" else ",") ++ t.entry fixed s.runCount }

/-- How a turn of the main loop counts the test. -/
def tally (s : LogState) (t : TestResult) : LogState :=
  if t.success then
    { s with
      successCount := s.successCount + 1
      expectedStatusSummary := increment s.expectedStatusSummary t.status }
  else { s with unExpectedStatusSummary := increment s.unExpectedStatusSummary t.status }

/-- A turn of the main loop. -/
def step (s : LogState) (t : TestResult) : LogState :=
  let s := (s.write fixed t).tally t
  { s with runCount := s.runCount + 1 }

end LogState

/-- One of the two summaries. -/
def summaryEntries (name : String) (entries : List (Status × ℕ)) : String :=
  "\n    \"" ++ name ++ "\": \x7b"
    ++ commas true (entries.map fun r =>
      "\n      \"" ++ statusStringPastTense r.1 ++ "\": " ++ toString r.2)
    ++ "\n    \x7d"

/-- The summary at the end of the log; `order` is the order in which a hash map is iterated. -/
def LogState.summary (order : List (Status × ℕ) → List (Status × ℕ)) (s : LogState) : String :=
  let failedCount := s.runCount - s.successCount
  ",\n  \"summary\": \x7b"
    ++ (if 0 < s.successCount then
      summaryEntries "nominal" (order s.expectedStatusSummary)
        ++ (if 0 < failedCount then "," else "")
    else "")
    ++ (if 0 < failedCount then summaryEntries "unexpected"
      (order s.unExpectedStatusSummary) else "")
    ++ "\n  \x7d"

/-- The front of a value that is written as it is. -/
def IsRaw (value : String) : Prop :=
  value.toList.head? = some '[' ∨ value.toList.head? = some '{'

instance (value : String) : Decidable (IsRaw value) := inferInstanceAs (Decidable (_ ∨ _))

/-- The line of a configuration entry. -/
def configLine (conf : String × String) : String :=
  "  \"" ++ conf.1 ++ "\": " ++ (if IsRaw conf.2 then conf.2 else "\"" ++ conf.2 ++ "\"") ++ ",\n"

/-- The configuration at the front of the log. -/
def configLines : List (String × String) → String
  | [] => ""
  | conf :: config => configLine conf ++ configLines config

/-- `Test::runAll`, what it writes to `out`. -/
def runAllLog (order : List (Status × ℕ) → List (Status × ℕ)) (config : List (String × String))
    (tests : List TestResult) : String :=
  let s := tests.foldl (LogState.step fixed) {}
  "\x7b\n" ++ (configLines config ++ "  \"tests\": \x7b" ++ s.out ++ "\n  \x7d" ++
    s.summary order ++ "\n\x7d\n")

end

/-- Names hold nothing that has to be escaped, texts nothing but quotes and newlines. -/
structure TestResult.Clean (t : TestResult) : Prop where
  module : Plain t.module
  name : Plain t.name
  dependencies : ∀ d ∈ t.dependencies, Plain d
  findings : t.findings.Clean
  workers : ∀ w ∈ t.workers, w.findings.Clean

instance (t : TestResult) : Decidable t.Clean :=
  decidable_of_iff (Plain t.module ∧ Plain t.name ∧ (∀ d ∈ t.dependencies, Plain d) ∧
      t.findings.Clean ∧ ∀ w ∈ t.workers, w.findings.Clean)
    ⟨fun h => ⟨h.1, h.2.1, h.2.2.1, h.2.2.2.1, h.2.2.2.2⟩,
      fun h => ⟨h.module, h.name, h.dependencies, h.findings, h.workers⟩⟩

/-- A plain key, and a plain value or JSON in brackets. -/
def CleanConfig (conf : String × String) : Prop :=
  Plain conf.1 ∧ if IsRaw conf.2 then IsText conf.2.toList else conf.2 ≠ "" ∧ Plain conf.2

instance (conf : String × String) : Decidable (CleanConfig conf) :=
  inferInstanceAs (Decidable (_ ∧ _))

/-! ## The log is JSON -/

section

variable {st : List Bracket} {fixed : ℕ → ℕ → String}

theorem plain_statusString (status : Status) : Plain (statusString status) := by
  cases status <;> decide

theorem plain_statusStringPastTense (status : Status) : Plain (statusStringPastTense status) := by
  cases status <;> decide

variable (hfixed : ∀ n d, Number (fixed n d).toList)

include hfixed

/-- The report of a worker, or nothing. -/
theorem WorkerResult.leads_detailedReport (st : List Bracket) {w : WorkerResult}
    (hw : w.findings.Clean) :
    ∃ q, AtEnd .object st q ∧ Leads (.opened .object, st) (w.detailedReport fixed) q := by
  unfold WorkerResult.detailedReport
  split_ifs
  · exact ⟨_, .inr ⟨.after, rfl, rfl⟩, leads_report hfixed hw _ _⟩
  · exact ⟨_, .inl rfl, leads_empty _⟩

theorem TestResult.leads_detailedReport (st : List Bracket) {t : TestResult}
    (ht : t.findings.Clean) :
    ∃ q, AtEnd .object st q ∧ Leads (.opened .object, st) (t.detailedReport fixed) q := by
  unfold TestResult.detailedReport
  split_ifs
  · exact ⟨_, .inr ⟨.after, rfl, rfl⟩, leads_report hfixed ht _ _⟩
  · exact ⟨_, .inl rfl, leads_empty _⟩

/-- The entry of a worker is an element. -/
theorem WorkerResult.leads_entry {w : WorkerResult} (hw : w.findings.Clean) :
    Leads (.value, st) (w.entry fixed) (.after, st) := by
  have hstatus : Leads (.value, st) "\n        \x7b\n          \"status\": \""
      (.str false, .object :: st) := rfl
  have hcomma : Leads (.str false, .object :: st) "\"," (.key, st) := rfl
  have hreport : Leads (.key, st) "\n          \"report\": \x7b\n"
      (.opened .object, .object :: st) := rfl
  obtain ⟨q, hq, hdetailed⟩ := leads_detailedReport hfixed (.object :: st) hw
  have hhead := (hstatus.append (leads_chars (plain_statusString w.status).chars)).append hcomma
  exact ((hhead.append hreport).append (leads_indent rfl hdetailed 12)).append
    (hq.leads rfl rfl rfl)

/-- The workers of a test are a member. -/
theorem TestResult.leads_workerSection {t : TestResult} (ht : ∀ w ∈ t.workers, w.findings.Clean) :
    Leads (.after, .object :: st) (t.workerSection fixed) (.after, .object :: st) := by
  have hopen : Leads (.after, .object :: st) ",\n      \"workers\": ["
      (.opened .array, .object :: st) := rfl
  have hitem : ∀ s ∈ t.workers.map (·.entry fixed), ∃ m : Mode,
      m.ends ∧ Leads (start (.object :: st) .array) s (m, .array :: .object :: st) := fun s hs => by
    obtain ⟨w, hw, rfl⟩ := List.mem_map.1 hs
    exact ⟨.after, rfl, w.leads_entry hfixed (ht w hw)⟩
  obtain ⟨q, hq, hitems⟩ := leads_commas_opened hitem
  unfold TestResult.workerSection
  split_ifs
  · exact (hopen.append hitems).append (hq.leads rfl rfl rfl)
  · exact leads_empty _

omit hfixed in
theorem TestResult.leads_dependencySection (st : List Bracket) {t : TestResult}
    (ht : ∀ d ∈ t.dependencies, Plain d) :
    ∃ q, AtKey st q ∧ Leads (.opened .object, st) t.dependencySection q := by
  have hopen : Leads (.opened .object, st) "\n      \"dependencies\": " (.value, .object :: st) :=
    rfl
  unfold TestResult.dependencySection
  split_ifs
  · have hall : Leads (.value, .object :: st) (jsonifyAll t.dependencies 6)
      (.after, .object :: st) :=
      leads_jsonifyAll (fun d hd => (ht d hd).plainLines) 6
    exact ⟨_, .inr rfl, (hopen.append hall).append rfl⟩
  · exact ⟨_, .inl rfl, leads_empty _⟩

/-- The entry of a test is a member. -/
theorem TestResult.leads_entry {t : TestResult} (ht : t.Clean) (i : ℕ) :
    Leads (.key, st) (t.entry fixed i) (.after, .object :: st) := by
  have hname : Leads (.key, st) "\n    \"" (.str true, st) := rfl
  have hcolons : Leads (.str true, st) "::" (.str true, st) := rfl
  have hopen : Leads (.str true, st) "\": \x7b" (.opened .object, .object :: st) := rfl
  have htestname := (((hname.append (leads_chars ht.module.chars)).append hcolons).append
    (leads_chars ht.name.chars)).append hopen
  obtain ⟨q, hq, hdeps⟩ := leads_dependencySection (.object :: st) ht.dependencies
  have hi : Leads q "\n      \"i\": " (.value, .object :: .object :: st) := hq.leads rfl rfl
  have hnumber := ((htestname.append hdeps).append hi).value (endsIn_toString i) (t := ",") rfl rfl
  have hsuccess : Leads (.key, .object :: st) "\n      \"success\": "
      (.value, .object :: .object :: st) := rfl
  have hbool : Leads (.value, .object :: .object :: st) (if t.success then "true" else "false")
      (.after, .object :: .object :: st) := by
    split_ifs <;> rfl
  have hcomma : Leads (.after, .object :: .object :: st) "," (.key, .object :: st) := rfl
  have hstatus : Leads (.key, .object :: st) "\n      \"status\": \""
      (.str false, .object :: .object :: st) := rfl
  have hquote : Leads (.str false, .object :: .object :: st) "\"," (.key, .object :: st) := rfl
  have hstatuses := ((((hnumber.append hsuccess).append hbool).append hcomma).append hstatus).append
    (leads_chars (plain_statusString t.status).chars)
  have hreport : Leads (.key, .object :: st) "\n      \"report\": \x7b\n"
      (.opened .object, .object :: .object :: st) := rfl
  obtain ⟨q', hq', hdetailed⟩ := leads_detailedReport hfixed (.object :: .object :: st) ht.findings
  have hclose :=
    (((hstatuses.append hquote).append hreport).append (leads_indent rfl hdetailed 8)).append
    (hq'.leads (t := "\n      \x7d") rfl rfl rfl)
  exact (hclose.append (leads_workerSection hfixed ht.workers)).append rfl

/-- What the main loop has written is the inside of an object. -/
def LogState.Inv (st : List Bracket) (s : LogState) : Prop :=
  if s.firstLog then s.out = "" else Leads (.opened .object, st) s.out (.after, .object :: st)

theorem LogState.inv_write {s : LogState} (hs : s.Inv st) {t : TestResult} (ht : t.Clean) :
    (s.write fixed t).Inv st := by
  unfold write
  by_cases hskip : t.status = .skip
  · rw [if_pos hskip]
    exact hs
  · rw [if_neg hskip]
    have hentry : Leads (start st .object) (t.entry fixed s.runCount) (.after, .object :: st) :=
      t.leads_entry hfixed ht _
    show Leads _ (s.out ++ (if s.firstLog then "" else ",") ++ t.entry fixed s.runCount) _
    unfold Inv at hs
    split_ifs at hs ⊢ with hfirst
    · rw [hs]
      exact ((leads_empty _).append (leads_empty _)).append (hentry.opened rfl)
    · have hcomma : Leads (.after, .object :: st) "," (.key, st) := rfl
      exact (hs.append hcomma).append hentry

theorem LogState.inv_step {s : LogState} (hs : s.Inv st) {t : TestResult} (ht : t.Clean) :
    (s.step fixed t).Inv st := by
  have hwrite := s.inv_write hfixed hs ht
  unfold step tally
  split_ifs
  · exact hwrite
  · exact hwrite

/-- The whole main loop. -/
theorem LogState.inv_foldl {s : LogState} (hs : s.Inv st) {tests : List TestResult}
    (ht : ∀ t ∈ tests, t.Clean) : (tests.foldl (LogState.step fixed) s).Inv st := by
  induction tests generalizing s with
  | nil => exact hs
  | cons t ts ih =>
    obtain ⟨htest, hts⟩ := List.forall_mem_cons.1 ht
    exact ih (s.inv_step hfixed hs htest) hts

omit hfixed

theorem LogState.Inv.leads {s : LogState} (hs : s.Inv st) :
    ∃ q, AtEnd .object st q ∧ Leads (.opened .object, st) s.out q := by
  unfold Inv at hs
  split_ifs at hs
  · rw [hs]
    exact ⟨_, .inl rfl, leads_empty _⟩
  · exact ⟨_, .inr ⟨.after, rfl, rfl⟩, hs⟩

/-- The entries of a summary are a member. -/
theorem leads_summaryEntries {q : State} (hq : AtKey st q) {name : String} (hname : Plain name)
    (entries : List (Status × ℕ)) :
    Leads q (summaryEntries name entries) (.after, .object :: st) := by
  have hopen : Leads q "\n    \"" (.str true, st) := hq.leads rfl rfl
  have hbrace : Leads (.str true, st) "\": \x7b" (.opened .object, .object :: st) := rfl
  have hitem : ∀ s ∈ entries.map fun r =>
      "\n      \"" ++ statusStringPastTense r.1 ++ "\": " ++ toString r.2, ∃ m : Mode,
      m.ends ∧ Leads (start (.object :: st) .object) s (m, .object :: .object :: st) := by
    intro s hs
    obtain ⟨r, -, rfl⟩ := List.mem_map.1 hs
    have hstatus : Leads (start (.object :: st) .object) "\n      \"" (.str true, .object :: st) :=
      rfl
    have hcolon : Leads (.str true, .object :: st) "\": " (.value, .object :: .object :: st) := rfl
    have hnumber : EndsIn (.object :: .object :: st)
        (run (.value, .object :: .object :: st) (toString r.2).toList) := endsIn_toString r.2
    obtain ⟨m, hm, hrun⟩ := hnumber
    exact ⟨m, hm, ((hstatus.append (leads_chars (plain_statusStringPastTense r.1).chars)).append
      hcolon).append hrun⟩
  obtain ⟨q', hq', hitems⟩ := leads_commas_opened hitem
  exact (((hopen.append (leads_chars hname.chars)).append hbrace).append hitems).append
    (hq'.leads rfl rfl rfl)

/-- The summary is a member. -/
theorem LogState.leads_summary (order : List (Status × ℕ) → List (Status × ℕ)) (s : LogState) :
    Leads (.after, .object :: st) (s.summary order) (.after, .object :: st) := by
  have hopen : Leads (.after, .object :: st) ",\n  \"summary\": \x7b"
      (.opened .object, .object :: st) := rfl
  have hcomma : Leads (.after, .object :: .object :: st) "," (.key, .object :: st) := rfl
  have hclose {q : State} (hq : AtEnd .object (.object :: st) q) :
      Leads q "\n  \x7d" (.after, .object :: st) := hq.leads rfl rfl rfl
  have hentries {q : State} (hq : AtKey (.object :: st) q) {name : String} (hname : Plain name)
      (entries : List (Status × ℕ)) : Leads q (summaryEntries name entries)
        (.after, .object :: .object :: st) := leads_summaryEntries hq hname entries
  have hafter : AtEnd .object (.object :: st) (.after, .object :: .object :: st) :=
    .inr ⟨.after, rfl, rfl⟩
  have hnominal : Leads (.opened .object, .object :: st)
      (summaryEntries "nominal" (order s.expectedStatusSummary))
        (.after, .object :: .object :: st) :=
    hentries (.inl rfl) (by decide) _
  unfold LogState.summary
  dsimp only
  by_cases hs : 0 < s.successCount
  · by_cases hf : 0 < s.runCount - s.successCount
    · rw [if_pos hs, if_pos hf, if_pos hf]
      exact ((hopen.append (hnominal.append hcomma)).append
        (hentries (.inr rfl) (by decide) _)).append
        (hclose hafter)
    · rw [if_pos hs, if_neg hf, if_neg hf]
      exact ((hopen.append (hnominal.append (leads_empty _))).append (leads_empty _)).append
        (hclose hafter)
  · by_cases hf : 0 < s.runCount - s.successCount
    · rw [if_neg hs, if_pos hf]
      exact ((hopen.append (leads_empty _)).append (hentries (.inl rfl) (by decide) _)).append
        (hclose hafter)
    · rw [if_neg hs, if_neg hf]
      exact ((hopen.append (leads_empty _)).append (leads_empty _)).append (hclose (.inl rfl))

/-- A line of the configuration is a member and the comma after it. -/
theorem leads_configLine {q : State} (hq : AtKey st q) {conf : String × String}
    (h : CleanConfig conf) : Leads q (configLine conf) (.key, st) := by
  obtain ⟨hkey, hvalue⟩ := h
  have hopen : Leads q "  \"" (.str true, st) := hq.leads rfl rfl
  have hcolon : Leads (.str true, st) "\": " (.value, .object :: st) := rfl
  have hcomma : Leads (.after, .object :: st) ",\n" (.key, st) := rfl
  have hhead := (hopen.append (leads_chars hkey.chars)).append hcolon
  unfold configLine
  split_ifs at hvalue ⊢
  · exact hhead.value (endsIn_of_isText hvalue) rfl hcomma
  · have hquote : Leads (.value, .object :: st) "\"" (.str false, .object :: st) := rfl
    have hquote' : Leads (.str false, .object :: st) "\"" (.after, .object :: st) := rfl
    exact (hhead.append ((hquote.append (leads_chars hvalue.2.chars)).append hquote')).append hcomma

theorem leads_configLines {q : State} (hq : AtKey st q) {config : List (String × String)}
    (h : ∀ conf ∈ config, CleanConfig conf) :
    ∃ q', AtKey st q' ∧ Leads q (configLines config) q' := by
  induction config generalizing q with
  | nil => exact ⟨q, hq, leads_empty q⟩
  | cons conf config ih =>
    obtain ⟨hconf, hconfig⟩ := List.forall_mem_cons.1 h
    obtain ⟨q', hq', hlines⟩ := ih (.inr rfl) hconfig
    exact ⟨q', hq', (leads_configLine hq hconf).append hlines⟩

end

/-- The configuration that `main` passes to `runAll`. -/
def mainConfig (argv0 : String) (args : List String) (cwd : String) (dynamicTests : List String) :
    List (String × String) :=
  [("executable", argv0), ("args", jsonifyArray args 2), ("working_dir", cwd),
    ("loaded_test_files", jsonifyAll dynamicTests 2)]

theorem isText_of_leads {s : String} (h : Leads (.value, []) s (.after, [])) : IsText s.toList := by
  apply accepts_iff.1
  unfold accepts
  rw [show run (.value, []) s.toList = _ from h]
  rfl

theorem isRaw_jsonifyAll (strs : List String) (n : ℕ) : IsRaw (jsonifyAll strs n) := by
  left
  simp only [jsonifyAll, String.append_assoc]
  rw [String.toList_append]
  rfl

/-- The keys of `main` need no escape, and its lists are JSON. -/
theorem cleanConfig_mainConfig {argv0 cwd : String} {args dynamicTests : List String}
    (hargv0 : argv0 ≠ "" ∧ ¬ IsRaw argv0 ∧ Plain argv0) (hcwd : cwd ≠ "" ∧ ¬ IsRaw cwd ∧ Plain cwd)
    (hargs : ∀ a ∈ args, PlainLines a) (htests : ∀ t ∈ dynamicTests, PlainLines t) :
    ∀ conf ∈ mainConfig argv0 args cwd dynamicTests, CleanConfig conf := by
  have hplain {key value : String} (hkey : Plain key)
    (h : value ≠ "" ∧ ¬ IsRaw value ∧ Plain value) :
      CleanConfig (key, value) := ⟨hkey, (if_neg h.2.1).symm ▸ ⟨h.1, h.2.2⟩⟩
  have hlist {key value : String} (hkey : Plain key) (hraw : IsRaw value)
      (h : Leads (.value, []) value (.after, [])) : CleanConfig (key, value) :=
    ⟨hkey, (if_pos hraw).symm ▸ isText_of_leads h⟩
  simp only [mainConfig, List.forall_mem_cons]
  exact ⟨hplain (by decide) hargv0,
    hlist (by decide) (isRaw_jsonifyAll _ 2) (leads_jsonifyArray hargs 2),
    hplain (by decide) hcwd,
    hlist (by decide) (isRaw_jsonifyAll _ 2) (leads_jsonifyAll htests 2), nofun⟩

/-- The log of a run is one JSON object. -/
theorem runAllLog_isObject {fixed : ℕ → ℕ → String} (hfixed : ∀ n d, Number (fixed n d).toList)
    (order : List (Status × ℕ) → List (Status × ℕ)) {config : List (String × String)}
    (hconfig : ∀ conf ∈ config, CleanConfig conf) {tests : List TestResult}
    (htests : ∀ t ∈ tests, t.Clean) : IsObject (runAllLog fixed order config tests).toList := by
  have hstart : ({} : LogState).Inv [.object] := by
    unfold LogState.Inv
    rw [if_pos rfl]
  have hinv := LogState.inv_foldl hfixed hstart htests
  have hfirst : AtKey [] (.opened .object, []) := .inl rfl
  obtain ⟨q, hq, hlines⟩ := leads_configLines hfirst hconfig
  obtain ⟨q', hq', hout⟩ := hinv.leads
  have hline : Leads (.opened .object, []) "\n" (.opened .object, []) := rfl
  have htests : Leads q "  \"tests\": \x7b" (.opened .object, [.object]) := hq.leads rfl rfl
  have hclose : Leads q' "\n  \x7d" (.after, [.object]) := hq'.leads rfl rfl rfl
  have hend : Leads (.after, [.object]) "\n\x7d\n" (.after, []) := rfl
  have hinside := hline.append (((((hlines.append htests).append hout).append hclose).append
    (LogState.leads_summary order (tests.foldl (LogState.step fixed) {}))).append hend)
  have hobject := isObject_of_run hinside
  rw [String.toList_append] at hobject
  unfold runAllLog
  rw [String.toList_append]
  exact hobject

/-- `n / d` in fixed notation with three decimals, cut off. -/
def threeDecimals (n d : ℕ) : String :=
  let r := n % d * 1000 / d
  toString (n / d) ++ String.ofList ['.', (r / 100 % 10).digitChar, (r / 10 % 10).digitChar,
    (r % 10).digitChar]

theorem number_threeDecimals (n d : ℕ) : Number (threeDecimals n d).toList := by
  have hdigit (m : ℕ) : (m % 10).digitChar.isDigit = true := by
    have h : ∀ k, k < 10 → k.digitChar.isDigit = true := by decide
    exact h _ (Nat.mod_lt m (by decide))
  unfold threeDecimals
  rw [String.toList_append, String.toList_ofList]
  refine .inl ⟨_, _, [], intPart_toString _, .some (hdigit _) ?_, .none, by rw [List.append_nil]⟩
  exact (Digits.nil.cons (hdigit _)).cons (hdigit _)

/-- A configuration with a plain value and an array. -/
def sampleConfig : List (String × String) := [("executable", "./dtest"), ("args", "[ \"a\", [ ] ]")]

/-- A failed distributed test with two workers, a skipped test and a test that leaks. -/
def sampleTests : List TestResult :=
  [{ module := "network", name := "echo", dependencies := ["root"], cls := .distributedUnitTest,
     status := .fail, success := false,
     findings := { errors := ["expected \"x\"\n got y", ""], out := "a\nb\n", bodyTime := 1500,
                   usedResources := { send := ⟨10, 2⟩, receive := ⟨3, 1⟩ } }
     workers := [{ status := .pass, findings := { workerBodyTime := 20 } },
       { status := .skip, enabled := false, findings := {} }] },
    { module := "root", name := "off", enabled := false, status := .skip, success := true,
      findings := {} },
    { module := "root", name := "leak", status := .passWithMemoryLeak, success := true,
      findings := { usedResources := { allocate := ⟨16, 1⟩, max := ⟨16, 1⟩ }, initTime := 1 } }]

theorem runAllLog_isObject_sample :
    IsObject (runAllLog threeDecimals List.reverse sampleConfig sampleTests).toList :=
  runAllLog_isObject number_threeDecimals List.reverse (by decide +kernel) (by decide +kernel)

/-- Keys are not escaped: with the key `"` and the value `x` the log is no JSON text. -/
theorem runAllLog_unescaped_key :
    ¬ IsObject (runAllLog threeDecimals id [("\"", "x")] []).toList := fun h =>
  absurd (accepts_of_isText h.isText) (by decide +kernel)

end Dtest
