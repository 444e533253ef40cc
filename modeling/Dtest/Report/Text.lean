import Dtest.Lib.JsonReader
import Mathlib.Data.List.TakeWhile

/-!
# Text functions of the log

`indent` and the overloads of `jsonify`.  A `std::string` is a `String` of which only the characters
matter: bytes above 127 pass through every function unchanged.  `indent` keeps a text JSON, since
nothing is inserted in the middle of a token (`leads_indent`).
-/

namespace Dtest

open Json

/-- The characters of a string up to the first NUL. -/
def cStr (s : List Char) : List Char := s.takeWhile (· ≠ '\x00')

/-- A string of `n` blanks. -/
def blanks (n : ℕ) : String := String.ofList (List.replicate n ' ')

/-- The loop of `indent` over a string without NUL. -/
def indentChars (pad : List Char) : List Char → List Char
  | [] => []
  | c :: s => if c = '\n' ∧ s ≠ [] then c :: (pad ++ indentChars pad s) else c :: indentChars pad s

/-- `indent`. -/
def indent (str : String) (spaces : ℕ) : String :=
  blanks spaces ++ String.ofList (indentChars (blanks spaces).toList (cStr str.toList))

/-- The characters written for a string: a newline ends one JSON string and begins another. -/
def jsonifyChars : List Char → List Char
  | [] => []
  | c :: s =>
    (if c = '\n' then "\",\n  \"".toList else if c = '"' then ['\\', c] else [c]) ++ jsonifyChars s

/-- `jsonify` of a string. -/
def jsonify (str : String) : String :=
  if '\n' ∉ str.toList then "\"" ++ String.ofList (jsonifyChars str.toList) ++ "\""
  else "[\n  \"" ++ String.ofList (jsonifyChars (cStr str.toList)) ++ "\"\n]"

/-- The loop of `jsonify` over a container. -/
def jsonifyItems (pad : String) : List String → String
  | [] => ""
  | [s] => "  \"" ++ String.ofList (jsonifyChars s.toList) ++ "\"\n" ++ pad
  | s :: ss =>
    "  \"" ++ String.ofList (jsonifyChars s.toList) ++ "\",\n" ++ pad ++ jsonifyItems pad ss

/-- `jsonify` of a container, in the order of its iterator. -/
def jsonifyAll (strs : List String) (indent : ℕ) : String :=
  "[" ++ (if 0 < strs.length then "\n" ++ blanks indent else " ")
    ++ jsonifyItems (blanks indent) strs ++ "]"

/-- `jsonify` of an array of C strings. -/
def jsonifyArray (strs : List String) (indent : ℕ) : String :=
  jsonifyAll (strs.map fun s => String.ofList (cStr s.toList)) indent

/-- A loop that writes a comma before every item but the first. -/
def commas (first : Bool) : List String → String
  | [] => ""
  | s :: ss => (if first then "" else ",") ++ s ++ commas false ss

/-- No quotes, backslashes or control characters. -/
def Plain (s : String) : Prop := ∀ c ∈ s.toList, 0x20 ≤ c.toNat ∧ c ≠ '"' ∧ c ≠ '\\'

/-- No backslashes, and no control characters but newlines. -/
def PlainLines (s : String) : Prop := ∀ c ∈ s.toList, (0x20 ≤ c.toNat ∨ c = '\n') ∧ c ≠ '\\'

instance (s : String) : Decidable (Plain s) := List.decidableBAll _ s.toList

instance (s : String) : Decidable (PlainLines s) := List.decidableBAll _ s.toList

theorem Plain.plainLines {s : String} (h : Plain s) : PlainLines s := fun c hc =>
  ⟨.inl (h c hc).1, (h c hc).2.2⟩

/-! ## Indentation -/

variable {st : List Bracket} {q q' : State} {s : String}

theorem ws_blanks (n : ℕ) : Ws (blanks n).toList := by
  unfold blanks
  rw [String.toList_ofList]
  intro c hc
  rw [List.eq_of_mem_replicate hc]
  rfl

theorem run_indentChars {pad s : List Char} (hpad : Ws pad) (h : run q s = some q') :
    run q (indentChars pad s) = some q' := by
  induction s generalizing q with
  | nil => exact h
  | cons c s ih =>
    obtain ⟨q₁, hstep, hrun⟩ := Option.bind_eq_some_iff.1 h
    unfold indentChars
    split_ifs with hc
    · obtain ⟨rfl, -⟩ := hc
      rw [run_cons, hstep, Option.bind_some, run_ws (spaced_of_newline hstep) hpad]
      exact ih hrun
    · rw [run_cons, hstep]
      exact ih hrun

theorem cStr_of_run {s : List Char} (h : run q s = some q') : cStr s = s :=
  List.takeWhile_eq_self_iff.2 fun c hc => decide_eq_true (ne_nul_of_run h c hc)

/-- Indentation does not change what a text leads to. -/
theorem leads_indent (hq : q.1.spaced) (h : Leads q s q') (n : ℕ) : Leads q (indent s n) q' := by
  apply (leads_ws hq (ws_blanks n)).append
  unfold Leads
  rw [String.toList_ofList, cStr_of_run h]
  exact run_indentChars (ws_blanks n) h

/-! ## `jsonify` -/

/-- Inside a string of an array the characters written for any lines lead nowhere else. -/
theorem leads_jsonifyChars (st : List Bracket) {s : List Char}
    (h : ∀ c ∈ s, (0x20 ≤ c.toNat ∨ c = '\n') ∧ c ≠ '\\') :
    Leads (.str false, .array :: st) (String.ofList (jsonifyChars s))
      (.str false, .array :: st) := by
  unfold Leads
  rw [String.toList_ofList]
  induction s with
  | nil => rfl
  | cons c s ih =>
    obtain ⟨⟨hc, hesc⟩, hs⟩ := List.forall_mem_cons.1 h
    have hfirst : run (.str false, .array :: st)
        (if c = '\n' then "\",\n  \"".toList else if c = '"' then ['\\', c] else [c]) =
          some (.str false, .array :: st) := by
      split_ifs with hn hquote
      · rfl
      · rw [hquote]
        rfl
      · simpa using run_chars (.char (hc.resolve_right hn) hquote hesc .nil) []
    rw [jsonifyChars, run_append, hfirst]
    exact ih hs

/-- Without newlines the characters are the contents of one string. -/
theorem chars_jsonifyChars {s : List Char} (h : ∀ c ∈ s, (0x20 ≤ c.toNat ∨ c = '\n') ∧ c ≠ '\\')
    (hn : '\n' ∉ s) : Chars (jsonifyChars s) := by
  induction s with
  | nil => exact .nil
  | cons c s ih =>
    obtain ⟨⟨hc, hesc⟩, hs⟩ := List.forall_mem_cons.1 h
    obtain ⟨hcn, hn⟩ := List.ne_and_not_mem_of_not_mem_cons hn
    rw [jsonifyChars, if_neg (Ne.symm hcn)]
    split_ifs with hquote
    · rw [hquote]
      exact .escape rfl (ih hs hn)
    · exact .char (hc.resolve_right (Ne.symm hcn)) hquote hesc (ih hs hn)

theorem leads_jsonify (h : PlainLines s) : Leads (.value, st) (jsonify s) (.after, st) := by
  unfold jsonify
  by_cases hn : '\n' ∉ s.toList
  · rw [if_pos hn]
    have hopen : Leads (.value, st) "\"" (.str false, st) := rfl
    have hclose : Leads (.str false, st) "\"" (.after, st) := rfl
    refine (hopen.append (leads_chars ?_)).append hclose
    rw [String.toList_ofList]
    exact chars_jsonifyChars h hn
  · rw [if_neg hn]
    have hopen : Leads (.value, st) "[\n  \"" (.str false, .array :: st) := rfl
    have hclose : Leads (.str false, .array :: st) "\"\n]" (.after, st) := rfl
    have hchars := leads_jsonifyChars st (s := cStr s.toList) fun c hc =>
      h c ((List.takeWhile_prefix _).subset hc)
    exact (hopen.append hchars).append hclose

theorem leads_jsonifyItems {pad : String} (hpad : Ws pad.toList) {s : String} {ss : List String}
    (h : ∀ t ∈ s :: ss, PlainLines t) :
    Leads (.value, .array :: st) (jsonifyItems pad (s :: ss)) (.after, .array :: st) := by
  induction ss generalizing s with
  | nil =>
    have hopen : Leads (.value, .array :: st) "  \"" (.str false, .array :: st) := rfl
    have hclose : Leads (.str false, .array :: st) "\"\n" (.after, .array :: st) := rfl
    have hchars := leads_jsonifyChars st (h s List.mem_cons_self)
    exact ((hopen.append hchars).append hclose).append (leads_ws rfl hpad)
  | cons t ss ih =>
    have hopen : Leads (.value, .array :: st) "  \"" (.str false, .array :: st) := rfl
    have hclose : Leads (.str false, .array :: st) "\",\n" (.value, .array :: st) := rfl
    have hchars := leads_jsonifyChars st (h s List.mem_cons_self)
    have hrest := ih fun u hu => h u (List.mem_cons_of_mem s hu)
    exact (((hopen.append hchars).append hclose).append (leads_ws rfl hpad)).append hrest

/-- A container of texts is a JSON array. -/
theorem leads_jsonifyAll {strs : List String} (h : ∀ t ∈ strs, PlainLines t) (n : ℕ) :
    Leads (.value, st) (jsonifyAll strs n) (.after, st) := by
  cases strs with
  | nil =>
    show Leads (.value, st) ("[" ++ " " ++ "" ++ "]") (.after, st)
    rfl
  | cons s ss =>
    have hopen : Leads (.value, st) "[" (.opened .array, st) := rfl
    have hline : Leads (.opened .array, st) "\n" (.opened .array, st) := rfl
    have hclose : Leads (.after, .array :: st) "]" (.after, st) := rfl
    have hitems : Leads (.opened .array, st) (jsonifyItems (blanks n) (s :: ss))
        (.after, .array :: st) :=
      Leads.opened (b := .array) (leads_jsonifyItems (ws_blanks n) h) rfl
    exact ((hopen.append (hline.append (leads_ws rfl (ws_blanks n)))).append hitems).append hclose

theorem leads_jsonifyArray {strs : List String} (h : ∀ t ∈ strs, PlainLines t) (n : ℕ) :
    Leads (.value, st) (jsonifyArray strs n) (.after, st) := by
  refine leads_jsonifyAll (fun t ht => ?_) n
  obtain ⟨s, hs, rfl⟩ := List.mem_map.1 ht
  intro c hc
  rw [String.toList_ofList] at hc
  exact h s hs c ((List.takeWhile_prefix _).subset hc)

/-! ## Items with commas between them -/

/-- The states at the end of a possibly empty list of items. -/
def AtEnd (b : Bracket) (st : List Bracket) (q : State) : Prop :=
  q = (.opened b, st) ∨ ∃ m : Mode, m.ends ∧ q = (m, b :: st)

/-- The states in which the next member of an object may begin. -/
def AtKey (st : List Bracket) (q : State) : Prop := q = (.opened .object, st) ∨ q = (.key, st)

/-- The closing bracket after a list of items, with space before it. -/
theorem AtEnd.leads {b : Bracket} {t : String} (hq : AtEnd b st q) (ht : t.toList.head?.any isEnd)
    (h : Leads (.opened b, st) t q') (h' : Leads (.after, b :: st) t q') : Leads q t q' := by
  rcases hq with rfl | ⟨m, hm, rfl⟩
  · exact h
  · exact h'.of_ends hm ht

theorem leads_commas {b : Bracket} {items : List String} {m : Mode} (hm : m.ends)
    (h : ∀ t ∈ items, ∃ m : Mode, m.ends ∧ Leads (start st b) t (m, b :: st)) :
    ∃ m' : Mode, m'.ends ∧ Leads (m, b :: st) (commas false items) (m', b :: st) := by
  induction items generalizing m with
  | nil => exact ⟨m, hm, rfl⟩
  | cons t ts ih =>
    obtain ⟨m₁, hm₁, ht⟩ := h t List.mem_cons_self
    obtain ⟨m₂, hm₂, hts⟩ := ih hm₁ fun u hu => h u (List.mem_cons_of_mem t hu)
    have hcomma : Leads (.after, b :: st) "," (start st b) := by
      cases b <;> rfl
    exact ⟨m₂, hm₂, ((hcomma.of_ends hm rfl).append ht).append hts⟩

/-- Items after the opening bracket. -/
theorem leads_commas_opened {b : Bracket} {items : List String}
    (h : ∀ t ∈ items, ∃ m : Mode, m.ends ∧ Leads (start st b) t (m, b :: st)) :
    ∃ q, AtEnd b st q ∧ Leads (.opened b, st) (commas true items) q := by
  cases items with
  | nil => exact ⟨_, .inl rfl, rfl⟩
  | cons t ts =>
    obtain ⟨m, hm, ht⟩ := h t List.mem_cons_self
    obtain ⟨m', hm', hts⟩ := leads_commas hm fun u hu => h u (List.mem_cons_of_mem t hu)
    exact ⟨_, .inr ⟨m', hm', rfl⟩, ((leads_empty _).append (ht.opened hm)).append hts⟩

end Dtest
