import Dtest.Lib.JsonValue
import Dtest.Report.Text

/-!
# What `jsonify` writes for a string

A text without newlines becomes a JSON string, any other an array of the strings between its
newlines.  `jsonify` escapes quotes and nothing else, so that the log denotes the text if and only
if the text has neither backslashes nor other control characters (`jsonify_denotes_iff`).  What is
left of an array after one of its strings has been read is determined by the next newline: a string
that ends early, or runs on, because of a backslash leaves a rest that no array has
(`decodes_split`, `not_elements_of_split`).
-/

namespace Dtest

open Json

/-- The value that a text should be logged as. -/
def Represents (s : List Char) : Value → Prop
  | .string t => '\n' ∉ s ∧ t = s
  | .array ts => '\n' ∈ s ∧ List.intercalate ['\n'] ts = s

/-! ## Lines -/

/-- Induction on the lines of a text. -/
theorem lines_induction {P : List Char → Prop} (hline : ∀ l, '\n' ∉ l → P l)
    (hmore : ∀ l s, '\n' ∉ l → P s → P (l ++ '\n' :: s)) (s : List Char) : P s := by
  induction hn : s.length using Nat.strongRecOn generalizing s with | _ n ih
  by_cases hmem : '\n' ∈ s
  · obtain ⟨l, s', rfl, hl⟩ := List.eq_append_cons_of_mem hmem
    apply hmore l s' hl
    apply ih s'.length _ s' rfl
    rw [← hn, List.length_append, List.length_cons]
    omega
  · exact hline s hmem

theorem elements_ne_nil {x : List Char} {ts : List (List Char)} (h : Elements x ts) : ts ≠ [] := by
  cases h <;> exact List.cons_ne_nil _ _

/-! ## The characters that are written -/

section Chars

variable {l : List Char} {c : Char}

theorem jsonifyChars_append (s s' : List Char) :
    jsonifyChars (s ++ s') = jsonifyChars s ++ jsonifyChars s' := by
  induction s with
  | nil => rfl
  | cons c s ih => rw [List.cons_append, jsonifyChars, jsonifyChars, ih, List.append_assoc]

theorem jsonifyChars_newline (s : List Char) :
    jsonifyChars ('\n' :: s) = '"' :: ',' :: '\n' :: ' ' :: ' ' :: '"' :: jsonifyChars s := rfl

theorem jsonifyChars_quote (s : List Char) :
    jsonifyChars ('"' :: s) = '\\' :: '"' :: jsonifyChars s := rfl

theorem jsonifyChars_cons (hn : c ≠ '\n') (hq : c ≠ '"') (s : List Char) :
    jsonifyChars (c :: s) = c :: jsonifyChars s := by
  rw [jsonifyChars, if_neg hn, if_neg hq]
  rfl

theorem jsonifyChars_plain (hn : '\n' ∉ l) (hq : '"' ∉ l) : jsonifyChars l = l := by
  induction l with
  | nil => rfl
  | cons c l ih =>
    obtain ⟨hcn, hn⟩ := List.ne_and_not_mem_of_not_mem_cons hn
    obtain ⟨hcq, hq⟩ := List.ne_and_not_mem_of_not_mem_cons hq
    rw [jsonifyChars_cons (Ne.symm hcn) (Ne.symm hcq), ih hn hq]

/-- The written line has its quotes, a backslash for each of them, and is longer by these. -/
theorem count_jsonifyChars (hn : '\n' ∉ l) :
    (jsonifyChars l).length = l.length + l.count '"' ∧ (jsonifyChars l).count '"' = l.count '"' ∧
      (jsonifyChars l).count '\\' = l.count '\\' + l.count '"' := by
  induction l with
  | nil => exact ⟨rfl, rfl, rfl⟩
  | cons c l ih =>
    obtain ⟨hcn, hn⟩ := List.ne_and_not_mem_of_not_mem_cons hn
    obtain ⟨hlen, hquotes, hslashes⟩ := ih hn
    by_cases hq : c = '"'
    · rw [hq, jsonifyChars_quote]
      simp only [List.length_cons, List.count_cons, hlen, hquotes, hslashes,
        beq_self_eq_true, if_true]
      exact ⟨by omega, by simp, by simp; omega⟩
    · rw [jsonifyChars_cons (Ne.symm hcn) hq]
      simp only [List.length_cons, List.count_cons, hlen, hquotes, hslashes]
      exact ⟨by simp [hq]; omega, trivial, by simp [hq]; omega⟩

theorem mem_jsonifyChars (hn : '\n' ∉ l) (hc : c ∈ l) : c ∈ jsonifyChars l := by
  induction l with
  | nil => cases hc
  | cons a l ih =>
    obtain ⟨han, hn⟩ := List.ne_and_not_mem_of_not_mem_cons hn
    by_cases hq : a = '"'
    · rw [hq, jsonifyChars_quote]
      rcases List.mem_cons.1 hc with rfl | hc
      · rw [hq]
        exact List.mem_cons_of_mem _ List.mem_cons_self
      · exact List.mem_cons_of_mem _ (List.mem_cons_of_mem _ (ih hn hc))
    · rw [jsonifyChars_cons (Ne.symm han) hq]
      rcases List.mem_cons.1 hc with rfl | hc
      · exact List.mem_cons_self
      · exact List.mem_cons_of_mem _ (ih hn hc)

end Chars

/-! ## Reading a written line back -/

section Split

variable {l u y b t rest x : List Char} {c : Char}

/-- No string can begin, or go on, with this text. -/
def Blocked (x : List Char) : Prop := ∀ b t y, Decodes b t → x ≠ b ++ '"' :: y

/-- The first character of what is left: the closing quote, the backslash before a quote of the
line, or a character of the line. -/
theorem split_cons (hn : '\n' ∉ l) (h : c :: y = jsonifyChars l ++ '"' :: x) :
    (l = [] ∧ c = '"' ∧ y = x) ∨
      ∃ l₂, '\n' ∉ l₂ ∧
        ((l = '"' :: l₂ ∧ c = '\\' ∧ y = '"' :: (jsonifyChars l₂ ++ '"' :: x)) ∨
          (l = c :: l₂ ∧ c ≠ '"' ∧ y = jsonifyChars l₂ ++ '"' :: x)) := by
  cases l with
  | nil => exact .inl ⟨rfl, List.cons.inj h⟩
  | cons d l =>
    obtain ⟨hdn, hln⟩ := List.ne_and_not_mem_of_not_mem_cons hn
    right
    refine ⟨l, hln, ?_⟩
    by_cases hq : d = '"'
    · rw [hq, jsonifyChars_quote] at h
      obtain ⟨hc, hy⟩ := List.cons.inj h
      exact .inl ⟨by rw [hq], hc, hy⟩
    · rw [jsonifyChars_cons (Ne.symm hdn) hq] at h
      obtain ⟨hc, hy⟩ := List.cons.inj h
      exact .inr ⟨by rw [hc], by rw [hc]; exact hq, hy⟩

/-- Characters other than quotes and backslashes stand for themselves. -/
theorem split_plain {p : List Char} (hq : '"' ∉ p) (hb : '\\' ∉ p) (hn : '\n' ∉ l)
    (h : p ++ y = jsonifyChars l ++ '"' :: x) :
    ∃ l₂, '\n' ∉ l₂ ∧ l = p ++ l₂ ∧ y = jsonifyChars l₂ ++ '"' :: x := by
  induction p generalizing l with
  | nil => exact ⟨l, hn, rfl, h⟩
  | cons a p ih =>
    obtain ⟨haq, hpq⟩ := List.ne_and_not_mem_of_not_mem_cons hq
    obtain ⟨hab, hpb⟩ := List.ne_and_not_mem_of_not_mem_cons hb
    rcases split_cons hn h with ⟨-, ha, -⟩ | ⟨l₂, hn₂, ⟨-, ha, -⟩ | ⟨hl, -, hy⟩⟩
    · exact absurd ha.symm haq
    · exact absurd ha.symm hab
    · obtain ⟨l₃, hn₃, hl₂, hrest⟩ := ih hpq hpb hn₂ hy
      exact ⟨l₃, hn₃, by rw [hl, hl₂]; rfl, hrest⟩

/-- A code unit is one of the line. -/
theorem split_codeUnit {hs : List Char} (hunit : CodeUnit hs) (hn : '\n' ∉ l)
    (h : '\\' :: 'u' :: hs ++ y = jsonifyChars l ++ '"' :: x) :
    ∃ l₂, '\n' ∉ l₂ ∧ jsonifyChars l = '\\' :: 'u' :: hs ++ jsonifyChars l₂ ∧
      y = jsonifyChars l₂ ++ '"' :: x := by
  rcases split_cons hn h with ⟨-, ha, -⟩ | ⟨l₂, hn₂, ⟨-, -, hy⟩ | ⟨hl, hne, hy⟩⟩
  · exact absurd ha (by decide)
  · exact absurd (List.cons.inj hy).1 (by decide)
  · have hq : '"' ∉ 'u' :: hs := List.not_mem_cons_of_ne_of_not_mem (by decide) hunit.plain.1
    have hb : '\\' ∉ 'u' :: hs := List.not_mem_cons_of_ne_of_not_mem (by decide) hunit.plain.2
    obtain ⟨l₃, hn₃, hl₂, hrest⟩ := split_plain hq hb hn₂ hy
    have hplain : jsonifyChars ('u' :: hs) = 'u' :: hs := by
      rw [hl₂] at hn₂
      exact jsonifyChars_plain (fun hm => hn₂ (List.mem_append_left l₃ hm)) hq
    refine ⟨l₃, hn₃, ?_, hrest⟩
    rw [hl, hl₂, jsonifyChars_cons (by decide) hne, jsonifyChars_append, hplain]
    rfl

/-- A piece of a string is written for a part of the line, or it is a backslash of the line, escaped
by another one or before the closing quote. -/
theorem split_piece (hu : Piece u c) (hn : '\n' ∉ l) (h : u ++ y = jsonifyChars l ++ '"' :: x) :
    (∃ l₂, '\n' ∉ l₂ ∧ jsonifyChars l = u ++ jsonifyChars l₂ ∧ y = jsonifyChars l₂ ++ '"' :: x) ∨
      (∃ l₂, '\n' ∉ l₂ ∧ y = '"' :: (jsonifyChars l₂ ++ '"' :: x)) ∨ y = x := by
  cases hu with
  | char _ hq hb =>
    rcases split_cons hn h with ⟨-, hc, -⟩ | ⟨l₂, hn₂, ⟨-, hc, -⟩ | ⟨hl, -, hy⟩⟩
    · exact absurd hc hq
    · exact absurd hc hb
    · rw [hl] at hn
      refine .inl ⟨l₂, hn₂, ?_, hy⟩
      rw [hl, jsonifyChars_cons (Ne.symm (List.ne_and_not_mem_of_not_mem_cons hn).1) hq]
      rfl
  | @escape e _ _ =>
    rcases split_cons hn h with ⟨-, hc, -⟩ | ⟨l₂, hn₂, ⟨hl, -, hy⟩ | ⟨hl, -, hy⟩⟩
    · exact absurd hc (by decide)
    · -- the backslash and the quote of an escaped quote
      obtain ⟨he, hrest⟩ := List.cons.inj hy
      exact .inl ⟨l₂, hn₂, by rw [hl, jsonifyChars_quote, he]; rfl, hrest⟩
    · rcases split_cons hn₂ hy with ⟨-, -, hrest⟩ | ⟨l₃, hn₃, ⟨-, -, hrest⟩ | ⟨hl₂, he, hrest⟩⟩
      · exact .inr (.inr hrest)
      · exact .inr (.inl ⟨l₃, hn₃, hrest⟩)
      · rw [hl₂] at hn₂
        refine .inl ⟨l₃, hn₃, ?_, hrest⟩
        rw [hl, hl₂, jsonifyChars_cons (by decide) (by decide),
          jsonifyChars_cons (Ne.symm (List.ne_and_not_mem_of_not_mem_cons hn₂).1) he]
        rfl
  | unicode hunit _ => exact .inl (split_codeUnit hunit hn h)
  | @surrogates hs ls hunit hunit' =>
    have h' : '\\' :: 'u' :: hs ++ ('\\' :: 'u' :: ls ++ y) = jsonifyChars l ++ '"' :: x := by
      rw [← h]
      simp only [List.cons_append, List.append_assoc]
    obtain ⟨l₂, hn₂, hl, hy⟩ := split_codeUnit hunit hn h'
    obtain ⟨l₃, hn₃, hl₂, hrest⟩ := split_codeUnit hunit' hn₂ hy
    refine .inl ⟨l₃, hn₃, ?_, hrest⟩
    rw [hl, hl₂]
    simp only [List.cons_append, List.append_assoc]

/-- A string that begins where the line was written ends with it, unless it ends early, at an
escaped quote of the line. -/
theorem decodes_split (hx : Blocked x) (hb : Decodes b t) (hn : '\n' ∉ l)
    (h : b ++ '"' :: rest = jsonifyChars l ++ '"' :: x) :
    (b = jsonifyChars l ∧ rest = x) ∨ ∃ l₂, '\n' ∉ l₂ ∧ rest = jsonifyChars l₂ ++ '"' :: x := by
  induction hb generalizing l with
  | nil =>
    rcases split_cons hn h with ⟨hl, -, hrest⟩ | ⟨l₂, -, ⟨-, hc, -⟩ | ⟨-, hne, -⟩⟩
    · exact .inl ⟨by rw [hl]; rfl, hrest⟩
    · exact absurd hc (by decide)
    · exact absurd rfl hne
  | cons hu hb ih =>
    rw [List.append_assoc] at h
    rcases split_piece hu hn h with ⟨l₂, hn₂, hl, hy⟩ | ⟨l₂, hn₂, hy⟩ | hy
    · rcases ih hn₂ hy with ⟨hb₂, hrest⟩ | hearly
      · exact .inl ⟨by rw [hl, hb₂], hrest⟩
      · exact .inr hearly
    · exact .inr ⟨l₂, hn₂, (hb.eq_nil_of_quote hy).2⟩
    · exact absurd hy.symm (hx _ _ _ hb)

theorem blocked_newline (x : List Char) : Blocked ('\n' :: x) := by
  intro b t y hb h
  cases b with
  | nil => exact absurd (List.cons.inj h).1 (by decide)
  | cons c b =>
    rw [← (List.cons.inj h).1] at hb
    exact hb.newline_notMem List.mem_cons_self

theorem blocked_comma (x : List Char) : Blocked (',' :: '\n' :: x) := by
  intro b t y hb h
  match b, hb, h with
  | [], _, h => exact absurd (List.cons.inj h).1 (by decide)
  | [_], _, h => exact absurd (List.cons.inj (List.cons.inj h).2).1 (by decide)
  | _ :: c :: b, hb, h =>
    rw [← (List.cons.inj (List.cons.inj h).2).1] at hb
    exact hb.newline_notMem (List.mem_cons_of_mem _ List.mem_cons_self)

/-- No elements follow a string that has ended early: what is left of the line has no quote that
could begin a string. -/
theorem not_elements_of_split {w r : List Char} {ts : List (List Char)} (hx : Blocked x) (hw : Ws w)
    (hr : Elements r ts) (hn : '\n' ∉ l) : w ++ ',' :: r ≠ jsonifyChars l ++ '"' :: x := by
  intro h
  obtain ⟨w₂, b, t, y, hw₂, hb, rfl⟩ := hr.eq_quote
  have hq : '"' ∉ w ++ ',' :: w₂ := by
    rw [List.mem_append, List.mem_cons, not_or, not_or]
    exact ⟨hw.notMem rfl, by decide, hw₂.notMem rfl⟩
  have hs : '\\' ∉ w ++ ',' :: w₂ := by
    rw [List.mem_append, List.mem_cons, not_or, not_or]
    exact ⟨hw.notMem rfl, by decide, hw₂.notMem rfl⟩
  have h' : w ++ ',' :: w₂ ++ '"' :: (b ++ '"' :: y) = jsonifyChars l ++ '"' :: x := by
    rw [← h, List.append_assoc]
    rfl
  obtain ⟨l₂, hn₂, -, hy⟩ := split_plain hq hs hn h'
  rcases split_cons hn₂ hy with ⟨-, -, hrest⟩ | ⟨l₃, -, ⟨-, hc, -⟩ | ⟨-, hne, -⟩⟩
  · exact hx _ _ _ hb hrest.symm
  · exact absurd hc (by decide)
  · exact absurd rfl hne

end Split

/-! ## The elements of the written array -/

section Array

variable {w x y s l t : List Char} {ts : List (List Char)}

/-- The first element, and what follows it. -/
theorem elements_inv (hw : Ws w) (h : Elements (w ++ '"' :: y) ts) :
    ∃ b t rest, Decodes b t ∧ b ++ '"' :: rest = y ∧
      ((Ws rest ∧ ts = [t]) ∨
        ∃ w' r ts', Ws w' ∧ rest = w' ++ ',' :: r ∧ Elements r ts' ∧ ts = t :: ts') := by
  generalize htext : w ++ '"' :: y = text at h
  cases h with
  | last hw₂ hb hw' =>
    obtain ⟨-, -, hy⟩ := ws_cancel hw hw₂ rfl rfl htext
    exact ⟨_, _, _, hb, hy.symm, .inl ⟨hw', rfl⟩⟩
  | more hw₂ hb hw' hr =>
    obtain ⟨-, -, hy⟩ := ws_cancel hw hw₂ rfl rfl htext
    exact ⟨_, _, _, hb, hy.symm, .inr ⟨_, _, _, hw', rfl, hr, rfl⟩⟩

/-- The element written for a line. -/
theorem elements_line (hx : Blocked x) (hw : Ws w) (hn : '\n' ∉ l)
    (h : Elements (w ++ '"' :: (jsonifyChars l ++ '"' :: x)) ts) :
    ∃ t, Decodes (jsonifyChars l) t ∧
      ((Ws x ∧ ts = [t]) ∨ ∃ w' r ts', Ws w' ∧ x = w' ++ ',' :: r ∧ Elements r ts' ∧
        ts = t :: ts') := by
  obtain ⟨b, t, rest, hb, hsplit, hrest⟩ := elements_inv hw h
  rcases decodes_split hx hb hn hsplit with ⟨rfl, rfl⟩ | ⟨l₂, hn₂, hearly⟩
  · exact ⟨t, hb, hrest⟩
  · rcases hrest with ⟨hws, -⟩ | ⟨w', r, ts', hw', rfl, hr, -⟩
    · have hq : '"' ∈ rest := by
        rw [hearly]
        exact List.mem_append_right _ List.mem_cons_self
      exact absurd hq (hws.notMem rfl)
    · exact absurd hearly (not_elements_of_split hx hw' hr hn₂)

/-- A line stands for itself only if it has no backslash and no control characters. -/
theorem decodes_bound (hn : '\n' ∉ l) (h : Decodes (jsonifyChars l) t) :
    2 * t.length + l.count '\\' ≤ 2 * l.length ∧ ∀ c ∈ l, 0x20 ≤ c.toNat ∨ c = '\n' := by
  obtain ⟨hlen, hquotes, hslashes⟩ := count_jsonifyChars hn
  have := h.length_add_count
  exact ⟨by omega, fun c hc => .inl (h.le_toNat c (mem_jsonifyChars hn hc))⟩

/-- Joined again, the elements are shorter than the text by its backslashes. -/
theorem elements_bound (s : List Char) (hw : Ws w)
    (h : Elements (w ++ '"' :: (jsonifyChars s ++ ['"', '\n'])) ts) :
    2 * (List.intercalate ['\n'] ts).length + s.count '\\' ≤ 2 * s.length ∧
      ∀ c ∈ s, 0x20 ≤ c.toNat ∨ c = '\n' := by
  induction s using lines_induction generalizing w ts with
  | hline l hn =>
    obtain ⟨t, ht, ⟨-, rfl⟩ | ⟨w', r, ts', -, hrest, -⟩⟩ :=
      elements_line (blocked_newline []) hw hn h
    · rw [List.intercalate_singleton]
      exact decodes_bound hn ht
    · have hcomma : ',' ∈ ['\n'] := by
        rw [hrest]
        exact List.mem_append_right _ List.mem_cons_self
      exact absurd hcomma (by decide)
  | hmore l s hn ih =>
    rw [jsonifyChars_append, jsonifyChars_newline, List.append_assoc] at h
    obtain ⟨t, ht, ⟨hws, -⟩ | ⟨w', r, ts', hw', hrest, hr, rfl⟩⟩ :=
      elements_line (blocked_comma _) hw hn h
    · exact absurd List.mem_cons_self (hws.notMem rfl)
    · -- the comma is the one behind the line
      obtain ⟨-, -, rfl⟩ := ws_cancel (w := []) Ws.nil hw' rfl rfl hrest
      have hpad : Ws ['\n', ' ', ' '] := by decide
      obtain ⟨hlen, hs⟩ := ih hpad hr
      obtain ⟨hlen', hl⟩ := decodes_bound hn ht
      rw [List.intercalate_cons_of_ne_nil (elements_ne_nil hr)]
      have hcount : (l ++ '\n' :: s).count '\\' = l.count '\\' + s.count '\\' := by
        rw [List.count_append, List.count_cons_of_ne (by decide)]
      refine ⟨?_, fun c hc => ?_⟩
      · simp only [List.length_append, List.length_cons, List.length_nil, hcount]
        omega
      · rcases List.mem_append.1 hc with hc | hc
        · exact hl c hc
        · rcases List.mem_cons.1 hc with rfl | hc
          · exact .inr rfl
          · exact hs c hc

theorem decodes_jsonifyChars (h : ∀ c ∈ l, (0x20 ≤ c.toNat ∨ c = '\n') ∧ c ≠ '\\') (hn : '\n' ∉ l) :
    Decodes (jsonifyChars l) l := by
  induction l with
  | nil => exact .nil
  | cons c l ih =>
    obtain ⟨⟨hc, hesc⟩, hl⟩ := List.forall_mem_cons.1 h
    obtain ⟨hcn, hln⟩ := List.ne_and_not_mem_of_not_mem_cons hn
    by_cases hq : c = '"'
    · rw [hq, jsonifyChars_quote]
      have hpiece : (('"', '"') : Char × Char) ∈ escapes := List.mem_cons_self
      exact Decodes.cons (.escape hpiece) (ih hl hln)
    · rw [jsonifyChars_cons (Ne.symm hcn) hq]
      exact Decodes.cons (.char (hc.resolve_right (Ne.symm hcn)) hq hesc) (ih hl hln)

/-- Without backslashes and other control characters the elements are the lines. -/
theorem elements_jsonifyChars (s : List Char) (h : ∀ c ∈ s, (0x20 ≤ c.toNat ∨ c = '\n') ∧ c ≠ '\\')
    (hw : Ws w) : ∃ ts, Elements (w ++ '"' :: (jsonifyChars s ++ ['"', '\n'])) ts ∧
      List.intercalate ['\n'] ts = s := by
  induction s using lines_induction generalizing w with
  | hline l hn =>
    have hend : Ws ['\n'] := by decide
    exact ⟨[l], .last hw (decodes_jsonifyChars h hn) hend, List.intercalate_singleton⟩
  | hmore l s hn ih =>
    have hpad : Ws ['\n', ' ', ' '] := by decide
    obtain ⟨ts, hts, hjoin⟩ :=
      ih (fun c hc => h c (List.mem_append_right _ (List.mem_cons_of_mem _ hc))) hpad
    have hl := decodes_jsonifyChars (fun c hc => h c (List.mem_append_left _ hc)) hn
    refine ⟨l :: ts, ?_, ?_⟩
    · rw [jsonifyChars_append, jsonifyChars_newline, List.append_assoc]
      exact .more hw hl Ws.nil hts
    · rw [List.intercalate_cons_of_ne_nil (elements_ne_nil hts), hjoin, List.append_assoc]
      rfl

end Array

/-! ## Indentation -/

section Indent

variable {pad w x y : List Char} {v : Value}

theorem indentChars_cons {c : Char} (hc : c ≠ '\n') (pad s : List Char) :
    indentChars pad (c :: s) = c :: indentChars pad s := by
  rw [indentChars, if_neg fun h => hc h.1]

/-- All newlines but one at the end are followed by the padding. -/
theorem indentChars_append (hy : y ≠ []) (pad x : List Char) :
    indentChars pad (x ++ y) = padded pad x ++ indentChars pad y := by
  induction x with
  | nil => rfl
  | cons c x ih =>
    have hne : x ++ y ≠ [] := fun h => hy (List.append_eq_nil_iff.1 h).2
    by_cases hc : c = '\n'
    · rw [hc, List.cons_append, indentChars, if_pos ⟨rfl, hne⟩, ih, ← List.append_assoc]
      rfl
    · rw [List.cons_append, indentChars_cons hc, ih, padded_cons hc, List.cons_append]

theorem ws_indentChars (hpad : Ws pad) (hw : Ws w) : Ws (indentChars pad w) := by
  induction w with
  | nil => exact .nil
  | cons c w ih =>
    obtain ⟨hc, hws⟩ := List.forall_mem_cons.1 hw
    rw [indentChars]
    split
    · exact .cons hc (hpad.append (ih hws))
    · exact .cons hc (ih hws)

/-- Indentation does not change what a text denotes. -/
theorem denotes_indentChars (hpad : Ws pad) (h : Denotes x v) :
    Denotes (pad ++ indentChars pad x) v := by
  have hsplit {c : Char} (hc : c ≠ '\n') (x w' : List Char) :
      indentChars pad (x ++ c :: w') = padded pad x ++ c :: indentChars pad w' := by
    rw [indentChars_append (List.cons_ne_nil c w'), indentChars_cons hc]
  cases h with
  | @string w b w' t hw hb hw' =>
    have htext : w ++ '"' :: (b ++ '"' :: w') = (w ++ '"' :: b) ++ '"' :: w' := by
      rw [List.append_assoc, List.cons_append]
    rw [htext, hsplit (by decide), padded_append, padded_cons (by decide),
      padded_of_notMem hb.newline_notMem, List.append_assoc, List.cons_append, ← List.append_assoc]
    exact .string (hpad.append (hpad.padded hw)) hb (ws_indentChars hpad hw')
  | @empty w w₁ w' hw hw₁ hw' =>
    have htext : w ++ '[' :: (w₁ ++ ']' :: w') = (w ++ '[' :: w₁) ++ ']' :: w' := by
      rw [List.append_assoc, List.cons_append]
    rw [htext, hsplit (by decide), padded_append, padded_cons (by decide), List.append_assoc,
      List.cons_append, ← List.append_assoc]
    exact .empty (hpad.append (hpad.padded hw)) (hpad.padded hw₁) (ws_indentChars hpad hw')
  | @array w x w' ts hw hx hw' =>
    have htext : w ++ '[' :: (x ++ ']' :: w') = (w ++ '[' :: x) ++ ']' :: w' := by
      rw [List.append_assoc, List.cons_append]
    rw [htext, hsplit (by decide), padded_append, padded_cons (by decide), List.append_assoc,
      List.cons_append, ← List.append_assoc]
    exact .array (hpad.append (hpad.padded hw)) (hx.padded hpad) (ws_indentChars hpad hw')

theorem denotes_indent {s : String} (h : Denotes s.toList v) (n : ℕ) :
    Denotes (indent s n).toList v := by
  have hnul : cStr s.toList = s.toList := by
    have hends : EndsIn [] (run (.value, []) s.toList) := endsIn_of_isText h.isText
    obtain ⟨m, -, hrun⟩ := hends
    exact cStr_of_run hrun
  unfold indent
  rw [String.toList_append, String.toList_ofList, hnul]
  exact denotes_indentChars (ws_blanks n) h

end Indent

/-! ## The whole text -/

section Text

variable {s : String} {v : Value}

theorem toList_jsonify_line (hn : '\n' ∉ s.toList) :
    (jsonify s).toList = '"' :: (jsonifyChars s.toList ++ ['"']) := by
  unfold jsonify
  rw [if_pos hn]
  simp only [String.toList_append, String.toList_ofList]
  rfl

theorem toList_jsonify_lines (hn : '\n' ∈ s.toList) (h0 : '\x00' ∉ s.toList) :
    (jsonify s).toList =
      '[' :: ('\n' :: ' ' :: ' ' :: '"' :: (jsonifyChars s.toList ++ ['"', '\n']) ++ [']']) := by
  have hnul : cStr s.toList = s.toList := by
    apply List.takeWhile_eq_self_iff.2
    intro c hc
    apply decide_eq_true
    rintro rfl
    exact h0 hc
  unfold jsonify
  rw [if_neg (not_not_intro hn), hnul]
  simp only [String.toList_append, String.toList_ofList, List.cons_append, List.append_assoc]
  rfl

/-- What the log denotes where a text has no newline. -/
theorem denotes_line_inv {b : List Char} (h : Denotes ('"' :: (b ++ ['"'])) v) :
    ∃ t, Decodes b t ∧ v = .string t := by
  generalize htext : '"' :: (b ++ ['"']) = text at h
  cases h with
  | string hw hb hw' =>
    obtain ⟨-, -, hy⟩ := ws_cancel (w := []) Ws.nil hw rfl rfl htext
    rw [(ws_cancel_end hw' rfl hy).1]
    exact ⟨_, hb, rfl⟩
  | empty hw _ _ =>
    exact absurd (ws_cancel (w := []) Ws.nil hw rfl rfl htext).2.1 (by decide)
  | array hw _ _ =>
    exact absurd (ws_cancel (w := []) Ws.nil hw rfl rfl htext).2.1 (by decide)

/-- What the log denotes where a text has newlines. -/
theorem denotes_lines_inv {x : List Char} (hq : '"' ∈ x) (h : Denotes ('[' :: (x ++ [']'])) v) :
    ∃ ts, Elements x ts ∧ v = .array ts := by
  generalize htext : '[' :: (x ++ [']']) = text at h
  cases h with
  | string hw _ _ =>
    exact absurd (ws_cancel (w := []) Ws.nil hw rfl rfl htext).2.1 (by decide)
  | empty hw hw₁ hw' =>
    obtain ⟨-, -, hy⟩ := ws_cancel (w := []) Ws.nil hw rfl rfl htext
    have hmem := List.mem_append_left [']'] hq
    rw [hy] at hmem
    rcases List.mem_append.1 hmem with hm | hm
    · exact absurd hm (hw₁.notMem rfl)
    · rcases List.mem_cons.1 hm with hm | hm
      · exact absurd hm (by decide)
      · exact absurd hm (hw'.notMem rfl)
  | array hw hx hw' =>
    obtain ⟨-, -, hy⟩ := ws_cancel (w := []) Ws.nil hw rfl rfl htext
    rw [(ws_cancel_end hw' rfl hy).1]
    exact ⟨_, hx, rfl⟩

/-- Text that the log represents has neither backslashes nor control characters, newlines apart. -/
theorem plainLines_of_denotes (h0 : '\x00' ∉ s.toList) (hv : Represents s.toList v)
    (h : Denotes (jsonify s).toList v) : PlainLines s := by
  have hbound : s.toList.count '\\' ≤ 0 ∧ ∀ c ∈ s.toList, 0x20 ≤ c.toNat ∨ c = '\n' := by
    by_cases hn : '\n' ∈ s.toList
    · rw [toList_jsonify_lines hn h0] at h
      have hq : '"' ∈ '\n' :: ' ' :: ' ' :: '"' :: (jsonifyChars s.toList ++ ['"', '\n']) := by
        simp only [List.mem_cons, true_or, or_true]
      obtain ⟨ts, hts, rfl⟩ := denotes_lines_inv hq h
      have hpad : Ws ['\n', ' ', ' '] := by decide
      obtain ⟨hlen, hs⟩ := elements_bound s.toList hpad hts
      rw [hv.2] at hlen
      exact ⟨by omega, hs⟩
    · rw [toList_jsonify_line hn] at h
      obtain ⟨t, ht, rfl⟩ := denotes_line_inv h
      obtain ⟨hlen, hs⟩ := decodes_bound hn ht
      rw [hv.2] at hlen
      exact ⟨by omega, hs⟩
  intro c hc
  refine ⟨hbound.2 c hc, ?_⟩
  rintro rfl
  have := List.count_pos_iff.2 hc
  omega

/-- The log represents any text without backslashes and control characters, newlines apart. -/
theorem denotes_jsonify (h : PlainLines s) :
    ∃ v, Represents s.toList v ∧ Denotes (jsonify s).toList v := by
  have h0 : '\x00' ∉ s.toList := fun hm => absurd (h _ hm).1 (by decide)
  by_cases hn : '\n' ∈ s.toList
  · have hpad : Ws ['\n', ' ', ' '] := by decide
    obtain ⟨ts, hts, hjoin⟩ := elements_jsonifyChars s.toList h hpad
    refine ⟨.array ts, ⟨hn, hjoin⟩, ?_⟩
    rw [toList_jsonify_lines hn h0]
    exact .array Ws.nil hts Ws.nil
  · refine ⟨.string s.toList, ⟨hn, rfl⟩, ?_⟩
    rw [toList_jsonify_line hn]
    exact .string Ws.nil (decodes_jsonifyChars h hn) Ws.nil

/-- The log of a text without NUL is JSON that represents the text, also when it is indented, if and
only if the text has neither backslashes nor control characters other than newlines. -/
theorem jsonify_denotes_iff (h0 : '\x00' ∉ s.toList) :
    (∃ v, Represents s.toList v ∧ IsText (jsonify s).toList ∧ Denotes (jsonify s).toList v ∧
      ∀ n, Denotes (indent (jsonify s) n).toList v) ↔ PlainLines s := by
  constructor
  · rintro ⟨v, hv, -, h, -⟩
    exact plainLines_of_denotes h0 hv h
  · intro hplain
    obtain ⟨v, hv, h⟩ := denotes_jsonify hplain
    exact ⟨v, hv, h.isText, h, denotes_indent h⟩

/-- Two lines with quotes. -/
theorem jsonify_denotes_twoLines :
    ∃ v, Represents "say \"no\"\nor not".toList v ∧ IsText (jsonify "say \"no\"\nor not").toList ∧
      Denotes (jsonify "say \"no\"\nor not").toList v ∧
      ∀ n, Denotes (indent (jsonify "say \"no\"\nor not") n).toList v :=
  (jsonify_denotes_iff (by decide)).2 (by decide)

/-- A single backslash escapes the quote that should end the string. -/
theorem jsonify_backslash :
    '\x00' ∉ "\\".toList ∧ ¬ IsText (jsonify "\\").toList ∧
    ¬ ∃ v, Represents "\\".toList v ∧ Denotes (jsonify "\\").toList v ∧
      ∀ n, Denotes (indent (jsonify "\\") n).toList v := by
  have hnot : ¬ IsText (jsonify "\\").toList := by
    rw [← accepts_iff]
    decide
  exact ⟨by decide, hnot, fun ⟨v, _, h, _⟩ => hnot h.isText⟩

end Text

end Dtest
