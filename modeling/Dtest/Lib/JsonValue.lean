import Dtest.Lib.Json
import Mathlib.Data.List.Basic
import Mathlib.Data.List.Count

/-!
# What strings and arrays of strings in JSON stand for

`Denotes text v` says that a text is JSON and stands for the value `v`, a string or an array of
strings.  Two facts help to tell values apart: the contents of a string are at least as long as the
string they stand for, and longer for every backslash that does not stand before a quote
(`Decodes.length_add_count`); and white space may be inserted after newlines, as none lies inside a
string (`Denotes.pad`).
-/

namespace Json

/-- What a backslash and a character stand for. -/
def escapes : List (Char × Char) :=
  [('"', '"'), ('\\', '\\'), ('/', '/'), ('b', '\x08'), ('f', '\x0c'), ('n', '\n'), ('r', '\r'),
    ('t', '\t')]

/-- The value of a hexadecimal digit. -/
def hexDigit (c : Char) : ℕ := if c.isDigit then c.toNat - 48 else c.toLower.toNat - 87

/-- The value of hexadecimal digits. -/
def hexNumber (hs : List Char) : ℕ := hs.foldl (fun n h => 16 * n + hexDigit h) 0

/-- The four digits of a UTF-16 code unit. -/
def CodeUnit (hs : List Char) : Prop := hs.length = 4 ∧ ∀ h ∈ hs, h.isHexDigit

/-- A piece of the contents of a string that stands for one character. -/
inductive Piece : List Char → Char → Prop
  | char {c : Char} : 0x20 ≤ c.toNat → c ≠ '"' → c ≠ '\\' → Piece [c] c
  | escape {e c : Char} : (e, c) ∈ escapes → Piece ['\\', e] c
  | unicode {hs : List Char} : CodeUnit hs → (hexNumber hs).isValidChar →
      Piece ('\\' :: 'u' :: hs) (Char.ofNat (hexNumber hs))
  | surrogates {hs ls : List Char} : CodeUnit hs → CodeUnit ls →
      0xD800 ≤ hexNumber hs → hexNumber hs < 0xDC00 → 0xDC00 ≤ hexNumber ls →
      hexNumber ls < 0xE000 →
      Piece ('\\' :: 'u' :: (hs ++ '\\' :: 'u' :: ls))
        (Char.ofNat (0x10000 + (hexNumber hs - 0xD800) * 0x400 + (hexNumber ls - 0xDC00)))

/-- The contents of a string, and the string they stand for. -/
inductive Decodes : List Char → List Char → Prop
  | nil : Decodes [] []
  | cons {u b t : List Char} {c : Char} : Piece u c → Decodes b t → Decodes (u ++ b) (c :: t)

/-- The elements of an array of strings that is not empty. -/
inductive Elements : List Char → List (List Char) → Prop
  | last {w b w' t : List Char} :
      Ws w → Decodes b t → Ws w' → Elements (w ++ '"' :: (b ++ '"' :: w')) [t]
  | more {w b w' t r : List Char} {ts : List (List Char)} :
      Ws w → Decodes b t → Ws w' → Elements r ts →
      Elements (w ++ '"' :: (b ++ '"' :: (w' ++ ',' :: r))) (t :: ts)

/-- A string, or an array of strings. -/
inductive Value
  | string (s : List Char)
  | array (ss : List (List Char))

/-- The text is JSON and stands for the value. -/
inductive Denotes : List Char → Value → Prop
  | string {w b w' t : List Char} : Ws w → Decodes b t → Ws w' →
      Denotes (w ++ '"' :: (b ++ '"' :: w')) (.string t)
  | empty {w w₁ w' : List Char} : Ws w → Ws w₁ → Ws w' →
      Denotes (w ++ '[' :: (w₁ ++ ']' :: w')) (.array [])
  | array {w x w' : List Char} {ts : List (List Char)} : Ws w → Elements x ts → Ws w' →
      Denotes (w ++ '[' :: (x ++ ']' :: w')) (.array ts)

/-! ## Such a text is JSON -/

variable {u b t w w' x y : List Char} {c : Char} {v : Value} {ts : List (List Char)}

/-- Hexadecimal digits are plain characters. -/
theorem plain_of_isHexDigit (h : c.isHexDigit) : 0x20 ≤ c.toNat ∧ c ≠ '"' ∧ c ≠ '\\' := by
  have hnum : 48 ≤ c.toNat ∧ c.toNat ≤ 57 ∨ 97 ≤ c.toNat ∧ c.toNat ≤ 102 ∨ 65 ≤ c.toNat ∧
      c.toNat ≤ 70 := by
    simpa [Char.isHexDigit, Char.isDigit, UInt32.le_iff_toNat_le, or_assoc] using h
  refine ⟨by omega, ?_, ?_⟩ <;> rintro rfl <;> revert hnum <;> decide

theorem isEscape_of_mem {e : Char} (h : (e, c) ∈ escapes) : isEscape e := by
  have hall : (escapes.all fun p => isEscape p.1) = true := by decide
  exact List.all_eq_true.1 hall _ h

theorem Piece.chars (hu : Piece u c) (hb : Chars b) : Chars (u ++ b) := by
  cases hu with
  | char h1 h2 h3 => exact .char h1 h2 h3 hb
  | escape h => exact .escape (isEscape_of_mem h) hb
  | unicode h _ => exact .unicode h.1 h.2 hb
  | surrogates h h' =>
    simp only [List.cons_append, List.append_assoc]
    exact .unicode h.1 h.2 (.unicode h'.1 h'.2 hb)

theorem Decodes.chars (h : Decodes b t) : Chars b := by
  induction h with
  | nil => exact .nil
  | cons hu _ ih => exact hu.chars ih

theorem Elements.derives (h : Elements x ts) : Derives (.items .array) x := by
  induction h with
  | last hw hb hw' =>
    have := Derives.last (Derives.element hw (.string hb.chars) hw')
    simpa only [List.cons_append, List.append_assoc, List.nil_append] using this
  | more hw hb hw' _ ih =>
    have := Derives.more (Derives.element hw (.string hb.chars) hw') ih
    simpa only [List.cons_append, List.append_assoc, List.nil_append] using this

/-- A text that denotes anything is JSON. -/
theorem Denotes.isText (h : Denotes x v) : IsText x := by
  cases h with
  | string hw hb hw' =>
    refine ⟨_, _, _, hw, .string hb.chars, hw', ?_⟩
    simp only [List.cons_append, List.append_assoc, List.nil_append]
  | empty hw hw₁ hw' =>
    refine ⟨_, _, _, hw, .bracketed (.empty (b := .array) hw₁), hw', ?_⟩
    simp only [Bracket.left, Bracket.right, List.cons_append, List.append_assoc, List.nil_append]
  | array hw hx hw' =>
    refine ⟨_, _, _, hw, .bracketed (.items (b := .array) hx.derives), hw', ?_⟩
    simp only [Bracket.left, Bracket.right, List.cons_append, List.append_assoc, List.nil_append]

/-! ## What stands in a string -/

theorem CodeUnit.plain {hs : List Char} (h : CodeUnit hs) : '"' ∉ hs ∧ '\\' ∉ hs :=
  ⟨fun hm => (plain_of_isHexDigit (h.2 _ hm)).2.1 rfl,
    fun hm => (plain_of_isHexDigit (h.2 _ hm)).2.2 rfl⟩

/-- No control characters. -/
theorem Decodes.le_toNat (h : Decodes b t) : ∀ a ∈ b, 0x20 ≤ a.toNat := by
  have hchars := h.chars
  clear h
  induction hchars with
  | nil => exact fun a ha => absurd ha List.not_mem_nil
  | char hc _ _ _ ih => exact List.forall_mem_cons.2 ⟨hc, ih⟩
  | @escape e _ he _ ih =>
    have hall : (['"', '\\', '/', 'b', 'f', 'n', 'r', 't'].all fun e => decide (0x20 ≤ e.toNat)) =
        true := by
      decide
    have hmem : e ∈ ['"', '\\', '/', 'b', 'f', 'n', 'r', 't'] := by simpa [isEscape] using he
    have hlow : 0x20 ≤ e.toNat := of_decide_eq_true (List.all_eq_true.1 hall e hmem)
    exact List.forall_mem_cons.2 ⟨by decide, List.forall_mem_cons.2 ⟨hlow, ih⟩⟩
  | unicode _ hhex _ ih =>
    refine List.forall_mem_cons.2 ⟨by decide, List.forall_mem_cons.2 ⟨by decide, fun a ha => ?_⟩⟩
    rcases List.mem_append.1 ha with ha | ha
    · exact (plain_of_isHexDigit (hhex a ha)).1
    · exact ih a ha

theorem Decodes.newline_notMem (h : Decodes b t) : '\n' ∉ b := fun hm =>
  absurd (h.le_toNat _ hm) (by decide)

/-- A quote at the beginning of the contents is their end. -/
theorem Decodes.eq_nil_of_quote (h : Decodes b t) (hb : b ++ '"' :: x = '"' :: y) :
    b = [] ∧ x = y := by
  cases h with
  | nil => exact ⟨rfl, (List.cons.inj hb).2⟩
  | cons hu _ =>
    cases hu with
    | char _ hne _ => exact absurd (List.cons.inj hb).1 hne
    | escape | unicode | surrogates => exact absurd (List.cons.inj hb).1 (by decide)

/-- The length of a piece against its quotes and backslashes. -/
theorem Piece.length_add_count (h : Piece u c) : 2 + u.count '"' + u.count '\\' ≤ 2 * u.length := by
  cases h with
  | char _ h1 h2 =>
    rw [List.count_singleton, List.count_singleton, if_neg, if_neg] <;> simp [h1, h2]
  | @escape e _ he =>
    have hone : ([e] : List Char).count '"' + [e].count '\\' ≤ 1 := by
      rw [List.count_singleton, List.count_singleton]
      by_cases hq : e = '"'
      · rw [hq]; decide
      · rw [if_neg (by simpa using hq)]
        split <;> omega
    have hq : List.count '"' ['\\', e] = [e].count '"' := List.count_cons_of_ne (by decide)
    have hb : List.count '\\' ['\\', e] = [e].count '\\' + 1 := List.count_cons_self
    rw [hq, hb]
    show _ ≤ 2 * 2
    omega
  | @unicode hs hunit _ =>
    have hq : hs.count '"' = 0 := List.count_eq_zero.2 hunit.plain.1
    have hb : hs.count '\\' = 0 := List.count_eq_zero.2 hunit.plain.2
    have hl := hunit.1
    simp [hq, hb, hl]
  | @surrogates hs ls hunit hunit' =>
    have hq : hs.count '"' = 0 := List.count_eq_zero.2 hunit.plain.1
    have hb : hs.count '\\' = 0 := List.count_eq_zero.2 hunit.plain.2
    have hq' : ls.count '"' = 0 := List.count_eq_zero.2 hunit'.plain.1
    have hb' : ls.count '\\' = 0 := List.count_eq_zero.2 hunit'.plain.2
    have hl := hunit.1
    have hl' := hunit'.1
    simp [List.count_append, hq, hb, hq', hb', hl, hl']

/-- The contents of a string are as long as the string and its quotes, and longer for every other
backslash. -/
theorem Decodes.length_add_count (h : Decodes b t) :
    2 * t.length + b.count '"' + b.count '\\' ≤ 2 * b.length := by
  induction h with
  | nil => exact Nat.le_refl _
  | cons hu _ ih =>
    have := hu.length_add_count
    rw [List.count_append, List.count_append, List.length_append, List.length_cons]
    omega

theorem Decodes.append (h : Decodes b t) {b' t' : List Char} (h' : Decodes b' t') :
    Decodes (b ++ b') (t ++ t') := by
  induction h with
  | nil => exact h'
  | cons hu _ ih =>
    rw [List.append_assoc]
    exact .cons hu ih

/-! ## White space -/

theorem Ws.append (hw : Ws w) (hw' : Ws w') : Ws (w ++ w') := fun c hc =>
  (List.mem_append.1 hc).elim (hw c) (hw' c)

theorem Ws.notMem (hw : Ws w) (hc : isWs c = false) : c ∉ w := fun hm => by
  have := hw c hm
  rw [hc] at this
  cases this

/-- White space before a character that is none can be told from it. -/
theorem ws_cancel {d : Char} (hw : Ws w) (hw' : Ws w') (hc : isWs c = false) (hd : isWs d = false)
    (h : w ++ c :: x = w' ++ d :: y) : w = w' ∧ c = d ∧ x = y := by
  induction w generalizing w' with
  | nil =>
    cases w' with
    | nil => exact ⟨rfl, List.cons.inj h⟩
    | cons a w' =>
      have ha := (List.forall_mem_cons.1 hw').1
      rw [← (List.cons.inj h).1, hc] at ha
      cases ha
  | cons a w ih =>
    obtain ⟨ha, hw⟩ := List.forall_mem_cons.1 hw
    cases w' with
    | nil =>
      rw [(List.cons.inj h).1, hd] at ha
      cases ha
    | cons a' w' =>
      obtain ⟨rfl, htail⟩ := List.cons.inj h
      obtain ⟨rfl, hrest⟩ := ih hw (List.forall_mem_cons.1 hw').2 htail
      exact ⟨rfl, hrest⟩

/-- The same at the end of a text. -/
theorem ws_cancel_end (hw : Ws w) (hc : isWs c = false) (h : x ++ [c] = y ++ c :: w) :
    x = y ∧ w = [] := by
  rcases List.eq_nil_or_concat w with rfl | ⟨w', d, rfl⟩
  · exact ⟨List.append_cancel_right h, rfl⟩
  · rw [List.concat_eq_append] at h hw
    have h' : x ++ [c] = (y ++ c :: w') ++ [d] := by
      rw [h, List.append_assoc]
      rfl
    have hd := (List.append_inj' h' rfl).2
    rw [← (List.cons.inj hd).1] at hw
    exact absurd (List.mem_append_right w' List.mem_cons_self) (hw.notMem hc)

/-- Every element begins with a quote. -/
theorem Elements.eq_quote (h : Elements x ts) :
    ∃ w b t y, Ws w ∧ Decodes b t ∧ x = w ++ '"' :: (b ++ '"' :: y) := by
  cases h with
  | last hw hb _ => exact ⟨_, _, _, _, hw, hb, rfl⟩
  | more hw hb _ _ => exact ⟨_, _, _, _, hw, hb, rfl⟩

/-- The text with `pad` after every newline. -/
def padded (pad x : List Char) : List Char := x.flatMap fun c => if c = '\n' then c :: pad else [c]

section Padded

variable {pad : List Char}

theorem padded_append (pad x y : List Char) : padded pad (x ++ y) = padded pad x ++ padded pad y :=
  List.flatMap_append

theorem padded_cons (hc : c ≠ '\n') (pad x : List Char) :
    padded pad (c :: x) = c :: padded pad x := by
  unfold padded
  rw [List.flatMap_cons, if_neg hc]
  rfl

theorem padded_of_notMem (h : '\n' ∉ x) (pad : List Char) : padded pad x = x := by
  induction x with
  | nil => rfl
  | cons c x ih =>
    obtain ⟨hc, hx⟩ := List.ne_and_not_mem_of_not_mem_cons h
    rw [padded_cons (Ne.symm hc), ih hx]

theorem Ws.padded (hpad : Ws pad) (hw : Ws w) : Ws (padded pad w) := by
  induction w with
  | nil => exact .nil
  | cons c w ih =>
    obtain ⟨hc, hw⟩ := List.forall_mem_cons.1 hw
    unfold Json.padded
    rw [List.flatMap_cons]
    apply Ws.append _ (ih hw)
    split
    · exact .cons hc hpad
    · exact .cons hc .nil

/-- No newline lies inside a string, so the elements stay what they are. -/
theorem Elements.padded (hpad : Ws pad) (h : Elements x ts) : Elements (padded pad x) ts := by
  induction h with
  | last hw hb hw' =>
    rw [padded_append, padded_cons (by decide), padded_append, padded_cons (by decide),
      padded_of_notMem hb.newline_notMem]
    exact .last (hpad.padded hw) hb (hpad.padded hw')
  | more hw hb hw' _ ih =>
    rw [padded_append, padded_cons (by decide), padded_append, padded_cons (by decide),
      padded_append, padded_cons (by decide), padded_of_notMem hb.newline_notMem]
    exact .more (hpad.padded hw) hb (hpad.padded hw') ih

end Padded

end Json
