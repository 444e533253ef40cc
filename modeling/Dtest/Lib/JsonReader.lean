import Dtest.Lib.Json
import Mathlib.Tactic.SplitIfs

/-!
# Reading JSON one character at a time

`Json.step` is a machine with a stack of open brackets that reads a text from left to right, so that
a text put together from pieces is read piece by piece (`run_append`).  The machine accepts the
texts of the grammar and no others (`accepts_iff`).
-/

namespace Json

/-- Where the machine stands; `key` says that a string is the key of a member, and `hex n` waits for
`n + 1` more hexadecimal digits. -/
inductive Mode
  | value
  | opened (b : Bracket)
  | key
  | colon
  | str (key : Bool)
  | esc (key : Bool)
  | hex (key : Bool) (n : ℕ)
  | lit (rest : List Char)
  | minus
  | zero
  | int
  | point
  | frac
  | exp
  | expSign
  | expDigits
  | after
  deriving DecidableEq, Repr

/-- A mode with the open brackets, the innermost first. -/
abbrev State := Mode × List Bracket

/-- After a value. -/
def stepAfter : List Bracket → Char → Option State
  | [], c => if isWs c then some (.after, []) else none
  | b :: st, c =>
    if isWs c then some (.after, b :: st)
    else if c = b.right then some (.after, st)
    else if c = ',' then
      match b with
      | .array => some (.value, .array :: st)
      | .object => some (.key, st)
    else none

/-- The first characters of values, the digits from 1 to 9 apart. -/
def starts : List (Char × Mode) :=
  [('"', .str false), ('[', .opened .array), ('{', .opened .object), ('t', .lit ['r', 'u', 'e']),
    ('f', .lit ['a', 'l', 's', 'e']), ('n', .lit ['u', 'l', 'l']), ('-', .minus), ('0', .zero)]

/-- The first character of a value. -/
def stepValue (st : List Bracket) (c : Char) : Option State :=
  match starts.lookup c with
  | some m => some (m, st)
  | none => if c.isDigit then some (.int, st) else none

/-- What may follow the integral part of a number. -/
def stepExponent (st : List Bracket) (c : Char) : Option State :=
  if c = 'e' ∨ c = 'E' then some (.exp, st) else stepAfter st c

/-- What may follow the last digit of the integral part. -/
def stepFraction (st : List Bracket) (c : Char) : Option State :=
  if c = '.' then some (.point, st) else stepExponent st c

/-- After an opening bracket. -/
def stepOpened (b : Bracket) (st : List Bracket) (c : Char) : Option State :=
  if isWs c then some (.opened b, st)
  else if c = b.right then some (.after, st)
  else
    match b with
    | .array => stepValue (.array :: st) c
    | .object => if c = '"' then some (.str true, st) else none

/-- Before the key of a member. -/
def stepKey (st : List Bracket) (c : Char) : Option State :=
  if isWs c then some (.key, st) else if c = '"' then some (.str true, st) else none

/-- After the key of a member. -/
def stepColon (st : List Bracket) (c : Char) : Option State :=
  if isWs c then some (.colon, st) else if c = ':' then some (.value, .object :: st) else none

/-- In a string. -/
def stepStr (k : Bool) (st : List Bracket) (c : Char) : Option State :=
  if c = '"' then some (if k then .colon else .after, st)
  else if c = '\\' then some (.esc k, st)
  else if 0x20 ≤ c.toNat then some (.str k, st)
  else none

/-- After a backslash. -/
def stepEsc (k : Bool) (st : List Bracket) (c : Char) : Option State :=
  if c = 'u' then some (.hex k 3, st) else if isEscape c then some (.str k, st) else none

/-- In an escape by number. -/
def stepHex (k : Bool) (n : ℕ) (st : List Bracket) (c : Char) : Option State :=
  if c.isHexDigit then
    match n with
    | 0 => some (.str k, st)
    | n + 1 => some (.hex k n, st)
  else none

/-- In a literal, which is made of letters. -/
def stepLit : List Char → List Bracket → Char → Option State
  | [], _, _ => none
  | d :: s, st, c =>
    if c = d ∧ c.isLower then some (if s = [] then .after else .lit s, st) else none

/-- After the sign of a number. -/
def stepMinus (st : List Bracket) (c : Char) : Option State :=
  if c = '0' then some (.zero, st) else if c.isDigit then some (.int, st) else none

/-- Where another digit is needed. -/
def stepDigit (next : Mode) (st : List Bracket) (c : Char) : Option State :=
  if c.isDigit then some (next, st) else none

/-- Where another digit may follow. -/
def stepDigits (m : Mode) (other : List Bracket → Char → Option State) (st : List Bracket)
    (c : Char) : Option State :=
  if c.isDigit then some (m, st) else other st c

/-- After the letter of an exponent. -/
def stepExp (st : List Bracket) (c : Char) : Option State :=
  if c = '+' ∨ c = '-' then some (.expSign, st) else stepDigit .expDigits st c

/-- One character. -/
def step : State → Char → Option State
  | (.value, st), c => if isWs c then some (.value, st) else stepValue st c
  | (.opened b, st), c => stepOpened b st c
  | (.key, st), c => stepKey st c
  | (.colon, st), c => stepColon st c
  | (.str k, st), c => stepStr k st c
  | (.esc k, st), c => stepEsc k st c
  | (.hex k n, st), c => stepHex k n st c
  | (.lit s, st), c => stepLit s st c
  | (.minus, st), c => stepMinus st c
  | (.zero, st), c => stepFraction st c
  | (.int, st), c => stepDigits .int stepFraction st c
  | (.point, st), c => stepDigit .frac st c
  | (.frac, st), c => stepDigits .frac stepExponent st c
  | (.exp, st), c => stepExp st c
  | (.expSign, st), c => stepDigit .expDigits st c
  | (.expDigits, st), c => stepDigits .expDigits stepAfter st c
  | (.after, st), c => stepAfter st c

/-- A text. -/
def run : State → List Char → Option State
  | q, [] => some q
  | q, c :: s => (step q c).bind (run · s)

/-- A value may end in this mode. -/
def Mode.ends : Mode → Bool
  | zero | int | frac | expDigits | after => true
  | _ => false

/-- The machine reads the whole text as one value. -/
def accepts (s : List Char) : Bool :=
  match run (.value, []) s with
  | some (m, []) => m.ends
  | _ => false

@[simp] theorem run_nil (q : State) : run q [] = some q := rfl

theorem run_cons (q : State) (c : Char) (s : List Char) :
    run q (c :: s) = (step q c).bind (run · s) := rfl

theorem run_append (q : State) (s t : List Char) :
    run q (s ++ t) = (run q s).bind (run · t) := by
  induction s generalizing q with
  | nil => rfl
  | cons c s ih =>
    simp only [List.cons_append, run_cons, Option.bind_assoc]
    exact congrArg _ (funext fun q' => ih q')

/-! ## What is accepted is well formed -/

/-- What follows a value inside the open brackets. -/
def Tail : List Bracket → List Char → Prop
  | [], s => Ws s
  | b :: st, s => ∃ w r, Ws w ∧ ((s = w ++ b.right :: r ∧ Tail st r) ∨
      ∃ l, s = w ++ ',' :: (l ++ b.right :: r) ∧ Derives (.items b) l ∧ Tail st r)

/-- Items and the bracket that closes them. -/
def InItems (b : Bracket) (st : List Bracket) (s : List Char) : Prop :=
  ∃ l r, Derives (.items b) l ∧ Tail st r ∧ s = l ++ b.right :: r

/-- A value and what follows it. -/
def InValue (st : List Bracket) (s : List Char) : Prop :=
  ∃ w v r, Ws w ∧ Derives .value v ∧ Tail st r ∧ s = w ++ (v ++ r)

/-- What follows a string. -/
def AfterStr (st : List Bracket) (s : List Char) : Bool → Prop
  | true => ∃ w r, Ws w ∧ InValue (.object :: st) r ∧ s = w ++ ':' :: r
  | false => Tail st s

/-- What completes a number. -/
def CompletesNumber : Mode → List Char → Prop
  | .minus, s => Unsigned s
  | .zero, s => ∃ f e, Fraction f ∧ Exponent e ∧ s = f ++ e
  | .int, s => ∃ ds f e, Digits ds ∧ Fraction f ∧ Exponent e ∧ s = ds ++ (f ++ e)
  | .point, s => ∃ f e, Fraction ('.' :: f) ∧ Exponent e ∧ s = f ++ e
  | .frac, s => ∃ ds e, Digits ds ∧ Exponent e ∧ s = ds ++ e
  | .exp, s => Exponent ('e' :: s)
  | .expSign, s => ∃ c ds, c.isDigit = true ∧ Digits ds ∧ s = c :: ds
  | .expDigits, s => Digits s
  | _, _ => False

/-- The texts that are still to be read. -/
def Rest : State → List Char → Prop
  | (.value, st), s => InValue st s
  | (.opened b, st), s => (∃ w r, Ws w ∧ Tail st r ∧ s = w ++ b.right :: r) ∨ InItems b st s
  | (.key, st), s => InItems .object st s
  | (.colon, st), s => AfterStr st s true
  | (.str k, st), s => ∃ b r, Chars b ∧ AfterStr st r k ∧ s = b ++ '"' :: r
  | (.esc k, st), s => ∃ b r, Chars ('\\' :: b) ∧ AfterStr st r k ∧ s = b ++ '"' :: r
  | (.hex k n, st), s => ∃ hs b r, hs.length = n + 1 ∧ (∀ h ∈ hs, h.isHexDigit) ∧ Chars b ∧
      AfterStr st r k ∧ s = hs ++ (b ++ '"' :: r)
  | (.lit l, st), s => ∃ r, Tail st r ∧ s = l ++ r
  | (.after, st), s => Tail st s
  | (m, st), s => ∃ n r, CompletesNumber m n ∧ Tail st r ∧ s = n ++ r

variable {st : List Bracket} {c : Char} {s : List Char} {q : State}

theorem Tail.ws (hc : isWs c) (h : Tail st s) : Tail st (c :: s) := by
  cases st with
  | nil => exact Ws.cons hc h
  | cons b st =>
    obtain ⟨w, r, hw, h⟩ := h
    refine ⟨c :: w, r, hw.cons hc, ?_⟩
    rcases h with ⟨rfl, hr⟩ | ⟨l, rfl, hl, hr⟩
    · exact .inl ⟨rfl, hr⟩
    · exact .inr ⟨l, rfl, hl, hr⟩

theorem InValue.ws (hc : isWs c) (h : InValue st s) : InValue st (c :: s) := by
  obtain ⟨w, v, r, hw, hv, hr, rfl⟩ := h
  exact ⟨c :: w, v, r, hw.cons hc, hv, hr, rfl⟩

/-- The first character of an item may be preceded by white space. -/
theorem Derives.ws_item {b : Bracket} (hc : isWs c) (h : Derives (.item b) s) :
    Derives (.item b) (c :: s) := by
  cases h with
  | element hw hv hw' => exact .element (hw.cons hc) hv hw'
  | member hw hk hw' he => exact .member (hw.cons hc) hk hw' he

theorem Derives.ws_items {b : Bracket} (hc : isWs c) (h : Derives (.items b) s) :
    Derives (.items b) (c :: s) := by
  cases h with
  | last h => exact .last (h.ws_item hc)
  | more h h' => exact .more (h.ws_item hc) h'

theorem InItems.ws {b : Bracket} (hc : isWs c) (h : InItems b st s) : InItems b st (c :: s) := by
  obtain ⟨l, r, hl, hr, rfl⟩ := h
  exact ⟨c :: l, r, hl.ws_items hc, hr, rfl⟩

/-- The first value of an item and what follows it are items, where `x` is the part of the item
before the value. -/
theorem InValue.inItems {b : Bracket} {x : List Char} (h : InValue (b :: st) s)
    (hitem : ∀ e, Derives (.item .array) e → Derives (.item b) (x ++ e)) :
    InItems b st (x ++ s) := by
  obtain ⟨w, v, r, hw, hv, ⟨w', r', hw', hr⟩, rfl⟩ := h
  have he := hitem _ (.element hw hv hw')
  rcases hr with ⟨rfl, hr⟩ | ⟨l, rfl, hl, hr⟩
  · exact ⟨_, r', .last he, hr, by simp only [List.append_assoc]⟩
  · exact ⟨_, r', .more he hl, hr, by simp only [List.append_assoc, List.cons_append]⟩

theorem InValue.elements (h : InValue (.array :: st) s) : InItems .array st s :=
  h.inItems (x := []) fun _ he => he

/-- A key and what follows it. -/
theorem inItems_key {k : List Char} (hk : Chars k) (h : AfterStr st s true) :
    InItems .object st ('"' :: (k ++ '"' :: s)) := by
  obtain ⟨w, r, hw, hr, rfl⟩ := h
  have h := hr.inItems (x := '"' :: (k ++ '"' :: (w ++ [':']))) fun e he => by
    have hmember := Derives.member Ws.nil hk hw he
    simpa only [List.cons_append, List.nil_append, List.append_assoc] using hmember
  simpa only [List.cons_append, List.nil_append, List.append_assoc] using h

/-- The white space or the items after an opening bracket. -/
theorem bracketed_of_opened {b : Bracket} (h : Rest (.opened b, st) s) :
    ∃ v r, Derives (.bracketed b) v ∧ Tail st r ∧ b.left :: s = v ++ r := by
  rcases h with ⟨w, r, hw, hr, rfl⟩ | ⟨l, r, hl, hr, rfl⟩
  · exact ⟨_, r, .empty hw, hr, by simp only [List.cons_append, List.append_assoc, List.nil_append]⟩
  · exact ⟨_, r, .items hl, hr, by simp only [List.cons_append, List.append_assoc, List.nil_append]⟩

theorem InValue.of_derives {v r : List Char} (hv : Derives .value v) (hr : Tail st r) :
    InValue st (v ++ r) :=
  ⟨[], v, r, Ws.nil, hv, hr, rfl⟩

theorem InValue.of_opened {b : Bracket} (h : Rest (.opened b, st) s) :
    InValue st (b.left :: s) := by
  obtain ⟨v, r, hv, hr, he⟩ := bracketed_of_opened h
  rw [he]
  exact .of_derives (.bracketed hv) hr

theorem tail_of_stepAfter (hq : stepAfter st c = some q) (h : Rest q s) : Tail st (c :: s) := by
  cases st with
  | nil =>
    simp only [stepAfter, Option.ite_none_right_eq_some, Option.some.injEq] at hq
    obtain ⟨hc, rfl⟩ := hq
    exact Tail.ws hc h
  | cons b st =>
    simp only [stepAfter] at hq
    split_ifs at hq with hc hright hcomma
    · obtain rfl := Option.some.inj hq
      exact Tail.ws hc h
    · obtain rfl := Option.some.inj hq
      exact ⟨[], s, Ws.nil, .inl ⟨by rw [hright]; rfl, h⟩⟩
    · subst hcomma
      have hitems : InItems b st s := by
        cases b with
        | array =>
          obtain rfl := Option.some.inj hq
          exact InValue.elements h
        | object =>
          obtain rfl := Option.some.inj hq
          exact h
      obtain ⟨l, r, hl, hr, rfl⟩ := hitems
      exact ⟨[], r, Ws.nil, .inr ⟨l, rfl, hl, hr⟩⟩

/-- What follows the integral part of a number, together with what follows the number. -/
theorem exponent_of_step (hq : stepExponent st c = some q) (h : Rest q s) :
    ∃ e r, Exponent e ∧ Tail st r ∧ c :: s = e ++ r := by
  unfold stepExponent at hq
  split_ifs at hq with hc
  · obtain rfl := Option.some.inj hq
    obtain ⟨n, r, hn, hr, rfl⟩ := h
    refine ⟨c :: n, r, ?_, hr, rfl⟩
    cases hn with
    | some _ hsign hd hds => exact .some hc hsign hd hds
  · exact ⟨[], c :: s, .none, tail_of_stepAfter hq h, rfl⟩

theorem fraction_of_step (hq : stepFraction st c = some q) (h : Rest q s) :
    ∃ f e r, Fraction f ∧ Exponent e ∧ Tail st r ∧ c :: s = f ++ (e ++ r) := by
  unfold stepFraction at hq
  split_ifs at hq with hc
  · obtain rfl := Option.some.inj hq
    obtain ⟨n, r, ⟨f, e, hf, he, rfl⟩, hr, rfl⟩ := h
    exact ⟨'.' :: f, e, r, hf, he, hr, by rw [hc, List.append_assoc]; rfl⟩
  · obtain ⟨e, r, he, hr, heq⟩ := exponent_of_step hq h
    exact ⟨[], e, r, .none, he, hr, heq⟩

/-- The first character of a number without sign. -/
theorem unsigned_of_zero (h : Rest (.zero, st) s) :
    ∃ u r, Unsigned u ∧ Tail st r ∧ '0' :: s = u ++ r := by
  obtain ⟨n, r, ⟨f, e, hf, he, rfl⟩, hr, rfl⟩ := h
  exact ⟨_, r, ⟨['0'], f, e, .zero, hf, he, rfl⟩, hr, rfl⟩

theorem unsigned_of_int (hc : c.isDigit) (hc' : c ≠ '0') (h : Rest (.int, st) s) :
    ∃ u r, Unsigned u ∧ Tail st r ∧ c :: s = u ++ r := by
  obtain ⟨n, r, ⟨ds, f, e, hds, hf, he, rfl⟩, hr, rfl⟩ := h
  exact ⟨_, r, ⟨c :: ds, f, e, .pos hc hc' hds, hf, he, rfl⟩, hr, rfl⟩

theorem InValue.of_literal {l : List Char} (hl : c :: l ∈ literals) (h : Rest (.lit l, st) s) :
    InValue st (c :: s) := by
  obtain ⟨r, hr, rfl⟩ := h
  exact .of_derives (.literal hl) hr

theorem inValue_of_starts {m : Mode} (hm : (c, m) ∈ starts) (h : Rest (m, st) s) :
    InValue st (c :: s) := by
  simp only [starts, List.mem_cons, List.not_mem_nil, or_false, Prod.mk.injEq] at hm
  rcases hm with ⟨rfl, rfl⟩ | ⟨rfl, rfl⟩ | ⟨rfl, rfl⟩ | ⟨rfl, rfl⟩ | ⟨rfl, rfl⟩ | ⟨rfl, rfl⟩ |
    ⟨rfl, rfl⟩ | ⟨rfl, rfl⟩
  · obtain ⟨b, r, hb, hr, rfl⟩ := h
    simpa only [List.cons_append, List.append_assoc, List.nil_append] using
      InValue.of_derives (.string hb) hr
  · exact .of_opened h
  · exact .of_opened h
  · exact .of_literal (by decide) h
  · exact .of_literal (by decide) h
  · exact .of_literal (by decide) h
  · obtain ⟨n, r, hu, hr, rfl⟩ := h
    exact .of_derives (.number (.inr ⟨n, hu, rfl⟩)) hr
  · obtain ⟨u, r, hu, hr, heq⟩ := unsigned_of_zero h
    rw [heq]
    exact .of_derives (.number (.inl hu)) hr

theorem inValue_of_stepValue (hq : stepValue st c = some q) (h : Rest q s) :
    InValue st (c :: s) := by
  unfold stepValue at hq
  split at hq
  · rename_i m hm
    obtain rfl := Option.some.inj hq
    obtain ⟨l, l', hstarts, -⟩ := List.lookup_eq_some_iff.1 hm
    exact inValue_of_starts (hstarts ▸ List.mem_append_right l List.mem_cons_self) h
  · rename_i hnone
    split_ifs at hq with hdigit
    obtain rfl := Option.some.inj hq
    have hzero : c ≠ '0' := by
      rintro rfl
      exact absurd hnone (by decide)
    obtain ⟨u, r, hu, hr, heq⟩ := unsigned_of_int hdigit hzero h
    rw [heq]
    exact .of_derives (.number (.inl hu)) hr

/-- A character of a string. -/
theorem rest_of_stepStr {k : Bool} (hq : stepStr k st c = some q) (h : Rest q s) :
    Rest (.str k, st) (c :: s) := by
  unfold stepStr at hq
  split_ifs at hq with hquote hk hesc hchar <;> obtain rfl := Option.some.inj hq
  · exact ⟨[], s, .nil, by rw [hk]; exact h, by rw [hquote]; rfl⟩
  · rw [Bool.not_eq_true] at hk
    exact ⟨[], s, .nil, by rw [hk]; exact h, by rw [hquote]; rfl⟩
  · obtain ⟨b, r, hb, hr, rfl⟩ := h
    exact ⟨_, r, hb, hr, by rw [hesc]; rfl⟩
  · obtain ⟨b, r, hb, hr, rfl⟩ := h
    exact ⟨c :: b, r, .char hchar hquote hesc hb, hr, rfl⟩

/-- A character of an escape. -/
theorem rest_of_stepEsc {k : Bool} (hq : stepEsc k st c = some q) (h : Rest q s) :
    Rest (.esc k, st) (c :: s) := by
  unfold stepEsc at hq
  split_ifs at hq with hu hesc <;> obtain rfl := Option.some.inj hq
  · obtain ⟨hs, b, r, hlen, hhex, hb, hr, rfl⟩ := h
    exact ⟨c :: (hs ++ b), r, by rw [hu]; exact .unicode hlen hhex hb, hr,
      by rw [List.cons_append, List.append_assoc]⟩
  · obtain ⟨b, r, hb, hr, rfl⟩ := h
    exact ⟨c :: b, r, .escape hesc hb, hr, rfl⟩

theorem rest_of_stepHex {k : Bool} {n : ℕ} (hq : stepHex k n st c = some q) (h : Rest q s) :
    Rest (.hex k n, st) (c :: s) := by
  unfold stepHex at hq
  split_ifs at hq with hc
  cases n with
  | zero =>
    obtain rfl := Option.some.inj hq
    obtain ⟨b, r, hb, hr, rfl⟩ := h
    exact ⟨[c], b, r, rfl, by simpa using hc, hb, hr, rfl⟩
  | succ n =>
    obtain rfl := Option.some.inj hq
    obtain ⟨hs, b, r, hlen, hhex, hb, hr, rfl⟩ := h
    exact ⟨c :: hs, b, r, by simp [hlen], List.forall_mem_cons.2 ⟨hc, hhex⟩, hb, hr, rfl⟩

theorem rest_opened_ws {b : Bracket} (hc : isWs c) (h : Rest (.opened b, st) s) :
    Rest (.opened b, st) (c :: s) := by
  rcases h with ⟨w, r, hw, hr, rfl⟩ | hitems
  · exact .inl ⟨c :: w, r, hw.cons hc, hr, rfl⟩
  · exact .inr (hitems.ws hc)

theorem rest_opened_right {b : Bracket} (hc : c = b.right) (h : Tail st s) :
    Rest (.opened b, st) (c :: s) :=
  .inl ⟨[], s, Ws.nil, h, by rw [hc]; rfl⟩

/-- After a bracket has been opened. -/
theorem rest_of_stepOpened {b : Bracket} (hq : stepOpened b st c = some q) (h : Rest q s) :
    Rest (.opened b, st) (c :: s) := by
  cases b with
  | array =>
    unfold stepOpened at hq
    dsimp only at hq
    split_ifs at hq with hc hright
    · obtain rfl := Option.some.inj hq
      exact rest_opened_ws hc h
    · obtain rfl := Option.some.inj hq
      exact rest_opened_right hright h
    · exact .inr (inValue_of_stepValue hq h).elements
  | object =>
    unfold stepOpened at hq
    dsimp only at hq
    split_ifs at hq with hc hright hquote <;> obtain rfl := Option.some.inj hq
    · exact rest_opened_ws hc h
    · exact rest_opened_right hright h
    · obtain ⟨k, r, hk, hr, rfl⟩ := h
      rw [hquote]
      exact .inr (inItems_key hk hr)

theorem rest_of_stepKey (hq : stepKey st c = some q) (h : Rest q s) : Rest (.key, st) (c :: s) := by
  unfold stepKey at hq
  split_ifs at hq with hc hquote <;> obtain rfl := Option.some.inj hq
  · exact InItems.ws hc h
  · obtain ⟨k, r, hk, hr, rfl⟩ := h
    rw [hquote]
    exact inItems_key hk hr

theorem rest_of_stepColon (hq : stepColon st c = some q) (h : Rest q s) :
    Rest (.colon, st) (c :: s) := by
  unfold stepColon at hq
  split_ifs at hq with hc hcolon <;> obtain rfl := Option.some.inj hq
  · obtain ⟨w, r, hw, hr, rfl⟩ := h
    exact ⟨c :: w, r, hw.cons hc, hr, rfl⟩
  · exact ⟨[], s, Ws.nil, h, by rw [hcolon]; rfl⟩

/-- The first digit of a number. -/
theorem unsigned_of_stepMinus (hq : stepMinus st c = some q) (h : Rest q s) :
    ∃ u r, Unsigned u ∧ Tail st r ∧ c :: s = u ++ r := by
  unfold stepMinus at hq
  split_ifs at hq with hzero hc <;> obtain rfl := Option.some.inj hq
  · rw [hzero]
    exact unsigned_of_zero h
  · exact unsigned_of_int hc hzero h

theorem rest_of_stepLit {l : List Char} (hq : stepLit l st c = some q) (h : Rest q s) :
    Rest (.lit l, st) (c :: s) := by
  cases l with
  | nil => exact absurd hq nofun
  | cons d l =>
    unfold stepLit at hq
    dsimp only at hq
    split_ifs at hq with hc hl <;> obtain rfl := Option.some.inj hq
    · exact ⟨s, h, by rw [hc.1, hl]; rfl⟩
    · obtain ⟨r, hr, rfl⟩ := h
      exact ⟨r, hr, by rw [hc.1]; rfl⟩

/-- A digit that is needed. -/
theorem rest_of_stepDigit {next : Mode} (hq : stepDigit next st c = some q) (h : Rest q s) :
    c.isDigit = true ∧ Rest (next, st) s := by
  unfold stepDigit at hq
  split_ifs at hq with hc
  obtain rfl := Option.some.inj hq
  exact ⟨hc, h⟩

/-- A digit or what follows the digits. -/
theorem rest_of_stepDigits {m : Mode} {other : List Bracket → Char → Option State}
    (hq : stepDigits m other st c = some q) (h : Rest q s) :
    c.isDigit = true ∧ Rest (m, st) s ∨ other st c = some q := by
  unfold stepDigits at hq
  split_ifs at hq with hc
  · obtain rfl := Option.some.inj hq
    exact .inl ⟨hc, h⟩
  · exact .inr hq

theorem rest_of_stepExp (hq : stepExp st c = some q) (h : Rest q s) : Rest (.exp, st) (c :: s) := by
  unfold stepExp at hq
  split_ifs at hq with hsign
  · obtain rfl := Option.some.inj hq
    obtain ⟨n, r, ⟨d, ds, hd, hds, rfl⟩, hr, rfl⟩ := h
    have hs : Sign [c] := by
      rcases hsign with rfl | rfl
      · exact .inr (.inl rfl)
      · exact .inr (.inr rfl)
    have he : Exponent ('e' :: ([c] ++ d :: ds)) := .some (.inl rfl) hs hd hds
    exact ⟨c :: d :: ds, r, he, hr, rfl⟩
  · obtain ⟨hc, ds, r, hds, hr, rfl⟩ := rest_of_stepDigit hq h
    have he : Exponent ('e' :: ([] ++ c :: ds)) := .some (.inl rfl) (.inl rfl) hc hds
    exact ⟨c :: ds, r, he, hr, rfl⟩

/-- One character: what is left before it is the character and what is left after it. -/
theorem rest_step {q' : State} (hq : step q c = some q') (h : Rest q' s) : Rest q (c :: s) := by
  obtain ⟨m, st⟩ := q
  cases m with
  | value =>
    have hq : (if isWs c then some (.value, st) else stepValue st c) = some q' := hq
    split_ifs at hq with hc
    · obtain rfl := Option.some.inj hq
      exact InValue.ws hc h
    · exact inValue_of_stepValue hq h
  | opened b => exact rest_of_stepOpened hq h
  | key => exact rest_of_stepKey hq h
  | colon => exact rest_of_stepColon hq h
  | str k => exact rest_of_stepStr hq h
  | esc k => exact rest_of_stepEsc hq h
  | hex k n => exact rest_of_stepHex hq h
  | lit l => exact rest_of_stepLit hq h
  | minus => exact unsigned_of_stepMinus hq h
  | zero =>
    obtain ⟨f, e, r, hf, he, hr, heq⟩ := fraction_of_step hq h
    exact ⟨_, r, ⟨f, e, hf, he, rfl⟩, hr, by rw [heq, List.append_assoc]⟩
  | int =>
    rcases rest_of_stepDigits hq h with ⟨hc, n, r, ⟨ds, f, e, hds, hf, he, rfl⟩, hr, rfl⟩ | hq
    · exact ⟨_, r, ⟨c :: ds, f, e, hds.cons hc, hf, he, rfl⟩, hr, rfl⟩
    · obtain ⟨f, e, r, hf, he, hr, heq⟩ := fraction_of_step hq h
      exact ⟨_, r, ⟨[], f, e, Digits.nil, hf, he, rfl⟩, hr, by
      rw [heq, List.nil_append, List.append_assoc]⟩
  | point =>
    obtain ⟨hc, n, r, ⟨ds, e, hds, he, rfl⟩, hr, rfl⟩ := rest_of_stepDigit hq h
    exact ⟨_, r, ⟨c :: ds, e, .some hc hds, he, rfl⟩, hr, rfl⟩
  | frac =>
    rcases rest_of_stepDigits hq h with ⟨hc, n, r, ⟨ds, e, hds, he, rfl⟩, hr, rfl⟩ | hq
    · exact ⟨_, r, ⟨c :: ds, e, hds.cons hc, he, rfl⟩, hr, rfl⟩
    · obtain ⟨e, r, he, hr, heq⟩ := exponent_of_step hq h
      exact ⟨e, r, ⟨[], e, Digits.nil, he, rfl⟩, hr, heq⟩
  | exp => exact rest_of_stepExp hq h
  | expSign =>
    obtain ⟨hc, ds, r, hds, hr, rfl⟩ := rest_of_stepDigit hq h
    exact ⟨c :: ds, r, ⟨c, ds, hc, hds, rfl⟩, hr, rfl⟩
  | expDigits =>
    rcases rest_of_stepDigits hq h with ⟨hc, ds, r, hds, hr, rfl⟩ | hq
    · exact ⟨c :: ds, r, hds.cons hc, hr, rfl⟩
    · exact ⟨[], _, Digits.nil, tail_of_stepAfter hq h, rfl⟩
  | after => exact tail_of_stepAfter hq h

/-- A text: what is left before it is the text and what is left after it. -/
theorem rest_run {q q' : State} {l : List Char} (hq : run q l = some q') (h : Rest q' s) :
    Rest q (l ++ s) := by
  induction l generalizing q with
  | nil =>
    obtain rfl := Option.some.inj hq
    exact h
  | cons c l ih =>
    obtain ⟨q₁, hstep, hrun⟩ := Option.bind_eq_some_iff.1 hq
    exact rest_step hstep (ih hrun)

/-- Nothing is left to be read where a value may end. -/
theorem rest_ends {m : Mode} (h : m.ends) : Rest (m, []) [] := by
  cases m with
  | zero => exact ⟨[], [], ⟨[], [], .none, .none, rfl⟩, Ws.nil, rfl⟩
  | int => exact ⟨[], [], ⟨[], [], [], Digits.nil, .none, .none, rfl⟩, Ws.nil, rfl⟩
  | frac => exact ⟨[], [], ⟨[], [], Digits.nil, .none, rfl⟩, Ws.nil, rfl⟩
  | expDigits => exact ⟨[], [], Digits.nil, Ws.nil, rfl⟩
  | after => exact Ws.nil
  | _ => exact absurd h Bool.false_ne_true

theorem isText_of_accepts (h : accepts s) : IsText s := by
  unfold accepts at h
  split at h
  · rename_i m hrun
    obtain ⟨w, v, r, hw, hv, hr, heq⟩ := rest_run hrun (rest_ends h)
    rw [List.append_nil] at heq
    exact ⟨w, v, r, hw, hv, hr, heq⟩
  · exact absurd h (by decide)

/-- A text read from after an opening brace to the end is an object without that brace. -/
theorem isObject_of_run (h : run (.opened .object, []) s = some (.after, [])) :
    IsObject ('{' :: s) := by
  obtain ⟨v, r, hv, hr, heq⟩ := bracketed_of_opened (rest_run h (rest_ends (m := .after) rfl))
  rw [List.append_nil] at heq
  exact ⟨[], v, r, Ws.nil, hv, hr, heq⟩

/-! ## What is well formed is accepted -/

/-- The modes in which white space is skipped. -/
def Mode.spaced : Mode → Bool
  | value | opened _ | key | colon | after => true
  | _ => false

/-- Where the machine stands before an item. -/
def start (st : List Bracket) : Bracket → State
  | .array => (.value, .array :: st)
  | .object => (.key, st)

/-- A value has been read, and the brackets open then are these. -/
def EndsIn (st : List Bracket) (o : Option State) : Prop := ∃ m : Mode, m.ends ∧ o = some (m, st)

/-- A character that ends a number. -/
def isEnd (c : Char) : Bool := [' ', '\n', '\r', '\t', ',', ']', '}'].contains c

theorem isEnd_of_isWs (hc : isWs c) : isEnd c := by
  simp only [isWs, Bool.or_eq_true, beq_iff_eq] at hc
  rcases hc with ((rfl | rfl) | rfl) | rfl <;> rfl

theorem step_spaced {m : Mode} (hm : m.spaced) (hc : isWs c) : step (m, st) c = some (m, st) := by
  cases m with
  | value | opened | key | colon => exact if_pos hc
  | after =>
    cases st with
    | nil => exact if_pos hc
    | cons b st => exact if_pos hc
  | _ => exact absurd hm Bool.false_ne_true

theorem run_ws {m : Mode} (hm : m.spaced) {w : List Char} (hw : Ws w) (r : List Char) :
    run (m, st) (w ++ r) = run (m, st) r := by
  induction w with
  | nil => rfl
  | cons c w ih =>
    obtain ⟨hc, hw⟩ := List.forall_mem_cons.1 hw
    rw [List.cons_append, run_cons, step_spaced hm hc]
    exact ih hw

/-- A number ends where something else than a part of a number follows. -/
theorem step_ends {m : Mode} (hm : m.ends) (hc : isEnd c) : step (m, st) c = stepAfter st c := by
  have hmem : c ∈ [' ', '\n', '\r', '\t', ',', ']', '}'] := List.contains_iff_mem.1 hc
  simp only [List.mem_cons, List.not_mem_nil, or_false] at hmem
  cases m with
  | zero | int | frac | expDigits | after =>
    rcases hmem with rfl | rfl | rfl | rfl | rfl | rfl | rfl <;> rfl
  | _ => exact absurd hm Bool.false_ne_true

theorem run_ends {m : Mode} (hm : m.ends) (hc : isEnd c) (s : List Char) :
    run (m, st) (c :: s) = run (.after, st) (c :: s) := by
  rw [run_cons, run_cons, step_ends hm hc]
  rfl

theorem endsIn_ws (st : List Bracket) {m : Mode} (hm : m.ends) {w : List Char} (hw : Ws w) :
    EndsIn st (run (m, st) w) := by
  cases w with
  | nil => exact ⟨m, hm, rfl⟩
  | cons c w =>
    have h : run (.after, st) (c :: w) = some (.after, st) := by
      simpa using run_ws (m := .after) rfl hw []
    exact ⟨.after, rfl, by rw [run_ends hm (isEnd_of_isWs (List.forall_mem_cons.1 hw).1), h]⟩

theorem run_right {m : Mode} {b : Bracket} (hm : m.ends) (s : List Char) :
    run (m, b :: st) (b.right :: s) = run (.after, st) s := by
  cases b with
  | array => exact run_ends hm rfl _
  | object => exact run_ends hm rfl _

theorem run_comma {m : Mode} {b : Bracket} (hm : m.ends) (s : List Char) :
    run (m, b :: st) (',' :: s) = run (start st b) s := by
  cases b with
  | array => exact run_ends hm rfl _
  | object => exact run_ends hm rfl _

/-- The first item may come right after the opening bracket. -/
theorem run_opened {b : Bracket} {st' : List Bracket} (h : EndsIn st' (run (start st b) s)) :
    run (.opened b, st) s = run (start st b) s := by
  induction s with
  | nil =>
    obtain ⟨m, hm, hrun⟩ := h
    cases b <;> (obtain ⟨rfl, -⟩ := Prod.mk.inj (Option.some.inj hrun); cases hm)
  | cons c s ih =>
    by_cases hc : isWs c
    · have hstart : step (start st b) c = some (start st b) := by
        cases b with
        | array => exact step_spaced rfl hc
        | object => exact step_spaced rfl hc
      rw [run_cons, hstart] at h
      rw [run_cons, run_cons, step_spaced rfl hc, hstart]
      exact ih h
    · have hstep : step (.opened b, st) c = step (start st b) c := by
        by_cases hright : c = b.right
        · obtain ⟨m, hm, hrun⟩ := h
          cases b with
          | array =>
            subst hright
            cases hrun
          | object =>
            subst hright
            cases hrun
        · cases b with
          | array => exact ((if_neg hc).trans (if_neg hright)).trans (if_neg hc).symm
          | object => exact ((if_neg hc).trans (if_neg hright)).trans (if_neg hc).symm
      rw [run_cons, run_cons, hstep]

/-- The contents of a string. -/
theorem run_chars {k : Bool} {b : List Char} (hb : Chars b) (r : List Char) :
    run (.str k, st) (b ++ r) = run (.str k, st) r := by
  induction hb with
  | nil => rfl
  | @char c _ hc hquote hesc _ ih =>
    have hstep : step (.str k, st) c = some (.str k, st) :=
      (if_neg hquote).trans ((if_neg hesc).trans (if_pos hc))
    rw [List.cons_append, run_cons, hstep]
    exact ih
  | @escape c _ hc _ ih =>
    have hu : c ≠ 'u' := by
      rintro rfl
      exact absurd hc (by decide)
    have hstep : step (.esc k, st) c = some (.str k, st) := (if_neg hu).trans (if_pos hc)
    show (step (.esc k, st) c).bind _ = _
    rw [hstep]
    exact ih
  | @unicode hs s hlen hhex _ ih =>
    match hs, hlen with
    | [h₁, h₂, h₃, h₄], _ =>
      simp only [List.forall_mem_cons] at hhex
      obtain ⟨hh₁, hh₂, hh₃, hh₄, -⟩ := hhex
      have hstep {n : ℕ} {h : Char} (hh : h.isHexDigit) :
          step (.hex k (n + 1), st) h = some (.hex k n, st) := if_pos hh
      have hlast : step (.hex k 0, st) h₄ = some (.str k, st) := if_pos hh₄
      show run (.hex k 3, st) (h₁ :: h₂ :: h₃ :: h₄ :: (s ++ r)) = _
      simp only [run_cons, hstep hh₁, hstep hh₂, hstep hh₃, hlast, Option.bind_some]
      exact ih

theorem run_digits {m : Mode} (hm : ∀ c : Char, c.isDigit → step (m, st) c = some (m, st))
    {ds : List Char} (hds : Digits ds) (r : List Char) : run (m, st) (ds ++ r) = run (m, st) r := by
  induction ds with
  | nil => rfl
  | cons c ds ih =>
    obtain ⟨hc, hds⟩ := List.forall_mem_cons.1 hds
    rw [List.cons_append, run_cons, hm c hc]
    exact ih hds

theorem run_int {ds : List Char} (hds : Digits ds) (r : List Char) :
    run (.int, st) (ds ++ r) = run (.int, st) r :=
  run_digits (m := .int) (fun _ hc => if_pos hc) hds r

theorem run_frac {ds : List Char} (hds : Digits ds) (r : List Char) :
    run (.frac, st) (ds ++ r) = run (.frac, st) r :=
  run_digits (m := .frac) (fun _ hc => if_pos hc) hds r

theorem run_expDigits {ds : List Char} (hds : Digits ds) (r : List Char) :
    run (.expDigits, st) (ds ++ r) = run (.expDigits, st) r :=
  run_digits (m := .expDigits) (fun _ hc => if_pos hc) hds r

theorem ne_of_isDigit {d : Char} (hc : c.isDigit) (hd : d.isDigit = false) : c ≠ d := by
  rintro rfl
  rw [hd] at hc
  exact absurd hc Bool.false_ne_true

theorem stepValue_digit (hc : c.isDigit) (hc' : c ≠ '0') : stepValue st c = some (.int, st) := by
  have hnone : starts.lookup c = none := by
    apply List.lookup_eq_none_iff.2
    intro p hp
    rw [bne_iff_ne]
    simp only [starts, List.mem_cons, List.not_mem_nil, or_false] at hp
    rcases hp with rfl | rfl | rfl | rfl | rfl | rfl | rfl | rfl
    all_goals first | exact ne_of_isDigit hc rfl | exact hc'
  simp only [stepValue, hnone, if_pos hc]

/-- The integral part of a number, with or without a sign before it. -/
theorem run_intPart (st : List Bracket) {i : List Char} (hi : IntPart i) :
    ∃ m, (m = .zero ∨ m = .int) ∧
    ∀ r, run (.value, st) (i ++ r) = run (m, st) r ∧ run (.minus, st) (i ++ r) = run (m, st) r := by
  cases hi with
  | zero => exact ⟨.zero, .inl rfl, fun r => ⟨rfl, rfl⟩⟩
  | @pos c ds hc hc' hds =>
    refine ⟨.int, .inr rfl, fun r => ?_⟩
    have hws : isWs c = false := by
      rw [← Bool.not_eq_true]
      intro hws
      simp only [isWs, Bool.or_eq_true, beq_iff_eq] at hws
      rcases hws with ((rfl | rfl) | rfl) | rfl <;> exact absurd hc (by decide)
    have hvalue : step (.value, st) c = some (.int, st) :=
      (if_neg (Bool.not_eq_true _ ▸ hws)).trans (stepValue_digit hc hc')
    have hminus : step (.minus, st) c = some (.int, st) := (if_neg hc').trans (if_pos hc)
    rw [List.cons_append, run_cons, run_cons, hvalue, hminus]
    exact ⟨run_int hds r, run_int hds r⟩

theorem run_fraction (st : List Bracket) {f : List Char} (hf : Fraction f) {m : Mode}
    (hm : m = .zero ∨ m = .int) :
    ∃ m', (m' = .zero ∨ m' = .int ∨ m' = .frac) ∧
      ∀ r, run (m, st) (f ++ r) = run (m', st) r := by
  cases hf with
  | none => exact ⟨m, hm.elim .inl (.inr ∘ .inl), fun r => rfl⟩
  | @some c ds hc hds =>
    refine ⟨.frac, .inr (.inr rfl), fun r => ?_⟩
    have hpoint : step (m, st) '.' = some (.point, st) := by
      rcases hm with rfl | rfl <;> rfl
    have hdigit : step (.point, st) c = some (.frac, st) := if_pos hc
    simp only [List.cons_append, run_cons, hpoint, hdigit, Option.bind_some]
    exact run_frac hds r

theorem run_exponent {e : List Char} (he : Exponent e) {m : Mode}
    (hm : m = .zero ∨ m = .int ∨ m = .frac) : EndsIn st (run (m, st) e) := by
  cases he with
  | none => exact ⟨m, by rcases hm with rfl | rfl | rfl <;> rfl, rfl⟩
  | @some e c sign ds he hsign hc hds =>
    refine ⟨.expDigits, rfl, ?_⟩
    have hexp : step (m, st) e = some (.exp, st) := by
      rcases hm with rfl | rfl | rfl <;> rcases he with rfl | rfl <;> rfl
    have hc' : ¬ (c = '+' ∨ c = '-') := not_or.2 ⟨ne_of_isDigit hc rfl, ne_of_isDigit hc rfl⟩
    have hdigits : run (.expDigits, st) ds = some (.expDigits, st) := by
      simpa using run_expDigits hds []
    rw [run_cons, hexp, Option.bind_some]
    have hfirst : step (.exp, st) c = some (.expDigits, st) := (if_neg hc').trans (if_pos hc)
    have hsigned : step (.expSign, st) c = some (.expDigits, st) := if_pos hc
    rcases hsign with rfl | rfl | rfl
    · rw [List.nil_append, run_cons, hfirst]
      exact hdigits
    · show run (.expSign, st) (c :: ds) = _
      rw [run_cons, hsigned]
      exact hdigits
    · show run (.expSign, st) (c :: ds) = _
      rw [run_cons, hsigned]
      exact hdigits

theorem run_number {n : List Char} (hn : Number n) : EndsIn st (run (.value, st) n) := by
  rcases hn with ⟨i, f, e, hi, hf, he, rfl⟩ | ⟨_, ⟨i, f, e, hi, hf, he, rfl⟩, rfl⟩
  · obtain ⟨m, hm, hi⟩ := run_intPart st hi
    obtain ⟨m', hm', hf⟩ := run_fraction st hf hm
    rw [(hi _).1, hf]
    exact run_exponent he hm'
  · obtain ⟨m, hm, hi⟩ := run_intPart st hi
    obtain ⟨m', hm', hf⟩ := run_fraction st hf hm
    show EndsIn st (run (.minus, st) (i ++ (f ++ e)))
    rw [(hi _).2, hf]
    exact run_exponent he hm'

/-- What the machine does with the texts of a nonterminal. -/
def Reads : Nonterminal → List Char → Prop
  | .value, s => ∀ st, EndsIn st (run (.value, st) s)
  | .bracketed _, s => ∀ st, run (.value, st) s = some (.after, st)
  | .item .array, s => ∀ st, EndsIn st (run (.value, st) s)
  | .item .object, s => ∀ st, EndsIn (.object :: st) (run (.key, st) s)
  | .items b, s => ∀ st, EndsIn (b :: st) (run (start st b) s)

theorem Reads.item {b : Bracket} (h : Reads (.item b) s) (st : List Bracket) :
    EndsIn (b :: st) (run (start st b) s) := by
  cases b with
  | array => exact h _
  | object => exact h st

theorem reads_of_derives {n : Nonterminal} (h : Derives n s) : Reads n s := by
  induction h with
  | literal hs =>
    intro st
    simp only [literals, List.mem_cons, List.not_mem_nil, or_false] at hs
    rcases hs with rfl | rfl | rfl <;> exact ⟨.after, rfl, rfl⟩
  | number hn => exact fun st => run_number hn
  | string hs =>
    intro st
    show EndsIn st (run (.str false, st) _)
    rw [run_chars hs]
    exact ⟨.after, rfl, rfl⟩
  | bracketed _ ih => exact fun st => ⟨.after, rfl, ih st⟩
  | @empty b w hw =>
    intro st
    have hleft : run (.value, st) (b.left :: (w ++ [b.right])) =
        run (.opened b, st) (w ++ [b.right]) := by
      cases b <;> rfl
    rw [hleft, run_ws rfl hw]
    cases b <;> rfl
  | @items b s _ ih =>
    intro st
    have hleft : run (.value, st) (b.left :: (s ++ [b.right])) =
        run (.opened b, st) (s ++ [b.right]) := by
      cases b <;> rfl
    have h := ih st
    obtain ⟨m, hm, hrun⟩ := ih st
    rw [hleft, run_append, run_opened h, hrun]
    exact run_right hm []
  | element hw _ hw' ih =>
    intro st
    obtain ⟨m, hm, hrun⟩ := ih st
    rw [run_ws rfl hw, run_append, hrun]
    exact endsIn_ws st hm hw'
  | member hw hk hw' _ ih =>
    intro st
    rw [run_ws rfl hw]
    show EndsIn _ (run (.str true, st) _)
    rw [run_chars hk]
    show EndsIn _ (run (.colon, st) _)
    rw [run_ws rfl hw']
    exact ih _
  | last _ ih => exact fun st => ih.item st
  | more _ _ ih ih' =>
    intro st
    obtain ⟨m, hm, hrun⟩ := ih.item st
    rw [run_append, hrun]
    show EndsIn _ (run (m, _) _)
    rw [run_comma hm]
    exact ih' st

theorem endsIn_of_isText (h : IsText s) : EndsIn st (run (.value, st) s) := by
  obtain ⟨w, v, w', hw, hv, hw', rfl⟩ := h
  obtain ⟨m, hm, hrun⟩ := reads_of_derives hv st
  rw [run_ws rfl hw, run_append, hrun]
  exact endsIn_ws st hm hw'

theorem accepts_of_isText (h : IsText s) : accepts s := by
  obtain ⟨m, hm, hrun⟩ : EndsIn [] (run (.value, []) s) := endsIn_of_isText h
  unfold accepts
  rw [hrun]
  exact hm

/-- The machine accepts the texts of the grammar and no others. -/
theorem accepts_iff : accepts s ↔ IsText s := ⟨isText_of_accepts, accepts_of_isText⟩

instance (s : List Char) : Decidable (IsText s) := decidable_of_iff _ accepts_iff

theorem IsObject.isText (h : IsObject s) : IsText s :=
  let ⟨w, v, w', hw, hv, hw', hs⟩ := h
  ⟨w, v, w', hw, .bracketed hv, hw', hs⟩

/-! ## Texts put together from pieces -/

theorem stepAfter_newline (st : List Bracket) : stepAfter st '\n' = some (.after, st) := by
  cases st <;> rfl

/-- A newline stands between tokens only. -/
theorem spaced_of_newline {q q' : State} (h : step q '\n' = some q') : q'.1.spaced := by
  obtain ⟨m, st⟩ := q
  have hafter : stepAfter st '\n' = some q' → q'.1.spaced := fun h => by
    obtain rfl := Option.some.inj ((stepAfter_newline st).symm.trans h)
    rfl
  cases m with
  | value | opened | key | colon =>
    obtain rfl := Option.some.inj h
    rfl
  | zero | int | frac | expDigits | after => exact hafter h
  | lit l =>
    cases l with
    | nil => exact absurd h nofun
    | cons d l => exact absurd ((if_neg (by simp)).symm.trans h) nofun
  | _ => exact absurd h nofun

theorem stepAfter_nul (st : List Bracket) : stepAfter st '\x00' = none := by
  cases st with
  | nil => rfl
  | cons b st => cases b <;> rfl

/-- NUL is not a character of JSON. -/
theorem step_nul (q : State) : step q '\x00' = none := by
  obtain ⟨m, st⟩ := q
  cases m with
  | opened b => cases b <;> rfl
  | lit l =>
    cases l with
    | nil => rfl
    | cons d l => exact if_neg (by simp)
  | zero | int | frac | expDigits | after => exact stepAfter_nul st
  | _ => rfl

theorem ne_nul_of_run {q q' : State} (h : run q s = some q') : ∀ c ∈ s, c ≠ '\x00' := by
  induction s generalizing q with
  | nil => exact fun c hc => absurd hc List.not_mem_nil
  | cons c s ih =>
    obtain ⟨q₁, hstep, hrun⟩ := Option.bind_eq_some_iff.1 h
    refine List.forall_mem_cons.2 ⟨?_, ih hrun⟩
    rintro rfl
    rw [step_nul] at hstep
    exact absurd hstep nofun

/-- The text leads from one state to another. -/
def Leads (q : State) (s : String) (q' : State) : Prop := run q s.toList = some q'

theorem Leads.append {q q' q'' : State} {s t : String} (h : Leads q s q') (h' : Leads q' t q'') :
    Leads q (s ++ t) q'' := by
  unfold Leads at *
  rw [String.toList_append, run_append, h]
  exact h'

theorem leads_empty (q : State) : Leads q "" q := rfl

/-- What begins with the end of a number leads anywhere from the end of any value as it does from
the end of a string. -/
theorem Leads.of_ends {q : State} {t : String} {m : Mode} (h : Leads (.after, st) t q)
    (hm : m.ends) (ht : t.toList.head?.any isEnd) : Leads (m, st) t q := by
  unfold Leads at *
  match hs : t.toList with
  | [] =>
    rw [hs] at ht
    exact absurd ht Bool.false_ne_true
  | c :: cs =>
    rw [hs] at ht h
    rw [run_ends hm ht]
    exact h

/-- A value between two pieces. -/
theorem Leads.value {q q' : State} {s v t : String} (h : Leads q s (.value, st))
    (hv : EndsIn st (run (.value, st) v.toList)) (ht : t.toList.head?.any isEnd)
    (h' : Leads (.after, st) t q') : Leads q (s ++ v ++ t) q' := by
  obtain ⟨m, hm, hrun⟩ := hv
  exact (h.append hrun).append (h'.of_ends hm ht)

/-- The first item of a bracket. -/
theorem Leads.opened {b : Bracket} {m : Mode} {st' : List Bracket} {s : String}
    (h : Leads (start st b) s (m, st')) (hm : m.ends) : Leads (.opened b, st) s (m, st') :=
  (run_opened ⟨m, hm, h⟩).trans h

/-- White space. -/
theorem leads_ws {m : Mode} (hm : m.spaced) {w : String} (hw : Ws w.toList) :
    Leads (m, st) w (m, st) := by
  unfold Leads
  simpa using run_ws hm hw []

/-- The contents of a string. -/
theorem leads_chars {k : Bool} {b : String} (hb : Chars b.toList) :
    Leads (.str k, st) b (.str k, st) := by
  unfold Leads
  simpa using run_chars hb []

end Json
