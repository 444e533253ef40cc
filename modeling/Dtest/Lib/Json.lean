import Mathlib.Data.Nat.Notation
import Mathlib.Order.Notation

/-!
# The grammar of JSON

A text is a list of characters.  A reader of bytes takes a byte for the character of that number:
the grammar looks at characters below 128 only, all others stand in strings as they are.
-/

namespace Json

/-- The characters allowed between tokens. -/
def isWs (c : Char) : Bool := c == ' ' || c == '\n' || c == '\r' || c == '\t'

/-- White space, possibly none. -/
def Ws (s : List Char) : Prop := ∀ c ∈ s, isWs c

instance (s : List Char) : Decidable (Ws s) := List.decidableBAll _ s

/-- Digits, possibly none. -/
def Digits (s : List Char) : Prop := ∀ c ∈ s, c.isDigit

/-- The integral part of a number: no superfluous zero in front. -/
inductive IntPart : List Char → Prop
  | zero : IntPart ['0']
  | pos {c : Char} {ds : List Char} :
      c.isDigit → c ≠ '0' → Digits ds → IntPart (c :: ds)

/-- The fraction of a number, possibly none. -/
inductive Fraction : List Char → Prop
  | none : Fraction []
  | some {c : Char} {ds : List Char} : c.isDigit → Digits ds → Fraction ('.' :: c :: ds)

/-- The sign of an exponent, possibly none. -/
def Sign (s : List Char) : Prop := s = [] ∨ s = ['+'] ∨ s = ['-']

/-- The exponent of a number, possibly none. -/
inductive Exponent : List Char → Prop
  | none : Exponent []
  | some {e c : Char} {sign ds : List Char} :
      e = 'e' ∨ e = 'E' → Sign sign → c.isDigit → Digits ds → Exponent (e :: (sign ++ c :: ds))

/-- A number without sign. -/
def Unsigned (s : List Char) : Prop :=
  ∃ i f e, IntPart i ∧ Fraction f ∧ Exponent e ∧ s = i ++ (f ++ e)

/-- A number. -/
def Number (s : List Char) : Prop := Unsigned s ∨ ∃ u, Unsigned u ∧ s = '-' :: u

/-- The characters that may follow a backslash, `u` apart. -/
def isEscape (c : Char) : Bool := ['"', '\\', '/', 'b', 'f', 'n', 'r', 't'].contains c

/-- The contents of a string. -/
inductive Chars : List Char → Prop
  | nil : Chars []
  | char {c : Char} {s : List Char} :
      0x20 ≤ c.toNat → c ≠ '"' → c ≠ '\\' → Chars s → Chars (c :: s)
  | escape {c : Char} {s : List Char} : isEscape c → Chars s → Chars ('\\' :: c :: s)
  | unicode {hs s : List Char} :
      hs.length = 4 → (∀ h ∈ hs, h.isHexDigit) → Chars s → Chars ('\\' :: 'u' :: (hs ++ s))

/-- The two kinds of brackets. -/
inductive Bracket
  | array
  | object
  deriving DecidableEq, Repr

/-- The opening bracket. -/
def Bracket.left : Bracket → Char
  | array => '['
  | object => '{'

/-- The closing bracket. -/
def Bracket.right : Bracket → Char
  | array => ']'
  | object => '}'

/-- The nonterminals of the grammar; an item is an element of an array or a member of an object. -/
inductive Nonterminal
  | value
  | bracketed (b : Bracket)
  | item (b : Bracket)
  | items (b : Bracket)

/-- The three literals. -/
def literals : List (List Char) :=
  [['t', 'r', 'u', 'e'], ['f', 'a', 'l', 's', 'e'], ['n', 'u', 'l', 'l']]

/-- The nonterminal derives the text. -/
inductive Derives : Nonterminal → List Char → Prop
  | literal {s : List Char} : s ∈ literals → Derives .value s
  | number {s : List Char} : Number s → Derives .value s
  | string {s : List Char} : Chars s → Derives .value ('"' :: (s ++ ['"']))
  | bracketed {b : Bracket} {s : List Char} : Derives (.bracketed b) s → Derives .value s
  | empty {b : Bracket} {w : List Char} :
      Ws w → Derives (.bracketed b) (b.left :: (w ++ [b.right]))
  | items {b : Bracket} {s : List Char} :
      Derives (.items b) s → Derives (.bracketed b) (b.left :: (s ++ [b.right]))
  | element {w v w' : List Char} :
      Ws w → Derives .value v → Ws w' → Derives (.item .array) (w ++ (v ++ w'))
  | member {w k w' e : List Char} : Ws w → Chars k → Ws w' → Derives (.item .array) e →
      Derives (.item .object) (w ++ '"' :: (k ++ '"' :: (w' ++ ':' :: e)))
  | last {b : Bracket} {s : List Char} : Derives (.item b) s → Derives (.items b) s
  | more {b : Bracket} {s s' : List Char} :
      Derives (.item b) s → Derives (.items b) s' → Derives (.items b) (s ++ ',' :: s')

/-- A JSON text: a value between white space. -/
def IsText (s : List Char) : Prop :=
  ∃ w v w', Ws w ∧ Derives .value v ∧ Ws w' ∧ s = w ++ (v ++ w')

/-- A JSON text that is an object. -/
def IsObject (s : List Char) : Prop :=
  ∃ w v w', Ws w ∧ Derives (.bracketed .object) v ∧ Ws w' ∧ s = w ++ (v ++ w')

theorem Ws.nil : Ws [] := fun _ hc => absurd hc List.not_mem_nil

theorem Ws.cons {c : Char} {w : List Char} (hc : isWs c) (hw : Ws w) : Ws (c :: w) :=
  List.forall_mem_cons.2 ⟨hc, hw⟩

theorem Digits.nil : Digits [] := fun _ hc => absurd hc List.not_mem_nil

theorem Digits.cons {c : Char} {ds : List Char} (hc : c.isDigit) (hds : Digits ds) :
    Digits (c :: ds) :=
  List.forall_mem_cons.2 ⟨hc, hds⟩

end Json
