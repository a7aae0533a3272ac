import InitializerLint.Json.Document
import InitializerLint.Json.Number

/-! The grammar of JSON texts. A text is related to the tree it writes, in which strings and
numbers are kept as they are spelled, so that every well-formed text has a tree, also one
whose strings or numbers stand for nothing that can be stored. -/
namespace InitializerLint.Json

/-- A part of a string as it is spelled: a character, or a 16-bit unit in hexadecimal. -/
inductive Piece where
  | char (c : Char)
  | unit (n : Nat)

namespace Piece

def IsLeading (n : Nat) : Prop := 0xD800 ≤ n ∧ n ≤ 0xDBFF
def IsTrailing (n : Nat) : Prop := 0xDC00 ≤ n ∧ n ≤ 0xDFFF

instance (n : Nat) : Decidable (IsLeading n) := inferInstanceAs (Decidable (_ ∧ _))
instance (n : Nat) : Decidable (IsTrailing n) := inferInstanceAs (Decidable (_ ∧ _))

def pair (n m : Nat) : Char := Char.ofNat ((n - 0xD800) * 1024 + (m - 0xDC00) + 0x10000)

/-- The characters that a string stands for; none if half of a surrogate pair is missing. -/
def decode : List Piece → Option (List Char)
  | [] => some []
  | .char c :: ps => (decode ps).map (c :: ·)
  | .unit n :: ps =>
    if IsLeading n then
      match ps with
      | .unit m :: ps => if IsTrailing m then (decode ps).map (pair n m :: ·) else none
      | _ => none
    else if IsTrailing n then none
    else (decode ps).map (Char.ofNat n :: ·)

/-- The letter of a short escape and what it stands for. -/
def shortEscapes : List (Char × Char) :=
  [('"', '"'), ('\\', '\\'), ('/', '/'), ('b', '\x08'), ('f', '\x0c'), ('n', '\n'), ('r', '\r'),
    ('t', '\t')]

/-- Hexadecimal digits stand in either case. -/
def IsHex (c : Char) (n : Nat) : Prop :=
  n < 16 ∧ (c = Document.hexDigit n ∨ c = (Document.hexDigit n).toUpper)

inductive Writes : Piece → List Char → Prop
  | plain {c : Char} : c ≠ '"' → c ≠ '\\' → 0x20 ≤ c.toNat → Writes (.char c) [c]
  | short {x c : Char} : (x, c) ∈ shortEscapes → Writes (.char c) ['\\', x]
  | unit {a b c d : Char} {i j k l : Nat} : IsHex a i → IsHex b j → IsHex c k → IsHex d l →
      Writes (.unit (((i * 16 + j) * 16 + k) * 16 + l)) ['\\', 'u', a, b, c, d]

inductive WritesAll : List Piece → List Char → Prop
  | nil : WritesAll [] []
  | cons {p : Piece} {ps : List Piece} {a b : List Char} :
      p.Writes a → WritesAll ps b → WritesAll (p :: ps) (a ++ b)

end Piece

/-- A string literal. -/
abbrev Spelling := List Piece

namespace Spelling

def text? (ps : Spelling) : Option String := (Piece.decode ps).map String.ofList

inductive Writes : Spelling → List Char → Prop
  | quoted {ps : Spelling} {cs : List Char} : Piece.WritesAll ps cs → Writes ps ('"' :: (cs ++ ['"']))

end Spelling

namespace Numeral

inductive WritesDigits : List Nat → List Char → Prop
  | one {d : Nat} : d < 10 → WritesDigits [d] [d.digitChar]
  | cons {d : Nat} {ds : List Nat} {cs : List Char} :
      d < 10 → WritesDigits ds cs → WritesDigits (d :: ds) (d.digitChar :: cs)

/-- No zero stands in front of other digits. -/
inductive WritesInteger : List Nat → List Char → Prop
  | zero : WritesInteger [0] ['0']
  | digits {d : Nat} {ds : List Nat} {cs : List Char} :
      d ≠ 0 → WritesDigits (d :: ds) cs → WritesInteger (d :: ds) cs

inductive WritesFraction : List Nat → List Char → Prop
  | none : WritesFraction [] []
  | digits {ds : List Nat} {cs : List Char} : WritesDigits ds cs → WritesFraction ds ('.' :: cs)

inductive WritesSign : Bool → List Char → Prop
  | none : WritesSign false []
  | plus : WritesSign false ['+']
  | minus : WritesSign true ['-']

inductive WritesExponent : Option Exponent → List Char → Prop
  | none : WritesExponent none []
  | some {neg : Bool} {ds : List Nat} {mark : Char} {sign cs : List Char} :
      mark = 'e' ∨ mark = 'E' → WritesSign neg sign → WritesDigits ds cs →
      WritesExponent (some ⟨neg, ds⟩) (mark :: (sign ++ cs))

/-- A number literal after its sign. -/
inductive Writes : Numeral → List Char → Prop
  | mk {i f : List Nat} {e : Option Exponent} {a b c : List Char} :
      WritesInteger i a → WritesFraction f b → WritesExponent e c → Writes ⟨i, f, e⟩ (a ++ (b ++ c))

end Numeral

/-- A JSON value as it is spelled, up to the blanks between its parts. -/
inductive Tree where
  | null
  | bool (b : Bool)
  | number (negative : Bool) (x : Numeral)
  | text (s : Spelling)
  | list (items : List Tree)
  | object (entries : List (Spelling × Tree))

def Blank (cs : List Char) : Prop := ∀ c ∈ cs, c = ' ' ∨ c = '\n' ∨ c = '\t' ∨ c = '\r'

namespace Tree

mutual

/-- The texts of a tree, without blanks around them. -/
inductive Writes : Tree → List Char → Prop
  | null : Writes .null ['n', 'u', 'l', 'l']
  | boolTrue : Writes (.bool true) ['t', 'r', 'u', 'e']
  | boolFalse : Writes (.bool false) ['f', 'a', 'l', 's', 'e']
  | positive {x : Numeral} {cs : List Char} : x.Writes cs → Writes (.number false x) cs
  | negative {x : Numeral} {cs : List Char} : x.Writes cs → Writes (.number true x) ('-' :: cs)
  | text {s : Spelling} {cs : List Char} : s.Writes cs → Writes (.text s) cs
  | list {ds : List Tree} {cs : List Char} :
      WritesItems ds cs → Writes (.list ds) ('[' :: (cs ++ [']']))
  | object {es : List (Spelling × Tree)} {cs : List Char} :
      WritesEntries es cs → Writes (.object es) ('{' :: (cs ++ ['}']))

inductive WritesItems : List Tree → List Char → Prop
  | nil {b : List Char} : Blank b → WritesItems [] b
  | last {d : Tree} {b v b' : List Char} :
      Blank b → Writes d v → Blank b' → WritesItems [d] (b ++ (v ++ b'))
  | more {d d' : Tree} {ds : List Tree} {b v b' cs : List Char} :
      Blank b → Writes d v → Blank b' → WritesItems (d' :: ds) cs →
      WritesItems (d :: d' :: ds) (b ++ (v ++ (b' ++ ',' :: cs)))

inductive WritesEntries : List (Spelling × Tree) → List Char → Prop
  | nil {b : List Char} : Blank b → WritesEntries [] b
  | last {k : Spelling} {d : Tree} {b q b₁ b₂ v b' : List Char} :
      Blank b → k.Writes q → Blank b₁ → Blank b₂ → Writes d v → Blank b' →
      WritesEntries [(k, d)] (b ++ (q ++ (b₁ ++ ':' :: (b₂ ++ (v ++ b')))))
  | more {k : Spelling} {d : Tree} {e : Spelling × Tree} {es : List (Spelling × Tree)}
      {b q b₁ b₂ v b' cs : List Char} :
      Blank b → k.Writes q → Blank b₁ → Blank b₂ → Writes d v → Blank b' →
      WritesEntries (e :: es) cs →
      WritesEntries ((k, d) :: e :: es)
        (b ++ (q ++ (b₁ ++ ':' :: (b₂ ++ (v ++ (b' ++ ',' :: cs))))))

end

/-- A whole text, with blanks around its value. -/
def WritesDocument (d : Tree) (text : String) : Prop :=
  ∃ b v b', Blank b ∧ Writes d v ∧ Blank b' ∧ text.toList = b ++ (v ++ b')

/-- Brackets stand at most `n` deep inside each other. -/
def Within : Nat → Tree → Prop
  | 0, .list _ => False
  | 0, .object _ => False
  | n + 1, .list ds => ∀ d ∈ ds, Within n d
  | n + 1, .object es => ∀ e ∈ es, Within n e.2
  | _, _ => True

mutual

/-- The data a tree stands for; none if one of its strings or numbers stands for nothing. -/
def value? : Tree → Option Data.Value
  | .null => some .unit
  | .bool b => some (.bool b)
  | .number negative x => (x.value negative).toOption
  | .text s => s.text?.map .text
  | .list ds => (itemValues? ds).map .list
  | .object es => (entryValues? es).map .map

def itemValues? : List Tree → Option (List Data.Value)
  | [] => some []
  | d :: ds => do
    let v ← d.value?
    let vs ← itemValues? ds
    return v :: vs

def entryValues? : List (Spelling × Tree) → Option (List (Data.Value × Data.Value))
  | [] => some []
  | (k, d) :: es => do
    let key ← Spelling.text? k
    let v ← d.value?
    let vs ← entryValues? es
    return (.text key, v) :: vs

end

end Tree
end InitializerLint.Json
