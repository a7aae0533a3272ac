import InitializerLint.Data.Value
import InitializerLint.Yaml.Document

/-! What scalars stand for: the words, integers and numbers that a plain scalar can spell. -/
namespace InitializerLint.Yaml

open InitializerLint.Number (Magnitude Binary64)

/-- What a scalar stands for; an integer beyond 64 bits is no value that can be kept. -/
inductive Meaning where
  | value (v : Data.Value)
  | wide (n : Int)

def Meaning.found : Meaning → Data.Found
  | .value v => v.found
  | .wide n => .wide n

namespace Scalar

def bool? (s : String) : Option Bool :=
  if ["true", "True", "TRUE"].contains s then some true
  else if ["false", "False", "FALSE"].contains s then some false
  else none

def isNull (s : String) : Bool := ["null", "Null", "NULL", "~"].contains s

def digit? (base : Nat) (c : Char) : Option Nat := (hexValue? c).filter (· < base)

/-- One or more digits of a base. -/
def natural? (base : Nat) (cs : List Char) : Option Nat :=
  if cs.isEmpty then none
  else (cs.mapM (digit? base)).map fun ds => ds.foldl (fun n d => base * n + d) 0

def isSign (c : Char) : Bool := c = '+' || c = '-'

def startsWithSign (cs : List Char) : Bool := cs.head?.any isSign

def withoutPlus : List Char → List Char
  | '+' :: cs => cs
  | cs => cs

/-- Several digits with a zero in front are a text, not a number. -/
def isPaddedNumber (cs : List Char) : Bool :=
  match (match cs with
    | '+' :: cs => cs
    | '-' :: cs => cs
    | cs => cs) with
  | '0' :: rest => !rest.isEmpty && rest.all isDigit
  | _ => false

/-- A natural number in one of four bases, an optional plus in front. -/
def unsigned? (cs : List Char) : Option Nat :=
  let digits := withoutPlus cs
  match digits with
  | '0' :: 'x' :: rest => natural? 16 rest
  | '0' :: 'o' :: rest => natural? 8 rest
  | '0' :: 'b' :: rest => natural? 2 rest
  | _ => if isPaddedNumber cs then none else natural? 10 digits

/-- The size of a number with a minus in front. -/
def negative? (cs : List Char) : Option Nat :=
  match cs with
  | '-' :: '0' :: 'x' :: rest => natural? 16 rest
  | '-' :: '0' :: 'o' :: rest => natural? 8 rest
  | '-' :: '0' :: 'b' :: rest => natural? 2 rest
  | '-' :: rest => if isPaddedNumber cs then none else natural? 10 rest
  | _ => none

/-- Integers of 64 bits are values and those of 128 bits are at least integers; larger ones
are none. -/
def integer? (cs : List Char) : Option Meaning :=
  match unsigned? cs, negative? cs with
  | some n, _ =>
    if n < UInt64.size then some (.value (.unsigned (.ofNat n)))
    else if n < 1 <<< 128 then some (.wide n)
    else none
  | none, some n =>
    if n ≤ 1 <<< 63 then some (.value (.signed (-n)))
    else if n ≤ 1 <<< 127 then some (.wide (-n))
    else none
  | none, none => none

/-- An exponent with an optional sign. -/
def exponent? (cs : List Char) : Option Int :=
  match cs with
  | '-' :: rest => (natural? 10 rest).map fun n => -(n : Int)
  | '+' :: rest => (natural? 10 rest).map fun n => (n : Int)
  | rest => (natural? 10 rest).map fun n => (n : Int)

/-- A decimal number with optional fraction and exponent, and a digit at least. -/
def decimal? (cs : List Char) : Option Magnitude := do
  let whole := cs.takeWhile isDigit
  let rest := cs.dropWhile isDigit
  let (fraction, rest) := match rest with
    | '.' :: rest => (rest.takeWhile isDigit, rest.dropWhile isDigit)
    | rest => ([], rest)
  let digits ← natural? 10 (whole ++ fraction)
  let e ← match rest with
    | [] => some 0
    | c :: rest => if c = 'e' || c = 'E' then exponent? rest else none
  Magnitude.ofDecimal? digits (e - fraction.length)

def float? (cs : List Char) : Option Binary64 :=
  let unsigned := withoutPlus cs
  let isInf := fun cs => [['.', 'i', 'n', 'f'], ['.', 'I', 'n', 'f'], ['.', 'I', 'N', 'F']].contains cs
  let isNan := fun cs => [['.', 'n', 'a', 'n'], ['.', 'N', 'a', 'N'], ['.', 'N', 'A', 'N']].contains cs
  if unsigned.length < cs.length && startsWithSign unsigned then none
  else if isInf unsigned then some (.infinity false)
  else if cs.head? = some '-' && isInf (cs.drop 1) then some (.infinity true)
  else if isNan cs then some .nan
  else match unsigned with
    | '-' :: rest => (decimal? rest).map (.finite true)
    | rest => (decimal? rest).map (.finite false)

def plain (s : String) : Meaning :=
  let cs := s.toList
  if s.isEmpty || isNull s then .value .unit
  else match bool? s, integer? cs with
    | some b, _ => .value (.bool b)
    | none, some m => m
    | none, none =>
      match (if isPaddedNumber cs then none else float? cs) with
      | some x => .value (.float x)
      | none => .value (.text s)

def forced (s : String) (expected : String) (m : Option Meaning) : Except Data.Fault Meaning :=
  m.elim (.error (.invalidValue (.text s) expected)) .ok

/-- The meaning of a scalar under its tag and style. -/
def meaning (tag : Option Tag) (style : Style) (s : String) : Except Data.Fault Meaning :=
  match tag with
  | some .bool => forced s "a boolean" ((bool? s).map fun b => .value (.bool b))
  | some .int => forced s "an integer" (integer? s.toList)
  | some .float => forced s "a float" ((float? s.toList).map fun x => .value (.float x))
  | some .null => forced s "null" (if isNull s then some (.value .unit) else none)
  | some .other => .ok (.value (.text s))
  | some .localTag | some .noText | none => .ok (if style = .plain then plain s else .value (.text s))

/-- Whether a scalar may spell a typed field directly. -/
def spells (expected : Tag) (tag : Option Tag) (style : Style) : Bool :=
  style = .plain || (style = .literal && tag = some expected)

/-- An unsigned 64-bit number for a field. -/
def word? (s : String) : Option UInt64 :=
  (unsigned? s.toList).bind fun n => if n < UInt64.size then some (.ofNat n) else none

end Scalar
end InitializerLint.Yaml
