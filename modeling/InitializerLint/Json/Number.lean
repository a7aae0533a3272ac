import InitializerLint.Json.Scan

/-! JSON numbers: the literal as it is written, and what it stands for.

A literal without fraction and exponent is an integer if it fits into 64 bits. Every other
one is a floating-point number made of as many leading digits as fit into 64 bits. -/
namespace InitializerLint.Json

open InitializerLint.Number (Magnitude Binary64)

structure Exponent where
  negative : Bool
  digits : List Nat

/-- A literal without its sign. The digits of the fraction are empty if there is none. -/
structure Numeral where
  integer : List Nat
  fraction : List Nat
  exponent : Option Exponent

namespace Numeral

/-- Take up digits while the number stays below `2 ^ 64`; also how many were taken. -/
def absorb (n : Nat) : List Nat → Nat × Nat
  | [] => (n, 0)
  | d :: ds =>
    if 10 * n + d < UInt64.size then
      let (n, k) := absorb (10 * n + d) ds
      (n, k + 1)
    else (n, 0)

/-- The significant digits as one number, and the power of ten that they are worth without
the exponent. -/
def significand (x : Numeral) : Nat × Int :=
  let (n, k) := absorb 0 x.integer
  let (n, j) := absorb n x.fraction
  (n, ((x.integer.length - k : Nat) : Int) - j)

def exponentLimit : Nat := (1 <<< 31) - 1

/-- How many digits of an exponent are read when it gets too large for 32 bits. -/
def overflowAt? (n read : Nat) : List Nat → Option Nat
  | [] => none
  | d :: ds =>
    if exponentLimit < 10 * n + d then some (read + 1) else overflowAt? (10 * n + d) (read + 1) ds

def digitsValue (ds : List Nat) : Nat := ds.foldl (fun n d => 10 * n + d) 0

def integer? (x : Numeral) : Option Nat :=
  let (n, k) := absorb 0 x.integer
  if x.fraction.isEmpty && x.exponent.isNone && k = x.integer.length then some n else none

/-- The magnitude of a literal that is no integer; otherwise the number of digits of its
exponent, if that alone shows it, after which it turns out to be too large. -/
def magnitude (x : Numeral) : Except (Option Nat) Magnitude :=
  let (n, e) := x.significand
  match x.exponent with
  | none => (Magnitude.scaled? n e).elim (.error none) .ok
  | some p =>
    match overflowAt? 0 0 p.digits with
    | some k => if n ≠ 0 && !p.negative then .error (some k) else .ok .zero
    | none =>
      let shift : Int := digitsValue p.digits
      (Magnitude.scaled? n (if p.negative then e - shift else e + shift)).elim (.error none) .ok

/-- A negative integer down to `-2 ^ 63` stays one; minus zero is a floating-point zero. -/
def value (negative : Bool) (x : Numeral) : Except (Option Nat) Data.Value :=
  match negative, x.integer? with
  | false, some n => .ok (.unsigned (.ofNat n))
  | true, some n =>
    if 0 < n && n ≤ 1 <<< 63 then .ok (.signed (-n))
    else x.magnitude.map fun m => .float (.finite true m)
  | neg, none => x.magnitude.map fun m => .float (.finite neg m)

end Numeral

namespace Scan

def digits : Scan (List Nat) := fun c =>
  .ok ((c.rest.takeWhile isDigit).map fun d => d.toNat - '0'.toNat, c.dropWhile isDigit)

/-- One digit that must follow; `atEnd` is the complaint if nothing does. -/
def digit (atEnd : Cause) : Scan Nat := do
  let start ← offset
  match ← next with
  | none => failHere atEnd
  | some c => if isDigit c then return c.toNat - '0'.toNat else failAt .invalidNumber (start + 1)

def integerDigits (atEnd : Cause) : Scan (List Nat) := do
  let first ← digit atEnd
  if first = 0 then
    match ← peek with
    | some c => if isDigit c then failPeek .invalidNumber else return [0]
    | none => return [0]
  else return first :: (← digits)

def fractionDigits (atEnd : Cause) : Scan (List Nat) := do
  if (← peek) = some '.' then
    drop
    match ← digits, ← peek with
    | [], none => failPeek atEnd
    | [], some _ => failPeek .invalidNumber
    | ds, _ => return ds
  else return []

/-- An exponent and the place where its digits start. -/
def exponentPart (atEnd : Cause) : Scan (Option Exponent × Nat) := do
  let mark ← peek
  if mark = some 'e' || mark = some 'E' then
    drop
    let sign ← peek
    if sign = some '+' || sign = some '-' then drop
    let start ← offset
    let first ← digit atEnd
    return (some ⟨sign = some '-', first :: (← digits)⟩, start)
  else return (none, ← offset)

/-- A literal after its sign, and the place where the digits of its exponent start. -/
def numeral (atEnd : Cause) : Scan (Numeral × Nat) := do
  let integer ← integerDigits atEnd
  let fraction ← fractionDigits atEnd
  let (exponent, start) ← exponentPart atEnd
  return (⟨integer, fraction, exponent⟩, start)

def number (negative : Bool) : Scan Data.Value := do
  let (x, start) ← numeral .eofValue
  match x.value negative with
  | .ok v => return v
  | .error (some k) => failAt .numberOutOfRange (start + k)
  | .error none => failHere .numberOutOfRange

end Scan
end InitializerLint.Json
