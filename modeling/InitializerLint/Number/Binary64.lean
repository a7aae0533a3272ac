/-! Double-precision magnitudes as exact integers: rounding of ratios to the nearest one,
and the products and quotients built on it. -/
namespace InitializerLint.Number

/-- The finite magnitude `significand * 2 ^ exponent`, with at most 53 bits. -/
structure Magnitude where
  significand : Nat
  exponent : Int
deriving DecidableEq

inductive Binary64 where
  | finite (negative : Bool) (magnitude : Magnitude)
  | infinity (negative : Bool)
  | nan
deriving DecidableEq

/-- The nearest integer to a quotient, the even one at a midpoint. -/
def roundDiv (num den : Nat) : Nat :=
  let q := num / den
  let r := num % den
  if 2 * r < den then q
  else if den < 2 * r then q + 1
  else q + q % 2

namespace Magnitude

def zero : Magnitude := ⟨0, -1074⟩

def minExponent : Int := -1074
def maxExponent : Int := 971

/-- Numerator and denominator of `num / den` in units of `2 ^ e`. -/
def inUnits (num den : Nat) (e : Int) : Nat × Nat :=
  match e with
  | .ofNat k => (num, den <<< k)
  | .negSucc k => (num <<< (k + 1), den)

/-- The nearest magnitude to `num / den`; none beyond the largest. -/
def ofRatio? (num den : Nat) : Option Magnitude :=
  if num = 0 then some zero
  else
    let guess : Int := (Nat.log2 num : Int) - Nat.log2 den - 52
    let (n, d) := inUnits num den guess
    let e := max (if n / d < 1 <<< 52 then guess - 1 else guess) minExponent
    let (n, d) := inUnits num den e
    let m := roundDiv n d
    let rounded : Magnitude := if m = 1 <<< 53 then ⟨1 <<< 52, e + 1⟩ else ⟨m, e⟩
    if maxExponent < rounded.exponent then none else some rounded

def isZero (x : Magnitude) : Bool := x.significand = 0

/-- Numerator and denominator of a magnitude. -/
def ratio (x : Magnitude) : Nat × Nat :=
  match x.exponent with
  | .ofNat k => (x.significand <<< k, 1)
  | .negSucc k => (x.significand, 1 <<< (k + 1))

def mul? (x y : Magnitude) : Option Magnitude :=
  ofRatio? (x.ratio.1 * y.ratio.1) (x.ratio.2 * y.ratio.2)

def div? (x y : Magnitude) : Option Magnitude :=
  ofRatio? (x.ratio.1 * y.ratio.2) (x.ratio.2 * y.ratio.1)

/-- The nearest magnitude to a power of ten; `k` is at most 308. -/
def powerOfTen (k : Nat) : Magnitude := (ofRatio? (Nat.pow 10 k) 1).getD zero

/-- Divide by `10 ^ 308` a number of times, rounding after each. -/
def shrinkSteps (x : Magnitude) : Nat → Magnitude
  | 0 => x
  | n + 1 => if x.isZero then x else shrinkSteps ((x.div? (powerOfTen 308)).getD zero) n

/-- Divide by `10 ^ k` in steps of at most `10 ^ 308`. -/
def shrink (x : Magnitude) (k : Nat) : Magnitude :=
  let steps := (k - 1) / 308
  ((x.shrinkSteps steps).div? (powerOfTen (k - 308 * steps))).getD zero

/-- A decimal significand scaled by a power of ten, in two roundings: first the
significand, then the scaled value. None if it is too large. -/
def scaled? (significand : Nat) (exponent : Int) : Option Magnitude :=
  (ofRatio? significand 1).bind fun x =>
    match exponent with
    | .ofNat k =>
      if k ≤ 308 then x.mul? (powerOfTen k)
      else if x.isZero then some x
      else none
    | .negSucc k => some (x.shrink (k + 1))

/-- The nearest magnitude to `digits * 10 ^ exponent`. Exponents far outside the range are
decided without forming the power. -/
def ofDecimal? (digits : Nat) (exponent : Int) : Option Magnitude :=
  if digits = 0 then some zero
  else
    let size : Int := (Nat.toDigits 10 digits).length + exponent
    if 400 < size then none
    else if size < -400 then some zero
    else match exponent with
      | .ofNat k => ofRatio? (digits * Nat.pow 10 k) 1
      | .negSucc k => ofRatio? digits (Nat.pow 10 (k + 1))

end Magnitude
end InitializerLint.Number
