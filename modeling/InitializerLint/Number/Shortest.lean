import InitializerLint.Number.Binary64

/-! The fewest decimal digits that read back as a given magnitude. -/
namespace InitializerLint.Number

/-- The decimal `digits * 10 ^ exponent`. -/
structure Decimal where
  digits : Nat
  exponent : Int
deriving DecidableEq

/-- Which of two equally near decimals stands for a value halfway between them. -/
inductive Midpoint where
  | even
  | up
deriving DecidableEq

namespace Midpoint

/-- The choice between the neighbours `q` and `q + 1`. -/
def choose : Midpoint → Nat → Nat
  | .even, q => q + q % 2
  | .up, q => q + 1

end Midpoint

namespace Shortest

/-- A positive rational interval around a value, all over one denominator; `closed` says
whether its ends round to the value too. -/
structure Interval where
  low : Nat
  value : Nat
  high : Nat
  den : Nat
  closed : Bool

/-- The rationals that round to `m`: half a unit to each side, a quarter below a power of
two. -/
def intervalOf (m : Magnitude) : Interval :=
  let s := 4 * m.significand
  let below := if m.significand = 1 <<< 52 && Magnitude.minExponent < m.exponent then 1 else 2
  let closed := m.significand % 2 = 0
  match m.exponent - 2 with
  | .ofNat k => ⟨(s - below) <<< k, s <<< k, (s + 2) <<< k, 1, closed⟩
  | .negSucc k => ⟨s - below, s, s + 2, 1 <<< (k + 1), closed⟩

/-- How many powers of ten a fraction below one has to be scaled up by to reach one. -/
def leadingZeros (num den : Nat) : Nat → Nat
  | 0 => 0
  | fuel + 1 => if den ≤ num then 0 else leadingZeros (num * 10) den fuel + 1

/-- The exponent of the leading decimal digit. -/
def leadingExponent (num den : Nat) : Int :=
  if den ≤ num then (Nat.toDigits 10 (num / den)).length - 1
  else -(leadingZeros num den 400 : Int)

def Interval.contains (i : Interval) (num den : Nat) : Bool :=
  let l := i.low * den
  let x := num * i.den
  let h := i.high * den
  if i.closed then l ≤ x && x ≤ h else l < x && x < h

/-- Numerator and denominator of `d * 10 ^ g`. -/
def gridPoint (d : Nat) (g : Int) : Nat × Nat :=
  match g with
  | .ofNat k => (d * Nat.pow 10 k, 1)
  | .negSucc k => (d, Nat.pow 10 (k + 1))

/-- Of the two neighbours of the value on the grid of `10 ^ g`, the nearer one that lies in
the interval; `mid` chooses if both are as near. -/
def onGrid? (mid : Midpoint) (i : Interval) (g : Int) : Option Decimal :=
  let (n, d) := match g with
    | .ofNat k => (i.value, i.den * Nat.pow 10 k)
    | .negSucc k => (i.value * Nat.pow 10 (k + 1), i.den)
  let q := n / d
  let hit := fun x => let (a, b) := gridPoint x g; i.contains a b
  let r := 2 * (n % d)
  match hit q, hit (q + 1) with
  | true, true => some ⟨if r < d then q else if d < r then q + 1 else mid.choose q, g⟩
  | true, false => some ⟨q, g⟩
  | false, true => some ⟨q + 1, g⟩
  | false, false => none

def search (mid : Midpoint) (i : Interval) (g : Int) : Nat → Decimal
  | 0 => ⟨0, 0⟩
  | fuel + 1 => (onGrid? mid i g).getD (search mid i (g - 1) fuel)

def stripZeros (digits : Nat) (exponent : Int) : Nat → Decimal
  | 0 => ⟨digits, exponent⟩
  | fuel + 1 =>
    if digits ≠ 0 && digits % 10 = 0 then stripZeros (digits / 10) (exponent + 1) fuel
    else ⟨digits, exponent⟩

end Shortest

open Shortest in
/-- Grids grow finer until one of their points reads back; seventeen digits always do. -/
def Magnitude.shortest (m : Magnitude) (mid : Midpoint) : Decimal :=
  if m.isZero then ⟨0, 0⟩
  else
    let i := intervalOf m
    let d := search mid i (leadingExponent i.value i.den) 18
    stripZeros d.digits d.exponent 400

end InitializerLint.Number
