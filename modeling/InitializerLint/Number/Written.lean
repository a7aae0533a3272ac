import InitializerLint.Number.Shortest

/-! The two ways in which numbers stand in messages. -/
namespace InitializerLint.Number

def Decimal.digitList (d : Decimal) : List Char := Nat.toDigits 10 d.digits

/-- Positional text with at least one digit on each side of the point. -/
def Decimal.positional (d : Decimal) : List Char :=
  let ds := d.digitList
  let point := ds.length + d.exponent
  if point ≤ 0 then '0' :: '.' :: List.replicate (-point).toNat '0' ++ ds
  else if ds.length ≤ point then ds ++ List.replicate d.exponent.toNat '0' ++ ['.', '0']
  else ds.take point.toNat ++ '.' :: ds.drop point.toNat

/-- One digit before the point and a signed exponent. -/
def Decimal.scientific (d : Decimal) : List Char :=
  let ds := d.digitList
  let e := d.exponent + ds.length - 1
  let fraction := match ds.drop 1 with
    | [] => []
    | rest => '.' :: rest
  ds.take 1 ++ fraction ++ 'e' :: (if e < 0 then '-' else '+') :: Nat.toDigits 10 e.natAbs

namespace Binary64

def signed (negative : Bool) (text : List Char) : String :=
  String.ofList (if negative then '-' :: text else text)

/-- Every digit written out, however large or small the number; midpoints go up. -/
def plain : Binary64 → String
  | .finite neg m => signed neg (m.shortest .up).positional
  | .infinity neg => signed neg ['i', 'n', 'f']
  | .nan => "NaN"

/-- Positional from `1e-5` up to below `1e16`, with an exponent outside; midpoints go to the
even digit. -/
def compact : Binary64 → String
  | .finite neg m =>
    let d := m.shortest .even
    let point := d.digitList.length + d.exponent
    signed neg (if m.isZero || (-5 < point && point ≤ 16) then d.positional else d.scientific)
  | x => x.plain

end Binary64
end InitializerLint.Number
