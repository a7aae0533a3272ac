/-! The time that a run takes. It is measured, not computed, and only a log shows it. -/
namespace InitializerLint

/-- Whole seconds and the nanoseconds beyond them. -/
structure Duration where
  seconds : UInt64
  nanoseconds : Fin 1000000000
deriving DecidableEq

namespace Duration

/-- The digits of `n / 10 ^ places` behind the point, for a number below one, without zeros at the
end. -/
def fractionDigits : Nat → Nat → List Char
  | 0, _ => []
  | _, 0 => []
  | places + 1, n => Nat.digitChar (n / 10 ^ places) :: fractionDigits places (n % 10 ^ places)

/-- The number `whole + n / 10 ^ places` in front of a unit. -/
def decimal (whole places n : Nat) (unit : String) : String :=
  let fraction := match fractionDigits places n with
    | [] => []
    | digits => '.' :: digits
  toString whole ++ String.ofList fraction ++ unit

/-- The unit is the largest one that is not longer than the time. -/
def text (d : Duration) : String :=
  let ns := d.nanoseconds.val
  if 0 < d.seconds then decimal d.seconds.toNat 9 ns "s"
  else if 1000000 ≤ ns then decimal (ns / 1000000) 6 (ns % 1000000) "ms"
  else if 1000 ≤ ns then decimal (ns / 1000) 3 (ns % 1000) "µs"
  else decimal ns 0 0 "ns"

end Duration
end InitializerLint
