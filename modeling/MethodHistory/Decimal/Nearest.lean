import MethodHistory.Decimal.Shortest

/-!
This module contains the floating point numbers next to quotients of whole numbers. Of two numbers
that are equally near the one with the even significand is taken.
-/

namespace MethodHistory
namespace Decimal

def lastPlace (leading : Int) : Int :=
  max (leading - 52) (-1074)

def rounded (value : Nat × Nat) : Nat :=
  let floor := value.1 / value.2
  let rest := 2 * (value.1 % value.2)
  if value.2 < rest ∨ (rest = value.2 ∧ floor % 2 = 1) then floor + 1 else floor

def inUnits (value : Nat × Nat) (power : Int) : Nat × Nat :=
  if power < 0 then (value.1 * Nat.pow 2 (-power).toNat, value.2)
  else (value.1, value.2 * Nat.pow 2 power.toNat)

def leadingBit (value : Nat × Nat) : Int :=
  let place : Int := (value.1.log2 : Int) - value.2.log2
  let (n, d) := inUnits value place
  if n < d then place - 1 else place

def nearestBits (value : Nat × Nat) : Nat :=
  if value.1 = 0 then
    0
  else
    let place := lastPlace (leadingBit value)
    let bits := (place + 1074).toNat * Nat.pow 2 52 + rounded (inUnits value place)
    min bits (2047 * Nat.pow 2 52)

def nearest (negative : Bool) (value : Nat × Nat) : Float :=
  let sign := if negative then Nat.pow 2 63 else 0
  Float.ofBits (sign + nearestBits value).toUInt64

/--
The number next to `digits * 10 ^ exponent`. Exponents far off the range of all numbers need not be
followed.
-/
def ofDigits (negative : Bool) (digits : Nat) (exponent : Int) : Float :=
  let leading := exponent + width digits
  if digits = 0 ∨ leading < -400 then nearest negative (0, 1)
  else if 400 < leading then (if negative then -1 / 0 else 1 / 0)
  else if exponent < 0 then nearest negative (digits, Nat.pow 10 (-exponent).toNat)
  else nearest negative (digits * Nat.pow 10 exponent.toNat, 1)

end Decimal
end MethodHistory
