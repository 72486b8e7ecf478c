/-!
This module contains the shortest decimals of floating point numbers: of all decimals with the
fewest digits that are rounded to a number, the one next to it.
-/

namespace MethodHistory
namespace Decimal

/--
A number `significand * 2 ^ exponent`. Half of the distance to the number below it is counted in
quarters of the last place; above it is always two quarters.
-/
structure Binary where
  significand : Nat
  exponent : Int
  below : Nat
  deriving DecidableEq

def Binary.ofBits (bits : Nat) : Binary :=
  let fraction := bits % Nat.pow 2 52
  let power : Nat := bits / Nat.pow 2 52 % Nat.pow 2 11
  if power = 0 then ⟨fraction, -1074, 2⟩
  else ⟨fraction + Nat.pow 2 52, (power : Int) - 1075, if fraction = 0 ∧ 1 < power then 1 else 2⟩

structure Shortest where
  digits : Nat
  exponent : Int
  deriving DecidableEq

def width (n : Nat) : Nat :=
  if n = 0 then 0 else (Nat.toDigits 10 n).length

namespace Binary

def quotient (quarters : Nat) (exponent : Int) : Nat × Nat :=
  if exponent < 2 then (quarters, Nat.pow 2 (2 - exponent).toNat)
  else (quarters * Nat.pow 2 (exponent - 2).toNat, 1)

def leading (value : Nat × Nat) : Int :=
  if value.2 ≤ value.1 then (width (value.1 / value.2) : Int) - 1
  else -(width ((value.2 - 1) / value.1) : Int)

def scaled (value : Nat × Nat) (power : Int) : Nat × Nat :=
  if power < 0 then (value.1 * Nat.pow 10 (-power).toNat, value.2)
  else (value.1, value.2 * Nat.pow 10 power.toNat)

/--
The decimals with a last digit at a power of ten on both sides of a number, if they are rounded to
it. The ends of the interval are rounded to even significands.
-/
def onGrid (binary : Binary) (power : Int) : Option Nat :=
  let quarters := 4 * binary.significand
  let at' (quarters : Nat) : Nat × Nat := scaled (quotient quarters binary.exponent) power
  let (n, d) := at' quarters
  let (low, _) := at' (quarters - binary.below)
  let (high, _) := at' (quarters + 2)
  let isInside (digits : Nat) : Bool :=
    if binary.significand % 2 = 0 then low ≤ digits * d ∧ digits * d ≤ high
    else low < digits * d ∧ digits * d < high
  let floor := n / d
  let isNearer := 2 * (n % d) < d ∨ (2 * (n % d) = d ∧ floor % 2 = 0)
  if isInside floor ∧ 0 < floor ∧ (isNearer ∨ !isInside (floor + 1)) then some floor
  else if isInside (floor + 1) then some (floor + 1)
  else none

end Binary

def Shortest.reduce (decimal : Shortest) : (fuel : Nat) → Shortest
  | 0 => decimal
  | fuel + 1 =>
    if decimal.digits ≠ 0 ∧ decimal.digits % 10 = 0 then
      Shortest.reduce ⟨decimal.digits / 10, decimal.exponent + 1⟩ fuel
    else
      decimal

def Shortest.ofBinary (binary : Binary) : Shortest :=
  if binary.significand = 0 then
    ⟨0, 0⟩
  else
    let leading := Binary.leading (Binary.quotient (4 * binary.significand) binary.exponent)
    let found := (List.range 17).findSome? fun (more : Nat) =>
      (binary.onGrid (leading - more)).map fun digits => Shortest.mk digits (leading - more)
    (found.getD ⟨0, 0⟩).reduce 20

end Decimal
end MethodHistory
