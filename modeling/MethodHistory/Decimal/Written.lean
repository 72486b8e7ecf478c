import MethodHistory.Decimal.Shortest

/-!
This module contains the written form of floating point numbers.
-/

namespace MethodHistory
namespace Decimal

structure Style where
  lowest : Int
  highest : Int
  exponentWidth : Nat

def Style.plain : Style :=
  ⟨-4, 15, 2⟩

def zeros (count : Nat) : String :=
  "".pushn '0' count

def write (style : Style) (decimal : Shortest) : String :=
  let digits := toString decimal.digits
  let leading := decimal.exponent + digits.length - 1
  if style.lowest ≤ leading ∧ leading ≤ style.highest then
    if leading < 0 then
      "0." ++ zeros (-leading - 1).toNat ++ digits
    else if 0 ≤ decimal.exponent then
      digits ++ zeros decimal.exponent.toNat ++ ".0"
    else
      let place := leading.toNat + 1
      (digits.take place).toString ++ "." ++ (digits.drop place).toString
  else
    let rest := (digits.drop 1).toString
    let size := toString leading.natAbs
    (digits.take 1).toString ++ (if rest.isEmpty then "" else "." ++ rest) ++ "e"
      ++ (if leading < 0 then "-" else "+") ++ zeros (style.exponentWidth - size.length) ++ size

def ofFloat (value : Float) : String :=
  let bits := value.toBits.toNat
  let sign := if bits / Nat.pow 2 63 = 1 then "-" else ""
  if bits / Nat.pow 2 52 % Nat.pow 2 11 = Nat.pow 2 11 - 1 then
    if bits % Nat.pow 2 52 = 0 then sign ++ "inf" else "nan"
  else
    sign ++ write .plain (.ofBinary (.ofBits (bits % Nat.pow 2 63)))

end Decimal
end MethodHistory
