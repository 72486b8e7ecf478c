import MethodHistory.Decimal.Nearest
import MethodHistory.Decimal.Written
import MethodHistory.Misuse

/-!
This module contains numbers as they were given, as whole numbers or with a point. They are compared
exactly; arithmetic stays with whole numbers as long as it can.
-/

namespace MethodHistory

inductive Number where
  | whole (value : Int)
  | real (value : Float)

namespace Number

def quotient? : Number → Option (Int × Nat)
  | whole value => some (value, 1)
  | real value =>
    if value.isFinite then
      let binary := Decimal.Binary.ofBits (value.toBits.toNat % Nat.pow 2 63)
      let (n, d) := Decimal.inUnits (binary.significand, 1) (-binary.exponent)
      some (if value < 0 then -(n : Int) else n, d)
    else
      none

def outline : Number → Float
  | whole _ => 0
  | real value => if value.isFinite then 0 else value

def isLess (a b : Number) : Bool :=
  match a.quotient?, b.quotient? with
  | some (m, d), some (n, e) => m * e < n * d
  | _, _ => a.outline < b.outline

def isAtMost (a b : Number) : Bool :=
  match a.quotient?, b.quotient? with
  | some (m, d), some (n, e) => m * e ≤ n * d
  | _, _ => a.outline ≤ b.outline

def ofQuotient (n : Int) (d : Nat) : Except Misuse Float :=
  let value := Decimal.nearest (n < 0) (n.natAbs, d)
  if value.isFinite then .ok value else .error .tooLarge

def toFloat : Number → Except Misuse Float
  | whole value => ofQuotient value 1
  | real value => .ok value

def partOfWay (start stop : Number) (done total : Nat) : Except Misuse Float := do
  match start, stop with
  | whole start, whole stop => ofQuotient ((stop - start) * done) total
  | start, stop =>
    let way := (← stop.toFloat) - (← start.toFloat)
    pure (way * Float.ofNat done / Float.ofNat total)

def along (start stop : Number) (done total : Nat) : Except Misuse Number := do
  let part ← partOfWay start stop done total
  pure (real ((← start.toFloat) + part))

end Number
end MethodHistory
