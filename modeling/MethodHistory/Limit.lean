import MethodHistory.Decimal.Number
import MethodHistory.Json.Quoted

/-!
This module contains the numbers among the values of settings, and limits on how many records are
written.
-/

namespace MethodHistory

/--
Truth values count as zero and one.
-/
def Json.number? : Json → Option Number
  | .bool value => some (.whole (if value then 1 else 0))
  | .whole value => some (.whole value)
  | .real value => some (.real value)
  | _ => none

structure Limit where
  amount : Number
  shown : String

namespace Limit

def ofJson? (json : Json) : Option Limit :=
  json.number?.map (⟨·, json.quoted⟩)

def isReached (limit : Limit) (count : Nat) : Bool :=
  limit.amount.isAtMost (.whole count)

def warning (limit : Limit) : String :=
  "Record limit of " ++ limit.shown ++ " reached, further records are not written"

end Limit
end MethodHistory
