import MethodHistory.Json.Reader
import MethodHistory.Json.Written
import MethodHistory.Limit
import MethodHistory.Misuse

/-!
This module contains the names of projects in records.
-/

namespace MethodHistory

inductive ProjectName where
  | text (name : Text.Loose)
  | other (kind written : String)
  deriving DecidableEq

namespace ProjectName

def ofJson : Json → ProjectName
  | .text name => text name
  | value => other value.kind (String.ofList value.write)

def toJson : ProjectName → Json
  | text name => .text name
  | other _ written => (Json.read written.toList).toOption.getD .null

/--
What tells a name apart: of numbers their values, whatever their kinds.
-/
def distinct (name : ProjectName) : ProjectName :=
  match name.toJson.number?.bind Number.quotient? with
  | some (n, d) =>
    let common := Nat.gcd n.natAbs d
    other "number" (toString (n / common) ++ "/" ++ toString (d / common))
  | none => name

def misuse? : ProjectName → Option Misuse
  | text _ => none
  | other kind _ => if ["list", "dict"].contains kind then some (.noKey kind) else none

end ProjectName
end MethodHistory
