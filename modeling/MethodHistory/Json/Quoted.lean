import MethodHistory.Decimal.Written
import MethodHistory.Json.Basic
import MethodHistory.Text.Quoted

/-!
This module contains the wording of values in messages.
-/

namespace MethodHistory
namespace Json

mutual

def quoted : Json → String
  | null => "None"
  | bool value => if value then "True" else "False"
  | whole value => toString value
  | real value => Decimal.ofFloat value
  | text value => value.quoted
  | list items => "[" ++ ", ".intercalate (quotedItems items) ++ "]"
  | object members => "\x7b" ++ ", ".intercalate (quotedMembers members) ++ "\x7d"

def quotedItems : List Json → List String
  | [] => []
  | item :: items => quoted item :: quotedItems items

def quotedMembers : List (Text.Loose × Json) → List String
  | [] => []
  | (name, value) :: members =>
    (name.quoted ++ ": " ++ quoted value) :: quotedMembers members

end

def shown : Json → String
  | text value => value.replaced
  | other => other.quoted

def quotedTuple : List Json → String
  | [value] => "(" ++ value.quoted ++ ",)"
  | values => "(" ++ ", ".intercalate (quotedItems values) ++ ")"

end Json
end MethodHistory
