import MethodHistory.Decimal.Written
import MethodHistory.Json.Basic
import MethodHistory.Text.Quoted

/-!
This module contains the writing of values on one line of ASCII characters.
-/

namespace MethodHistory
namespace Json

def unitEscape (unit : Nat) : List Char :=
  '\\' :: 'u' :: Text.hexDigits 4 unit

/--
A character as it stands between quotes: printable ASCII stands for itself, but for quotes and
backslashes; all else is escaped, in two halves from U+10000 on.
-/
def escape (c : Char) : List Char :=
  if c = '"' then ['\\', '"']
  else if c = '\\' then ['\\', '\\']
  else if c = '\n' then ['\\', 'n']
  else if c = '\r' then ['\\', 'r']
  else if c = '\t' then ['\\', 't']
  else if c = '\x08' then ['\\', 'b']
  else if c = '\x0c' then ['\\', 'f']
  else if 0x20 ≤ c.toNat ∧ c.toNat < 0x7F then [c]
  else if c.toNat < 0x10000 then unitEscape c.toNat
  else
    let offset := c.toNat - 0x10000
    unitEscape (0xD800 + offset / 0x400) ++ unitEscape (0xDC00 + offset % 0x400)

def writeText (text : Text.Loose) : List Char :=
  '"' :: text.write escape unitEscape ++ ['"']

def writeReal (value : Float) : String :=
  if value.isNaN then "NaN"
  else if value.isInf then (if value < 0 then "-Infinity" else "Infinity")
  else Decimal.ofFloat value

mutual

def write : Json → List Char
  | null => "null".toList
  | bool value => (if value then "true" else "false").toList
  | whole value => (toString value).toList
  | real value => (writeReal value).toList
  | text value => writeText value
  | list items => '[' :: List.intercalate [',', ' '] (writeItems items) ++ [']']
  | object members => '\x7b' :: List.intercalate [',', ' '] (writeMembers members) ++ ['\x7d']

def writeItems : List Json → List (List Char)
  | [] => []
  | item :: items => write item :: writeItems items

def writeMembers : List (Text.Loose × Json) → List (List Char)
  | [] => []
  | (name, value) :: members =>
    (writeText name ++ ':' :: ' ' :: write value) :: writeMembers members

end
end Json
end MethodHistory
