import MethodHistory.Text.Surrogate
import MethodHistory.Text.Unprintable

/-!
This module contains the quoting of texts in messages: in single quotes, or in double quotes if that
saves escapes, with escapes for what does not print.
-/

namespace MethodHistory
namespace Text

def hexDigit (n : Nat) : Char :=
  if n < 10 then Char.ofNat (n + '0'.toNat) else Char.ofNat (n - 10 + 'a'.toNat)

def hexDigits : Nat → Nat → List Char
  | 0, _ => []
  | width + 1, n => hexDigits width (n / 16) ++ [hexDigit (n % 16)]

def escaped (quote c : Char) : List Char :=
  if c = quote ∨ c = '\\' then ['\\', c]
  else if c = '\n' then ['\\', 'n']
  else if c = '\r' then ['\\', 'r']
  else if c = '\t' then ['\\', 't']
  else if isPrintable c then [c]
  else if c.toNat < 0x100 then '\\' :: 'x' :: hexDigits 2 c.toNat
  else if c.toNat < 0x10000 then '\\' :: 'u' :: hexDigits 4 c.toNat
  else '\\' :: 'U' :: hexDigits 8 c.toNat

def Loose.quoted (text : Loose) : String :=
  let isUsed (c : Char) : Bool := text.points.contains c.toNat
  let quote := if isUsed '\'' && !isUsed '"' then '"' else '\''
  let half (unit : Nat) : List Char := '\\' :: 'u' :: hexDigits 4 unit
  .ofList (quote :: text.write (escaped quote) half ++ [quote])

def quoted (text : String) : String :=
  (Loose.ofText text).quoted

end Text
end MethodHistory
