import MethodHistory.Text.Digit
import MethodHistory.Text.Words

/-!
This module contains the reading of whole numbers from texts.
-/

namespace MethodHistory
namespace Text

def digitValues? : List Char → Option (List Nat)
  | [] => none
  | [c] => (digitValue? c).map ([·])
  | c :: '_' :: cs => do pure ((← digitValue? c) :: (← digitValues? cs))
  | c :: cs => do pure ((← digitValue? c) :: (← digitValues? cs))

def longestNumeral : Nat :=
  4300

def isSpacing (c : Char) : Bool :=
  isBlank c && !('\x1c' ≤ c && c ≤ '\x1f')

def wholeNumber? (text : String) : Option Int := do
  let cs := trim isSpacing text.toList
  let negative := cs.head? = some '-'
  let cs := if negative ∨ cs.head? = some '+' then cs.drop 1 else cs
  let digits ← digitValues? cs
  if longestNumeral < digits.length then
    none
  else
    let size : Nat := digits.foldl (fun n digit => n * 10 + digit) 0
    pure (if negative then -size else size)

def isNegativeNumber (text : String) : Bool :=
  let isDigit (c : Char) : Bool := (digitValue? c).isSome
  let cs := text.toList
  let cs := if cs.getLast? = some '\n' then cs.dropLast else cs
  match cs with
  | '-' :: cs =>
    match cs.dropWhile isDigit with
    | [] => !cs.isEmpty
    | '.' :: fraction => !fraction.isEmpty && fraction.all isDigit
    | _ => false
  | _ => false

end Text
end MethodHistory
