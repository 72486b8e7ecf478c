/-!
This module contains the lines of a text.
-/

namespace MethodHistory
namespace Text

def lineFeeds : List Char → List Char
  | '\r' :: '\n' :: cs => '\n' :: lineFeeds cs
  | '\r' :: cs => '\n' :: lineFeeds cs
  | c :: cs => c :: lineFeeds cs
  | [] => []

def isLineEnd (c : Char) : Bool :=
  ['\n', '\r', '\x0b', '\x0c', '\x1c', '\x1d', '\x1e', '\u0085', '\u2028', '\u2029'].contains c

def lines (text : String) : List String :=
  (go [] text.toList).map .ofList
where
  go (line : List Char) : List Char → List (List Char)
    | [] => if line.isEmpty then [] else [line.reverse]
    | '\r' :: '\n' :: cs => line.reverse :: go [] cs
    | c :: cs => if isLineEnd c then line.reverse :: go [] cs else go (c :: line) cs

end Text
end MethodHistory
