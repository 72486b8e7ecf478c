/-!
This module contains the blank characters, the words of a text and its normal form, in which the
words are joined by single spaces. Two texts that differ in their layout only have the same normal
form.
-/

namespace MethodHistory
namespace Text

def isBlank (c : Char) : Bool :=
  let n := c.toNat
  (0x09 ≤ n && n ≤ 0x0D) || (0x1C ≤ n && n ≤ 0x20) || n == 0x85 || n == 0xA0 || n == 0x1680
    || (0x2000 ≤ n && n ≤ 0x200A) || n == 0x2028 || n == 0x2029 || n == 0x202F || n == 0x205F
    || n == 0x3000

def words (cs : List Char) : List (List Char) :=
  go [] cs
where
  go (word : List Char) (cs : List Char) : List (List Char) :=
    match cs with
    | [] => close word []
    | c :: cs => if isBlank c then close word (go [] cs) else go (c :: word) cs
  close (word : List Char) (rest : List (List Char)) : List (List Char) :=
    if word.isEmpty then rest else word.reverse :: rest

def joined (words : List (List Char)) : List Char :=
  List.intercalate [' '] words

def normalize (text : String) : String :=
  .ofList (joined (words text.toList))

def trimEnd (drop : Char → Bool) (cs : List Char) : List Char :=
  (cs.reverse.dropWhile drop).reverse

def trim (drop : Char → Bool) (cs : List Char) : List Char :=
  trimEnd drop (cs.dropWhile drop)

def strip (text : String) : String :=
  .ofList (trim isBlank text.toList)

end Text
end MethodHistory
