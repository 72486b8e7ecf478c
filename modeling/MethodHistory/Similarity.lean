import MethodHistory.Alignment
import MethodHistory.Text.Words

/-!
This module contains the similarity of two texts: twice the number of aligned characters of their
normal forms over the number of all their characters.
-/

namespace MethodHistory
namespace Similarity

/--
The characters that fill too much of a long text to start a run: from 200 characters on, those that
occur more than once in a hundred characters, and once more.
-/
def popular (cs : List Char) : List Char :=
  if 200 ≤ cs.length then
    cs.eraseDups.filter fun c => cs.length / 100 + 1 < cs.count c
  else
    []

def matched (olds news : List Char) : Nat :=
  let common := popular news
  (align id (fun c => !common.contains c) olds news).foldr
    (fun segment total => segment.runSize + total) 0

def ratio (olds news : List Char) : Rat :=
  if olds.length + news.length = 0 then 1
  else (2 * matched olds news : Nat) / (olds.length + news.length : Nat)

def toFloat (q : Rat) : Float :=
  Float.ofInt q.num / Float.ofNat q.den

def reaches (threshold : Float) (q : Rat) : Bool :=
  threshold ≤ toFloat q

end Similarity

def similarity (old new : String) : Rat :=
  if old.isEmpty || new.isEmpty then 0
  else Similarity.ratio (Text.normalize old).toList (Text.normalize new).toList

end MethodHistory
