/-!
This module contains patterns and the texts that match them from their start. Where a pattern leaves
a choice, the choices are tried in order, and the first one with which the rest of the pattern can
be matched counts.
-/

namespace MethodHistory
namespace Text

inductive Preference where
  | longest
  | shortest
  deriving DecidableEq

inductive Piece where
  | exactly (part : List Char)
  /-- A part that may be missing. It is tried first whether it is there. -/
  | perhaps (part : List Char)
  /-- One character with a property, or several ones. They are captured. -/
  | run (holds : Char → Bool) (preference : Preference)
  /-- The end of a text, or of its last line. -/
  | ending

abbrev Pattern : Type :=
  List Piece

def after? (start cs : List Char) : Option (List Char) :=
  if start.isPrefixOf cs then some (cs.drop start.length) else none

def runs (holds : Char → Bool) : List Char → List (List Char × List Char)
  | [] => []
  | c :: cs =>
    if holds c then ([c], cs) :: (runs holds cs).map fun (run, rest) => (c :: run, rest) else []

def Preference.order {α : Type} : Preference → List α → List α
  | longest, runs => runs.reverse
  | shortest, runs => runs

def Pattern.captured? : Pattern → List Char → Option (List (List Char))
  | [], _ => some []
  | .exactly part :: pieces, cs => (after? part cs).bind (captured? pieces)
  | .perhaps part :: pieces, cs =>
    ((after? part cs).bind (captured? pieces)).or (captured? pieces cs)
  | .run holds preference :: pieces, cs =>
    (preference.order (runs holds cs)).findSome?
      fun (run, rest) => (captured? pieces rest).map (run :: ·)
  | .ending :: pieces, cs => if cs = [] ∨ cs = ['\n'] then captured? pieces cs else none

namespace Pattern

variable (part cs : List Char) (pieces : Pattern)

theorem captured?_exactly
    : captured? (.exactly part :: pieces) cs = (after? part cs).bind (captured? pieces) :=
  rfl

theorem captured?_perhaps
    : captured? (.perhaps part :: pieces) cs =
        ((after? part cs).bind (captured? pieces)).or (captured? pieces cs) :=
  rfl

theorem captured?_run (holds : Char → Bool) (preference : Preference)
    : captured? (.run holds preference :: pieces) cs =
        (preference.order (runs holds cs)).findSome?
          fun (run, rest) => (captured? pieces rest).map (run :: ·) :=
  rfl

theorem captured?_ending
    : captured? (.ending :: pieces) cs =
        if cs = [] ∨ cs = ['\n'] then captured? pieces cs else none :=
  rfl

end Pattern
end Text
end MethodHistory
