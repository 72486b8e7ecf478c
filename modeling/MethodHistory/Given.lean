import MethodHistory.Json.Quoted
import MethodHistory.Misuse

/-!
This module contains what can be given for a value of a type: a value of it, nothing, or a value of
another kind, which is refused where it is used.
-/

namespace MethodHistory

/--
Whatever is empty counts as nothing. What is no value of the type keeps its wording in messages, and
the name of its kind if it is refused.
-/
inductive Given (α : Type) where
  | nothing (shown : String)
  | value (a : α)
  | misfit (kind shown : String)
  deriving DecidableEq

namespace Given

variable {α : Type}

def ofJson (read : Json → Option α) (json : Json) : Given α :=
  if !json.isTrue then nothing json.shown
  else
    match read json with
    | some a => value a
    | none => misfit json.kind json.shown

def text (json : Json) : Given String :=
  ofJson Json.text? json

def ignoring [DecidableEq α] (a : α) : Given α → Given α
  | value b => if b = a then nothing "" else value b
  | given => given

def shown : Given String → String
  | nothing shown | value shown | misfit _ shown => shown

def asking (member : String) : Given α → Except Misuse (Option α)
  | nothing _ => .ok none
  | value a => .ok (some a)
  | misfit kind _ => .error (.noMember kind member)

end Given
end MethodHistory
