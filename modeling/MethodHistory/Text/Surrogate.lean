/-!
This module contains the halves of surrogate pairs, and the loose texts, in which halves can stand
without the other one. A text has no such halves, but a JSON text can name them.
-/

namespace MethodHistory
namespace Text

def isHighHalf (unit : Nat) : Bool :=
  0xD800 ≤ unit && unit < 0xDC00

def isLowHalf (unit : Nat) : Bool :=
  0xDC00 ≤ unit && unit < 0xE000

def joinHalves (high low : Nat) : Nat :=
  0x10000 + (high - 0xD800) * 0x400 + (low - 0xDC00)

/--
A text up to the first half that stands alone, and each such half with the text between it and the
next one.
-/
structure Loose where
  start : String
  rest : List (Nat × String)
  deriving DecidableEq

namespace Loose

def ofText (text : String) : Loose :=
  ⟨text, []⟩

instance : Coe String Loose :=
  ⟨ofText⟩

def text? (text : Loose) : Option String :=
  if text.rest.isEmpty then some text.start else none

@[simp]
theorem text?_ofText (text : String) : (ofText text).text? = some text :=
  rfl

def isEmpty (text : Loose) : Bool :=
  text.start.isEmpty && text.rest.isEmpty

def map (change : String → String) (text : Loose) : Loose :=
  ⟨change text.start, text.rest.map fun (half, part) => (half, change part)⟩

def write {α : Type} (character : Char → List α) (half : Nat → List α) (text : Loose) : List α :=
  text.start.toList.flatMap character
    ++ text.rest.flatMap fun (unit, part) => half unit ++ part.toList.flatMap character

@[simp]
theorem write_ofText {α : Type} (character : Char → List α) (half : Nat → List α) (text : String)
    : (ofText text).write character half = text.toList.flatMap character := by
  simp [write, ofText]

def points (text : Loose) : List Nat :=
  text.write (fun c => [c.toNat]) fun unit => [unit]

def pieces (text : Loose) : List Loose :=
  text.write (fun c => [ofText (String.singleton c)]) fun unit => [⟨"", [(unit, "")]⟩]

def replaced (text : Loose) : String :=
  .ofList (text.write (fun c => [c]) fun _ => ['\uFFFD'])

end Loose
end Text
end MethodHistory
