import MethodHistory.Text.Surrogate

/-!
This module contains the values that JSON texts denote and the ways to look into them.
-/

namespace MethodHistory

/--
A JSON value. Numbers with a fraction or an exponent are kept apart from whole numbers. Texts and
names can have halves of surrogate pairs in them.
-/
inductive Json where
  | null
  | bool (value : Bool)
  | whole (value : Int)
  | real (value : Float)
  | text (value : Text.Loose)
  | list (items : List Json)
  | object (members : List (Text.Loose × Json))

inductive PayloadFault where
  | notJson
  | longNumeral
  | tooDeep
  | missingKey (key : String)
  | wrongType
  | noSuchMember
  | invalidDate
  deriving DecidableEq

namespace Json

def kind : Json → String
  | null => "NoneType"
  | bool _ => "bool"
  | whole _ => "int"
  | real _ => "float"
  | text _ => "str"
  | list _ => "list"
  | object _ => "dict"

def ofFields (fields : List (String × Json)) : Json :=
  object (fields.map fun (name, value) => (.ofText name, value))

/--
The member of an object; of several ones with a name the last.
-/
def lookup (name : String) (members : List (Text.Loose × Json)) : Option Json :=
  (members.reverse.find? (·.1 = .ofText name)).map (·.2)

def member (name : String) : Json → Except PayloadFault Json
  | object members =>
    match lookup name members with
    | some value => .ok value
    | none => .error (.missingKey name)
  | _ => .error .wrongType

def member? (name : String) : Json → Except PayloadFault (Option Json)
  | object members => .ok (lookup name members)
  | _ => .error .noSuchMember

def items? : Json → Option (List Json)
  | list items => some items
  | object members => some (members.map fun (name, _) => text name)
  | text value => some (value.pieces.map text)
  | _ => none

def items (json : Json) : Except PayloadFault (List Json) :=
  match json.items? with
  | some items => .ok items
  | none => .error .wrongType

def text? : Json → Option String
  | text value => some value.replaced
  | _ => none

def ofText? (text? : Option String) : Json :=
  (text?.map fun value => text value).getD null

/--
All values count as true but for nulls, zeros and what is empty.
-/
def isTrue : Json → Bool
  | null => false
  | bool value => value
  | whole value => value ≠ 0
  | real value => value != 0
  | text value => !value.isEmpty
  | list items => !items.isEmpty
  | object members => !members.isEmpty

end Json
end MethodHistory
