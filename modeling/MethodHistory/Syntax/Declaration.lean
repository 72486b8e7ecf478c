import MethodHistory.Syntax.Statement

/-!
This module contains the declarations of a source file: its types with their nesting, their fields,
and their methods and constructors.
-/

namespace MethodHistory

structure TypeDeclaration where
  name : String
  kind : String
  body : Option Node

namespace Node

def isTypeDeclaration (node : Node) : Bool :=
  ["class_declaration", "interface_declaration", "enum_declaration", "record_declaration",
    "annotation_type_declaration"].contains node.kind

def isContainer (node : Node) : Bool :=
  ["program", "class_body", "interface_body", "enum_body", "enum_body_declarations",
    "annotation_type_body"].contains node.kind

def types (node : Node) : List TypeDeclaration :=
  go "" node
where
  go (outer : String) (node : Node) : List TypeDeclaration :=
    node.namedChildren.attach.flatMap fun ⟨child, _hc⟩ =>
      if child.isTypeDeclaration then
        let name := child.childText "name"
        let name := if outer.isEmpty then name else outer ++ "." ++ name
        ⟨name, child.kind, child.child? "body"⟩ ::
          match _hb : child.child? "body" with
          | some body => go name body
          | none => []
      else if child.isContainer then
        go outer child
      else
        []
  termination_by node
  decreasing_by
    . exact Nat.lt_trans (sizeOf_lt_of_child? _hb) (sizeOf_lt_of_mem_namedChildren _hc)
    . exact sizeOf_lt_of_mem_namedChildren _hc

def siblings (node : Node) : List (Option Node × Node) :=
  (none :: node.namedChildren.map some).zip node.namedChildren

end Node

/--
The members of a type, each with the node in front of it. The declarations behind the constants of
an enumeration are members as well.
-/
def TypeDeclaration.members (type : TypeDeclaration) : List (Option Node × Node) :=
  match type.body with
  | none => []
  | some body =>
    body.siblings.flatMap fun (previous, child) =>
      if child.kind = "enum_body_declarations" then child.siblings else [(previous, child)]

structure FieldDeclaration where
  owner : String
  name : String
  type : String
  text : String

def Node.fields (node : Node) : List FieldDeclaration :=
  node.types.flatMap fun type =>
    type.members.flatMap fun (_, member) =>
      if member.kind = "field_declaration" then
        (member.namedChildren.filter (·.kind = "variable_declarator")).map fun declarator =>
          { owner := type.name
            name := declarator.childText "name"
            type := member.normalChildText "type"
            text := Text.normalize member.text }
      else
        []

structure Parameter where
  type : String
  name : String
  deriving DecidableEq

namespace Parameter

def text (parameter : Parameter) : String :=
  parameter.type ++ " " ++ parameter.name

/--
The dimensions behind the name of a parameter belong to its type; a variable number of arguments is
written behind it.
-/
def ofNode? (node : Node) : Option Parameter :=
  if node.kind = "formal_parameter" then
    some ⟨Text.normalize (node.childText "type" ++ node.childText "dimensions"),
      node.childText "name"⟩
  else if node.kind = "spread_parameter" then
    let (declarators, others) := node.namedChildren.partition (·.kind = "variable_declarator")
    let types := (others.filter (·.kind ≠ "modifiers")).map Node.text
    let name := declarators.getLast?.map fun declarator => declarator.childText "name"
    some ⟨Text.normalize ((types.find? (!·.isEmpty)).getD "") ++ "...", name.getD ""⟩
  else
    none

end Parameter

inductive Access where
  | ownType
  | package
  | subtypes
  | everywhere
  deriving DecidableEq

namespace Access

def rank : Access → Nat
  | ownType => 0
  | package => 1
  | subtypes => 2
  | everywhere => 3

def label : Access → String
  | ownType => "private"
  | package => "package"
  | subtypes => "protected"
  | everywhere => "public"

/--
The widest access among the words of a modifier list.
-/
def ofModifiers? (text : String) : Option Access :=
  let words := (Text.words text.toList).map String.ofList
  [everywhere, subtypes, ownType].find? fun access => words.contains access.label

def ofNode (node : Node) (default : Access) : Access :=
  ((node.children.filter (·.kind = "modifiers")).findSome? fun modifiers =>
    ofModifiers? modifiers.text).getD default

end Access

structure Method where
  name : String
  owner : String
  parameters : List Parameter
  returnType : Option String
  access : Access
  isConstructor : Bool
  start : Nat
  stop : Nat
  source : String
  body : List Statement
  doc : Option String

namespace Method

def parameterTypes (method : Method) : List String :=
  method.parameters.map (·.type)

def signature (method : Method) : String :=
  method.owner ++ "." ++ method.name ++ "(" ++ ", ".intercalate method.parameterTypes ++ ")"

def kind (method : Method) : String :=
  if method.isConstructor then "constructor" else "method"

def docOf (previous : Option Node) : Option String :=
  (previous.filter (·.isComment)).bind fun comment =>
    if comment.text.startsWith "/**" then some comment.text else none

def ofNode (owner : String) (default : Access) (previous : Option Node) (node : Node) : Method :=
  let isConstructor := node.kind = "constructor_declaration"
  let returned := node.normalChildText "type"
  { name := node.childText "name"
    owner
    parameters := ((node.child? "parameters").map fun list =>
      list.namedChildren.filterMap Parameter.ofNode?).getD []
    returnType := if isConstructor || returned = "void" then none else some returned
    access := .ofNode node default
    isConstructor
    start := node.start
    stop := node.stop
    source := node.childText "body"
    body := Statement.ofBody (node.child? "body")
    doc := docOf previous }

end Method

def Node.methods (node : Node) : List Method :=
  node.types.flatMap fun type =>
    let default := if type.kind = "interface_declaration" then Access.everywhere else .package
    type.members.filterMap fun (previous, member) =>
      if ["method_declaration", "constructor_declaration"].contains member.kind then
        some (.ofNode type.name default previous member)
      else
        none

end MethodHistory
