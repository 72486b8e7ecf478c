import MethodHistory.Diff.Body
import MethodHistory.Syntax.Declaration

/-!
This module contains the comparison of two versions of a method: its name, its access, its return
type, its parameters, its documentation and its body.
-/

namespace MethodHistory

namespace ParameterDiff

def named (parameters : List Parameter) (name : String) : Option Parameter :=
  (parameters.filter (·.name = name)).getLast?

def without (parameters others : List Parameter) : List Parameter :=
  parameters.filter fun parameter => others.all (·.name ≠ parameter.name)

def common (parameters others : List Parameter) : List String :=
  (parameters.map (·.name)).filter fun name => others.any (·.name = name)

def edit (kind : ChangeKind) (before after : Option Parameter) : Edit :=
  ⟨kind, "formal_parameter", before.map Parameter.text, after.map Parameter.text⟩

/--
A removed parameter takes the first added one of its type as its new name.
-/
def renamings (olds news : List Parameter) : List Edit :=
  let (removed, added) :=
    firstFit (fun old new : Parameter => new.type = old.type)
      (without olds news) (without news olds)
  removed.map (fun
    | (old, some new) => edit .parameterRenaming (some old) (some new)
    | (old, none) => edit .parameterDelete (some old) none)
    ++ added.map fun new => edit .parameterInsert none (some new)

def typeChanges (olds news : List Parameter) : List Edit :=
  news.filterMap fun (new : Parameter) =>
    (named olds new.name).bind fun old =>
      if old.type ≠ new.type then some (edit .parameterTypeChange (some old) (some new)) else none

def keptInOrder (olds news : List String) : List String :=
  (align id (fun _ => true) olds news).flatMap fun
    | .run _ news => news
    | .gap .. => []

def reorderings (olds news : List Parameter) : List Edit :=
  let oldOrder := common olds news
  let newOrder := common news olds
  if oldOrder = newOrder then
    []
  else
    let kept := keptInOrder oldOrder newOrder
    (newOrder.filter (!kept.contains ·)).map fun name =>
      edit .parameterOrderingChange (named olds name) (named news name)

end ParameterDiff

def parameterEdits (olds news : List Parameter) : List Edit :=
  ParameterDiff.renamings olds news ++ ParameterDiff.typeChanges olds news
    ++ ParameterDiff.reorderings olds news

namespace MethodDiff

def nameEdits (old new : Method) : List Edit :=
  if old.name ≠ new.name then
    [⟨.methodRenaming, "method_declaration", old.name, new.name⟩]
  else
    []

def accessEdits (old new : Access) : List Edit :=
  if old.rank < new.rank then
    [⟨.increasingAccessibilityChange, "modifiers", old.label, new.label⟩]
  else if new.rank < old.rank then
    [⟨.decreasingAccessibilityChange, "modifiers", old.label, new.label⟩]
  else
    []

def returnTypeEdits (old new : Option String) : List Edit :=
  match old, new with
  | none, none => []
  | none, some new => [⟨.returnTypeInsert, "type", none, new⟩]
  | some old, none => [⟨.returnTypeDelete, "type", old, none⟩]
  | some old, some new => if old ≠ new then [⟨.returnTypeChange, "type", old, new⟩] else []

def docEdits (old new : Option String) : List Edit :=
  let old := Text.normalize (old.getD "")
  let new := Text.normalize (new.getD "")
  let orNone (text : String) := if text.isEmpty then none else some text
  if old ≠ new then [⟨.docUpdate, "javadoc", orNone old, orNone new⟩] else []

end MethodDiff

def methodEdits (threshold : Float) (old new : Method) : List Edit :=
  MethodDiff.nameEdits old new ++ MethodDiff.accessEdits old.access new.access
    ++ MethodDiff.returnTypeEdits old.returnType new.returnType
    ++ parameterEdits old.parameters new.parameters
    ++ MethodDiff.docEdits old.doc new.doc
    ++ bodyEdits threshold old.body new.body

end MethodHistory
