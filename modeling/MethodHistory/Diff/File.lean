import MethodHistory.Diff.Matching
import MethodHistory.Diff.Signature

/-!
This module contains the comparison of two versions of a file: the types and the fields that come
and go, and the methods, each compared with the one that it is matched with.
-/

namespace MethodHistory

namespace FileDiff

def typeChanges (olds news : List TypeDeclaration) : List Change :=
  let olds := Table.latest TypeDeclaration.name olds
  let news := Table.latest TypeDeclaration.name news
  (news.filter fun new => olds.all (·.name ≠ new.name)).map (fun new =>
      ⟨.additionalClass, none, new.name, new.kind, none, new.name⟩)
    ++ (olds.filter fun old => news.all (·.name ≠ old.name)).map (fun old =>
      ⟨.removedClass, none, old.name, old.kind, old.name, none⟩)

def fieldKey (field : FieldDeclaration) : String × String :=
  (field.owner, field.name)

def fieldChanges (olds news : List FieldDeclaration) : List Change :=
  let olds := Table.latest fieldKey olds
  let news := Table.latest fieldKey news
  (news.filter fun new => olds.all fun old => fieldKey old ≠ fieldKey new).map (fun new =>
      ⟨.additionalObjectState, none, new.owner, "field_declaration", none, new.text⟩)
    ++ (olds.filter fun old => news.all fun new => fieldKey new ≠ fieldKey old).map (fun old =>
      ⟨.removedObjectState, none, old.owner, "field_declaration", old.text, none⟩)

def ofEdit (method : Method) (edit : Edit) : Change :=
  ⟨edit.kind, method.signature, method.owner, edit.entity, edit.before, edit.after⟩

def methodChange (threshold : Float) (matching : List MethodMatch) (olds : List Method)
    (new : Placed) : List Change :=
  match (matching.find? (·.new = new.place)).bind fun found => olds[found.old]? with
  | some old => (methodEdits threshold old new.method).map (ofEdit new.method)
  | none =>
    [⟨.additionalFunctionality, none, new.method.owner, new.method.kind, none,
      new.method.signature⟩]

def methodChanges (thresholds : Thresholds) (olds news : List Method) : List Change :=
  let matching := methodMatching thresholds.rename olds news
  (Placed.all news).flatMap (methodChange thresholds.update matching olds)
    ++ (Matching.freeOlds matching (Placed.all olds)).map fun old =>
      ⟨.removedFunctionality, none, old.method.owner, old.method.kind, old.method.signature, none⟩

end FileDiff

def fileChanges (thresholds : Thresholds) (old new : Node) : List Change :=
  FileDiff.typeChanges old.types new.types ++ FileDiff.fieldChanges old.fields new.fields
    ++ FileDiff.methodChanges thresholds old.methods new.methods

end MethodHistory
