import MethodHistory.Diff.File
import MethodHistory.Failure
import MethodHistory.Syntax.Language

/-!
This module contains the engines that compare two versions of a file, and the valid events of
methods among the changes that they find.
-/

namespace MethodHistory

structure Snapshot where
  label : String
  content : Option ByteArray

inductive EngineFault where
  | comparison (fault : ComparisonFault)
  | unread (reason : String)
  | other (reason : String)

abbrev Engine : Type :=
  Snapshot → Snapshot → Except EngineFault (List Change)

def Document.tree (document : Document) (label : String) : Except ComparisonFault Node :=
  if document.hasError then .error (.syntaxErrors label) else .ok document.root

def documentChanges (thresholds : Thresholds) (oldLabel : String) (old : Document)
    (newLabel : String) (new : Document) : Except ComparisonFault (List Change) := do
  let old ← old.tree oldLabel
  let new ← new.tree newLabel
  pure (fileChanges thresholds old new)

def structuralEngine (load : String → Except String (ByteArray → Document))
    (thresholds : Thresholds) : Engine :=
  fun previous actual => do
    let old ← tree previous
    let new ← tree actual
    pure (fileChanges thresholds old new)
where
  tree (snapshot : Snapshot) : Except EngineFault Node :=
    match snapshot.content with
    | none =>
      let fault : FileFault := ⟨.missing, snapshot.label⟩
      .error (.comparison (.unreadable snapshot.label fault.message))
    | some content => do
      let grammar ← (Language.grammar load (some "java")).mapError fun fault => .other fault.message
      ((grammar content).tree snapshot.label).mapError .comparison

def hasCompared (result : Except EngineFault (List Change)) : Bool :=
  !(result matches .error (.unread _))

def eventsOf (file : String) (result : Except EngineFault (List Change))
    : Except ComparisonFault (List Event) :=
  match result with
  | .ok changes => .ok (changes.filterMap (·.event? file))
  | .error (.comparison fault) => .error fault
  | .error (.unread reason) | .error (.other reason) => .error (.engineFailed file reason)

def Engine.events (engine : Engine) (previous actual : Snapshot) (file : String)
    : Except ComparisonFault (List Event) :=
  eventsOf file (engine previous actual)

end MethodHistory
