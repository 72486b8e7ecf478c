import MethodHistory.Change.Kind

/-!
This module contains the changes between two versions of a file and the events made of them, which
belong to a method and carry the path of the file.
-/

namespace MethodHistory

structure Change where
  kind : ChangeKind
  method : Option String
  owner : Option String
  entity : Option String
  before : Option String
  after : Option String
  deriving DecidableEq

structure Event where
  kind : ChangeKind
  method : Option String
  file : Option String
  owner : Option String
  entity : Option String
  before : Option String
  after : Option String
  deriving DecidableEq

def isPresent (text : Option String) : Bool :=
  text.any (!·.isEmpty)

namespace Event

def isComplete (event : Event) : Bool :=
  isPresent event.method && isPresent event.file
    && !(event.kind.needsAfter && !isPresent event.after)
    && !(event.kind.needsBefore && !isPresent event.before)
    && !(event.kind.needsBoth && !(isPresent event.before && isPresent event.after))
    && !(event.kind.needsDifferent && event.before = event.after)

end Event

def Change.event? (file : String) (change : Change) : Option Event :=
  let event : Event :=
    ⟨change.kind, change.method, file, change.owner, change.entity, change.before, change.after⟩
  if event.isComplete then some event else none

end MethodHistory
