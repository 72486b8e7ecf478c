import MethodHistory.Change.Record

/-!
This module contains the admission of records: of an accepted kind, and the first one with its key.
-/

namespace MethodHistory

def accept (keys : List String) (record : Record) : Bool × List String :=
  if !record.event.kind.isMined || keys.contains record.key then (false, keys)
  else (true, keys ++ [record.key])

end MethodHistory
