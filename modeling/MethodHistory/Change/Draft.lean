import MethodHistory.Change.Record

/-!
This module contains records of which a date can be missing. They can be admitted and kept like any
other record, but not be written.
-/

namespace MethodHistory

/--
A record, and whether one of its dates only stands in for a missing one.
-/
structure Draft where
  record : Record
  lacksDate : Bool

def Draft.finished (draft : Draft) : Except Misuse Record :=
  if draft.lacksDate then .error (.noMember "NoneType" "isoformat") else .ok draft.record

end MethodHistory
