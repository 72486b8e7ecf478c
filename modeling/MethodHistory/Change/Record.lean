import MethodHistory.Change.Basic
import MethodHistory.Commit
import MethodHistory.ProjectName
import MethodHistory.Time.Iso

/-!
This module contains the records of mined changes: events with the commit and the project that they
are attributed to.
-/

namespace MethodHistory

structure Record where
  event : Event
  commit : Attribution
  project : ProjectName
  dateMin : Instant
  dateMax : Instant
  deriving DecidableEq

structure Identity where
  method : Option String
  commit : Option String
  project : ProjectName
  deriving DecidableEq

namespace Record

def key (record : Record) : String :=
  record.event.method.getD "None" ++ record.commit.id.getD "None"

def identity (record : Record) : Identity :=
  ⟨record.event.method, record.commit.id, record.project.distinct⟩

def fields (record : Record) : List (String × Json) :=
  [("key", .text record.key),
    ("project", record.project.toJson),
    ("method", .ofText? record.event.method),
    ("class", .ofText? record.event.owner),
    ("file", .ofText? record.event.file),
    ("change_type", .text record.event.kind.label),
    ("entity_type", .ofText? record.event.entity),
    ("before", .ofText? record.event.before),
    ("after", .ofText? record.event.after),
    ("commit_id", .ofText? record.commit.id),
    ("author", .ofText? record.commit.author),
    ("author_email", .ofText? record.commit.email),
    ("date", .text record.commit.date.toIso),
    ("message", .ofText? record.commit.message),
    ("date_min", .text record.dateMin.toIso),
    ("date_max", .text record.dateMax.toIso)]

end Record
end MethodHistory
