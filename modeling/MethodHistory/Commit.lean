import MethodHistory.Time.Instant

/-!
This module contains the commits of a repository, what is told of them, and the revisions of a file.
-/

namespace MethodHistory

structure Commit where
  id : String
  author : Option String
  email : Option String
  date : Instant
  message : Option String
  position : Nat
  deriving DecidableEq

/--
The commit with an id; of several ones the last in the list.
-/
def commitIn (commits : List Commit) (id : String) : Option Commit :=
  commits.reverse.find? (·.id = id)

def positionIn (commits : List Commit) (id : String) : Option Nat :=
  (commitIn commits id).map (·.position)

structure Attribution where
  id : Option String
  author : Option String
  email : Option String
  date : Instant
  message : Option String
  deriving DecidableEq

def Commit.attribution (commit : Commit) : Attribution :=
  ⟨commit.id, commit.author, commit.email, commit.date, commit.message⟩

structure Revision where
  commit : String
  date : Instant
  deriving DecidableEq

def Commit.ofRevision (revision : Revision) : Commit :=
  ⟨revision.commit, some "", none, revision.date, some "", 0⟩

end MethodHistory
