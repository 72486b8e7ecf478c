import MethodHistory.Source
import MethodHistory.Text.Utf8

/-!
This module contains the repositories on this machine, by what their object stores answer, and the
sources that they are.
-/

namespace MethodHistory
namespace Local

structure LogEntry where
  id : String
  author : Option String
  email : Option String
  date : Instant
  message : ByteArray

structure TreeEntry where
  path : String
  isFile : Bool
  content : Except ObjectFault ByteArray

/--
What an object store answers: whether there is a commit at all, the log from the most recent commit
on, the log of a file, the tags with the ids of their commits, and the trees of commits.
-/
structure Repository where
  path : String
  hasHead : Bool
  log : Except ObjectFault (List LogEntry)
  fileLog : String → Except ObjectFault (List Revision)
  tags : List (String × Except ObjectFault String)
  tree : String → Except ObjectFault (List TreeEntry)

def LogEntry.commit (position : Nat) (entry : LogEntry) : Commit :=
  { id := entry.id
    author := entry.author
    email := entry.email
    date := entry.date
    message := some (.ofList (Text.trimEnd (· = '\n') (Text.Utf8.decode entry.message.toList)))
    position }

def commitsOf (entries : List LogEntry) : List Commit :=
  entries.zipIdx.map fun (entry, position) => entry.commit position

def takeTag (rows : List (String × String) × List String) (tag : String × Except ObjectFault String)
    : Except Failure (List (String × String) × List String) :=
  match tag.2 with
  | .ok id => .ok (rows.1 ++ [(tag.1, id)], rows.2)
  | .error (.value _) | .error (.object _) | .error (.name _) => .ok (rows.1, rows.2 ++ [tag.1])
  | .error fault => .error (.objects fault)

namespace Repository

variable (repository : Repository)

def allCommits : Except Failure (List Commit) :=
  let noCommits : Failure := .repository (.noCommits repository.path)
  if !repository.hasHead then
    .error noCommits
  else
    match repository.log with
    | .ok [] => .error noCommits
    | .ok entries => .ok (commitsOf entries)
    | .error (.command reason) | .error (.value reason) =>
      .error (.repository (.unreadableLog repository.path reason))
    | .error fault => .error (.objects fault)

def tagRows : Except Failure (List (String × String) × List String) :=
  repository.tags.foldlM takeTag ([], [])

def tagTarget (name : String) : Except Failure (Option String) := do
  let (tags, _) ← repository.tagRows
  pure (tags.reverse.lookup name)

def revisionsOf (path : String) : Except Failure (List Revision) :=
  match repository.fileLog path with
  | .ok revisions => .ok revisions
  | .error (.command reason) | .error (.value reason) =>
    .error (.revision (.unreadableHistory path reason))
  | .error fault => .error (.objects fault)

def contentAt (path commit : String) : Except Failure (Option ByteArray) :=
  match repository.tree commit with
  | .error (.value _) | .error (.object _) | .error (.name _) =>
    .error (.revision (.unknownCommit path commit))
  | .error fault => .error (.objects fault)
  | .ok entries =>
    match entries.find? (·.path = path) with
    | none => .ok none
    | some entry =>
      match entry.content with
      | .ok content => .ok (some content)
      | .error .noEntry => .ok none
      | .error (.command reason) | .error (.value reason) | .error (.object reason) =>
        .error (.revision (.unreadableContent path commit reason))
      | .error fault => .error (.objects fault)

def filesAt (package : Given String) (commit : String) (suffix : Given String)
    : Except Failure (List String) :=
  match repository.tree commit with
  | .error (.command reason) | .error (.value reason) | .error (.object reason)
  | .error (.name reason) => .error (.revision (.unlistedFiles commit reason))
  | .error fault => .error (.objects fault)
  | .ok entries => fittingPaths package suffix ((entries.filter (·.isFile)).map (·.path))

def source (package : Given String) : Source :=
  { allCommits := repository.allCommits
    tagTarget := repository.tagTarget
    revisionsOf := repository.revisionsOf
    contentAt := repository.contentAt
    filesAt := repository.filesAt package }

end Repository
end Local
end MethodHistory
