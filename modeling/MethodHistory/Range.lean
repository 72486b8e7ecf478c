import MethodHistory.Commit
import MethodHistory.Failure

/-!
This module contains resolved ranges of commits and the selection of the revisions of a file that
take part in a range. The newest revision in front of the range supplies the content to start from.
-/

namespace MethodHistory

structure Range where
  lower : Option String
  upper : Option String
  commits : List String
  dateMin : Instant
  dateMax : Instant
  mode : Mode
  deriving DecidableEq

namespace Range

/--
The commits whose changes are mined. The lower end of a positional range only supplies contents.
-/
def minedCommits (range : Range) : List String :=
  match range.mode with
  | .positional => range.commits.filter (some · ≠ range.lower)
  | .date => range.commits

def isEmpty (range : Range) : Bool :=
  range.minedCommits.isEmpty

/--
The range between two commits of a list, both included; empty if the upper one is the older one.
-/
def block (commits : List Commit) (lower upper : Commit) : Range :=
  let selected :=
    if lower.position < upper.position then []
    else (commits.drop upper.position).take (lower.position + 1 - upper.position)
  { lower := lower.id
    upper := upper.id
    commits := selected.map (·.id)
    dateMin := lower.date
    dateMax := upper.date
    mode := .positional }

def covers (range : Range) (date : Instant) : Bool :=
  range.dateMin ≤ date ∧ date ≤ range.dateMax

end Range

/--
Whether a date lies in a window of which the ends can be missing. What is missing is refused where
it is compared: the upper end only with a date that is not before the lower one.
-/
def windowCovers (dateMin dateMax date : Option Instant) : Except Misuse Bool :=
  let kind (date : Option Instant) : String :=
    if date.isSome then "datetime.datetime" else "NoneType"
  let refused (a b : Option Instant) : Except Misuse Bool :=
    .error (.notOrdered "<=" (kind a) (kind b))
  match dateMin, date, dateMax with
  | some low, some day, some high => .ok (low ≤ day ∧ day ≤ high)
  | some low, some day, none => if low ≤ day then refused date dateMax else .ok false
  | _, _, _ => refused dateMin date

/--
The revisions of a file that take part in a range, the most recent one first, and the revision in
front of them.
-/
structure FileHistory where
  path : String
  revisions : List Revision
  boundary : Option Revision
  deriving DecidableEq

namespace FileHistory

def nothing (path : String) : FileHistory :=
  ⟨path, [], none⟩

def chronological (history : FileHistory) : List Revision :=
  history.boundary.toList ++ history.revisions.reverse

def pairs (history : FileHistory) : List (Revision × Revision) :=
  history.chronological.zip history.chronological.tail

def length (history : FileHistory) : Nat :=
  history.revisions.length + history.boundary.toList.length

def best? {α : Type} (better : α → α → Bool) (xs : List α) : Option α :=
  xs.foldl (fun best x =>
    match best with
    | none => some x
    | some y => if better x y then some x else best) none

/--
The revisions at the commits to diff, ordered by position, and the revision at the lower end or next
behind it. Revisions off the list of commits are left out.
-/
def ofBlock (position : String → Option Nat) (range : Range) (path : String)
    (revisions : List Revision) : FileHistory :=
  let placed := revisions.filterMap fun revision =>
    (position revision.commit).map fun place => (place, revision)
  let (inside, outside) := placed.partition fun (_, revision) =>
    range.minedCommits.contains revision.commit
  let before := outside.filter fun (place, _) =>
    (range.lower.bind position).any (· ≤ place)
  if inside.isEmpty then
    nothing path
  else
    { path
      revisions := (inside.mergeSort fun a b => a.1 ≤ b.1).map (·.2)
      boundary := (best? (fun a b => a.1 < b.1) before).map (·.2) }

/--
The revisions in the window of dates, ordered by date, and the latest one before the window. A file
with a single revision has nothing to diff.
-/
def ofWindow (range : Range) (path : String) (revisions : List Revision) : FileHistory :=
  let inside := revisions.filter fun revision => range.covers revision.date
  let before := revisions.filter fun revision => revision.date < range.dateMin
  if revisions.length ≤ 1 ∨ inside.isEmpty then
    nothing path
  else
    { path
      revisions := inside.mergeSort fun a b => b.date ≤ a.date
      boundary := best? (fun a b => b.date < a.date) before }

end FileHistory
end MethodHistory
