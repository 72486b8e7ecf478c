import MethodHistory.Folder

/-!
This module contains the snapshots of two versions of a file: two slots, each with a file of its own
in a directory. The slots rotate as the revisions of a file are walked through, and are removed at
the end.
-/

namespace MethodHistory

/--
The path of a snapshot. No two snapshots of a directory have the same number.
-/
structure SnapshotPath where
  number : Nat
  suffix : String
  deriving DecidableEq

namespace SnapshotPath

def stem (path : SnapshotPath) : String :=
  let digits := toString path.number
  "snapshot-" ++ "".pushn '0' (10 - digits.length) ++ digits

def name (path : SnapshotPath) : String :=
  path.stem ++ path.suffix

def stemLength : Nat :=
  19

/--
Why no file can have a name with a suffix: slashes at the end are for directories, and any other
slash makes the name in front of it that of a directory that is not there.
-/
def trouble? (limits : NameLimits) (suffix : String) : Option FileTrouble :=
  let first := suffix.toList.takeWhile (· ≠ '/')
  let slashes := suffix.toList.drop first.length
  if suffix.toList.contains '\x00' then some .nullCharacter
  else if limits.path < suffix.utf8ByteSize then some .nameTooLong
  else if !slashes.isEmpty && slashes.all (· = '/') then some .isDirectory
  else if limits.name < stemLength + (String.ofList first).utf8ByteSize then some .nameTooLong
  else if suffix.toList.contains '/' then some .missing
  else none

end SnapshotPath

inductive Entry where
  | file (content : ByteArray)
  | directory

structure Directory where
  entries : List (SnapshotPath × Entry)
  next : Nat

namespace Directory

def empty : Directory :=
  ⟨[], 0⟩

def get? (directory : Directory) (path : SnapshotPath) : Option Entry :=
  directory.entries.lookup path

def erase (directory : Directory) (path : SnapshotPath) : Directory :=
  { directory with entries := directory.entries.filter (·.1 ≠ path) }

def put (directory : Directory) (path : SnapshotPath) (entry : Entry) : Directory :=
  { directory with entries := (directory.erase path).entries ++ [(path, entry)] }

def create (directory : Directory) (limits : NameLimits) (suffix : String)
    : Except SnapshotFault (SnapshotPath × Directory) :=
  match SnapshotPath.trouble? limits suffix with
  | some trouble => .error (.path trouble)
  | none =>
    let path : SnapshotPath := ⟨directory.next, suffix⟩
    .ok (path, { directory.put path (.file .empty) with next := directory.next + 1 })

def unlink (directory : Directory) (path : Option SnapshotPath)
    : Except SnapshotFault Directory :=
  match path with
  | none => .error .noSlot
  | some path =>
    match directory.get? path with
    | some (.file _) => .ok (directory.erase path)
    | some .directory => .error (.path .isDirectory)
    | none => .error (.path .missing)

def remove (directory : Directory) (path : Option SnapshotPath) : Directory :=
  match directory.unlink path with
  | .ok directory => directory
  | .error _ => directory

def read? (directory : Directory) (path : SnapshotPath) : Option ByteArray :=
  match directory.get? path with
  | some (.file content) => some content
  | _ => none

def write (directory : Directory) (path : Option SnapshotPath) (content : ByteArray)
    : Except SnapshotFault Directory :=
  match path with
  | none => .error .noSlot
  | some path =>
    match directory.get? path with
    | some .directory => .error (.path .isDirectory)
    | _ => .ok (directory.put path (.file content))

end Directory

structure Slots where
  limits : NameLimits
  suffix : String
  previous : Option SnapshotPath
  actual : Option SnapshotPath

namespace Slots

def closed (limits : NameLimits) (suffix : String) : Slots :=
  ⟨limits, suffix, none, none⟩

def enter (slots : Slots) (directory : Directory)
    : Except SnapshotFault (Slots × Directory) := do
  let (previous, directory) ← directory.create slots.limits slots.suffix
  let (actual, directory) ← directory.create slots.limits slots.suffix
  pure ({ slots with previous, actual }, directory)

def swap (slots : Slots) (directory : Directory)
    : Except SnapshotFault (Slots × Directory) := do
  let (actual, directory) ← directory.create slots.limits slots.suffix
  pure ({ slots with previous := slots.actual, actual }, directory.remove slots.previous)

def close (slots : Slots) (directory : Directory) : Slots × Directory :=
  (closed slots.limits slots.suffix, (directory.remove slots.previous).remove slots.actual)

end Slots

/--
The suffix of the last component of a path, from its last point on; a point at either end of the
component starts no suffix.
-/
def suffixIn (path : List Char) : List Char :=
  let parts := (path.splitOn '/').filter fun part => part ≠ [] ∧ part ≠ ['.']
  let name := parts.getLast?.getD []
  let suffix := (name.reverse.takeWhile (· ≠ '.')).reverse
  let stem := name.take (name.length - suffix.length - 1)
  if suffix.isEmpty ∨ stem.isEmpty ∨ suffix.length = name.length then []
  else '.' :: suffix

end MethodHistory
