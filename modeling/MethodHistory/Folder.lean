import MethodHistory.Failure

/-!
This module contains a folder with what lies in it, and how paths lead through it.
-/

namespace MethodHistory

structure NameLimits where
  name : Nat
  path : Nat

/--
The files and the folders in a folder, each by the names that lead to it. The names that lead out of
the folder are `..` and, for the root of all paths, the slash.
-/
structure Folder where
  limits : NameLimits
  files : List (List String × String)
  folders : List (List String)

namespace Folder

def empty (limits : NameLimits) : Folder :=
  ⟨limits, [], []⟩

variable (folder : Folder)

def isFolder (place : List String) : Bool :=
  place.all (fun name => name = ".." ∨ name = "/") || folder.folders.contains place

def file? (place : List String) : Option String :=
  folder.files.reverse.lookup place

def put (place : List String) (content : String) : Folder :=
  let around := (List.range place.length).map fun length => place.take length
  { folder with files := folder.files ++ [(place, content)], folders := folder.folders ++ around }

def parent (place : List String) : List String :=
  match place.getLast? with
  | none | some ".." => place ++ [".."]
  | some "/" => place
  | some _ => place.dropLast

def enter (place : List String) (name : String) : Except FileTrouble (List String) :=
  if !folder.isFolder place then
    .error (if (folder.file? place).isSome then .notADirectory else .missing)
  else if name = "" ∨ name = "." then .ok place
  else if name = ".." then .ok (parent place)
  else if folder.limits.name < name.utf8ByteSize then .error .nameTooLong
  else .ok (place ++ [name])

def locate (path : String) : Except FileTrouble (List String) :=
  if path.toList.contains '\x00' then .error .nullCharacter
  else if path.isEmpty then .error .missing
  else if folder.limits.path < path.utf8ByteSize then .error .nameTooLong
  else
    match path.splitOn "/" with
    | "" :: names => names.foldlM folder.enter ["/"]
    | names => names.foldlM folder.enter []

def read (path : String) : Except FileFault String :=
  let content := do
    let place ← folder.locate path
    if folder.isFolder place then
      throw FileTrouble.isDirectory
    match folder.file? place with
    | some content => pure content
    | none => throw FileTrouble.missing
  content.mapError (⟨·, path⟩)

/-! Files that are written at their end -/

/--
The slashes in front of a path, and its names but for those that lead nowhere. Two slashes are kept;
otherwise one stands for all.
-/
def split {α : Type} [DecidableEq α] (slash point : α) (path : List α) : List α × List (List α) :=
  let root :=
    match path.takeWhile (· = slash) with
    | [first, second] => [first, second]
    | slashes => slashes.take 1
  (root, (path.splitOn slash).filter fun name => name ≠ [] ∧ name ≠ [point])

def names (path : String) : List String :=
  let (root, names) := split '/' '.' path.toList
  ((if root.isEmpty then [] else [root]) ++ names).map .ofList

def pathOf : List String → String
  | [] => "."
  | "/" :: names => "/" ++ "/".intercalate names
  | "//" :: names => "//" ++ "/".intercalate names
  | names => "/".intercalate names

def create (names : List String) : Except FileTrouble Folder := do
  let place ← folder.locate (pathOf names)
  if names.isEmpty ∨ folder.isFolder place ∨ (folder.file? place).isSome then
    throw .exists
  pure { folder with folders := folder.folders ++ [place] }

def createAll (folder : Folder) : (reversed : List String) → Except FileTrouble Folder
  | [] => .ok folder
  | name :: outer =>
    let names := (name :: outer).reverse
    let there (folder : Folder) (trouble : FileTrouble) : Except FileTrouble Folder :=
      match folder.locate (pathOf names) with
      | .error .nameTooLong => .error .nameTooLong
      | .ok place => if folder.isFolder place then .ok folder else .error trouble
      | .error _ => .error trouble
    match folder.create names with
    | .ok folder => .ok folder
    | .error .missing => do
      let folder ← createAll folder outer
      match folder.create names with
      | .ok folder => .ok folder
      | .error .missing => .error .missing
      | .error trouble => there folder trouble
    | .error .nullCharacter => .error .nullCharacter
    | .error trouble => there folder trouble

def openAtEnd (path : String) : Except OutputFault (Folder × List String × String) := do
  let names := names path
  let outer := names.dropLast
  let folder ← (createAll folder outer.reverse).mapError fun trouble =>
    .folder ⟨trouble, pathOf outer⟩
  let place ← (folder.locate (pathOf names)).mapError fun trouble => .file ⟨trouble, pathOf names⟩
  if folder.isFolder place then
    throw (.file ⟨.isDirectory, pathOf names⟩)
  let content := (folder.file? place).getD ""
  pure (folder.put place content, place, content)

def write (path content : String) : Except OutputFault Folder := do
  let (folder, place, _) ← folder.openAtEnd path
  pure (folder.put place content)

end Folder
end MethodHistory
