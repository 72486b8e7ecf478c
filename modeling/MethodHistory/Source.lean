import MethodHistory.Commit
import MethodHistory.Failure
import MethodHistory.Given
import MethodHistory.Text.Words

/-!
This module contains the sources of revisions: what a repository answers about its commits, its tags
and its files.
-/

namespace MethodHistory

structure Source where
  allCommits : Except Failure (List Commit)
  tagTarget (name : String) : Except Failure (Option String)
  revisionsOf (path : String) : Except Failure (List Revision)
  contentAt (path commit : String) : Except Failure (Option ByteArray)
  filesAt (commit : String) (suffix : Given String) : Except Failure (List String)

inductive Question where
  | allCommits
  | tagTarget (name : String)
  | revisionsOf (path : String)
  | contentAt (path commit : String)
  | filesAt (commit suffix : String)
  deriving DecidableEq

def packageDirectory (package : String) : String :=
  let isPoint (c : Char) : Bool := c = '.'
  let name := Text.trim isPoint (Text.trim Text.isBlank package.toList)
  .ofList (name.map fun c => if isPoint c then '/' else c)

def occursIn (part whole : List Char) : Bool :=
  match whole with
  | [] => part.isEmpty
  | c :: cs => part.isPrefixOf (c :: cs) || occursIn part cs

/--
Whether a path has the suffix, where `*` stands for any, and has the path of the package in it.
-/
def fitsPackage (package path suffix : String) : Bool :=
  let package := packageDirectory package
  (suffix.isEmpty || suffix = "*" || path.endsWith suffix)
    && (package.isEmpty || occursIn package.toList path.toList)

def fittingPaths (package suffix : Given String) (paths : List String)
    : Except Failure (List String) :=
  (paths.filterM fits).mapError .misuse
where
  fits (path : String) : Except Misuse Bool := do
    let ends ←
      match suffix with
      | .nothing _ => pure true
      | .value suffix => pure (fitsPackage "" path suffix)
      | .misfit kind _ => throw (.noSuffix kind)
    if ends then
      pure (fitsPackage ((← package.asking "strip").getD "") path "")
    else
      pure false

def isTestSource (path : String) : Bool :=
  let lowered := path.toList.map Char.toLower
  ["tests/src/java", "tests\\src\\java"].any fun marker => occursIn marker.toList lowered

end MethodHistory
