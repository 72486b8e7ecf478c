import MethodHistory.Failure
import MethodHistory.Hosted.Address

/-!
This module contains the places where repositories are: at the hosting service, or in a directory.
-/

namespace MethodHistory

inductive Location where
  | hosted (address : Hosted.Address)
  | directory (path : String)
  deriving DecidableEq

namespace Location

def ofText (text : String) : Except RepositoryFault Location :=
  if Hosted.isHosted text then
    match Hosted.Address.ofText? text with
    | some address => .ok (.hosted address)
    | none => .error (.invalidAddress text)
  else if (Text.strip text).isEmpty then
    .error .pathNotSet
  else
    .ok (.directory text)

def resolvePath (path : String) : Except FileTrouble String :=
  let parts := (path.toList.splitOn '/').foldl (fun parts part =>
    if part = [] ∨ part = ['.'] then parts
    else if part = ['.', '.'] then parts.dropLast
    else parts ++ [part]) []
  if path.toList.contains '\x00' then .error .nullCharacter
  else .ok (.ofList ('/' :: List.intercalate ['/'] parts))

def lastPart (text : String) : String :=
  let isSlash (c : Char) : Bool := c = '/' || c = '\\'
  .ofList ((Text.trimEnd isSlash text.toList).reverse.takeWhile (!isSlash ·)).reverse

end Location
end MethodHistory
