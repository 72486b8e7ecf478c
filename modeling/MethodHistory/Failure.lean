import MethodHistory.Json.Basic
import MethodHistory.Misuse
import MethodHistory.Text.Quoted

/-!
This module contains the reasons why mining, or a part of it, cannot be done, and their wording.
-/

namespace MethodHistory

/--
How the endpoints of a range are read: as commits of a list, or as commits whose dates bound it.
-/
inductive Mode where
  | positional
  | date
  deriving DecidableEq

namespace Mode

def label : Mode → String
  | positional => "positional"
  | date => "date"

def all : List Mode :=
  [positional, date]

def ofLabel? (label : String) : Option Mode :=
  all.find? (·.label = label)

end Mode

inductive Endpoint where
  | lower
  | upper
  deriving DecidableEq

namespace Endpoint

def label : Endpoint → String
  | lower => "lower"
  | upper => "upper"

def title : Mode → Endpoint → String
  | .positional, lower => "Bottom"
  | .positional, upper => "Top"
  | .date, lower => "First"
  | .date, upper => "Last"

end Endpoint

inductive EndpointFault where
  | notSet
  | unknownTag (name : String)
  | unknownCommit (reference : String)
  deriving DecidableEq

def EndpointFault.message : EndpointFault → String
  | notSet => "commit not set."
  | unknownTag name => "commit tag not found: " ++ name
  | unknownCommit reference => "commit not found: " ++ reference

inductive RepositoryFault where
  | reported (text : String)
  | pathNotSet
  | notARepository (path : String)
  | noCommits (name : String)
  | unreadableLog (name reason : String)
  | unlistedCommits (name reason : String)
  | unlistedFiles (commit reason : String)
  | invalidAddress (address : String)
  deriving DecidableEq

def RepositoryFault.message : RepositoryFault → String
  | reported text => text
  | pathNotSet => "Path has to be set."
  | notARepository path => "Directory " ++ path ++ " does not look like a git repository."
  | noCommits name => "Repository " ++ name ++ " has no commits"
  | unreadableLog name reason => "Could not read commit log of " ++ name ++ ": " ++ reason
  | unlistedCommits name reason => "Could not list commits of " ++ name ++ ": " ++ reason
  | unlistedFiles commit reason => "Could not list files at " ++ commit ++ ": " ++ reason
  | invalidAddress address => "Invalid GitHub repository URL: " ++ address

inductive RevisionFault where
  | reported (text : String) (path commit : Option String)
  | unreadableHistory (path reason : String)
  | unknownCommit (path commit : String)
  | unreadableContent (path commit reason : String)
  | unlistedFiles (commit reason : String)
  deriving DecidableEq

namespace RevisionFault

def message : RevisionFault → String
  | reported text _ _ => text
  | unreadableHistory path reason => "Could not read history of " ++ path ++ ": " ++ reason
  | unknownCommit path commit => "Unknown revision " ++ commit ++ " for " ++ path
  | unreadableContent path commit reason =>
    "Could not read " ++ path ++ " at " ++ commit ++ ": " ++ reason
  | unlistedFiles commit reason => "Could not list files at " ++ commit ++ ": " ++ reason

def path : RevisionFault → Option String
  | reported _ path _ => path
  | unreadableHistory path _ | unknownCommit path _ | unreadableContent path _ _ => some path
  | unlistedFiles _ _ => none

def commit : RevisionFault → Option String
  | reported _ _ commit => commit
  | unreadableHistory _ _ => none
  | unknownCommit _ commit | unreadableContent _ commit _ | unlistedFiles commit _ => some commit

end RevisionFault

inductive FileTrouble where
  | missing
  | «exists»
  | notADirectory
  | isDirectory
  | nameTooLong
  | denied
  | readOnly
  | noSpace
  | nullCharacter
  /-- Halves of surrogate pairs stand at a place where a name has none. -/
  | barred (place : Nat) (halves : List Nat)
  | other (number : Nat) (reason : String)
  deriving DecidableEq

def FileTrouble.message (name : Option String) (trouble : FileTrouble) : String :=
  let numbered (number : Nat) (text : String) : String :=
    "[Errno " ++ toString number ++ "] " ++ text
      ++ (name.map fun name => ": " ++ Text.quoted name).getD ""
  match trouble with
  | missing => numbered 2 "No such file or directory"
  | denied => numbered 13 "Permission denied"
  | «exists» => numbered 17 "File exists"
  | notADirectory => numbered 20 "Not a directory"
  | isDirectory => numbered 21 "Is a directory"
  | noSpace => numbered 28 "No space left on device"
  | readOnly => numbered 30 "Read-only file system"
  | nameTooLong => numbered 36 "File name too long"
  | other number reason => numbered number reason
  | nullCharacter => "embedded null byte"
  | barred place [half] =>
    "'utf-8' codec can't encode character '\\u" ++ .ofList (Text.hexDigits 4 half)
      ++ "' in position " ++ toString place ++ ": surrogates not allowed"
  | barred place halves =>
    "'utf-8' codec can't encode characters in position " ++ toString place ++ "-"
      ++ toString (place + halves.length - 1) ++ ": surrogates not allowed"

structure FileFault where
  trouble : FileTrouble
  name : String
  deriving DecidableEq

def FileFault.message (fault : FileFault) : String :=
  fault.trouble.message fault.name

/--
Why lines cannot be written at the end of a file: for want of the folder around it, for its own
sake, or because what was written does not get through.
-/
inductive OutputFault where
  | folder (fault : FileFault)
  | file (fault : FileFault)
  | content (trouble : FileTrouble)
  deriving DecidableEq

def OutputFault.message : OutputFault → String
  | folder fault | file fault => fault.message
  | content trouble => trouble.message none

inductive SnapshotFault where
  | noSlot
  | path (trouble : FileTrouble)
  deriving DecidableEq

inductive ComparisonFault where
  | reported (text : String)
  | unreadable (label reason : String)
  | syntaxErrors (label : String)
  | engineFailed (file reason : String)
  deriving DecidableEq

def ComparisonFault.message : ComparisonFault → String
  | reported text => text
  | unreadable label reason => "Could not read snapshot " ++ label ++ ": " ++ reason
  | syntaxErrors label => "Syntax errors in " ++ label
  | engineFailed file reason => "Diff engine failed on " ++ file ++ ": " ++ reason

inductive ServiceFault where
  | requestFailed (address reason : String)
  | rateLimit (what : String)
  | refused (what : String) (status : Nat)
  deriving DecidableEq

namespace ServiceFault

def message : ServiceFault → String
  | requestFailed address reason => "Request to " ++ address ++ " failed: " ++ reason
  | rateLimit what => "GitHub API rate limit exceeded while fetching " ++ what
  | refused what status => "GitHub API returned " ++ toString status ++ " for " ++ what

def status : ServiceFault → Option Nat
  | requestFailed _ _ => none
  | rateLimit _ => some 403
  | refused _ status => some status

end ServiceFault

inductive ObjectFault where
  | command (reason : String)
  | value (reason : String)
  | object (reason : String)
  | name (reason : String)
  | noEntry
  | other (label : String)
  deriving DecidableEq

def ObjectFault.reason : ObjectFault → String
  | command reason | value reason | object reason | name reason | other reason => reason
  | noEntry => ""

inductive Failure where
  | endpoint (mode : Mode) (endpoint : Endpoint) (fault : EndpointFault)
  | repository (fault : RepositoryFault)
  | revision (fault : RevisionFault)
  | service (fault : ServiceFault)
  | payload (fault : PayloadFault)
  | objects (fault : ObjectFault)
  | snapshot (fault : SnapshotFault)
  | misuse (cause : Misuse)
  | cancelled
  | rangeNotResolved
  | noSuchCommit
  | unknownMode (quoted : String)
  | other (reason : String)
  deriving DecidableEq

namespace Failure

def message : Failure → String
  | endpoint mode which fault => which.title mode ++ " " ++ fault.message
  | repository fault => fault.message
  | revision fault => fault.message
  | service fault => fault.message
  | payload (.missingKey key) => "'" ++ key ++ "'"
  | payload _ | snapshot _ => ""
  | misuse cause => cause.message
  | objects fault => fault.reason
  | cancelled => "Mining cancelled"
  | rangeNotResolved => "Range must be resolved before extracting file histories"
  | noSuchCommit => "list index out of range"
  | unknownMode quoted => quoted ++ " is not a valid RangeMode"
  | other reason => reason

end Failure
end MethodHistory
