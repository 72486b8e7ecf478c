import MethodHistory.Text.Pattern
import MethodHistory.Text.Words

/-!
This module contains the addresses of hosted repositories, which name an owner and a repository.
-/

namespace MethodHistory
namespace Hosted

def host : Text.Pattern :=
  [.exactly "http".toList, .perhaps "s".toList, .exactly "://github.com/".toList]

def isHosted (address : String) : Bool :=
  (host.captured? address.toList).isSome

structure Address where
  owner : String
  name : String
  deriving DecidableEq

namespace Address

def isInPart (c : Char) : Bool :=
  c ≠ '/'

def namePattern : Text.Pattern :=
  [.run isInPart .shortest, .perhaps ".git".toList, .perhaps "/".toList, .ending]

def pattern : Text.Pattern :=
  host ++ .run isInPart .longest :: .exactly "/".toList :: namePattern

def ofText? (text : String) : Option Address :=
  match pattern.captured? (Text.strip text).toList with
  | some [owner, name] => some ⟨.ofList owner, .ofList name⟩
  | _ => none

end Address
end Hosted
end MethodHistory
