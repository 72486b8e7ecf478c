/-!
This module contains the reasons why a value cannot be used for what it was given for, and their
wording. A value that is read from a file can be of any kind.
-/

namespace MethodHistory

inductive Misuse where
  /-- Something is asked of a value that its kind does not have. -/
  | noMember (kind member : String)
  | notOrdered (sign left right : String)
  | noSuffix (kind : String)
  | noKey (kind : String)
  | noPath (kind : String)
  | noItems (kind : String)
  /-- Two values are expected. -/
  | noPair (kind : String)
  | tooFew (count : Nat)
  | tooMany
  /-- A whole number is larger than all numbers with a point. -/
  | tooLarge
  | missingArgument (name : String)
  | unknownArgument (name : String)
  deriving DecidableEq

def Misuse.message : Misuse → String
  | noMember kind member => "'" ++ kind ++ "' object has no attribute '" ++ member ++ "'"
  | notOrdered sign left right =>
    "'" ++ sign ++ "' not supported between instances of '" ++ left ++ "' and '" ++ right ++ "'"
  | noSuffix kind => "endswith first arg must be str or a tuple of str, not " ++ kind
  | noKey kind => "unhashable type: '" ++ kind ++ "'"
  | noPath kind => "expected str, bytes or os.PathLike object, not " ++ kind
  | noItems kind => "'" ++ kind ++ "' object is not iterable"
  | noPair kind => "cannot unpack non-iterable " ++ kind ++ " object"
  | tooFew count => "not enough values to unpack (expected 2, got " ++ toString count ++ ")"
  | tooMany => "too many values to unpack (expected 2)"
  | tooLarge => "int too large to convert to float"
  | missingArgument name => "missing argument: " ++ name
  | unknownArgument name => "unknown argument: " ++ name

end MethodHistory
