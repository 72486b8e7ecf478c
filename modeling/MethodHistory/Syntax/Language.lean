/-!
This module contains the languages whose files can be compared. A language is named in any case of
letters.
-/

namespace MethodHistory

inductive LanguageFault where
  | unsupported (language : Option String)
  | unusable (language reason : String)
  deriving DecidableEq

def LanguageFault.message : LanguageFault → String
  | unsupported language => "Language not supported: " ++ language.getD "None"
  | unusable language reason => "Language not supported: " ++ language ++ " (" ++ reason ++ ")"

namespace Language

def supported : List String :=
  ["java"]

def find? (language : Option String) : Option String :=
  language.bind fun name => supported.find? (· = name.toLower)

def isSupported (language : Option String) : Bool :=
  (find? language).isSome

def grammar {γ : Type} (load : String → Except String γ) (language : Option String)
    : Except LanguageFault γ :=
  match find? language with
  | none => .error (.unsupported language)
  | some name => (load name).mapError (.unusable name)

end Language
end MethodHistory
