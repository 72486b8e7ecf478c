import MethodHistory.Failure
import MethodHistory.Settings.Basic
import MethodHistory.Text.Lines
import MethodHistory.Text.Numeral

/-!
This module contains the arguments of the command line: a repository and options, which can be
shortened as long as they stay unambiguous.
-/

namespace MethodHistory
namespace CommandLine

inductive Switch where
  | help
  | project
  | lower
  | upper
  | mode
  | since
  | package
  | suffix
  | excludeTests
  | output
  | limit
  | config
  | verbose
  deriving DecidableEq

namespace Switch

def all : List Switch :=
  [help, project, lower, upper, mode, since, package, suffix, excludeTests, output, limit, config,
    verbose]

def spellings : Switch → List String
  | help => ["-h", "--help"]
  | project => ["--project"]
  | lower => ["--from"]
  | upper => ["--to"]
  | mode => ["--mode"]
  | since => ["--since"]
  | package => ["--package"]
  | suffix => ["--suffix"]
  | excludeTests => ["--exclude-tests"]
  | output => ["--output"]
  | limit => ["--limit"]
  | config => ["--config"]
  | verbose => ["--verbose", "-v"]

def takesValue : Switch → Bool
  | help | excludeTests | verbose => false
  | _ => true

def title (switch : Switch) : String :=
  "/".intercalate switch.spellings

def table : List (String × Switch) :=
  all.flatMap fun switch => switch.spellings.map (·, switch)

end Switch

inductive UsageFault where
  | ambiguous (text : String) (candidates : List String)
  | valueExpected (switch : Switch)
  | valueIgnored (switch : Switch) (value : String)
  | notWhole (switch : Switch) (value : String)
  | noChoice (switch : Switch) (value : String) (choices : List String)
  | repositoryMissing
  | unrecognized (texts : List String)
  deriving DecidableEq

namespace UsageFault

def reason : UsageFault → String
  | ambiguous text candidates =>
    "ambiguous option: " ++ text ++ " could match " ++ ", ".intercalate candidates
  | valueExpected switch => "argument " ++ switch.title ++ ": expected one argument"
  | valueIgnored switch value =>
    "argument " ++ switch.title ++ ": ignored explicit argument " ++ Text.quoted value
  | notWhole switch value =>
    "argument " ++ switch.title ++ ": invalid int value: " ++ Text.quoted value
  | noChoice switch value choices =>
    "argument " ++ switch.title ++ ": invalid choice: " ++ Text.quoted value ++ " (choose from "
      ++ ", ".intercalate (choices.map Text.quoted) ++ ")"
  | repositoryMissing => "the following arguments are required: repo"
  | unrecognized texts => "unrecognized arguments: " ++ " ".intercalate texts

def message (fault : UsageFault) : String :=
  "changemine: error: " ++ fault.reason

def lastLine (fault : UsageFault) : String :=
  (Text.lines (Text.strip fault.message)).getLastD ""

end UsageFault

structure Mention where
  switch : Switch
  spelling : String
  value : Option String
  deriving DecidableEq

inductive Word where
  | plain (text : String)
  | separator
  | option (mention : Mention)
  | unknown (text : String)
  deriving DecidableEq

namespace Word

def divide (text : String) : String × Option String :=
  let cs := text.toList
  let start := cs.takeWhile (· ≠ '=')
  (.ofList start,
    if start.length < cs.length then some (.ofList (cs.drop (start.length + 1))) else none)

def candidates (text : String) : List Mention :=
  if text.startsWith "--" then
    let (start, value) := divide text
    (Switch.table.filter fun (spelling, _) => spelling.startsWith start).map
      fun (spelling, switch) =>
      ⟨switch, spelling, value⟩
  else
    let letter := (text.take 2).toString
    Switch.table.filterMap fun (spelling, switch) =>
      if spelling = letter then some ⟨switch, spelling, some (text.drop 2).toString⟩
      else if spelling.startsWith text then some ⟨switch, spelling, none⟩
      else none

def ofText (text : String) : Except UsageFault Word :=
  if !text.startsWith "-" then
    .ok (plain text)
  else
    match Switch.table.lookup text with
    | some switch => .ok (option ⟨switch, text, none⟩)
    | none =>
      if text = "-" then
        .ok (plain text)
      else
        match divide text with
        | (start, some value) =>
          match Switch.table.lookup start with
          | some switch => .ok (option ⟨switch, start, some value⟩)
          | none => search text
        | (_, none) => search text
where
  search (text : String) : Except UsageFault Word :=
    match candidates text with
    | [mention] => .ok (option mention)
    | [] =>
      if Text.isNegativeNumber text ∨ text.toList.contains ' ' then .ok (plain text)
      else .ok (unknown text)
    | mentions => .error (.ambiguous text (mentions.map (·.spelling)))

def ofTexts : List String → Except UsageFault (List Word)
  | [] => .ok []
  | text :: texts =>
    if text = "--" then
      .ok (separator :: texts.map plain)
    else do
      let word ← ofText text
      let words ← ofTexts texts
      pure (word :: words)

end Word

inductive Stop where
  | help
  | usage (fault : UsageFault)
  deriving DecidableEq

structure Arguments where
  repository : Option String
  settings : Settings.Values
  config : Option String
  verbose : Bool
  extras : List String

namespace Arguments

def none : Arguments :=
  ⟨.none, [], .none, false, []⟩

def set (arguments : Arguments) (name : String) (value : Json) : Arguments :=
  { arguments with settings := arguments.settings ++ [(.ofText name, value)] }

def ignore (arguments : Arguments) (text : String) : Arguments :=
  { arguments with extras := arguments.extras ++ [text] }

def settingOf? : Switch → Option String
  | .project => some "project_name"
  | .lower => some "lower"
  | .upper => some "upper"
  | .mode => some "mode"
  | .since => some "since"
  | .package => some "package_name"
  | .suffix => some "suffix"
  | .excludeTests => some "exclude_tests"
  | .output => some "output"
  | .limit => some "record_limit"
  | .help | .config | .verbose => .none

def takeValue (arguments : Arguments) (switch : Switch) (value : Json) : Arguments :=
  match settingOf? switch with
  | some name => arguments.set name value
  | .none => arguments

def take (arguments : Arguments) (switch : Switch) (value : String) : Except Stop Arguments :=
  match switch with
  | .help => .error .help
  | .verbose => .ok { arguments with verbose := true }
  | .excludeTests => .ok (arguments.takeValue switch (.bool true))
  | .config => .ok { arguments with config := value }
  | .limit =>
    match Text.wholeNumber? value with
    | some limit => .ok (arguments.takeValue switch (.whole limit))
    | .none => .error (.usage (.notWhole .limit value))
  | .mode =>
    if (Mode.ofLabel? value).isSome then .ok (arguments.takeValue switch (.text value))
    else .error (.usage (.noChoice .mode value (Mode.all.map Mode.label)))
  | .project | .lower | .upper | .since | .package | .suffix | .output =>
    .ok (arguments.takeValue switch (.text value))

def takeNothing (arguments : Arguments) (switch : Switch) : Arguments :=
  match switch with
  | .config => { arguments with config := .none }
  | switch => arguments.takeValue switch (.list [])

def letters (switch : Switch) : List Char → Except UsageFault (List Switch)
  | [] => .ok [switch]
  | c :: cs =>
    match Switch.table.lookup (.ofList ['-', c]) with
    | some next => (letters next cs).map (switch :: ·)
    | .none => .error (.valueIgnored switch (.ofList (c :: cs)))

def follow (arguments : Arguments) (mention : Mention) : Except Stop Arguments :=
  match mention.value with
  | .none => arguments.take mention.switch ""
  | some value =>
    if mention.switch.takesValue then
      if value = "--" then .ok (arguments.takeNothing mention.switch)
      else arguments.take mention.switch value
    else if value.isEmpty ∨ mention.spelling.startsWith "--" then
      .error (.usage (.valueIgnored mention.switch value))
    else do
      let switches ← (letters mention.switch value.toList).mapError Stop.usage
      switches.foldlM (fun arguments switch => arguments.take switch "") arguments

def place (arguments : Arguments) (text : String) : Arguments :=
  if arguments.repository.isNone then { arguments with repository := text }
  else arguments.ignore text

def read (arguments : Arguments) : List Word → Except Stop Arguments
  | [] => .ok arguments
  | .unknown text :: words => (arguments.ignore text).read words
  | .option mention :: words =>
    if mention.switch.takesValue ∧ mention.value = .none then
      match words with
      | .plain value :: words => do (← arguments.take mention.switch value).read words
      | _ => .error (.usage (.valueExpected mention.switch))
    else do
      (← arguments.follow mention).read words
  | .separator :: .plain text :: words =>
    if arguments.repository.isNone then (arguments.place text).read words
    else (arguments.ignore "--").read (.plain text :: words)
  | .plain text :: .separator :: words =>
    if arguments.repository.isNone then (arguments.place text).read words
    else (arguments.ignore text).read (.separator :: words)
  | .separator :: words => (arguments.ignore "--").read words
  | .plain text :: words => (arguments.place text).read words
termination_by words => words.length

def ofTexts (texts : List String) : Except Stop Arguments := do
  let words ← (Word.ofTexts texts).mapError .usage
  let arguments ← none.read words
  if arguments.repository.isNone then
    throw (.usage .repositoryMissing)
  if !arguments.extras.isEmpty then
    throw (.usage (.unrecognized arguments.extras))
  pure arguments

def values (arguments : Arguments) : Settings.Values :=
  ("repo", .text (arguments.repository.getD "")) :: arguments.settings

end Arguments
end CommandLine
end MethodHistory
