import MethodHistory.Failure
import MethodHistory.Json.Reader
import MethodHistory.Limit
import MethodHistory.Location
import MethodHistory.Text.Lowercase
import MethodHistory.Text.Utf8
import MethodHistory.Time.Iso

/-!
This module contains the settings of a mining run: how they are made of named values, and what they
have to fulfil.
-/

namespace MethodHistory

inductive Interpreted (α : Type) where
  | read (a : α)
  | kept (json : Json)

structure Settings where
  repository : Json
  project : Json
  lower : Json
  upper : Json
  mode : Interpreted Mode
  since : Interpreted Instant
  package : Json
  suffix : Json
  excludeTests : Json
  recordLimit : Json
  output : Json
  span : List Json
  token : Json

inductive SettingsFault where
  | misuse (cause : Misuse)
  | unknownMode (label : Text.Loose)
  | malformedDate (fault : DateFault)
  | unreadableFile (fault : FileFault)
  | malformedText (fault : Text.Utf8.Fault)
  | malformedFile (complaint : Json.Complaint) (reason : String)
  | notAnObject (path : String)
  | emptyRepository
  | limitNotPositive (limit : Json)
  | spanLength (span : List Json)
  | invalidSpan (span : List Json)
  | emptySuffix

namespace SettingsFault

def message : SettingsFault → String
  | misuse cause => cause.message
  | unknownMode label => (Failure.unknownMode label.quoted).message
  | malformedDate fault => fault.message
  | unreadableFile fault => fault.message
  | malformedText fault => fault.message
  | malformedFile _ reason => reason
  | notAnObject path => "Config file must contain a JSON object: " ++ path
  | emptyRepository => "A repository path or URL is required"
  | limitNotPositive limit => "Record limit must be positive, got " ++ limit.quoted
  | spanLength span => "Progress span must have two values, got " ++ Json.quotedTuple span
  | invalidSpan span => "Invalid progress span: " ++ Json.quotedTuple span
  | emptySuffix => "A file suffix is required"

def isOfValue : SettingsFault → Bool
  | misuse _ | malformedFile .tooDeep _ => false
  | _ => true

end SettingsFault

namespace Settings

def names : List String :=
  ["repo", "project_name", "lower", "upper", "mode", "since", "package_name", "suffix",
    "exclude_tests", "record_limit", "output", "progress_span", "github_token"]

def isName (name : Text.Loose) : Bool :=
  name.text?.any names.contains

/--
Named values, of which the last one with a name counts.
-/
abbrev Values : Type :=
  List (Text.Loose × Json)

namespace Values

variable (values : Values)

def value (name : String) (default : Json) : Json :=
  (Json.lookup name values).getD default

def mode : Except SettingsFault (Interpreted Mode) :=
  match value values "mode" (.text Mode.positional.label) with
  | .text label =>
    let label := label.map Text.toLower
    match label.text?.bind Mode.ofLabel? with
    | some mode => .ok (.read mode)
    | none => .error (.unknownMode label)
  | other => .ok (.kept other)

def since : Except SettingsFault (Interpreted Instant) :=
  match value values "since" .null with
  | .text text =>
    if text.isEmpty then .ok (.kept .null)
    else (Instant.ofLoose text).mapError .malformedDate |>.map .read
  | other => .ok (.kept other)

def defaultSpan : Json :=
  .list [.real 0.2, .real 0.8]

def span : Except SettingsFault (List Json) :=
  let span := value values "progress_span" defaultSpan
  match span.items? with
  | some items => .ok items
  | none => .error (.misuse (.noItems span.kind))

def project : Except SettingsFault Json :=
  let project := value values "project_name" (.text "")
  let repository := value values "repo" .null
  if project.isTrue || !repository.isTrue then .ok project
  else
    match repository with
    | .text repository => .ok (.text (Location.lastPart repository.replaced))
    | other => .error (.misuse (.noMember other.kind "rstrip"))

end Values

def ofValues (environment : Json) (values : Values) : Except SettingsFault Settings := do
  if let some (name, _) := values.find? fun (name, _) => !isName name then
    throw (.misuse (.unknownArgument name.replaced))
  if (Json.lookup "repo" values).isNone then
    throw (.misuse (.missingArgument "repo"))
  let mode ← values.mode
  let since ← values.since
  let span ← values.span
  pure
    { repository := values.value "repo" .null
      project := ← values.project
      lower := values.value "lower" (.text "initial")
      upper := values.value "upper" (.text "current")
      mode
      since
      package := values.value "package_name" (.text "")
      suffix := values.value "suffix" (.text ".java")
      excludeTests := values.value "exclude_tests" (.bool false)
      recordLimit := values.value "record_limit" .null
      output := values.value "output" .null
      span
      token := values.value "github_token" environment }

def hasRepository (settings : Settings) : Except Misuse Bool :=
  if !settings.repository.isTrue then .ok false
  else
    match settings.repository with
    | .text text => .ok !(Text.strip text.replaced).isEmpty
    | other => .error (.noMember other.kind "strip")

def hasLimit (settings : Settings) : Except Misuse Bool :=
  match settings.recordLimit, settings.recordLimit.number? with
  | .null, _ => .ok true
  | _, some limit => .ok !(limit.isAtMost (.whole 0))
  | other, none => .error (.notOrdered "<=" other.kind "int")

def isSpan (start stop : Json) : Except Misuse Bool :=
  match start.number?, stop.number? with
  | none, _ => .error (.notOrdered "<=" "float" start.kind)
  | some low, high =>
    if !Number.isAtMost (.real 0) low then .ok false
    else
      match high with
      | none => .error (.notOrdered "<=" start.kind stop.kind)
      | some high => .ok (low.isAtMost high && high.isAtMost (.real 1))

def validate (settings : Settings) : Except SettingsFault Unit := do
  if !(← settings.hasRepository.mapError .misuse) then
    throw .emptyRepository
  if !(← settings.hasLimit.mapError .misuse) then
    throw (.limitNotPositive settings.recordLimit)
  match settings.span with
  | [start, stop] =>
    if !(← (isSpan start stop).mapError .misuse) then
      throw (.invalidSpan settings.span)
  | span => throw (.spanLength span)
  if !settings.suffix.isTrue then
    throw .emptySuffix

end Settings
end MethodHistory
