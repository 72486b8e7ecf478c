import MethodHistory.CommandLine.Arguments
import MethodHistory.Job
import MethodHistory.LoosePath
import MethodHistory.Settings.File

/-!
This module contains what a command line leads to: the status that the program ends with, the lines
that it prints, the errors that it reports and the file that it writes.
-/

namespace MethodHistory
namespace CommandLine

/--
What keeps a run from going on: somebody interrupts it behind so many of its records, or the system
does not let it write.
-/
inductive Halt where
  | interrupted (emitted : Nat)
  | unwritten (trouble : FileTrouble)
  deriving DecidableEq

structure Environment where
  token : Json
  settingsFile : String → Except FileFault ByteArray
  outputFile : String → Except OutputFault String
  limits : NameLimits
  engine : Engine
  connect : Opening → Except OpeningFault Source
  /-- What comes in the way of a run that would lead to an outcome. -/
  halt? : Outcome Progress → Option Halt
  /-- What keeps the output from being closed. -/
  unclosed? : Option FileTrouble

inductive Escape where
  | settings (fault : SettingsFault)
  | output (fault : OutputFault)
  | failure (failure : Failure)

inductive Ending where
  | help
  | usage (fault : UsageFault)
  | status (code : Nat)
  | escaped (cause : Escape)

structure Report where
  ending : Ending
  errors : List String
  lines : List String
  opening : Option Opening
  output : Option (String × String)

namespace Report

def success : Nat :=
  0

def failure : Nat :=
  1

def interrupted : Nat :=
  130

def «end» (ending : Ending) : Report :=
  ⟨ending, [], [], none, none⟩

end Report

def settingsOf (environment : Environment) (arguments : Arguments)
    : Except SettingsFault (Settings × List String) := do
  let (settings, warnings) ←
    match arguments.config.filter (!·.isEmpty) with
    | some path =>
      Settings.ofFile environment.token path (environment.settingsFile path) arguments.values
    | none => (Settings.ofValues environment.token arguments.values).map (·, [])
  settings.validate
  pure (settings, warnings)

def jobOf (settings : Settings) : Job :=
  { opening := ⟨settings.repository, settings.package, settings.token⟩
    project := settings.project
    request :=
      { lower := .text settings.lower
        upper := .text settings.upper
        mode :=
          match settings.mode with
          | .read mode => .ok mode
          | .kept json => .error json.quoted
        since :=
          match settings.since with
          | .read date => .value date
          | .kept json => .ofJson (fun _ => none) json }
    suffix := settings.suffix
    excludeTests := settings.excludeTests
    span := .list settings.span }

def isKnown : Failure → Bool
  | .endpoint .. | .repository _ | .revision _ | .service _ | .cancelled => true
  | _ => false

def recordLine (record : Record) : String :=
  ((record.commit.id.getD "").take 8).toString ++ " " ++ record.event.kind.label ++ " "
    ++ record.event.method.getD "None"

/-! Mining while the output is open -/

inductive Break where
  | refused (failure : Failure)
  | interrupted
  | unwritten (trouble : FileTrouble)
  | failed (failure : Failure)

structure Mined where
  opening : Option Opening
  errors : List String
  sink : Sink
  result : Except Break (Outcome Progress)

def Halt.mined (halt : Halt) (opening : Opening) (sink : Sink) (outcome : Outcome Progress)
    : Mined :=
  match halt with
  | interrupted emitted =>
    let records := outcome.run.tally.records.take emitted
    { opening
      errors := []
      sink := records.foldl (fun sink record => (sink.insert record).2) sink
      result := .error .interrupted }
  | unwritten trouble =>
    { opening
      errors := ["Mining failed: " ++ trouble.message none]
      sink
      result := .error (.unwritten trouble) }

def mine (environment : Environment) (job : Job) (sink : Sink) : Mined :=
  match job.projectName with
  | .error misuse => ⟨none, [], sink, .error (.refused (.misuse misuse))⟩
  | .ok project =>
    match environment.connect job.opening with
    | .error .interrupted => ⟨job.opening, [], sink, .error .interrupted⟩
    | .error (.failed failure) => ⟨job.opening, [], sink, .error (.failed failure)⟩
    | .ok source =>
      match job.run project environment.limits environment.engine source sink with
      | .error failure => ⟨job.opening, [], sink, .error (.refused failure)⟩
      | .ok outcome =>
        match environment.halt? outcome with
        | some halt => halt.mined job.opening sink outcome
        | none =>
          let sink := outcome.run.sink
          match outcome.result with
          | .error failure =>
            ⟨job.opening, ["Mining failed: " ++ failure.message], sink, .error (.failed failure)⟩
          | .ok _ => ⟨job.opening, [], sink, .ok outcome⟩

/--
Closes the file of the records, if there is one. If that fails, it does not matter any more what
mining has led to.
-/
def Mined.close (environment : Environment) (path : Option String) (mined : Mined) : Mined :=
  match path, environment.unclosed? with
  | some _, some trouble => { mined with result := .error (.unwritten trouble) }
  | _, _ => mined

def conclude (path : Option String) (mined : Mined) : Report :=
  let report (ending : Ending) : Report :=
    { ending
      errors := mined.errors
      lines := []
      opening := mined.opening
      output := path.map (·, mined.sink.content) }
  match mined.result with
  | .error .interrupted => report (.status Report.interrupted)
  | .error (.unwritten trouble) =>
    { report (.escaped (.output (.content trouble))) with output := none }
  | .error (.refused failure) | .error (.failed failure) =>
    if isKnown failure then
      { report (.status Report.failure) with
        errors := mined.errors ++ ["Error: " ++ failure.message] }
    else
      report (.escaped (.failure failure))
  | .ok outcome =>
    let code := if outcome.run.phase = .cancelled then Report.interrupted else Report.success
    let records := outcome.run.tally.records
    let printed := "".intercalate (records.map fun record => recordLine record ++ "\n")
    { report (.status code) with lines := if path.isNone then Text.lines printed else [] }

def sinkOf (environment : Environment) (settings : Settings)
    : Except Escape (Option String × Sink) :=
  if settings.output.isTrue then
    match settings.output with
    | .text path =>
      match LoosePath.output environment.outputFile path with
      | .error fault => .error (.output fault)
      | .ok content =>
        .ok (path.replaced, .lines (.open (Limit.ofJson? settings.recordLimit) content))
    | other => .error (.settings (.misuse (.noPath other.kind)))
  else
    .ok (none, .buffer .empty)

def report (environment : Environment) (texts : List String) : Report :=
  match Arguments.ofTexts texts with
  | .error .help => .end .help
  | .error (.usage fault) => .end (.usage fault)
  | .ok arguments =>
    match settingsOf environment arguments with
    | .error fault =>
      if fault.isOfValue then
        { Report.end (.status Report.failure) with
          errors := ["Invalid configuration: " ++ fault.message] }
      else
        .end (.escaped (.settings fault))
    | .ok (settings, _) =>
      match sinkOf environment settings with
      | .error escape => .end (.escaped escape)
      | .ok (path, sink) =>
        conclude path ((mine environment (jobOf settings) sink).close environment path)

end CommandLine
end MethodHistory
