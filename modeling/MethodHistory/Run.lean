import MethodHistory.Admission
import MethodHistory.Engine
import MethodHistory.Sink
import MethodHistory.Slots
import MethodHistory.Survey

/-!
This module contains the runs that mine a source: a run resolves its range, lists the files, walks
through the history of each file in pairs of revisions that follow each other, finds the events of
each pair, and hands the admitted records to a sink, file by file.
-/

namespace MethodHistory

inductive Phase where
  | initializing
  | resolvingRange
  | enumeratingFiles
  | extractingHistory
  | diffingRevisionPairs
  | emitting
  | completed
  | cancelled
  | failed
  deriving DecidableEq

namespace Phase

def label : Phase → String
  | initializing => "initializing"
  | resolvingRange => "resolving_range"
  | enumeratingFiles => "enumerating_files"
  | extractingHistory => "extracting_history"
  | diffingRevisionPairs => "diffing_revision_pairs"
  | emitting => "emitting"
  | completed => "completed"
  | cancelled => "cancelled"
  | failed => "failed"

def all : List Phase :=
  [initializing, resolvingRange, enumeratingFiles, extractingHistory, diffingRevisionPairs,
    emitting, completed, cancelled, failed]

def ofLabel? (label : String) : Option Phase :=
  all.find? (·.label = label)

def isFinal : Phase → Bool
  | completed | cancelled | failed => true
  | _ => false

end Phase

class Scale (ν : Type) where
  zero : ν
  isLess : ν → ν → Bool
  /-- The part of an interval that lies behind the first so many of all steps. -/
  along : (start stop : ν) → (done total : Nat) → ν
  /-- Why something cannot be told as progress. -/
  misuse? : ν → Option Misuse

instance : Scale Rat where
  zero := 0
  isLess a b := a < b
  along start stop done total := start + (stop - start) * done / total
  misuse? _ := none

/--
Numbers as they are given, and what there is in place of a number.
-/
abbrev Progress : Type :=
  Except Misuse Number

instance : Scale Progress where
  zero := .ok (.real 0)
  isLess
    | .ok a, .ok b => a.isLess b
    | _, _ => false
  along start stop done total := do Number.along (← start) (← stop) done total
  misuse?
    | .ok _ => none
    | .error misuse => some misuse

namespace Progress

def ofJson (json : Json) : Progress :=
  match json.number? with
  | some number => .ok number
  | none => .error (.notOrdered "<" json.kind "float")

def span (json : Json) : Except Misuse (Progress × Progress) :=
  match json.items? with
  | none => .error (.noPair json.kind)
  | some [start, stop] => .ok (ofJson start, ofJson stop)
  | some items =>
    .error (if items.length < 2 then .tooFew items.length else .tooMany)

end Progress

/--
What a run is made with: a source, an engine, a monitor, and the options that do not change from run
to run.
-/
structure Miner (ν : Type) where
  source : Source
  engine : Engine
  monitor : Monitor
  project : ProjectName
  limits : NameLimits
  suffix : Given String
  excludeTests : Bool
  span : Except Misuse (ν × ν)

structure Request where
  lower : Given String
  upper : Given String
  mode : Except String Mode
  since : Given Instant

/--
The endpoints as a range. In date mode the names of the first and of the last commit leave a bound
open.
-/
def Request.resolve (request : Request) (source : Source) (monitor : Monitor) (mode : Mode)
    : SurveyM Range :=
  match mode with
  | .positional => SurveyM.resolveBlock source request.lower request.upper
  | .date =>
    SurveyM.resolveWindow source monitor (request.lower.ignoring SurveyM.initial)
      (request.upper.ignoring SurveyM.current) request.since

structure Tally where
  range : Option Range
  records : List Record
  processed : Nat
  skipped : Nat
  diffed : Nat
  failed : Nat

def Tally.zero : Tally :=
  ⟨none, [], 0, 0, 0, 0⟩

/--
The state of a run: its survey, its phase and all phases that it entered, the progress that it
told, the contents that it compared, the directory of its snapshots, the sink and the tally.
-/
structure Run (ν : Type) where
  survey : Survey
  phase : Phase
  phases : List Phase
  reports : List ν
  reached : ν
  comparisons : List (ByteArray × ByteArray)
  slots : Slots
  directory : Directory
  sink : Sink
  tally : Tally

abbrev RunM (ν : Type) (α : Type) : Type :=
  ExceptT Failure (StateM (Run ν)) α

def Run.receive {ν : Type} (run : Run ν) (record : Record) : Run ν :=
  let (admitted, emitted) := accept run.survey.emitted record
  if admitted then
    { run with
      survey := { run.survey with emitted }
      sink := (run.sink.insert record).2
      tally := { run.tally with records := run.tally.records ++ [record] } }
  else
    run

namespace RunM

variable {ν α : Type}

def inSurvey (act : SurveyM α) : RunM ν α := do
  let run ← get
  let (result, survey) := act.run.run run.survey
  set { run with survey }
  result

def outcome (act : RunM ν α) : RunM ν (Except Failure α) :=
  ExceptT.lift act.run

def enter (phase : Phase) : RunM ν Unit :=
  modify fun run => { run with phase, phases := run.phases ++ [phase] }

def count (change : Tally → Tally) : RunM ν Unit :=
  modify fun run => { run with tally := change run.tally }

variable (miner : Miner ν)

def checkpoint : RunM ν Unit :=
  inSurvey (SurveyM.checkpoint miner.monitor)

/--
Notes a request to stop if there is one; the next check answers to it.
-/
def hear (isAsked : Run ν → Bool) : RunM ν Unit :=
  modify fun run =>
    { run with
      survey := { run.survey with stopRequested := run.survey.stopRequested || isAsked run } }

def reached : RunM ν ν := do
  pure (← get).reached

def report [Scale ν] (fraction : ν) : RunM ν Unit := do
  match Scale.misuse? fraction with
  | some misuse => throw (.misuse misuse)
  | none =>
    unless Scale.isLess fraction (← reached) do
      modify fun run => { run with reports := run.reports ++ [fraction], reached := fraction }
      hear fun run => miner.monitor.stopsAtReport run.reports.length

def resolveRange (request : Request) (mode : Mode) : RunM ν Range :=
  inSurvey (request.resolve miner.source miner.monitor mode)

def anchors (range : Range) : List String :=
  match range.minedCommits with
  | [] => []
  | first :: rest =>
    [((range.upper.filter (!·.isEmpty)).getD first), rest.getLastD first].eraseDups

def addFiles (files : List String) (commit : String) : RunM ν (List String) := do
  checkpoint miner
  let listed ← outcome <| inSurvey <|
    SurveyM.ask (.filesAt commit miner.suffix.shown) (miner.source.filesAt commit miner.suffix)
  match listed with
  | .ok paths => pure (files ++ (paths.filter (!files.contains ·)).eraseDups)
  | .error (.revision fault) =>
    throw (.repository (.unlistedFiles commit (Failure.revision fault).message))
  | .error failure => throw failure

def filesIn (range : Range) : RunM ν (List String) :=
  (anchors range).foldlM (addFiles miner) []

def readRevision (path : String) (revision : Revision) : RunM ν (Option ByteArray) := do
  let content ← outcome <| inSurvey <|
    SurveyM.ask (.contentAt path revision.commit) (miner.source.contentAt path revision.commit)
  match content with
  | .ok content => pure content
  | .error (.revision _) => pure none
  | .error failure => throw failure

def write (slot : Slots → Option SnapshotPath) (content : ByteArray) : RunM ν Unit := do
  let run ← get
  match run.directory.write (slot run.slots) content with
  | .ok directory => set { run with directory }
  | .error fault => throw (.snapshot fault)

def snapshot (slot : Slots → Option SnapshotPath) : RunM ν Snapshot := do
  let run ← get
  pure
    { label := ((slot run.slots).map SnapshotPath.name).getD ""
      content := (slot run.slots).bind run.directory.read? }

def useSlots (change : Slots → Directory → Except SnapshotFault (Slots × Directory))
    : RunM ν Unit := do
  let run ← get
  match change run.slots run.directory with
  | .ok (slots, directory) => set { run with slots, directory }
  | .error fault => throw (.snapshot fault)

def noteComparison (previous actual : Snapshot) (result : Except EngineFault (List Change))
    : RunM ν Unit :=
  if hasCompared result then do
    modify fun run =>
      { run with
        comparisons :=
          run.comparisons ++ [(previous.content.getD .empty, actual.content.getD .empty)] }
    hear fun run => miner.monitor.stopsAtComparison run.comparisons.length
  else
    pure ()

def countEvents (path : String) (result : Except EngineFault (List Change))
    : RunM ν (List Event) := do
  match eventsOf path result with
  | .ok events =>
    count fun tally => { tally with diffed := tally.diffed + 1 }
    pure events
  | .error _ =>
    count fun tally => { tally with failed := tally.failed + 1 }
    pure []

def compare (path : String) : RunM ν (List Event) := do
  let previous ← snapshot (·.previous)
  let actual ← snapshot (·.actual)
  let result := miner.engine previous actual
  noteComparison miner previous actual result
  countEvents path result

def creditedCommit (revision : Revision) : RunM ν Commit := do
  pure ((← inSurvey (SurveyM.commit miner.source revision.commit)).getD (.ofRevision revision))

def recordPair (range : Range) (path : String) (revision : Revision) : RunM ν (List Record) := do
  let events ← compare miner path
  let commit ← creditedCommit miner revision
  events.forM fun _ => checkpoint miner
  pure <| events.map fun event =>
    ⟨event, commit.attribution, miner.project, range.dateMin, range.dateMax⟩

/--
The records of the revisions that are left, where `started` tells whether there is an older version
in its slot. Revisions without content are passed over.
-/
def walk (range : Range) (path : String) (started : Bool) : List Revision → RunM ν (List Record)
  | [] => pure []
  | revision :: revisions => do
    checkpoint miner
    match ← readRevision miner path revision with
    | none => walk range path started revisions
    | some content =>
      if started then
        write (·.actual) content
        let records ← recordPair miner range path revision
        useSlots Slots.swap
        pure (records ++ (← walk range path true revisions))
      else
        write (·.previous) content
        walk range path true revisions

def withSlots (limits : NameLimits) (suffix : String) (act : RunM ν α) : RunM ν α := do
  useSlots fun _ directory => (Slots.closed limits suffix).enter directory
  let result ← outcome act
  modify fun run =>
    let (slots, directory) := run.slots.close run.directory
    { run with slots, directory }
  result

def snapshotSuffix (path : String) : String :=
  match suffixIn path.toList with
  | [] => ".tmp"
  | suffix => .ofList suffix

def fileRecords (range : Range) (path : String) : RunM ν (Option (List Record)) := do
  enter .extractingHistory
  match ← outcome (inSurvey (SurveyM.history miner.source miner.monitor path)) with
  | .error (.revision _) => pure none
  | .error failure => throw failure
  | .ok history =>
    if history.revisions.isEmpty then
      pure (some [])
    else
      enter .diffingRevisionPairs
      some <$> withSlots miner.limits (snapshotSuffix path)
        (walk miner range path false history.chronological)

def emitAll (records : List Record) : RunM ν Unit :=
  modify fun run => records.foldl Run.receive run

def emit (records : List Record) : RunM ν Unit := do
  match miner.project.misuse? with
  | none => emitAll records
  | some misuse =>
    let survey := (← get).survey
    if let some record := records.find? fun record => (accept survey.emitted record).1 then
      modify fun run =>
        { run with survey := { survey with emitted := (accept survey.emitted record).2 } }
      throw (.misuse misuse)

def handOver (records : Option (List Record)) : RunM ν Unit := do
  match records with
  | none => count fun tally => { tally with skipped := tally.skipped + 1 }
  | some records =>
    enter .emitting
    emit miner records
    count fun tally => { tally with processed := tally.processed + 1 }

def nextRecords (range : Range) (path : String) : RunM ν (Option (List Record)) := do
  checkpoint miner
  if miner.excludeTests && isTestSource path then pure none else fileRecords miner range path

def fractionAt [Scale ν] (start stop : ν) (done total : Nat) : ν :=
  let fraction := Scale.along start stop done total
  if Scale.isLess stop fraction then stop else fraction

def visit [Scale ν] (range : Range) (start stop : ν) (total : Nat) (file : String × Nat)
    : RunM ν Unit := do
  let records ← nextRecords miner range file.1
  handOver miner records
  report miner (fractionAt start stop (file.2 + 1) total)

def takeFiles [Scale ν] (range : Range) (start stop : ν) (total : Nat)
    (files : List (String × Nat)) : RunM ν Unit :=
  files.forM (visit miner range start stop total)

structure Plan (ν : Type) where
  range : Range
  files : List String
  start : ν
  stop : ν

def plan [Scale ν] (request : Request) : RunM ν (Plan ν) := do
  checkpoint miner
  enter .resolvingRange
  let mode ← request.mode.mapError Failure.unknownMode
  let range ← resolveRange miner request mode
  count fun tally => { tally with range }
  enter .enumeratingFiles
  let files ← filesIn miner range
  let (start, stop) ← miner.span.mapError Failure.misuse
  report miner start
  pure ⟨range, files, start, stop⟩

def body [Scale ν] (request : Request) : RunM ν Unit := do
  let plan ← plan miner request
  takeFiles miner plan.range plan.start plan.stop plan.files.length plan.files.zipIdx
  enter .completed
  report miner plan.stop

end RunM

structure Outcome (ν : Type) where
  result : Except Failure Tally
  run : Run ν

namespace Miner

variable {ν : Type} [Scale ν]

def initial (sink : Sink) (directory : Directory) (stopRequested : Bool) : Run ν :=
  { survey := .start stopRequested
    phase := .initializing
    phases := []
    reports := []
    reached := Scale.zero
    comparisons := []
    slots := .closed ⟨0, 0⟩ ""
    directory
    sink
    tally := .zero }

def run (miner : Miner ν) (request : Request) (initial : Run ν) : Outcome ν :=
  match (RunM.body miner request).run.run initial with
  | (.ok (), run) => ⟨.ok run.tally, run⟩
  | (.error .cancelled, run) => let run := ((RunM.enter .cancelled).run.run run).2
    ⟨.ok run.tally, run⟩
  | (.error failure, run) => ⟨.error failure, ((RunM.enter .failed).run.run run).2⟩

end Miner
end MethodHistory
