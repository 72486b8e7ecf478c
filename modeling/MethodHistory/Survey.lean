import MethodHistory.Range
import MethodHistory.Source

/-!
This module contains the surveys in which a source is asked: the list of commits is asked for once,
and so is each tag. A survey can be stopped at its checkpoints.
-/

namespace MethodHistory

structure Monitor where
  stopsAtCheck (n : Nat) : Bool
  stopsAtReport (n : Nat) : Bool
  stopsAtComparison (n : Nat) : Bool

def Monitor.never : Monitor :=
  ⟨fun _ => false, fun _ => false, fun _ => false⟩

/--
What is known of a source, the range in use, the keys of the records that were admitted, the
questions put so far, and how often it was checked whether to stop.
-/
structure Survey where
  commits : Option (List Commit)
  tags : List (String × Option String)
  range : Option Range
  emitted : List String
  questions : List Question
  checks : Nat
  stopRequested : Bool

def Survey.start (stopRequested : Bool) : Survey :=
  ⟨none, [], none, [], [], 0, stopRequested⟩

abbrev SurveyM (α : Type) : Type :=
  ExceptT Failure (StateM Survey) α

namespace SurveyM

def ask {α : Type} (question : Question) (answer : Except Failure α) : SurveyM α := do
  modify fun survey => { survey with questions := survey.questions ++ [question] }
  answer

def use {α : Type} : Except Misuse α → SurveyM α
  | .ok a => pure a
  | .error misuse => throw (.misuse misuse)

def checkpoint (monitor : Monitor) : SurveyM Unit := do
  modify fun survey =>
    let checks := survey.checks + 1
    { survey with
      checks
      stopRequested := survey.stopRequested || monitor.stopsAtCheck checks }
  if (← get).stopRequested then
    throw .cancelled

variable (source : Source)

def commits : SurveyM (List Commit) := do
  match (← get).commits with
  | some commits => pure commits
  | none =>
    let commits ← ask .allCommits source.allCommits
    modify fun survey => { survey with commits }
    pure commits

def commit (id : String) : SurveyM (Option Commit) := do
  pure (commitIn (← commits source) id)

def isListed (id : String) : SurveyM Bool := do
  pure (← commit source id).isSome

def position (id : String) : SurveyM (Option Nat) := do
  pure ((← commit source id).map (·.position))

def tagTarget (name : String) : SurveyM (Option String) := do
  match (← get).tags.lookup name with
  | some id => pure id
  | none =>
    let id ← ask (.tagTarget name) (source.tagTarget name)
    modify fun survey => { survey with tags := survey.tags ++ [(name, id)] }
    pure id

def useRange (range : Range) : SurveyM Unit :=
  modify fun survey => { survey with range }

/-! Endpoints and ranges -/

def shortestStart : Nat :=
  7

/--
The id that a reference names: itself, or the only id that starts with it.
-/
def lookup (mode : Mode) (endpoint : Endpoint) (reference : String) : SurveyM String := do
  if ← isListed source reference then
    return reference
  if shortestStart ≤ reference.length then
    let found := (← commits source).filter fun commit => reference.isPrefixOf commit.id
    if let [commit] := found then
      return commit.id
  throw (.endpoint mode endpoint (.unknownCommit reference))

def initial : String :=
  "initial"

def current : String :=
  "current"

def textOf (reference : Given String) : SurveyM String := do
  pure (Text.strip ((← use (reference.asking "strip")).getD ""))

def endpointId (endpoint : Endpoint) (reference : Given String) : SurveyM String := do
  let reference ← textOf reference
  if reference.isEmpty then
    throw (.endpoint .positional endpoint .notSet)
  else if reference.startsWith "tag:" then
    let tag := (reference.drop 4).toString
    match ← tagTarget source tag with
    | some id => lookup source .positional endpoint id
    | none => throw (.endpoint .positional endpoint (.unknownTag tag))
  else if reference = initial then
    match (← commits source).getLast? with
    | some commit => lookup source .positional endpoint commit.id
    | none => throw .noSuchCommit
  else if reference = current then
    match (← commits source).head? with
    | some commit => lookup source .positional endpoint commit.id
    | none => throw .noSuchCommit
  else
    lookup source .positional endpoint reference

def commitOf (id : String) : SurveyM Commit := do
  match ← commit source id with
  | some commit => pure commit
  | none => throw .noSuchCommit

def resolveBlock (lower upper : Given String) : SurveyM Range := do
  let commits ← commits source
  let lower ← commitOf source (← endpointId source .lower lower)
  let upper ← commitOf source (← endpointId source .upper upper)
  let range := .block commits lower upper
  useRange range
  pure range

def dateEndpoint (endpoint : Endpoint) (reference : String) : SurveyM (Option Commit) := do
  if reference.isEmpty then
    pure none
  else
    let id ← lookup source .date endpoint reference
    pure (some (← commitOf source id))

/--
The lower bound of a window that is not bounded by a commit. What is no date is refused when it is
compared with the date of a commit, or written if there is none.
-/
def earliest (monitor : Monitor) (since : Given Instant) : SurveyM Instant := do
  match since with
  | .nothing _ => pure .first
  | .value date => pure date
  | .misfit kind _ =>
    if (← commits source).isEmpty then
      throw (.misuse (.noMember kind "isoformat"))
    else
      checkpoint monitor
      throw (.misuse (.notOrdered "<=" kind "datetime.datetime"))

def lowerBound (monitor : Monitor) (lower : Option Commit) (since : Given Instant)
    : SurveyM Instant :=
  match lower with
  | some commit => pure commit.date
  | none => earliest source monitor since

def useWindow (monitor : Monitor) (lower upper : Option Commit) (dateMin dateMax : Instant)
    : SurveyM Range := do
  let commits ← commits source
  commits.forM fun _ => checkpoint monitor
  let selected := commits.filter fun commit => dateMin ≤ commit.date ∧ commit.date ≤ dateMax
  let range : Range :=
    { lower := lower.map (·.id)
      upper := upper.map (·.id)
      commits := selected.map (·.id)
      dateMin
      dateMax
      mode := .date }
  useRange range
  pure range

def resolveWindow (monitor : Monitor) (lower upper : Given String) (since : Given Instant)
    : SurveyM Range := do
  let lower ← textOf lower
  let upper ← textOf upper
  let lower ← dateEndpoint source .lower lower
  let upper ← dateEndpoint source .upper upper
  let dateMin ← lowerBound source monitor lower since
  useWindow source monitor lower upper dateMin ((upper.map (·.date)).getD .last)

def historyAmong (monitor : Monitor) (path : String) (range : Range) (revisions : List Revision)
    : SurveyM FileHistory := do
  match range.mode with
  | .date =>
    if 1 < revisions.length then
      revisions.forM fun _ => checkpoint monitor
    pure (.ofWindow range path revisions)
  | .positional =>
    let commits ← commits source
    revisions.forM fun _ => checkpoint monitor
    pure (.ofBlock (positionIn commits) range path revisions)

def historyIn (monitor : Monitor) (path : String) (range : Range) : SurveyM FileHistory := do
  if range.isEmpty then
    pure (.nothing path)
  else
    let revisions ← ask (.revisionsOf path) (source.revisionsOf path)
    historyAmong source monitor path range revisions

def history (monitor : Monitor) (path : String) : SurveyM FileHistory := do
  match (← get).range with
  | none => throw .rangeNotResolved
  | some range => historyIn source monitor path range

end SurveyM
end MethodHistory
