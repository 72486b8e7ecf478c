import MethodHistory.Location
import MethodHistory.Run

/-!
This module contains the jobs of mining a repository from its opening on.
-/

namespace MethodHistory

structure Opening where
  repository : Json
  package : Json
  token : Json

inductive OpeningFault where
  | interrupted
  | failed (failure : Failure)
  deriving DecidableEq

structure Job where
  opening : Opening
  project : Json
  request : Request
  suffix : Json
  excludeTests : Json
  span : Json

namespace Job

def projectName (job : Job) : Except Misuse ProjectName :=
  if job.project.isTrue then
    .ok (.ofJson job.project)
  else
    match job.opening.repository with
    | .text repository => .ok (.text (Location.lastPart repository.replaced))
    | repository => .error (.noMember repository.kind "rstrip")

def miner (job : Job) (project : ProjectName) (limits : NameLimits) (engine : Engine)
    (source : Source) : Miner Progress :=
  { source
    engine
    monitor := .never
    project
    limits
    suffix := .text job.suffix
    excludeTests := job.excludeTests.isTrue
    span := Progress.span job.span }

def run (job : Job) (project : ProjectName) (limits : NameLimits) (engine : Engine)
    (source : Source) (sink : Sink) : Except Failure (Outcome Progress) :=
  match job.request.mode with
  | .error label => .error (.unknownMode label)
  | .ok _ =>
    .ok ((job.miner project limits engine source).run job.request (Miner.initial sink .empty false))

end Job
end MethodHistory
