import MethodHistory.Proofs.Stopping

/-!
This module contains the acts of a run in front of what it yields, as they are composed of acts of
its survey, of acts apart from it, and of requests to stop, each beside the same act without a
monitor. None of them touches what the run has yielded.
-/

namespace MethodHistory

variable {ν α β : Type}

structure Yield where
  records : List Record
  processed : Nat
  skipped : Nat
  sink : Sink
  emitted : List String

def Run.yield (run : Run ν) : Yield :=
  ⟨run.tally.records, run.tally.processed, run.tally.skipped, run.sink, run.survey.emitted⟩

def Miner.calm (miner : Miner ν) : Miner ν :=
  { miner with monitor := .never }

theorem Miner.calm_of_never {miner : Miner ν} (h : miner.monitor = .never)
    : miner.calm = miner := by
  rw [calm, ← h]

namespace RunM

structure IsApart (act : RunM ν α) : Prop where
  perform_eq : ∀ run survey, perform act { run with survey } =
    ((perform act run).1, { (perform act run).2 with survey })
  yield_eq : ∀ run, (perform act run).2.yield = run.yield

namespace IsApart

theorem survey_eq {act : RunM ν α} (h : IsApart act) (run : Run ν)
    : (perform act run).2.survey = run.survey := by
  have := h.perform_eq run run.survey
  rw [this]

theorem passesAt {monitor : Monitor} {act : RunM ν α} (h : IsApart act) (run : Run ν)
    : PassesAt monitor act act run := by
  constructor
  . refine (h.perform_eq run run.survey.calm).trans ?_
    rw [Prod.mk.injEq]
    refine ⟨rfl, ?_⟩
    rw [← h.survey_eq run]
    rfl
  . change run.survey.Passed _ (perform _ run).2.survey
    rw [h.survey_eq run]
    exact .of_eq rfl rfl

theorem pure (a : α) : IsApart (pure a : RunM ν α) := by
  constructor
  . intros
    rfl
  . intros
    rfl

theorem throw (failure : Failure) : IsApart (throw failure : RunM ν α) := by
  constructor
  . intros
    rfl
  . intros
    rfl

theorem lift (result : Except Failure α) : IsApart (liftM result : RunM ν α) := by
  cases result with
  | ok a => exact pure a
  | error failure => exact throw failure

theorem enter (phase : Phase) : IsApart (enter phase : RunM ν Unit) := by
  constructor
  . intros
    rfl
  . intros
    rfl

theorem reached : IsApart (reached : RunM ν ν) := by
  constructor
  . intros
    rfl
  . intros
    rfl

theorem snapshot (slot : Slots → Option SnapshotPath)
    : IsApart (snapshot slot : RunM ν Snapshot) := by
  constructor
  . intros
    rfl
  . intros
    rfl

theorem modify {change : Run ν → Run ν}
    (hsurvey : ∀ run survey, change { run with survey } = { change run with survey })
    (hyield : ∀ run, (change run).yield = run.yield)
    : IsApart (modify change : RunM ν PUnit) := by
  constructor
  . intro run survey
    rw [perform_modify, perform_modify, hsurvey]
  . exact hyield

theorem count {change : Tally → Tally} (hrecords : ∀ tally, (change tally).records = tally.records)
    (hprocessed : ∀ tally, (change tally).processed = tally.processed)
    (hskipped : ∀ tally, (change tally).skipped = tally.skipped)
    : IsApart (count change : RunM ν Unit) := by
  constructor
  . intros
    rfl
  . intro run
    rw [perform_count, Run.yield, Run.yield]
    dsimp only
    rw [hrecords, hprocessed, hskipped]

theorem write (slot : Slots → Option SnapshotPath) (content : ByteArray)
    : IsApart (write slot content : RunM ν Unit) := by
  constructor
  . intro run survey
    rw [perform_write, perform_write]
    dsimp only
    cases run.directory.write (slot run.slots) content <;> rfl
  . intro run
    rw [perform_write]
    cases run.directory.write (slot run.slots) content <;> rfl

theorem useSlots (change : Slots → Directory → Except SnapshotFault (Slots × Directory))
    : IsApart (useSlots change : RunM ν Unit) := by
  constructor
  . intro run survey
    rw [perform_useSlots, perform_useSlots]
    dsimp only
    cases change run.slots run.directory <;> rfl
  . intro run
    rw [perform_useSlots]
    cases change run.slots run.directory <;> rfl

end IsApart

theorem perform_outcome_bind (act : RunM ν α) (next : Except Failure α → RunM ν β) (run : Run ν)
    : perform (outcome act >>= next) run =
      perform (next (perform act run).1) (perform act run).2 := by
  rfl

theorem passesAt_hear {monitor : Monitor} {isAsked : Run ν → Bool}
    (h : monitor.AsksAtChecks → ∀ run, isAsked run = false) (run : Run ν)
    : PassesAt monitor (hear isAsked) (hear fun _ => false) run := by
  refine ⟨rfl, ?_⟩
  constructor
  . exact Nat.le_refl _
  . intro n hlt hle
    exact absurd hlt (Nat.not_lt_of_le hle)
  . intro hmonitor
    change (run.survey.stopRequested || _) = run.survey.stopRequested
    rw [h hmonitor, Bool.or_false]

inductive Composed (miner : Miner ν) : {α : Type} → RunM ν α → RunM ν α → Prop
  | survey {α : Type} {act calmAct : SurveyM α}
      (h : SurveyM.Composed miner.source miner.monitor act calmAct)
      : Composed miner (inSurvey act) (inSurvey calmAct)
  | settle {act calmAct : SurveyM Range}
      (h : SurveyM.Settling miner.source miner.monitor act calmAct)
      : Composed miner (inSurvey act) (inSurvey calmAct)
  | history (path : String) : Composed miner
      (inSurvey (SurveyM.history miner.source miner.monitor path))
      (inSurvey (SurveyM.history miner.source .never path))
  | apart {α : Type} {act : RunM ν α} (h : IsApart act) : Composed miner act act
  | hear {isAsked : Run ν → Bool} (h : miner.monitor.AsksAtChecks → ∀ run, isAsked run = false)
      : Composed miner (hear isAsked) (hear fun _ => false)
  | bind {α β : Type} {act calmAct : RunM ν α} {next calmNext : α → RunM ν β}
      (hact : Composed miner act calmAct) (hnext : ∀ a, Composed miner (next a) (calmNext a))
      : Composed miner (act >>= next) (calmAct >>= calmNext)
  | recover {α β : Type} {act calmAct : RunM ν α} {next calmNext : Except Failure α → RunM ν β}
      (hact : Composed miner act calmAct)
      (hnext : ∀ result, Composed miner (next result) (calmNext result))
      (hpass : ∀ run, (perform (next (.error .cancelled)) run).1 = .error .cancelled
        ∧ (perform (next (.error .cancelled)) run).2.survey = run.survey)
      : Composed miner (outcome act >>= next) (outcome calmAct >>= calmNext)

namespace Composed

variable {miner : Miner ν}

theorem yield_eq {act calmAct : RunM ν α} (h : Composed miner act calmAct) (run : Run ν)
    : (perform act run).2.yield = run.yield := by
  induction h generalizing run with
  | survey h =>
    rw [perform_inSurvey, Run.yield, Run.yield]
    dsimp only
    rw [(h.keeps run.survey).1]
  | settle h =>
    rw [perform_inSurvey, Run.yield, Run.yield]
    dsimp only
    rw [(h.keeps run.survey).1]
  | history path =>
    rw [perform_inSurvey, Run.yield, Run.yield]
    dsimp only
    rw [SurveyM.emitted_history]
  | apart h => exact h.yield_eq run
  | hear h => rfl
  | @bind α β act _ next _ _ _ ihact ihnext =>
    rw [perform_bind]
    have hact := ihact run
    generalize perform act run = done at *
    obtain ⟨result, after⟩ := done
    cases result with
    | ok a => exact (ihnext a after).trans hact
    | error failure => exact hact
  | @recover α β act _ next _ _ _ _ ihact ihnext =>
    rw [perform_bind, perform_outcome]
    exact (ihnext _ _).trans (ihact run)

theorem follows_inSurvey {act calmAct : SurveyM α} (h : Follows miner.monitor act calmAct)
    : Follows miner.monitor (inSurvey act : RunM ν α) (inSurvey calmAct) := by
  intro run
  cases h run.survey with
  | inl hstop =>
    refine .inl ⟨?_, ?_⟩
    . rw [perform_inSurvey]
      exact hstop.result_eq
    . rw [perform_inSurvey]
      exact hstop.stopped
  | inr hpass =>
    have hcalm : perform calmAct (Surveyed.calm run).survey = _ := hpass.calm_eq
    refine .inr ⟨?_, ?_⟩
    . rw [perform_inSurvey, perform_inSurvey, hcalm]
      rfl
    . rw [perform_inSurvey]
      exact hpass.passed

theorem follows {act calmAct : RunM ν α} (h : Composed miner act calmAct)
    : Follows miner.monitor act calmAct := by
  induction h with
  | survey h => exact follows_inSurvey h.follows
  | settle h => exact follows_inSurvey h.follows
  | history path => exact follows_inSurvey (SurveyM.follows_history path)
  | apart h => exact fun run => .inr (h.passesAt run)
  | hear h => exact fun run => .inr (passesAt_hear h run)
  | bind _ _ ihact ihnext => exact ihact.bind ihnext
  | @recover α β act calmAct next calmNext _ _ hpass ihact ihnext =>
    intro run
    cases ihact run with
    | inl hstop =>
      obtain ⟨hresult, hsurvey⟩ := hpass (perform act run).2
      rw [← hstop.result_eq, ← perform_outcome_bind] at hresult hsurvey
      refine .inl ⟨hresult, ?_⟩
      change run.survey.Stopped _ (perform _ run).2.survey
      rw [hsurvey]
      exact hstop.stopped
    | inr hcalm =>
      have hthrough : PassesAt miner.monitor (outcome act) (outcome calmAct) run := by
        refine ⟨?_, hcalm.passed⟩
        rw [perform_outcome, perform_outcome, hcalm.calm_eq]
      cases ihnext (perform act run).1 (perform act run).2 with
      | inl hstop => exact .inl (hthrough.bind_stops rfl hstop)
      | inr hpass => exact .inr (hthrough.bind_ok rfl hpass)

/-! The acts of a run -/

theorem lookup {act : SurveyM α} (h : SurveyM.IsLookup miner.source act)
    : Composed miner (inSurvey act) (inSurvey act) := by
  apply survey
  apply SurveyM.Composed.lookup h

theorem pure (a : α) : Composed miner (pure a) (pure a) := by
  apply apart
  apply IsApart.pure

theorem throw (failure : Failure)
    : Composed miner (throw failure : RunM ν α) (throw failure) := by
  apply apart
  apply IsApart.throw

theorem map {act calmAct : RunM ν α} (f : α → β) (h : Composed miner act calmAct)
    : Composed miner (f <$> act) (f <$> calmAct) := by
  rw [map_eq_pure_bind, map_eq_pure_bind]
  apply bind h
  intro a
  apply pure

theorem checkpoint : Composed miner (checkpoint miner) (checkpoint miner.calm) := by
  apply survey
  apply SurveyM.Composed.checkpoint

theorem checkpoints (xs : List α) : Composed miner (xs.forM fun _ => RunM.checkpoint miner)
    (xs.forM fun _ => RunM.checkpoint miner.calm) := by
  induction xs with
  | nil => apply pure
  | cons x xs ih =>
    rw [List.forM, List.forM]
    apply bind checkpoint
    intros
    exact ih

theorem report [Scale ν] (fraction : ν)
    : Composed miner (report miner fraction) (report miner.calm fraction) := by
  rw [RunM.report, RunM.report]
  split
  . apply throw
  . apply bind (apart .reached)
    intro reached
    split
    . apply pure
    . apply bind
      . apply apart
        apply IsApart.modify <;> (intros; rfl)
      . intros
        apply hear
        intro hmonitor run
        apply hmonitor.1

theorem resolveRange (request : Request) (mode : Mode)
    : Composed miner (resolveRange miner request mode) (resolveRange miner.calm request mode) := by
  apply settle
  apply SurveyM.Settling.resolve

theorem addFiles (files : List String) (commit : String)
    : Composed miner (addFiles miner files commit) (addFiles miner.calm files commit) := by
  rw [RunM.addFiles, RunM.addFiles]
  apply bind checkpoint
  intros
  apply recover (lookup (.ask _ _))
  . intro listed
    split
    . apply pure
    . apply throw
    . apply throw
  . intro run
    exact ⟨rfl, rfl⟩

theorem filesIn (range : Range)
    : Composed miner (filesIn miner range) (filesIn miner.calm range) := by
  rw [RunM.filesIn, RunM.filesIn]
  generalize ([] : List String) = files
  induction anchors range generalizing files with
  | nil => apply pure
  | cons commit commits ih =>
    rw [List.foldlM, List.foldlM]
    apply bind (addFiles files commit)
    intro files
    apply ih

theorem readRevision (path : String) (revision : Revision)
    : Composed miner (readRevision miner path revision)
        (readRevision miner.calm path revision) := by
  rw [RunM.readRevision, RunM.readRevision]
  apply recover (lookup (.ask _ _))
  . intro content
    split
    . apply pure
    . apply pure
    . apply throw
  . intro run
    exact ⟨rfl, rfl⟩

theorem noteComparison (previous actual : Snapshot) (result : Except EngineFault (List Change))
    : Composed miner (noteComparison miner previous actual result)
      (noteComparison miner.calm previous actual result) := by
  rw [RunM.noteComparison, RunM.noteComparison]
  split
  . apply bind
    . apply apart
      apply IsApart.modify <;> (intros; rfl)
    . intros
      apply hear
      intro hmonitor run
      apply hmonitor.2
  . apply pure

theorem countEvents (path : String) (result : Except EngineFault (List Change))
    : Composed miner (countEvents path result) (countEvents path result) := by
  rw [RunM.countEvents]
  split
  all_goals
    apply bind
    . apply apart
      apply IsApart.count <;> (intro; rfl)
    . intros
      apply pure

theorem compare (path : String)
    : Composed miner (compare miner path) (compare miner.calm path) := by
  rw [RunM.compare, RunM.compare]
  apply bind (apart (.snapshot _))
  intro previous
  apply bind (apart (.snapshot _))
  intro actual
  apply bind (noteComparison previous actual _)
  intros
  apply countEvents

theorem creditedCommit (revision : Revision)
    : Composed miner (creditedCommit miner revision) (creditedCommit miner.calm revision) := by
  rw [RunM.creditedCommit, RunM.creditedCommit]
  apply bind (lookup (.commit _))
  intro commit
  apply pure

theorem recordPair (range : Range) (path : String) (revision : Revision)
    : Composed miner (recordPair miner range path revision)
      (recordPair miner.calm range path revision) := by
  rw [RunM.recordPair, RunM.recordPair]
  apply bind (compare path)
  intro events
  apply bind (creditedCommit revision)
  intro commit
  apply bind (checkpoints events)
  intros
  apply pure

theorem walk (range : Range) (path : String) (started : Bool) (revisions : List Revision)
    : Composed miner (walk miner range path started revisions)
      (walk miner.calm range path started revisions) := by
  induction revisions generalizing started with
  | nil => apply pure
  | cons revision revisions ih =>
    rw [RunM.walk, RunM.walk]
    apply bind checkpoint
    intros
    apply bind (readRevision path revision)
    intro content
    cases content with
    | none => apply ih
    | some content =>
      dsimp only
      split
      . apply bind (apart (.write _ _))
        intros
        apply bind (recordPair range path revision)
        intro records
        apply bind (apart (.useSlots _))
        intros
        apply bind (ih true)
        intro later
        apply pure
      . apply bind (apart (.write _ _))
        intros
        apply ih

theorem withSlots (limits : NameLimits) (suffix : String) {act calmAct : RunM ν α}
    (h : Composed miner act calmAct)
    : Composed miner (withSlots limits suffix act) (withSlots limits suffix calmAct) := by
  rw [RunM.withSlots, RunM.withSlots]
  apply bind (apart (.useSlots _))
  intros
  apply recover h
  . intro result
    apply bind
    . apply apart
      apply IsApart.modify <;> (intros; rfl)
    . intros
      apply apart (.lift result)
  . intro run
    exact ⟨rfl, rfl⟩

theorem fileRecords (range : Range) (path : String)
    : Composed miner (fileRecords miner range path) (fileRecords miner.calm range path) := by
  rw [RunM.fileRecords, RunM.fileRecords]
  apply bind (apart (.enter _))
  intros
  apply recover (history path)
  . intro result
    split
    . apply pure
    . apply throw
    . split
      . apply pure
      . apply bind (apart (.enter _))
        intros
        apply map
        apply withSlots
        apply walk
  . intro run
    exact ⟨rfl, rfl⟩

theorem nextRecords (range : Range) (path : String)
    : Composed miner (nextRecords miner range path) (nextRecords miner.calm range path) := by
  have hexclude : miner.calm.excludeTests = miner.excludeTests := rfl
  rw [RunM.nextRecords, RunM.nextRecords, hexclude]
  apply bind checkpoint
  intros
  split
  . apply pure
  . apply fileRecords

theorem plan [Scale ν] (request : Request)
    : Composed miner (plan miner request) (plan miner.calm request) := by
  rw [RunM.plan, RunM.plan]
  apply bind checkpoint
  intros
  apply bind (apart (.enter _))
  intros
  apply bind (apart (.lift _))
  intro mode
  apply bind (resolveRange request mode)
  intro range
  apply bind
  . apply apart
    apply IsApart.count <;> (intro; rfl)
  . intros
    apply bind (apart (.enter _))
    intros
    apply bind (filesIn range)
    intro files
    apply bind (apart (.lift _))
    intro ends
    apply bind (report _)
    intros
    apply pure

end Composed
end RunM
end MethodHistory
