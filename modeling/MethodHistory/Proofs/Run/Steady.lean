import MethodHistory.Proofs.Run.Stopping

/-!
This module contains relations between two runs that stay when both take the same steps, with the
same answers: a relation that the single steps respect is respected by a run as a whole.
-/

namespace MethodHistory

variable {ν α : Type}

namespace RunM

def LeavesFiles (act : RunM ν α) : Prop :=
  ∀ run, (perform act run).2.slots = run.slots ∧ (perform act run).2.directory = run.directory

theorem mirrors_outcome {related : Run ν → Run ν → Prop} {act : RunM ν α}
    (h : Mirrors related act) : Mirrors related (outcome act) := by
  intro one other hrelated
  obtain ⟨hresult, hstates⟩ := h one other hrelated
  rw [perform_outcome, perform_outcome, hresult]
  exact ⟨rfl, hstates⟩

variable {miner : Miner ν}

theorem leavesFiles_inSurvey (act : SurveyM α) : LeavesFiles (inSurvey act : RunM ν α) := by
  intro run
  rw [perform_inSurvey]
  exact ⟨rfl, rfl⟩

theorem leavesFiles_report [Scale ν] (fraction : ν) : LeavesFiles (report miner fraction) := by
  intro run
  rw [perform_report]
  split
  . exact ⟨rfl, rfl⟩
  . split <;> exact ⟨rfl, rfl⟩

theorem leavesFiles_compare (path : String) : LeavesFiles (RunM.compare miner path) := by
  intro run
  obtain ⟨comparisons, stopRequested, hperform, -⟩ := @perform_compare _ miner path run
  rw [hperform]
  exact ⟨rfl, rfl⟩

end RunM

structure Run.IsSteady [Scale ν] (miner : Miner ν) (related : Run ν → Run ν → Prop) : Prop where
  survey : ∀ {α : Type} {act calmAct : SurveyM α},
    SurveyM.Composed miner.source miner.monitor act calmAct →
      Mirrors related (RunM.inSurvey act)
  report : ∀ fraction, Mirrors related (RunM.report miner fraction)

structure Run.IsWalkable [Scale ν] (miner : Miner ν) (related : Run ν → Run ν → Prop) : Prop
    extends Run.IsSteady miner related where
  compare : ∀ path, Mirrors related (RunM.compare miner path)
  write_previous : ∀ content, Mirrors related (RunM.write (·.previous) content)
  write_actual : ∀ content, Mirrors related (RunM.write (·.actual) content)
  swap : Mirrors related (RunM.useSlots Slots.swap)

structure Run.IsRunnable [Scale ν] (miner : Miner ν) (related : Run ν → Run ν → Prop) : Prop
    extends Run.IsSteady miner related where
  history : ∀ path,
    Mirrors related (RunM.inSurvey (SurveyM.history miner.source miner.monitor path))
  settle : ∀ request mode, Mirrors related (RunM.resolveRange miner request mode)
  enter : ∀ phase, Mirrors related (RunM.enter phase)
  count : ∀ change, (∀ tally, (change tally).records = tally.records) →
    Mirrors related (RunM.count change)
  emit : ∀ records, Mirrors related (RunM.emit miner records)
  walk : ∀ range path suffix revisions, Mirrors related
    (RunM.withSlots miner.limits suffix (RunM.walk miner range path false revisions))

namespace RunM

variable [Scale ν] {miner : Miner ν} {related : Run ν → Run ν → Prop}

section

variable (h : Run.IsSteady miner related)
include h

theorem mirrors_checkpoint : Mirrors related (checkpoint miner) :=
  h.survey .checkpoint

theorem mirrors_ask {α : Type} (question : Question) (answer : Except Failure α)
    : Mirrors related (outcome (inSurvey (SurveyM.ask question answer))) :=
  mirrors_outcome (h.survey (.lookup (.ask question answer)))

theorem mirrors_filesIn (range : Range) : Mirrors related (filesIn miner range) := by
  rw [filesIn]
  generalize ([] : List String) = files
  induction anchors range generalizing files with
  | nil => apply Mirrors.pure
  | cons commit commits ih =>
    rw [List.foldlM]
    apply Mirrors.bind
    . rw [addFiles]
      apply (mirrors_checkpoint h).bind
      intro _
      apply (mirrors_ask h _ _).bind
      intro listed
      split
      . apply Mirrors.pure
      . apply Mirrors.throw
      . apply Mirrors.throw
    . intro files
      apply ih

theorem mirrors_readRevision (path : String) (revision : Revision)
    : Mirrors related (readRevision miner path revision) := by
  rw [readRevision]
  apply (mirrors_ask h _ _).bind
  intro content
  split
  . apply Mirrors.pure
  . apply Mirrors.pure
  . apply Mirrors.throw

theorem mirrors_creditedCommit (revision : Revision)
    : Mirrors related (creditedCommit miner revision) := by
  rw [creditedCommit]
  apply (h.survey (.lookup (.commit _))).bind
  intro commit
  apply Mirrors.pure

end

section

variable (h : Run.IsWalkable miner related)
include h

theorem mirrors_recordPair (range : Range) (path : String) (revision : Revision)
    : Mirrors related (recordPair miner range path revision) := by
  rw [recordPair]
  apply (h.compare path).bind
  intro events
  apply (mirrors_creditedCommit h.toIsSteady revision).bind
  intro commit
  apply Mirrors.bind
  . apply Mirrors.forM
    intro _
    exact mirrors_checkpoint h.toIsSteady
  . intro _
    apply Mirrors.pure

theorem mirrors_walk (range : Range) (path : String) (started : Bool) (revisions : List Revision)
    : Mirrors related (walk miner range path started revisions) := by
  induction revisions generalizing started with
  | nil => apply Mirrors.pure
  | cons revision revisions ih =>
    rw [walk]
    apply (mirrors_checkpoint h.toIsSteady).bind
    intro _
    apply (mirrors_readRevision h.toIsSteady path revision).bind
    intro content
    cases content with
    | none => apply ih
    | some content =>
      dsimp only
      split
      . apply (h.write_actual content).bind
        intro _
        apply (mirrors_recordPair h range path revision).bind
        intro records
        apply h.swap.bind
        intro _
        apply (ih true).bind
        intro later
        apply Mirrors.pure
      . apply (h.write_previous content).bind
        intro _
        apply ih

end

section

variable (h : Run.IsRunnable miner related)
include h

theorem mirrors_nextRecords (range : Range) (path : String)
    : Mirrors related (nextRecords miner range path) := by
  rw [nextRecords]
  apply (mirrors_checkpoint h.toIsSteady).bind
  intro _
  split
  . apply Mirrors.pure
  . rw [fileRecords]
    apply (h.enter _).bind
    intro _
    apply (mirrors_outcome (h.history path)).bind
    intro history
    split
    . apply Mirrors.pure
    . apply Mirrors.throw
    . split
      . apply Mirrors.pure
      . apply (h.enter _).bind
        intro _
        apply Mirrors.map
        apply h.walk

theorem mirrors_handOver (records : Option (List Record))
    : Mirrors related (handOver miner records) := by
  cases records with
  | none =>
    apply h.count
    intro _
    rfl
  | some records =>
    rw [handOver]
    apply (h.enter _).bind
    intro _
    apply (h.emit records).bind
    intro _
    apply h.count
    intro _
    rfl

theorem mirrors_takeFiles (range : Range) (start stop : ν) (total : Nat)
    (files : List (String × Nat))
    : Mirrors related (takeFiles miner range start stop total files) := by
  apply Mirrors.forM
  intro file
  rw [visit]
  apply (mirrors_nextRecords h range file.1).bind
  intro records
  apply (mirrors_handOver h records).bind
  intro _
  apply h.report

theorem mirrors_plan (request : Request) : Mirrors related (plan miner request) := by
  rw [plan]
  apply (mirrors_checkpoint h.toIsSteady).bind
  intro _
  apply (h.enter _).bind
  intro _
  apply (Mirrors.lift _).bind
  intro mode
  apply (h.settle request mode).bind
  intro range
  apply Mirrors.bind
  . apply h.count
    intro _
    rfl
  . intro _
    apply (h.enter _).bind
    intro _
    apply (mirrors_filesIn h.toIsSteady range).bind
    intro files
    apply (Mirrors.lift _).bind
    intro ends
    apply (h.report _).bind
    intro _
    apply Mirrors.pure

theorem mirrors_body (request : Request) : Mirrors related (body miner request) := by
  rw [body]
  apply (mirrors_plan h request).bind
  intro plan
  apply (mirrors_takeFiles h _ _ _ _ _).bind
  intro _
  apply (h.enter _).bind
  intro _
  apply h.report

end

omit [Scale ν] in
theorem keeps_emit {p : Run ν → Prop} (hreceive : ∀ run record, p run → p (run.receive record))
    (hnote : ∀ run emitted, p run → p { run with survey := { run.survey with emitted } })
    (records : List Record) : Keeps p (emit miner records) := by
  intro run hrun
  rw [emit]
  cases miner.project.misuse? with
  | none =>
    change p (records.foldl Run.receive run)
    induction records generalizing run with
    | nil => exact hrun
    | cons record records ih => exact ih _ (hreceive run record hrun)
  | some misuse =>
    dsimp only
    rw [perform_bind, perform_get]
    dsimp only
    cases records.find? fun record => (accept run.survey.emitted record).1 with
    | none => exact hrun
    | some record => exact hnote run _ hrun

end RunM

namespace Miner

variable [Scale ν] {miner : Miner ν} {related : Run ν → Run ν → Prop}

theorem related_run (h : Run.IsRunnable miner related) (request : Request) {one other : Run ν}
    (hstart : related one other)
    : related (miner.run request one).run (miner.run request other).run
      ∧ ((miner.run request one).run.tally = (miner.run request other).run.tally →
        (miner.run request one).result = (miner.run request other).result) := by
  obtain ⟨hresult, hlast⟩ := RunM.mirrors_body h request one other hstart
  cases hone : (perform (RunM.body miner request) one).1 with
  | ok a =>
    rw [run_of_ok (perform_eq_of_result hone),
      run_of_ok (perform_eq_of_result (hresult.symm.trans hone))]
    exact ⟨hlast, congrArg Except.ok⟩
  | error failure =>
    have hone := perform_eq_of_result hone
    have hother := perform_eq_of_result (hresult.symm.trans (congrArg Prod.fst hone))
    have henter (phase : Phase) := (h.enter phase _ _ hlast).2
    by_cases hfailure : failure = .cancelled
    . subst hfailure
      rw [run_of_cancelled hone, run_of_cancelled hother]
      exact ⟨henter .cancelled, congrArg Except.ok⟩
    . rw [run_of_error hfailure hone, run_of_error hfailure hother]
      exact ⟨henter .failed, fun _ => rfl⟩

theorem keeps_run {p : Run ν → Prop} (h : Run.IsRunnable miner (Same p)) (request : Request)
    {start : Run ν} (hstart : p start) : p (miner.run request start).run :=
  (related_run h request ⟨rfl, hstart⟩).1.2

end Miner
end MethodHistory
