import MethodHistory.Proofs.Survey.Composed

/-!
This module contains what the acts of a survey find out that nobody stops: their answers depend on
the source alone, whatever is noted already and however often it was checked whether to stop.
-/

namespace MethodHistory

variable {α β : Type} {source : Source} {monitor : Monitor}

namespace Survey

structure IsCalm (source : Source) (survey : Survey) : Prop where
  recalls : survey.Recalls source
  not_stopped : survey.stopRequested = false

theorem isCalm_start (source : Source) : (start false).IsCalm source := by
  constructor
  . apply recalls_start
  . rfl

end Survey

namespace SurveyM

def answer (act : SurveyM α) : Except Failure α :=
  (perform act (.start false)).1

structure Tells (source : Source) (act : SurveyM α) : Prop where
  answer_eq : ∀ survey, survey.IsCalm source → (perform act survey).1 = answer act
  isCalm : ∀ survey, survey.IsCalm source → (perform act survey).2.IsCalm source

namespace Tells

theorem perform_bind {act : SurveyM α} {next : α → SurveyM β} (hact : Tells source act)
    {survey : Survey} (hs : survey.IsCalm source) : perform (act >>= next) survey =
      match answer act with
      | .ok a => perform (next a) (perform act survey).2
      | .error failure => (.error failure, (perform act survey).2) := by
  rw [MethodHistory.perform_bind, ← hact.answer_eq survey hs]
  generalize perform act survey = done
  obtain ⟨result, after⟩ := done
  cases result <;> rfl

theorem answer_bind {act : SurveyM α} {next : α → SurveyM β} (hact : Tells source act)
    (hnext : ∀ a, Tells source (next a))
    : answer (act >>= next) = answer act >>= fun a => answer (next a) := by
  have hstart := Survey.isCalm_start source
  rw [answer, hact.perform_bind hstart]
  cases answer act with
  | ok a => exact (hnext a).answer_eq _ (hact.isCalm _ hstart)
  | error failure => rfl

theorem bind {act : SurveyM α} {next : α → SurveyM β} (hact : Tells source act)
    (hnext : ∀ a, Tells source (next a)) : Tells source (act >>= next) := by
  constructor
  . intro survey hs
    rw [hact.perform_bind hs, hact.answer_bind hnext]
    cases answer act with
    | ok a => exact (hnext a).answer_eq _ (hact.isCalm _ hs)
    | error failure => rfl
  . intro survey hs
    rw [hact.perform_bind hs]
    cases answer act with
    | ok a => exact (hnext a).isCalm _ (hact.isCalm _ hs)
    | error failure => exact hact.isCalm _ hs

theorem useRange (range : Range) : Tells source (useRange range) := by
  constructor
  . intros
    rfl
  . intro survey hs
    exact ⟨⟨hs.recalls.commits, hs.recalls.tags⟩, hs.not_stopped⟩

theorem checkpoint : Tells source (checkpoint .never) := by
  constructor
  . intro survey hs
    rw [answer, perform_checkpoint, perform_checkpoint]
    simp [Monitor.never, Survey.start, hs.not_stopped]
  . intro survey hs
    rw [perform_checkpoint]
    refine ⟨⟨hs.recalls.commits, hs.recalls.tags⟩, ?_⟩
    simp [Monitor.never, hs.not_stopped]

end Tells

theorem IsLookup.tells {act : SurveyM α} (h : IsLookup source act) : Tells source act := by
  constructor
  . intro survey hs
    exact h.answer_eq survey _ hs.recalls (Survey.recalls_start source false)
  . intro survey hs
    refine ⟨h.recalls survey hs.recalls, ?_⟩
    rw [← h.remarked_eq survey]
    exact hs.not_stopped

theorem Composed.tells {act calmAct : SurveyM α} (h : Composed source monitor act calmAct)
    : Tells source calmAct := by
  induction h with
  | lookup h => exact h.tells
  | checkpoint => exact Tells.checkpoint
  | bind _ _ ihact ihnext => exact ihact.bind ihnext

theorem Settling.tells {act calmAct : SurveyM Range} (h : Settling source monitor act calmAct)
    : Tells source calmAct := by
  induction h with
  | use range =>
    apply Tells.bind (.useRange range)
    intros
    exact (IsLookup.pure range).tells
  | bind hact _ ihnext => exact hact.tells.bind ihnext

/-! What single acts answer -/

@[simp]
theorem answer_ask (question : Question) (result : Except Failure α)
    : answer (ask question result) = result := by
  rw [answer, perform_ask]

@[simp]
theorem answer_commits (source : Source) : answer (commits source) = source.allCommits := by
  rw [answer, perform_commits_of_none rfl]

theorem answer_commit (source : Source) (id : String)
    : answer (commit source id) = source.allCommits.map (commitIn · id) := by
  rw [commit, IsLookup.commits.tells.answer_bind, answer_commits]
  . cases source.allCommits <;> rfl
  . intro commits
    exact (IsLookup.pure _).tells

theorem perform_checkpoint_never {survey : Survey} (h : survey.stopRequested = false)
    : perform (checkpoint .never) survey
        =
      (.ok ⟨⟩, { survey with checks := survey.checks + 1 }) := by
  have hnever : Monitor.never.stopsAtCheck (survey.checks + 1) = false := rfl
  rw [perform_checkpoint]
  dsimp only
  rw [hnever, h]
  rfl

theorem perform_checkpoints (xs : List α) {survey : Survey} (h : survey.stopRequested = false)
    : perform (xs.forM fun _ => checkpoint .never) survey =
      (.ok ⟨⟩, { survey with checks := survey.checks + xs.length }) := by
  induction xs generalizing survey with
  | nil => rfl
  | cons x xs ih =>
    have hnext : { survey with checks := survey.checks + 1 }.stopRequested = false := h
    rw [List.forM, perform_bind_ok (perform_checkpoint_never h), ih hnext]
    rw [List.length_cons, Nat.add_assoc, Nat.add_comm 1]

theorem tells_checkpoints (source : Source) (xs : List α)
    : Tells source (xs.forM fun _ => checkpoint .never) :=
  (@Composed.checkpoints _ source .never xs).tells

theorem answer_checkpoints (xs : List α)
    : answer (xs.forM fun _ => checkpoint .never) = .ok ⟨⟩ := by
  rw [answer, perform_checkpoints xs rfl]

end SurveyM

def Source.historyOf (source : Source) (range : Range) (path : String)
    : Except Failure FileHistory :=
  if range.isEmpty then
    .ok (.nothing path)
  else do
    let revisions ← source.revisionsOf path
    match range.mode with
    | .date => .ok (.ofWindow range path revisions)
    | .positional =>
      let commits ← source.allCommits
      .ok (.ofBlock (positionIn commits) range path revisions)

namespace SurveyM

theorem tells_historyAmong (source : Source) (path : String) (range : Range)
    (revisions : List Revision)
    : Tells source (historyAmong source .never path range revisions) :=
  (@Composed.historyAmong source .never path range revisions).tells

theorem answer_historyAmong (source : Source) (path : String) (range : Range)
    (revisions : List Revision) : answer (historyAmong source .never path range revisions) =
      match range.mode with
      | .date => .ok (.ofWindow range path revisions)
      | .positional =>
        source.allCommits.map fun commits =>
          .ofBlock (positionIn commits) range path revisions := by
  have hchecks := tells_checkpoints source revisions
  have hpure (history : FileHistory) : Tells source (pure history) := (IsLookup.pure history).tells
  rw [historyAmong]
  cases range.mode with
  | date =>
    dsimp only
    split
    . rw [hchecks.answer_bind fun _ => hpure _, answer_checkpoints]
      rfl
    . rfl
  | positional =>
    dsimp only
    rw [IsLookup.commits.tells.answer_bind fun _ => hchecks.bind fun _ => hpure _, answer_commits]
    cases source.allCommits with
    | error failure => rfl
    | ok commits =>
      change answer (_ >>= _) = _
      rw [hchecks.answer_bind fun _ => hpure _, answer_checkpoints]
      rfl

theorem answer_historyIn (source : Source) (path : String) (range : Range)
    : answer (historyIn source .never path range) = source.historyOf range path := by
  rw [historyIn, Source.historyOf]
  split
  . rfl
  . have hask := (IsLookup.ask (.revisionsOf path) (source.revisionsOf path) : IsLookup source _)
    rw [hask.tells.answer_bind fun _ => tells_historyAmong _ _ _ _, answer_ask]
    cases source.revisionsOf path with
    | error failure => rfl
    | ok revisions =>
      change answer (historyAmong _ _ _ _ _) = _
      rw [answer_historyAmong]
      cases range.mode with
      | date => rfl
      | positional =>
        cases source.allCommits <;> rfl

end SurveyM

def Source.rangeOf (source : Source) (request : Request) (mode : Mode) : Except Failure Range :=
  SurveyM.answer (request.resolve source .never mode)

end MethodHistory
