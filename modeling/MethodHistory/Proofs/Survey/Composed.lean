import MethodHistory.Proofs.Survey.Lookup

/-!
This module contains the acts of a survey as they are composed of lookups and of checks whether to
stop, each beside the same act without a monitor. An act that settles on a range ends by putting the
range in use.
-/

namespace MethodHistory
namespace SurveyM

variable {α β : Type} {source : Source} {monitor : Monitor}

inductive Composed (source : Source) (monitor : Monitor)
    : {α : Type} → SurveyM α → SurveyM α → Prop
  | lookup {α : Type} {act : SurveyM α} (h : IsLookup source act) : Composed source monitor act act
  | checkpoint : Composed source monitor (checkpoint monitor) (checkpoint .never)
  | bind {α β : Type} {act calmAct : SurveyM α} {next calmNext : α → SurveyM β}
      (hact : Composed source monitor act calmAct)
      (hnext : ∀ a, Composed source monitor (next a) (calmNext a))
      : Composed source monitor (act >>= next) (calmAct >>= calmNext)

inductive Settling (source : Source) (monitor : Monitor) : SurveyM Range → SurveyM Range → Prop
  | use (range : Range) : Settling source monitor
      (do useRange range; pure range) (do useRange range; pure range)
  | bind {α : Type} {act calmAct : SurveyM α} {next calmNext : α → SurveyM Range}
      (hact : Composed source monitor act calmAct)
      (hnext : ∀ a, Settling source monitor (next a) (calmNext a))
      : Settling source monitor (act >>= next) (calmAct >>= calmNext)

namespace Composed

theorem checkpoints (xs : List α) : Composed source monitor
    (xs.forM fun _ => SurveyM.checkpoint monitor) (xs.forM fun _ => SurveyM.checkpoint .never) := by
  induction xs with
  | nil => apply lookup (.pure _)
  | cons x xs ih =>
    rw [List.forM, List.forM]
    apply bind checkpoint
    intros
    exact ih

theorem earliest (since : Given Instant) : Composed source monitor
    (earliest source monitor since) (earliest source .never since) := by
  cases since with
  | nothing shown => apply lookup (.pure _)
  | value date => apply lookup (.pure _)
  | misfit kind shown =>
    apply bind (lookup .commits)
    intro commits
    split
    . apply lookup (.throw _)
    . apply bind checkpoint
      intros
      apply lookup (.throw _)

theorem lowerBound (lower : Option Commit) (since : Given Instant) : Composed source monitor
    (lowerBound source monitor lower since) (lowerBound source .never lower since) := by
  cases lower with
  | none => apply earliest
  | some commit => apply lookup (.pure _)

theorem historyAmong (path : String) (range : Range) (revisions : List Revision)
    : Composed source monitor (historyAmong source monitor path range revisions)
      (historyAmong source .never path range revisions) := by
  rw [SurveyM.historyAmong, SurveyM.historyAmong]
  cases range.mode with
  | date =>
    dsimp only
    split
    . apply bind (checkpoints revisions)
      intros
      apply lookup (.pure _)
    . apply lookup (.pure _)
  | positional =>
    apply bind (lookup .commits)
    intro commits
    apply bind (checkpoints revisions)
    intros
    apply lookup (.pure _)

theorem historyIn (path : String) (range : Range) : Composed source monitor
    (historyIn source monitor path range) (historyIn source .never path range) := by
  rw [SurveyM.historyIn, SurveyM.historyIn]
  split
  . apply lookup (.pure _)
  . apply bind (lookup (.ask _ _))
    intro revisions
    apply historyAmong

theorem keeps {act calmAct : SurveyM α} (h : Composed source monitor act calmAct)
    (survey : Survey) : (perform act survey).2.emitted = survey.emitted
      ∧ (perform act survey).2.range = survey.range := by
  induction h generalizing survey with
  | lookup h =>
    rw [← h.remarked_eq]
    exact ⟨rfl, rfl⟩
  | checkpoint =>
    rw [perform_checkpoint]
    exact ⟨rfl, rfl⟩
  | @bind α β act _ next _ _ _ ihact ihnext =>
    rw [perform_bind]
    have hact := ihact survey
    generalize perform act survey = done at *
    obtain ⟨result, after⟩ := done
    cases result with
    | ok a => exact ⟨(ihnext a after).1.trans hact.1, (ihnext a after).2.trans hact.2⟩
    | error failure => exact hact

theorem recalls {act calmAct : SurveyM α} (h : Composed source monitor act calmAct)
    : Keeps (Survey.Recalls source) act := by
  induction h with
  | lookup h => exact h.recalls
  | checkpoint =>
    intro survey hs
    rw [perform_checkpoint]
    exact ⟨hs.commits, hs.tags⟩
  | bind _ _ ihact ihnext => exact ihact.bind ihnext

end Composed

namespace Settling

theorem resolveBlock (lower upper : Given String) : Settling source monitor
    (resolveBlock source lower upper) (resolveBlock source lower upper) := by
  rw [SurveyM.resolveBlock]
  apply bind (.lookup .commits)
  intro commits
  apply bind (.lookup (.endpointId _ _))
  intro id
  apply bind (.lookup (.commitOf id))
  intro lower
  apply bind (.lookup (.endpointId _ _))
  intro id
  apply bind (.lookup (.commitOf id))
  intro upper
  apply use

theorem useWindow (lower upper : Option Commit) (dateMin dateMax : Instant)
    : Settling source monitor (useWindow source monitor lower upper dateMin dateMax)
      (useWindow source .never lower upper dateMin dateMax) := by
  rw [SurveyM.useWindow, SurveyM.useWindow]
  apply bind (.lookup .commits)
  intro commits
  apply bind (.checkpoints commits)
  intros
  apply use

theorem resolveWindow (lower upper : Given String) (since : Given Instant)
    : Settling source monitor (resolveWindow source monitor lower upper since)
      (resolveWindow source .never lower upper since) := by
  rw [SurveyM.resolveWindow, SurveyM.resolveWindow]
  apply bind (.lookup (.textOf _))
  intro lower
  apply bind (.lookup (.textOf _))
  intro upper
  apply bind (.lookup (.dateEndpoint _ _))
  intro lower
  apply bind (.lookup (.dateEndpoint _ _))
  intro upper
  apply bind (.lowerBound lower since)
  intro dateMin
  apply useWindow

theorem resolve (request : Request) (mode : Mode) : Settling source monitor
    (request.resolve source monitor mode) (request.resolve source .never mode) := by
  cases mode with
  | positional => apply resolveBlock
  | date => apply resolveWindow

theorem keeps {act calmAct : SurveyM Range} (h : Settling source monitor act calmAct)
    (survey : Survey) : (perform act survey).2.emitted = survey.emitted
      ∧ (perform act survey).2.range = (perform act survey).1.toOption.or survey.range := by
  induction h generalizing survey with
  | use range => exact ⟨rfl, rfl⟩
  | @bind α act _ next _ hact _ ihnext =>
    rw [perform_bind]
    have hact := hact.keeps survey
    generalize perform act survey = done at *
    obtain ⟨result, after⟩ := done
    cases result with
    | ok a =>
      obtain ⟨hemitted, hrange⟩ := ihnext a after
      rw [hact.1] at hemitted
      rw [hact.2] at hrange
      exact ⟨hemitted, hrange⟩
    | error failure => exact hact

theorem recalls {act calmAct : SurveyM Range} (h : Settling source monitor act calmAct)
    : Keeps (Survey.Recalls source) act := by
  induction h with
  | use range => exact fun survey hs => ⟨hs.commits, hs.tags⟩
  | bind hact _ ihnext => exact hact.recalls.bind ihnext

end Settling
end SurveyM
end MethodHistory
