import MethodHistory.Proofs.Survey.Composed

/-!
This module contains what becomes of acts that can be stopped, of a survey as well as of a run.
Either an act is stopped at a check, or it goes like the same act without a monitor.
-/

namespace MethodHistory

variable {σ α β : Type} {monitor : Monitor}

def Monitor.AsksAtChecks (monitor : Monitor) : Prop :=
  (∀ n, monitor.stopsAtReport n = false) ∧ ∀ n, monitor.stopsAtComparison n = false

namespace Survey

def calm (survey : Survey) : Survey :=
  { survey with stopRequested := false }

structure Passed (monitor : Monitor) (survey after : Survey) : Prop where
  checks_le : survey.checks ≤ after.checks
  unheard : ∀ n, survey.checks < n → n ≤ after.checks → monitor.stopsAtCheck n = false
  requested_eq : monitor.AsksAtChecks → after.stopRequested = survey.stopRequested

structure Stopped (monitor : Monitor) (survey after : Survey) : Prop where
  requested : after.stopRequested = true
  heard : monitor.AsksAtChecks → survey.stopRequested = false →
    survey.checks < after.checks ∧ monitor.stopsAtCheck after.checks = true

namespace Passed

variable {one two three : Survey}

theorem of_eq (hchecks : two.checks = one.checks)
    (hrequested : two.stopRequested = one.stopRequested) : Passed monitor one two := by
  constructor
  . omega
  . omega
  . intros
    exact hrequested

theorem trans (h₁ : Passed monitor one two) (h₂ : Passed monitor two three)
    : Passed monitor one three := by
  constructor
  . exact Nat.le_trans h₁.checks_le h₂.checks_le
  . intro n hlt hle
    by_cases h : n ≤ two.checks
    . exact h₁.unheard n hlt h
    . exact h₂.unheard n (Nat.lt_of_not_le h) hle
  . intro hmonitor
    exact (h₂.requested_eq hmonitor).trans (h₁.requested_eq hmonitor)

theorem stopped (h₁ : Passed monitor one two) (h₂ : Stopped monitor two three)
    : Stopped monitor one three := by
  constructor
  . exact h₂.requested
  . intro hmonitor hrequested
    rw [← h₁.requested_eq hmonitor] at hrequested
    obtain ⟨hlt, hstops⟩ := h₂.heard hmonitor hrequested
    exact ⟨Nat.lt_of_le_of_lt h₁.checks_le hlt, hstops⟩

end Passed

end Survey

class Surveyed (σ : Type) where
  survey : σ → Survey
  calm : σ → σ

instance : Surveyed Survey where
  survey := id
  calm := Survey.calm

instance {ν : Type} : Surveyed (Run ν) where
  survey run := run.survey
  calm run := { run with survey := run.survey.calm }

open Surveyed

structure StopsAt [Surveyed σ] (monitor : Monitor) (act : ExceptT Failure (StateM σ) α)
    (state : σ) : Prop where
  result_eq : (perform act state).1 = .error .cancelled
  stopped : (survey state).Stopped monitor (survey (perform act state).2)

structure PassesAt [Surveyed σ] (monitor : Monitor) (act calmAct : ExceptT Failure (StateM σ) α)
    (state : σ) : Prop where
  calm_eq : perform calmAct (calm state) = ((perform act state).1, calm (perform act state).2)
  passed : (survey state).Passed monitor (survey (perform act state).2)

def Follows [Surveyed σ] (monitor : Monitor) (act calmAct : ExceptT Failure (StateM σ) α) : Prop :=
  ∀ state, StopsAt monitor act state ∨ PassesAt monitor act calmAct state

section

variable [Surveyed σ] {act calmAct : ExceptT Failure (StateM σ) α}
  {next calmNext : α → ExceptT Failure (StateM σ) β} {state : σ}

theorem StopsAt.perform_eq (h : StopsAt monitor act state)
    : perform act state = (.error .cancelled, (perform act state).2) := by
  apply perform_eq_of_result h.result_eq

theorem StopsAt.bind (h : StopsAt monitor act state) : StopsAt monitor (act >>= next) state := by
  constructor
  . rw [perform_bind_error h.perform_eq]
  . rw [perform_bind_error h.perform_eq]
    exact h.stopped

theorem PassesAt.bind_error {failure : Failure} (h : PassesAt monitor act calmAct state)
    (herror : (perform act state).1 = .error failure)
    : PassesAt monitor (act >>= next) (calmAct >>= calmNext) state := by
  have hact := perform_eq_of_result herror
  have hcalm := h.calm_eq
  rw [herror] at hcalm
  constructor
  . rw [perform_bind_error hact, perform_bind_error hcalm]
  . rw [perform_bind_error hact]
    exact h.passed

theorem PassesAt.bind_ok {a : α} (h : PassesAt monitor act calmAct state)
    (hok : (perform act state).1 = .ok a)
    (hnext : PassesAt monitor (next a) (calmNext a) (perform act state).2)
    : PassesAt monitor (act >>= next) (calmAct >>= calmNext) state := by
  have hact := perform_eq_of_result hok
  have hcalm := h.calm_eq
  rw [hok] at hcalm
  constructor
  . rw [perform_bind_ok hact, perform_bind_ok hcalm]
    exact hnext.calm_eq
  . rw [perform_bind_ok hact]
    exact h.passed.trans hnext.passed

theorem PassesAt.bind_stops {a : α} (h : PassesAt monitor act calmAct state)
    (hok : (perform act state).1 = .ok a)
    (hnext : StopsAt monitor (next a) (perform act state).2)
    : StopsAt monitor (act >>= next) state := by
  have hact := perform_eq_of_result hok
  constructor
  . rw [perform_bind_ok hact]
    exact hnext.result_eq
  . rw [perform_bind_ok hact]
    exact h.passed.stopped hnext.stopped

theorem PassesAt.bind (h : PassesAt monitor act calmAct state)
    (hnext : ∀ a state, PassesAt monitor (next a) (calmNext a) state)
    : PassesAt monitor (act >>= next) (calmAct >>= calmNext) state := by
  cases hresult : (perform act state).1 with
  | ok a => exact h.bind_ok hresult (hnext a _)
  | error failure => exact h.bind_error hresult

theorem Follows.bind (h : Follows monitor act calmAct)
    (hnext : ∀ a, Follows monitor (next a) (calmNext a))
    : Follows monitor (act >>= next) (calmAct >>= calmNext) := by
  intro state
  cases h state with
  | inl h => exact .inl h.bind
  | inr h =>
    cases hresult : (perform act state).1 with
    | error failure => exact .inr (h.bind_error hresult)
    | ok a =>
      cases hnext a (perform act state).2 with
      | inl hstop => exact .inl (h.bind_stops hresult hstop)
      | inr hpass => exact .inr (h.bind_ok hresult hpass)

end

namespace SurveyM

variable {source : Source}

theorem IsLookup.passesAt {act : SurveyM α} (h : IsLookup source act) (survey : Survey)
    : PassesAt monitor act act survey := by
  constructor
  . have := h.perform_remarked survey { survey with stopRequested := false }
    refine this.trans ?_
    rw [Prod.mk.injEq]
    refine ⟨rfl, ?_⟩
    rw [← h.remarked_eq survey]
    rfl
  . rw [← h.remarked_eq survey]
    apply Survey.Passed.of_eq
    . rfl
    . rfl

theorem follows_checkpoint : Follows monitor (checkpoint monitor) (checkpoint .never) := by
  intro survey
  have hperform := perform_checkpoint monitor survey
  dsimp only at hperform
  cases hstop : survey.stopRequested || monitor.stopsAtCheck (survey.checks + 1) with
  | true =>
    rw [hstop] at hperform
    refine .inl ⟨?_, ?_⟩
    . rw [hperform]
      rfl
    . rw [hperform]
      refine ⟨rfl, ?_⟩
      intro _ hrequested
      change survey.stopRequested = false at hrequested
      rw [hrequested, Bool.false_or] at hstop
      exact ⟨Nat.lt_succ_self _, hstop⟩
  | false =>
    rw [hstop] at hperform
    obtain ⟨hrequested, hchecks⟩ := Bool.or_eq_false_iff.1 hstop
    refine .inr ⟨?_, ?_⟩
    . rw [hperform]
      rfl
    . rw [hperform]
      refine ⟨Nat.le_succ _, ?_, fun _ => hrequested.symm⟩
      intro n hlt hle
      -- The only check in between is this one.
      have : n = survey.checks + 1 := Nat.le_antisymm hle hlt
      rw [this]
      exact hchecks

theorem Composed.follows {act calmAct : SurveyM α} (h : Composed source monitor act calmAct)
    : Follows monitor act calmAct := by
  -- Only a checkpoint can stop an act, the rest passes with it.
  induction h with
  | lookup h => exact fun survey => .inr (h.passesAt survey)
  | checkpoint => exact follows_checkpoint
  | bind _ _ ihact ihnext => exact ihact.bind ihnext

theorem Settling.follows {act calmAct : SurveyM Range} (h : Settling source monitor act calmAct)
    : Follows monitor act calmAct := by
  induction h with
  | use range => exact fun survey => .inr ⟨rfl, .of_eq rfl rfl⟩
  | bind hact _ ihnext => exact hact.follows.bind ihnext

theorem perform_history_of_none {survey : Survey} {path : String} (h : survey.range = none)
    : perform (history source monitor path) survey = (.error .rangeNotResolved, survey) := by
  rw [history, perform_bind, perform_get]
  dsimp only
  rw [h]
  rfl

theorem perform_history_of_some {survey : Survey} {path : String} {range : Range}
    (h : survey.range = some range) : perform (history source monitor path) survey =
      perform (historyIn source monitor path range) survey := by
  rw [history, perform_bind, perform_get]
  dsimp only
  rw [h]

theorem follows_history (path : String)
    : Follows monitor (history source monitor path) (history source .never path) := by
  intro survey
  cases h : survey.range with
  | none =>
    have hcalm : (Surveyed.calm survey).range = none := h
    refine .inr ⟨?_, ?_⟩
    . rw [perform_history_of_none h, perform_history_of_none hcalm]
    . rw [perform_history_of_none h]
      exact .of_eq rfl rfl
  | some range =>
    have hcalm : (Surveyed.calm survey).range = some range := h
    cases (@Composed.historyIn source monitor path range).follows survey with
    | inl hstop =>
      refine .inl ⟨?_, ?_⟩
      . rw [perform_history_of_some h]
        exact hstop.result_eq
      . rw [perform_history_of_some h]
        exact hstop.stopped
    | inr hpass =>
      refine .inr ⟨?_, ?_⟩
      . rw [perform_history_of_some h, perform_history_of_some hcalm]
        exact hpass.calm_eq
      . rw [perform_history_of_some h]
        exact hpass.passed

theorem emitted_history (path : String) (survey : Survey)
    : (perform (history source monitor path) survey).2.emitted = survey.emitted := by
  cases h : survey.range with
  | none => rw [perform_history_of_none h]
  | some range =>
    rw [perform_history_of_some h]
    exact ((@Composed.historyIn source monitor path range).keeps survey).1

end SurveyM
end MethodHistory
