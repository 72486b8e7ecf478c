import MethodHistory.Proofs.Run.Course

/-!
This module contains how a run ends, whatever its source answers and whenever it is stopped: its
last phase, its result, the phases that it has passed through, and its counters.
-/

namespace MethodHistory

variable {ν : Type}

theorem length_pairsOf (versions : List Version)
    : (pairsOf versions).length = versions.length - 1 := by
  rw [pairsOf, List.length_zipWith, List.length_tail]
  exact Nat.min_eq_right (Nat.sub_le _ _)

namespace RunM

variable [Scale ν] {miner : Miner ν} {request : Request}

theorem follows_takeFiles {range : Range} {start stop : ν} {total : Nat}
    (files : List (String × Nat))
    : Follows miner.monitor (takeFiles miner range start stop total files)
        (takeFiles miner.calm range start stop total files) := by
  induction files with
  | nil => exact (Composed.pure _).follows
  | cons file files ih =>
    rw [takeFiles, takeFiles, List.forM, List.forM]
    apply Follows.bind
    . intro run
      cases visit_cases file run with
      | inl hstop => exact .inl hstop.1
      | inr hpass => exact .inr hpass
    . intro _
      exact ih

theorem follows_body : Follows miner.monitor (body miner request) (body miner.calm request) := by
  rw [body_eq, body_eq]
  apply (Composed.plan request).follows.bind
  intro plan
  apply (follows_takeFiles _).bind
  intro _ run
  exact .inr (passesAt_finish plan run)

end RunM

namespace Miner

def pairCount (miner : Miner ν) (range : Range) (path : String) : Nat :=
  if miner.excludeTests && isTestSource path then 0
  else
    match miner.source.historyOf range path with
    | .error _ => 0
    | .ok history => (miner.source.versions path history.chronological).length - 1

theorem length_pairsIn (miner : Miner ν) (range : Range) (path : String)
    : (miner.pairsIn range path).length = miner.pairCount range path := by
  rw [pairsIn, pairCount, Source.pairsIn]
  split
  . rfl
  . cases miner.source.historyOf range path with
    | error failure => rfl
    | ok history => exact length_pairsOf _

variable [Scale ν] {miner : Miner ν} {request : Request} {start : Run ν}

theorem exists_mining_of_ok {last : Run ν}
    (h : perform (RunM.body miner request) start = (.ok ⟨⟩, last))
    : ∃ plan mined, perform (RunM.mining miner request) start = (.ok plan, mined)
      ∧ ∃ survey reports reached, last = { mined with
        survey, reports, reached
        phase := .completed
        phases := mined.phases ++ [.completed] } := by
  rw [RunM.body_eq_mining, perform_bind_eq_ok] at h
  obtain ⟨plan, mined, hmining, hfinish⟩ := h
  obtain ⟨survey, reports, reached, hlast, -⟩ := RunM.exists_finish miner plan mined
  rw [hfinish] at hlast
  exact ⟨plan, mined, hmining, survey, reports, reached, hlast⟩

theorem run_cases (miner : Miner ν) (request : Request) (start : Run ν)
    : let outcome := miner.run request start
      let full := miner.calm.run request (Surveyed.calm start)
      let ended := (perform (RunM.body miner request) start).1
      outcome.run.phase = .completed ∧ outcome.result = .ok outcome.run.tally ∧ ended = .ok ⟨⟩
      ∨ outcome.run.phase = .cancelled ∧ outcome.result = .ok outcome.run.tally
        ∧ ended = .error .cancelled
        ∧ (outcome.run.survey.stopRequested = true ∨ full.run.phase = .cancelled)
      ∨ outcome.run.phase = .failed ∧ ∃ failure, outcome.result = .error failure
        ∧ ended = .error failure ∧ failure ≠ .cancelled ∧ full.result = .error failure := by
  intro outcome full ended
  cases hended : ended with
  | ok a =>
    have hbody := perform_eq_of_result hended
    have houtcome : outcome = _ := run_of_ok hbody
    obtain ⟨_, _, _, _, _, _, hlast⟩ := exists_mining_of_ok hbody
    rw [houtcome]
    exact .inl ⟨congrArg Run.phase hlast, rfl, rfl⟩
  | error failure =>
    have hbody := perform_eq_of_result hended
    have hcases := @RunM.follows_body _ _ miner request start
    by_cases hfailure : failure = .cancelled
    . subst hfailure
      have houtcome : outcome = _ := run_of_cancelled hbody
      refine .inr (.inl ?_)
      rw [houtcome]
      refine ⟨rfl, rfl, rfl, ?_⟩
      cases hcases with
      | inl hstop => exact .inl hstop.stopped.requested
      | inr hpass =>
        have hcalm := hpass.calm_eq
        rw [hbody] at hcalm
        have hfull : full = _ := run_of_cancelled hcalm
        rw [hfull]
        exact .inr rfl
    . have houtcome : outcome = _ := run_of_error hfailure hbody
      refine .inr (.inr ?_)
      rw [houtcome]
      refine ⟨rfl, failure, rfl, rfl, hfailure, ?_⟩
      cases hcases with
      | inl hstop =>
        have hresult := hstop.result_eq
        rw [hbody] at hresult
        exact absurd (Except.error.inj hresult) hfailure
      | inr hpass =>
        have hcalm := hpass.calm_eq
        rw [hbody] at hcalm
        have hfull : full = _ := run_of_error hfailure hcalm
        rw [hfull]

theorem exists_phases_eq (hnew : start.IsNew miner.source) (hphases : start.phases = [])
    (hstop : ∀ ends, miner.span = .ok ends → Scale.misuse? ends.2 = none)
    : let outcome := miner.run request start
      ∃ taken, taken <+: miner.course request
        ∧ outcome.run.phases = taken ++ [outcome.run.phase]
        ∧ (outcome.run.phase = .completed → taken = miner.course request) := by
  intro outcome
  have hmining := RunM.logs_mining request start hnew
  cases hdone : perform (RunM.mining miner request) start with
  | mk result mined =>
  rw [hdone, hphases] at hmining
  cases result with
  | error failure =>
    obtain ⟨taken, htaken, hmined⟩ := hmining
    have hbody : perform (RunM.body miner request) start = (.error failure, mined) := by
      rw [RunM.body_eq_mining, perform_bind_error hdone]
    refine ⟨taken, htaken, ?_⟩
    by_cases hfailure : failure = .cancelled
    . subst hfailure
      have houtcome : outcome = _ := run_of_cancelled hbody
      rw [houtcome]
      refine ⟨congrArg (· ++ [Phase.cancelled]) hmined, ?_⟩
      intro h
      contradiction
    . have houtcome : outcome = _ := run_of_error hfailure hbody
      rw [houtcome]
      refine ⟨congrArg (· ++ [Phase.failed]) hmined, ?_⟩
      intro h
      contradiction
  | ok plan =>
    obtain ⟨hmined, ⟨-, -, hspan⟩, -⟩ := hmining
    obtain ⟨_, _, _, hlast, hok⟩ := RunM.exists_finish miner plan mined
    have hbody : perform (RunM.body miner request) start =
        (.ok ⟨⟩, (perform (RunM.finish miner plan) mined).2) := by
      rw [RunM.body_eq_mining, perform_bind_ok hdone]
      exact perform_eq_of_result (hok (hstop _ hspan))
    have houtcome : outcome = _ := run_of_ok hbody
    refine ⟨_, List.prefix_refl _, ?_, fun _ => rfl⟩
    rw [houtcome, hlast]
    exact congrArg (· ++ [Phase.completed]) hmined

theorem counts_of_completed (hnew : start.IsNew miner.source)
    (hcompleted : (miner.run request start).run.phase = .completed)
    : let tally := (miner.run request start).run.tally
      ∃ range, miner.source.rangeFor request = .ok range ∧ tally.range = some range
        ∧ tally.processed + tally.skipped = (miner.source.filesOf miner.suffix range).length
        ∧ miner.engine.Counts
          ((miner.source.filesOf miner.suffix range).flatMap (miner.pairsIn range)) tally.diffed
          tally.failed := by
  intro tally
  obtain ⟨plan, mined, hdone, _, _, _, hlast⟩ := exists_mining_of_ok (ok_of_completed hcompleted)
  have hmining := RunM.logs_mining request start hnew
  rw [hdone] at hmining
  obtain ⟨-, ⟨hfor, hfiles, -⟩, hstands⟩ := hmining
  have htally : tally = mined.tally := by
    change (miner.run request start).run.tally = mined.tally
    rw [hlast]
  rw [htally]
  refine ⟨plan.range, hfor, hstands.told_eq, ?_, ?_⟩
  . rw [← hfiles]
    exact hstands.finished_eq
  . rw [← hfiles]
    exact hstands.counts

theorem isNew_initial (source : Source) (sink : Sink) (directory : Directory) (stopRequested : Bool)
    : (initial sink directory stopRequested : Run ν).IsNew source :=
  ⟨Survey.recalls_start source stopRequested, rfl⟩

/--
Whatever its source answers and whenever it is stopped, a run ends in one of three ways, behind the
phases of its course as far as it has got, and has counted all of its files and pairs if it is
completed.
-/
theorem run_is_consistent (miner : Miner ν) (request : Request) (sink : Sink)
    (directory : Directory) (stopRequested : Bool)
    : let start := initial sink directory stopRequested
      let outcome := miner.run request start
      let full := miner.calm.run request (Surveyed.calm start)
      let ended := (perform (RunM.body miner request) start).1
      let tally := outcome.run.tally
      (outcome.run.phase = .completed ∧ outcome.result = .ok tally ∧ ended = .ok ⟨⟩
        ∨ outcome.run.phase = .cancelled ∧ outcome.result = .ok tally
          ∧ ended = .error .cancelled
          ∧ (outcome.run.survey.stopRequested = true ∨ full.run.phase = .cancelled)
        ∨ outcome.run.phase = .failed ∧ ∃ failure, outcome.result = .error failure
          ∧ ended = .error failure ∧ failure ≠ .cancelled ∧ full.result = .error failure)
      ∧ ((∀ ends, miner.span = .ok ends → Scale.misuse? ends.2 = none) →
        ∃ taken, taken <+: miner.course request
          ∧ outcome.run.phases = taken ++ [outcome.run.phase]
          ∧ (outcome.run.phase = .completed → taken = miner.course request))
      ∧ (outcome.run.phase = .completed →
        ∃ range, miner.source.rangeFor request = .ok range ∧ tally.range = some range
          ∧ tally.processed + tally.skipped = (miner.source.filesOf miner.suffix range).length
          ∧ tally.diffed + tally.failed =
            ((miner.source.filesOf miner.suffix range).map (miner.pairCount range)).sum) := by
  intro start outcome full ended tally
  have hnew : start.IsNew miner.source := isNew_initial _ sink directory stopRequested
  refine ⟨run_cases miner request start, exists_phases_eq hnew rfl, fun hcompleted => ?_⟩
  obtain ⟨range, hfor, hrange, hfinished, hcounts⟩ := counts_of_completed hnew hcompleted
  refine ⟨range, hfor, hrange, hfinished, ?_⟩
  rw [hcounts.sum_eq, List.length_flatMap]
  congr 1
  apply List.map_congr_left
  intro path _
  exact length_pairsIn miner range path

theorem run_is_consistent_over_three_files
    : ((Sample.miner .never).run Sample.request (initial (.buffer .empty) .empty false)).run.phases
        = [.resolvingRange, .enumeratingFiles, .extractingHistory, .diffingRevisionPairs, .emitting,
          .extractingHistory, .extractingHistory, .diffingRevisionPairs, .emitting, .completed]
      ∧ ∃ range, Sample.source.rangeFor Sample.request = .ok range
        ∧ ((Sample.miner .never).run Sample.request
          (initial (.buffer .empty) .empty false)).run.tally.range = some range := by
  have hcompleted : ((Sample.miner .never).run Sample.request
      (initial (.buffer .empty) .empty false)).run.phase = .completed := by
    decide +kernel
  have hcourse : (Sample.miner .never).course Sample.request =
      [.resolvingRange, .enumeratingFiles, .extractingHistory, .diffingRevisionPairs, .emitting,
        .extractingHistory, .extractingHistory, .diffingRevisionPairs, .emitting] := by
    decide +kernel
  obtain ⟨-, hphases, hcounts⟩ := run_is_consistent (Sample.miner .never) Sample.request
    (.buffer .empty) .empty false
  obtain ⟨taken, -, heq, hall⟩ := hphases fun _ _ => rfl
  obtain ⟨range, hfor, hrange, -⟩ := hcounts hcompleted
  rw [hall hcompleted, hcompleted, hcourse] at heq
  exact ⟨heq, range, hfor, hrange⟩

end Miner
end MethodHistory
