import MethodHistory.Proofs.Run.Consistency
import Mathlib.Algebra.Order.Field.Basic
import Mathlib.Algebra.Order.Field.Rat
import Mathlib.Data.Nat.Cast.Order.Field

/-!
This module contains the progress that a run tells: it never goes back, it stays in its interval,
and it is told once in front of the files, once behind each of them and once at the end. A run that
is stopped or that fails breaks off this sequence.
-/

namespace MethodHistory

variable {ν α : Type}

/-! The steps that tell nothing -/

class Scale.IsMute (ν : Type) [Scale ν] : Prop where
  misuse?_ne_none : ∀ fraction : ν, misuse? fraction ≠ none

@[reducible]
def Scale.mute [Scale ν] : Scale ν where
  zero := zero
  isLess := isLess
  along := along
  misuse? _ := some .tooMany

theorem Scale.isMute_mute [Scale ν] : @IsMute ν .mute :=
  @IsMute.mk ν .mute fun _ => Option.some_ne_none _

def Run.HasTold (reached : ν) (reports : List ν) (run : Run ν) : Prop :=
  run.reached = reached ∧ run.reports = reports

namespace RunM

open Run

def LeavesProgress (act : RunM ν α) : Prop :=
  ∀ run, (perform act run).2.reached = run.reached ∧ (perform act run).2.reports = run.reports

variable {miner : Miner ν} {act : RunM ν α} {reached : ν} {reports : List ν}

theorem mirrors_hasTold (h : LeavesProgress act)
    : Mirrors (Same (HasTold reached reports)) act := by
  apply Keeps.mirrors
  intro run hrun
  rw [HasTold, (h run).1, (h run).2]
  exact hrun

theorem leavesProgress_inSurvey (act : SurveyM α) : LeavesProgress (inSurvey act : RunM ν α) := by
  intro run
  rw [perform_inSurvey]
  exact ⟨rfl, rfl⟩

theorem leavesProgress_write (slot : Slots → Option SnapshotPath) (content : ByteArray)
    : LeavesProgress (write slot content : RunM ν Unit) := by
  intro run
  rw [perform_write]
  split <;> exact ⟨rfl, rfl⟩

theorem leavesProgress_useSlots
    (change : Slots → Directory → Except SnapshotFault (Slots × Directory))
    : LeavesProgress (useSlots change : RunM ν Unit) := by
  intro run
  rw [perform_useSlots]
  split <;> exact ⟨rfl, rfl⟩

theorem leavesProgress_compare (path : String) : LeavesProgress (RunM.compare miner path) := by
  intro run
  obtain ⟨comparisons, stopRequested, hperform, -⟩ := @perform_compare _ miner path run
  rw [hperform]
  exact ⟨rfl, rfl⟩

theorem mirrors_withSlots_hasTold (h : Mirrors (Same (HasTold reached reports)) act)
    (limits : NameLimits) (suffix : String)
    : Mirrors (Same (HasTold reached reports)) (withSlots limits suffix act) := by
  rw [withSlots]
  apply (mirrors_hasTold (leavesProgress_useSlots _)).bind
  intro _
  apply (mirrors_outcome h).bind
  intro result
  apply Mirrors.bind
  . exact mirrors_hasTold fun run => ⟨rfl, rfl⟩
  . intro _
    apply Mirrors.lift

section

variable [Scale ν] [Scale.IsMute ν]

theorem isSteady_hasTold : IsSteady miner (Same (HasTold reached reports)) := by
  constructor
  . intro α act calmAct _
    exact mirrors_hasTold (leavesProgress_inSurvey act)
  . intro fraction
    apply mirrors_hasTold
    intro run
    rw [perform_report]
    split
    . exact ⟨rfl, rfl⟩
    next h => exact absurd h (Scale.IsMute.misuse?_ne_none fraction)

theorem isWalkable_hasTold : IsWalkable miner (Same (HasTold reached reports)) := by
  constructor
  . exact isSteady_hasTold
  . intro path
    exact mirrors_hasTold (leavesProgress_compare path)
  . intro content
    exact mirrors_hasTold (leavesProgress_write _ content)
  . intro content
    exact mirrors_hasTold (leavesProgress_write _ content)
  . exact mirrors_hasTold (leavesProgress_useSlots _)

theorem isRunnable_hasTold : IsRunnable miner (Same (HasTold reached reports)) := by
  constructor
  . exact isSteady_hasTold
  . intro path
    exact mirrors_hasTold (leavesProgress_inSurvey _)
  . intro request mode
    exact mirrors_hasTold (leavesProgress_inSurvey _)
  . intro phase
    exact mirrors_hasTold fun run => ⟨rfl, rfl⟩
  . intro change _
    exact mirrors_hasTold fun run => ⟨rfl, rfl⟩
  . intro records
    apply Keeps.mirrors
    apply keeps_emit
    . intro run record hrun
      rw [Run.receive]
      dsimp only
      split <;> exact hrun
    . intro run emitted hrun
      exact hrun
  . intro range path suffix revisions
    apply mirrors_withSlots_hasTold
    exact mirrors_walk isWalkable_hasTold range path false revisions

end

theorem reports_nothing [Scale ν] (miner : Miner ν)
    (h : ∀ (scale : Scale ν) related, @IsRunnable _ scale miner related → Mirrors related act)
    : Logs Run.reports (·.reached = reached) act [] fun _ run => run.reached = reached :=
  .of_keeps fun _ => (h .mute _ (@isRunnable_hasTold _ _ _ _ .mute Scale.isMute_mute)).keeps

end RunM

/-! The progress of a run over so many files -/

def milestone (start stop : Rat) (total done : Nat) : Rat :=
  start + (stop - start) * done / total

/--
The progress of a run that is completed: in front of its files, behind each of them, and at its end.
-/
def milestones (start stop : Rat) (total : Nat) : List Rat :=
  start :: (List.range total).map (fun done => milestone start stop total (done + 1)) ++ [stop]

section

variable {start stop : Rat} {total done later : Nat}

@[simp]
theorem milestone_zero : milestone start stop total 0 = start := by
  rw [milestone, Nat.cast_zero, mul_zero, zero_div, add_zero]

theorem milestone_mono (h : start ≤ stop) (hdone : done ≤ later)
    : milestone start stop total done ≤ milestone start stop total later := by
  have hcast : (done : Rat) ≤ later := Nat.cast_le.2 hdone
  apply add_le_add_right
  apply div_le_div_of_nonneg_right
  . exact mul_le_mul_of_nonneg_left hcast (sub_nonneg.2 h)
  . exact Nat.cast_nonneg total

theorem start_le_milestone (h : start ≤ stop) : start ≤ milestone start stop total done := by
  have hle := @milestone_mono _ _ total 0 done h (Nat.zero_le done)
  rwa [milestone_zero] at hle

theorem milestone_le_stop (h : start ≤ stop) (hdone : done ≤ total)
    : milestone start stop total done ≤ stop := by
  by_cases htotal : total = 0
  . subst htotal
    rw [Nat.le_zero.1 hdone, milestone_zero]
    exact h
  . have hall : milestone start stop total total = stop := by
      rw [milestone, mul_div_assoc, div_self (Nat.cast_ne_zero.2 htotal), mul_one,
        add_sub_cancel]
    exact (milestone_mono h hdone).trans (le_of_eq hall)

theorem milestones_eq (start stop : Rat) (total : Nat)
    : milestones start stop total
        =
      (List.range (total + 1)).map (milestone start stop total) ++ [stop] := by
  rw [milestones, List.range_succ_eq_map, List.map_cons, milestone_zero, List.map_map]
  rfl

theorem length_milestones (start stop : Rat) (total : Nat)
    : (milestones start stop total).length = total + 2 := by
  rw [milestones_eq, List.length_append, List.length_map, List.length_range, List.length_singleton]

theorem pairwise_milestones (h : start ≤ stop) (total : Nat)
    : (milestones start stop total).Pairwise (· ≤ ·) := by
  rw [milestones_eq, List.pairwise_append, List.pairwise_map]
  refine ⟨?_, List.pairwise_singleton _ _, ?_⟩
  . exact List.pairwise_lt_range.imp fun hlt => milestone_mono h (Nat.le_of_lt hlt)
  . intro fraction hfraction other hother
    obtain ⟨done, hdone, rfl⟩ := List.mem_map.1 hfraction
    rw [List.mem_singleton.1 hother]
    exact milestone_le_stop h (Nat.le_of_lt_succ (List.mem_range.1 hdone))

theorem mem_milestones (h : start ≤ stop) {fraction : Rat}
    (hfraction : fraction ∈ milestones start stop total)
    : start ≤ fraction ∧ fraction ≤ stop := by
  rw [milestones_eq, List.mem_append, List.mem_map, List.mem_singleton] at hfraction
  rcases hfraction with ⟨done, hdone, rfl⟩ | rfl
  . exact ⟨start_le_milestone h,
      milestone_le_stop h (Nat.le_of_lt_succ (List.mem_range.1 hdone))⟩
  . exact ⟨h, le_refl _⟩

theorem eq_start_of_mem_head? {fractions : List Rat}
    (h : fractions <+: milestones start stop total) : ∀ first ∈ fractions.head?, first = start := by
  intro first hfirst
  obtain ⟨rest, hrest⟩ := h
  cases fractions with
  | nil => contradiction
  | cons other others =>
    cases hfirst
    exact (List.cons.inj hrest).1

end

namespace RunM

variable {miner : Miner Rat} {range : Range} {start stop : Rat} {total : Nat}

theorem fractionAt_eq {done : Nat} (h : start ≤ stop) (hdone : done ≤ total)
    : fractionAt start stop done total = milestone start stop total done := by
  have hnotless : ¬(Scale.isLess stop (Scale.along start stop done total) = true) := by
    change ¬(decide (stop < milestone start stop total done) = true)
    rw [decide_eq_true_iff, not_lt]
    exact milestone_le_stop h hdone
  rw [fractionAt, if_neg hnotless]
  rfl

theorem reports_report {reached fraction : Rat} (h : reached ≤ fraction)
    : Logs Run.reports (·.reached = reached) (report miner fraction) [fraction]
        fun _ run => run.reached = fraction := by
  intro run hrun
  have hnotless : ¬(Scale.isLess fraction run.reached = true) := by
    change ¬(decide (fraction < run.reached) = true)
    rw [decide_eq_true_iff, not_lt, hrun]
    exact h
  have htold : Scale.misuse? fraction = none := rfl
  rw [perform_report, htold]
  dsimp only
  rw [if_neg hnotless]
  exact ⟨rfl, rfl⟩

theorem reports_visit (h : start ≤ stop) {path : String} {done : Nat} (hdone : done < total)
    : Logs Run.reports (·.reached = milestone start stop total done)
        (visit miner range start stop total (path, done)) [milestone start stop total (done + 1)]
        fun _ run => run.reached = milestone start stop total (done + 1) := by
  rw [visit]
  apply (reports_nothing miner fun _ _ h => mirrors_nextRecords h range path).bind _ rfl
  intro records
  apply (reports_nothing miner fun _ _ h => mirrors_handOver h records).bind _ rfl
  intro _
  rw [fractionAt_eq h hdone]
  exact reports_report (milestone_mono h (Nat.le_succ done))

theorem reports_takeFiles (h : start ≤ stop) (files : List String) {done : Nat}
    (hdone : done + files.length ≤ total)
    : Logs Run.reports (·.reached = milestone start stop total done)
        (takeFiles miner range start stop total (files.zipIdx done))
        ((List.range' done files.length).map fun done => milestone start stop total (done + 1))
        fun _ run => run.reached = milestone start stop total (done + files.length) := by
  -- In front of each file, a run has come as far as the files before it bring it.
  induction files generalizing done with
  | nil => exact .pure fun _ hrun => hrun
  | cons path files ih =>
    rw [List.length_cons] at hdone
    rw [takeFiles, List.zipIdx_cons, List.forM, List.length_cons, List.range'_succ, List.map_cons]
    apply (reports_visit h (by omega)).bind _ rfl
    intro _
    rw [← Nat.add_assoc, Nat.add_right_comm]
    exact ih (by omega)

theorem reports_start (hspan : miner.span = .ok (start, stop)) (h : 0 ≤ start) (request : Request)
    : Logs Run.reports (fun run => run.reached = 0 ∧ run.IsNew miner.source) (plan miner request)
        ((miner.source.rangeFor request).toOption.toList.map fun _ => start)
        fun _ run => run.reached = start := by
  rw [plan]
  apply ((reports_nothing miner fun _ _ h => mirrors_checkpoint h.toIsSteady).and
    (logs_steady Run.isAside_isNew mirrors_checkpoint)).bind _ rfl
  intro _
  apply ((reports_nothing miner fun _ _ h => h.enter _).and
    (@logs_enter_of_isNew _ miner _)).bind _ rfl
  intro _
  apply (Logs.lift _).bind _ rfl
  intro mode
  apply Logs.given
  intro hmode
  apply ((reports_nothing miner fun _ _ h => h.settle request mode).and
    (logs_resolveRange request mode)).bind _ rfl
  rintro range run ⟨hreached, hrange, -⟩
  have hfor : miner.source.rangeFor request = .ok range := by
    rw [Source.rangeFor, hmode]
    exact hrange
  rw [hfor]
  -- From here on there is a range, so that the run tells where it starts if it gets there.
  suffices hrest : Logs Run.reports (·.reached = 0) _ [start] fun _ run => run.reached = start from
    hrest run hreached
  have hcount : Logs Run.reports (·.reached = (0 : Rat))
      (count fun tally => { tally with range }) [] fun _ run => run.reached = 0 :=
    reports_nothing miner fun _ _ h => h.count _ fun _ => rfl
  apply hcount.bind _ rfl
  intro _
  apply (reports_nothing miner fun _ _ h => h.enter _).bind _ rfl
  intro _
  apply (reports_nothing miner fun _ _ h => mirrors_filesIn h.toIsSteady range).bind _ rfl
  intro files
  rw [hspan]
  apply (reports_report h).bind _ rfl
  intro _
  exact .pure fun _ hrun => hrun

theorem reports_plan (hspan : miner.span = .ok (start, stop)) (h : 0 ≤ start) (request : Request)
    : Logs Run.reports (fun run => run.reached = 0 ∧ run.IsNew miner.source) (plan miner request)
        ((miner.source.rangeFor request).toOption.toList.map fun _ => start)
        fun plan run => (miner.source.rangeFor request = .ok plan.range
            ∧ plan.files = miner.source.filesOf miner.suffix plan.range
            ∧ (plan.start, plan.stop) = (start, stop))
          ∧ run.reached = start := by
  intro run hrun
  have hplan := ((reports_start hspan h request).and (logs_plan request)) run ⟨hrun, hrun.2⟩
  generalize perform (plan miner request) run = done at *
  obtain ⟨result, last⟩ := done
  cases result with
  | error failure => exact hplan
  | ok plan =>
    obtain ⟨hreports, hreached, ⟨hfor, hfiles, hends⟩, -⟩ := hplan
    exact ⟨hreports, ⟨hfor, hfiles, Except.ok.inj (hends.symm.trans hspan)⟩, hreached⟩

def toTell (miner : Miner Rat) (request : Request) (start stop : Rat) : List Rat :=
  match miner.source.rangeFor request with
  | .ok range => milestones start stop (miner.source.filesOf miner.suffix range).length
  | .error _ => []

theorem reports_body (hspan : miner.span = .ok (start, stop)) (h : 0 ≤ start) (hle : start ≤ stop)
    (request : Request)
    : Logs Run.reports (fun run => run.reached = 0 ∧ run.IsNew miner.source) (body miner request)
        (toTell miner request start stop) fun _ run => run.reached = stop := by
  have hplan := reports_plan hspan h request
  rw [body, toTell]
  cases hrange : miner.source.rangeFor request with
  | error failure =>
    rw [hrange] at hplan
    apply hplan.bind _ (List.append_nil _)
    intro plan
    apply Logs.given
    rintro ⟨hfor, -⟩
    contradiction
  | ok range =>
    rw [hrange] at hplan
    dsimp only
    generalize hfiles : miner.source.filesOf miner.suffix range = files
    have hall : [start] ++ ((List.range' 0 files.length).map
        (fun done => milestone start stop files.length (done + 1)) ++ [stop])
          = milestones start stop files.length := by
      rw [milestones, List.range_eq_range']
      rfl
    apply hplan.bind _ hall
    rintro ⟨found, listed, first, last⟩
    apply Logs.given
    rintro ⟨hfor, hlisted, hends⟩
    cases hfor
    rw [Prod.mk.injEq] at hends
    dsimp only at hlisted hends ⊢
    rw [hlisted, hfiles, hends.1, hends.2]
    have htake := @reports_takeFiles miner found start stop files.length hle files 0 (by omega)
    rw [milestone_zero] at htake
    apply htake.bind _ rfl
    intro _
    apply (reports_nothing miner fun _ _ h => h.enter _).bind _ rfl
    intro _
    exact reports_report (milestone_le_stop hle (by omega))

end RunM

namespace Miner

variable {miner : Miner Rat} {request : Request} {begin stop : Rat} {start : Run Rat}

theorem reports_run (miner : Miner Rat) (request : Request) (start : Run Rat)
    : (miner.run request start).run.reports
        =
      (perform (RunM.body miner request) start).2.reports := by
  rw [run, perform]
  split
  next h => rw [h]
  next h => rw [h]; rfl
  next h => rw [h]; rfl

theorem reports_run_cases (hspan : miner.span = .ok (begin, stop)) (h : 0 ≤ begin)
    (hle : begin ≤ stop) (hnew : start.IsNew miner.source) (hreached : start.reached = 0)
    (hreports : start.reports = [])
    : (miner.run request start).run.reports <+: RunM.toTell miner request begin stop
      ∧ ((miner.run request start).run.phase = .completed →
        (miner.run request start).run.reports = RunM.toTell miner request begin stop) := by
  have hbody := RunM.reports_body hspan h hle request start ⟨hreached, hnew⟩
  rw [hreports] at hbody
  constructor
  . rw [reports_run]
    generalize perform (RunM.body miner request) start = done at *
    obtain ⟨result, last⟩ := done
    cases result with
    | ok a => exact hbody.1 ▸ List.prefix_rfl
    | error failure =>
      obtain ⟨taken, htaken, hlast⟩ := hbody
      rw [List.nil_append] at hlast
      exact hlast ▸ htaken
  . intro hcompleted
    rw [ok_of_completed hcompleted] at hbody
    exact hbody.1

/--
The progress that a run tells never goes back and stays in its interval. It is told once in front of
the files, once behind each of them, skipped or not, and once at the end, up to where the run is
stopped or fails.
-/
theorem progress_is_monotone (hspan : miner.span = .ok (begin, stop)) (h : 0 ≤ begin)
    (hle : begin ≤ stop) (request : Request) (sink : Sink) (directory : Directory)
    (stopRequested : Bool)
    : let outcome := miner.run request (initial sink directory stopRequested)
      let reports := outcome.run.reports
      let tally := outcome.run.tally
      reports.Pairwise (· ≤ ·)
      ∧ (∀ fraction ∈ reports, begin ≤ fraction ∧ fraction ≤ stop)
      ∧ (∀ first ∈ reports.head?, first = begin)
      ∧ (reports = [] ∨ ∃ range, miner.source.rangeFor request = .ok range
        ∧ reports <+: milestones begin stop (miner.source.filesOf miner.suffix range).length)
      ∧ (outcome.run.phase = .completed → ∃ range, miner.source.rangeFor request = .ok range
        ∧ tally.processed + tally.skipped = (miner.source.filesOf miner.suffix range).length
        ∧ reports = milestones begin stop (miner.source.filesOf miner.suffix range).length
        ∧ reports.length = (miner.source.filesOf miner.suffix range).length + 2) := by
  intro outcome reports tally
  have hnew : (initial sink directory stopRequested : Run Rat).IsNew miner.source :=
    isNew_initial _ sink directory stopRequested
  obtain ⟨htaken, hall⟩ := @reports_run_cases miner request _ _ _ hspan h hle hnew rfl rfl
  change reports <+: _ at htaken
  change _ → reports = _ at hall
  have hcases : reports = [] ∨ ∃ range, miner.source.rangeFor request = .ok range
      ∧ reports <+: milestones begin stop (miner.source.filesOf miner.suffix range).length := by
    rw [RunM.toTell] at htaken
    cases hrange : miner.source.rangeFor request with
    | error failure =>
      rw [hrange] at htaken
      exact .inl (List.prefix_nil.1 htaken)
    | ok range =>
      rw [hrange] at htaken
      exact .inr ⟨range, rfl, htaken⟩
  have hsome : ∃ total, reports <+: milestones begin stop total := by
    rcases hcases with hnone | ⟨range, -, htaken⟩
    . exact ⟨0, hnone ▸ List.nil_prefix⟩
    . exact ⟨_, htaken⟩
  obtain ⟨total, htotal⟩ := hsome
  refine ⟨?_, ?_, eq_start_of_mem_head? htotal, hcases, ?_⟩
  . exact (pairwise_milestones hle total).sublist htotal.sublist
  . intro fraction hfraction
    exact mem_milestones hle (htotal.subset hfraction)
  . intro hcompleted
    obtain ⟨range, hfor, -, hfinished, -⟩ := counts_of_completed hnew hcompleted
    have hall := hall hcompleted
    rw [RunM.toTell, hfor] at hall
    refine ⟨range, hfor, hfinished, hall, ?_⟩
    rw [hall, length_milestones]

theorem progress_is_monotone_over_three_files
    : (Sample.miner .never).span = .ok (0, 1) ∧ (0 : Rat) ≤ 0 ∧ (0 : Rat) ≤ 1
      ∧ ((Sample.miner .never).run Sample.request Sample.start).run.phase = .completed
      ∧ ((Sample.miner .never).run Sample.request Sample.start).run.reports = milestones 0 1 3 := by
  have hcompleted : ((Sample.miner .never).run Sample.request Sample.start).run.phase
      = .completed := by
    decide +kernel
  have hcount : let tally := ((Sample.miner .never).run Sample.request Sample.start).run.tally
      tally.processed + tally.skipped = 3 := by
    decide +kernel
  have hspan : (Sample.miner .never).span = .ok (0, 1) := rfl
  obtain ⟨-, -, -, -, hall⟩ := progress_is_monotone hspan (le_refl 0) zero_le_one Sample.request
    (.buffer .empty) .empty false
  obtain ⟨range, -, hfinished, hreports, -⟩ := hall hcompleted
  rw [← hfinished] at hreports
  rw [← hcount]
  exact ⟨hspan, le_refl 0, zero_le_one, hcompleted, hreports⟩

end Miner
end MethodHistory
