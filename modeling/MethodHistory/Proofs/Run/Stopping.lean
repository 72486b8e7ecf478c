import Mathlib
import MethodHistory.Proofs.Run.Composed

/-!
This module contains what a run leaves behind that is stopped: the yield of its first files, as the
run that nobody stops has it behind as many files. A file at which the run was stopped yields
nothing.
-/

namespace MethodHistory

variable {ν : Type}

def Yield.finished (yield : Yield) : Nat :=
  yield.processed + yield.skipped

theorem Run.emitted_calm (run : Run ν)
    : (Surveyed.calm run).survey.emitted = run.survey.emitted := by
  rfl

theorem Run.receive_calm (run : Run ν) (record : Record)
    : (Surveyed.calm run).receive record = Surveyed.calm (run.receive record) := by
  rw [Run.receive, Run.receive, emitted_calm]
  generalize accept run.survey.emitted record = accepted
  obtain ⟨admitted, emitted⟩ := accepted
  cases admitted <;> rfl

theorem Run.finished_receive (run : Run ν) (record : Record)
    : (run.receive record).yield.finished = run.yield.finished := by
  rw [Run.receive]
  dsimp only
  split <;> rfl

theorem Run.receive_passed {monitor : Monitor} (run : Run ν) (record : Record)
    : run.survey.Passed monitor (run.receive record).survey := by
  rw [Run.receive]
  dsimp only
  split
  . exact .of_eq rfl rfl
  . exact .of_eq rfl rfl

namespace RunM

variable {miner : Miner ν}

theorem passesAt_emitAll {monitor : Monitor} (records : List Record) (run : Run ν)
    : PassesAt monitor (emitAll records) (emitAll records) run := by
  have hfold : records.foldl Run.receive (Surveyed.calm run) =
      Surveyed.calm (records.foldl Run.receive run)
      ∧ run.survey.Passed monitor (records.foldl Run.receive run).survey := by
    induction records generalizing run with
    | nil => exact ⟨rfl, .of_eq rfl rfl⟩
    | cons record records ih =>
      rw [List.foldl_cons, List.foldl_cons, Run.receive_calm]
      obtain ⟨hcalm, hpassed⟩ := ih (run.receive record)
      exact ⟨hcalm, (run.receive_passed record).trans hpassed⟩
  constructor
  . rw [emitAll, perform_modify, perform_modify, hfold.1]
  . exact hfold.2

theorem passesAt_emit {monitor : Monitor} (records : List Record) (run : Run ν)
    : PassesAt monitor (emit miner records) (emit miner.calm records) run := by
  rw [emit, emit]
  have hcalm : miner.calm.project = miner.project := by
    rfl
  rw [hcalm]
  cases miner.project.misuse? with
  | none => apply passesAt_emitAll
  | some misuse =>
    dsimp only
    constructor
    . rw [perform_bind, perform_bind, perform_get, perform_get]
      dsimp only
      rw [Run.emitted_calm]
      cases records.find? fun record => (accept run.survey.emitted record).1 <;> rfl
    . rw [perform_bind, perform_get]
      dsimp only
      cases records.find? fun record => (accept run.survey.emitted record).1 <;>
        exact .of_eq rfl rfl

theorem passesAt_report [Scale ν] (fraction : ν) (run : Run ν)
    : PassesAt miner.monitor (report miner fraction) (report miner.calm fraction) run := by
  rw [report, report]
  cases Scale.misuse? fraction with
  | some misuse => exact (IsApart.throw _).passesAt run
  | none =>
    apply PassesAt.bind (IsApart.reached.passesAt run)
    intro reached run
    split
    . exact (IsApart.pure _).passesAt run
    . apply PassesAt.bind
      . apply IsApart.passesAt
        apply IsApart.modify <;> (intros; rfl)
      . intro _ run
        apply passesAt_hear
        intro hmonitor run
        apply hmonitor.1

theorem passesAt_handOver (records : Option (List Record)) (run : Run ν)
    : PassesAt miner.monitor (handOver miner records) (handOver miner.calm records) run := by
  have hcount (change : Tally → Tally) (run : Run ν)
      : PassesAt miner.monitor (count change) (count change) run := ⟨rfl, .of_eq rfl rfl⟩
  cases records with
  | none =>
    rw [handOver, handOver]
    apply hcount
  | some records =>
    rw [handOver, handOver]
    apply PassesAt.bind ((IsApart.enter _).passesAt run)
    intro _ run
    apply PassesAt.bind (passesAt_emit records run)
    intro _ run
    apply hcount

theorem finished_emit (records : List Record) (run : Run ν)
    : (perform (emit miner records) run).2.yield.finished = run.yield.finished := by
  rw [emit]
  cases miner.project.misuse? with
  | none =>
    change (records.foldl Run.receive run).yield.finished = _
    induction records generalizing run with
    | nil => rfl
    | cons record records ih =>
      rw [List.foldl_cons, ih, Run.finished_receive]
  | some misuse =>
    dsimp only
    rw [perform_bind, perform_get]
    dsimp only
    cases records.find? fun record => (accept run.survey.emitted record).1 <;> rfl

theorem finished_handOver {records : Option (List Record)} {run after : Run ν}
    (h : perform (handOver miner records) run = (.ok ⟨⟩, after))
    : after.yield.finished = run.yield.finished + 1 := by
  cases records with
  | none =>
    cases h
    exact (Nat.add_assoc ..).symm
  | some records =>
    rw [handOver, perform_bind_ok (perform_enter _ _), perform_bind_eq_ok] at h
    obtain ⟨_, emitted, hemit, hcount⟩ := h
    have hemit : emitted.yield.finished = run.yield.finished := by
      have := @finished_emit _ miner records
        { run with phase := .emitting, phases := run.phases ++ [.emitting] }
      rw [hemit] at this
      exact this
    cases hcount
    rw [← hemit]
    exact Nat.add_right_comm ..

section

variable [Scale ν] {range : Range} {start stop : ν} {total : Nat}

theorem visit_cases (file : String × Nat) (run : Run ν)
    : (StopsAt miner.monitor (visit miner range start stop total file) run
      ∧ (perform (visit miner range start stop total file) run).2.yield = run.yield)
    ∨ PassesAt miner.monitor (visit miner range start stop total file)
      (visit miner.calm range start stop total file) run := by
  have hnext := @Composed.nextRecords _ miner range file.1
  rw [visit, visit]
  cases hnext.follows run with
  | inl hstop =>
    -- The records of a file are kept back until all of them are there.
    refine .inl ⟨hstop.bind, ?_⟩
    rw [← hnext.yield_eq run, perform_bind_error hstop.perform_eq]
  | inr hpass =>
    apply Or.inr
    apply hpass.bind
    intro records run
    apply (passesAt_handOver records run).bind
    intro _ run
    apply passesAt_report

theorem finished_visit {file : String × Nat} {run after : Run ν}
    (h : perform (visit miner range start stop total file) run = (.ok ⟨⟩, after))
    : after.yield.finished = run.yield.finished + 1 := by
  rw [visit, perform_bind_eq_ok] at h
  obtain ⟨records, taken, hnext, h⟩ := h
  rw [perform_bind_eq_ok] at h
  obtain ⟨_, counted, hcount, hreport⟩ := h
  have hnext : taken.yield = run.yield := by
    have := (@Composed.nextRecords _ miner range file.1).yield_eq run
    rw [hnext] at this
    exact this
  have hreport : after.yield = counted.yield := by
    have := (@Composed.report _ miner _ (fractionAt start stop (file.2 + 1) total)).yield_eq counted
    rw [hreport] at this
    exact this
  rw [hreport, finished_handOver hcount, hnext]

theorem finished_takeFiles {files : List (String × Nat)} {run after : Run ν}
    (h : perform (takeFiles miner range start stop total files) run = (.ok ⟨⟩, after))
    : after.yield.finished = run.yield.finished + files.length := by
  induction files generalizing run with
  | nil =>
    cases h
    rfl
  | cons file files ih =>
    rw [takeFiles, List.forM, perform_bind_eq_ok] at h
    obtain ⟨_, visited, hvisit, hrest⟩ := h
    rw [ih hrest, finished_visit hvisit, List.length_cons]
    omega

theorem takeFiles_cases (files : List (String × Nat)) (run : Run ν) {last : Run ν}
    (hcalm : perform (takeFiles miner.calm range start stop total files) (Surveyed.calm run) =
      (.ok ⟨⟩, last))
    : (StopsAt miner.monitor (takeFiles miner range start stop total files) run
      ∧ ∃ k reached, k ≤ files.length
        ∧ perform (takeFiles miner.calm range start stop total (files.take k))
          (Surveyed.calm run) = (.ok ⟨⟩, reached)
        ∧ reached.yield = (perform (takeFiles miner range start stop total files) run).2.yield)
    ∨ PassesAt miner.monitor (takeFiles miner range start stop total files)
      (takeFiles miner.calm range start stop total files) run := by
  -- Both runs take the turns side by side, up to the one in which the first run is stopped.
  induction files generalizing run with
  | nil => exact .inr ((IsApart.pure _).passesAt run)
  | cons file files ih =>
    rw [takeFiles, List.forM] at hcalm ⊢
    rw [takeFiles, List.forM]
    rw [perform_bind_eq_ok] at hcalm
    obtain ⟨_, visited, hvisit, hrest⟩ := hcalm
    cases visit_cases file run with
    | inl hstop =>
      obtain ⟨hstop, hyield⟩ := hstop
      refine .inl ⟨hstop.bind, 0, Surveyed.calm run, Nat.zero_le _, rfl, ?_⟩
      rw [perform_bind_error hstop.perform_eq, hyield]
      rfl
    | inr hpass =>
      have hcalm := hpass.calm_eq
      rw [hvisit, Prod.mk.injEq] at hcalm
      obtain ⟨hok, hvisited⟩ := hcalm
      rw [hvisited] at hrest
      cases ih _ hrest with
      | inl hstop =>
        obtain ⟨hstop, k, reached, hk, hreached, hyield⟩ := hstop
        refine .inl ⟨hpass.bind_stops hok.symm hstop, k + 1, reached, Nat.succ_le_succ hk, ?_, ?_⟩
        . rw [List.take_succ_cons, takeFiles, List.forM, perform_bind_ok hvisit, hvisited]
          exact hreached
        . rw [hyield, perform_bind_ok (perform_eq_of_result hok.symm)]
          rfl
      | inr hrest => exact .inr (hpass.bind_ok hok.symm hrest)

end

section

variable [Scale ν] {request : Request}

def firstFiles (miner : Miner ν) (request : Request) (count : Nat) : RunM ν Unit := do
  let plan ← plan miner request
  takeFiles miner plan.range plan.start plan.stop plan.files.length (plan.files.zipIdx.take count)

def finish (miner : Miner ν) (plan : Plan ν) : RunM ν Unit := do
  enter .completed
  report miner plan.stop

theorem passesAt_finish (plan : Plan ν) (run : Run ν)
    : PassesAt miner.monitor (finish miner plan) (finish miner.calm plan) run := by
  rw [finish, finish]
  apply ((IsApart.enter _).passesAt run).bind
  intro _ run
  apply passesAt_report

theorem yield_finish (plan : Plan ν) (run : Run ν)
    : (perform (finish miner plan) run).2.yield = run.yield := by
  rw [finish, perform_bind_ok (perform_enter _ _), (Composed.report _).yield_eq]
  rfl

theorem body_eq : body miner request = (do
    let plan ← plan miner request
    takeFiles miner plan.range plan.start plan.stop plan.files.length plan.files.zipIdx
    finish miner plan) := by
  rfl

theorem body_cases (run : Run ν) {last : Run ν}
    (hcalm : perform (body miner.calm request) (Surveyed.calm run) = (.ok ⟨⟩, last))
    : (∃ k reached,
      perform (firstFiles miner.calm request k) (Surveyed.calm run) = (.ok ⟨⟩, reached)
      ∧ reached.yield = (perform (body miner request) run).2.yield
      ∧ reached.yield.finished = run.yield.finished + k)
    ∧ (StopsAt miner.monitor (body miner request) run
      ∨ PassesAt miner.monitor (body miner request) (body miner.calm request) run) := by
  rw [body_eq, perform_bind_eq_ok] at hcalm
  obtain ⟨plan, planned, hplan, hcalm⟩ := hcalm
  rw [perform_bind_eq_ok] at hcalm
  obtain ⟨_, taken, htake, hfinish⟩ := hcalm
  have hplanned : planned.yield = run.yield := by
    have := (@Composed.plan _ miner.calm _ request).yield_eq (Surveyed.calm run)
    rw [hplan] at this
    exact this
  have hfirst {k : Nat} {reached : Run ν} (h : perform (takeFiles miner.calm plan.range plan.start
      plan.stop plan.files.length (plan.files.zipIdx.take k)) planned = (.ok ⟨⟩, reached))
      : perform (firstFiles miner.calm request k) (Surveyed.calm run) = (.ok ⟨⟩, reached) := by
    rw [firstFiles, perform_bind_ok hplan]
    exact h
  rw [body_eq, body_eq]
  cases (@Composed.plan _ miner _ request).follows run with
  | inl hstop =>
    -- A run that is stopped in front of its files has yielded nothing, like a run over no files.
    refine ⟨⟨0, planned, hfirst rfl, ?_, ?_⟩, .inl hstop.bind⟩
    . rw [perform_bind_error hstop.perform_eq, (Composed.plan request).yield_eq, hplanned]
    . rw [hplanned]
      rfl
  | inr hpass =>
    have hcalm := hpass.calm_eq
    rw [hplan, Prod.mk.injEq] at hcalm
    obtain ⟨hok, hcalm⟩ := hcalm
    have hrun := perform_eq_of_result hok.symm
    have hfinished {k : Nat} {reached : Run ν} (hk : k ≤ plan.files.zipIdx.length)
        (h : perform (takeFiles miner.calm plan.range plan.start plan.stop plan.files.length
          (plan.files.zipIdx.take k)) planned = (.ok ⟨⟩, reached))
        : reached.yield.finished = run.yield.finished + k := by
      rw [finished_takeFiles h, hplanned, List.length_take, Nat.min_eq_left hk]
    cases takeFiles_cases _ _ (hcalm ▸ htake) with
    | inl hstop =>
      obtain ⟨hstop, k, reached, hk, hreached, hyield⟩ := hstop
      rw [← hcalm] at hreached
      refine ⟨⟨k, reached, hfirst hreached, ?_, hfinished hk hreached⟩, ?_⟩
      . rw [hyield, perform_bind_ok hrun, perform_bind_error hstop.perform_eq]
      . exact .inl (hpass.bind_stops hok.symm hstop.bind)
    | inr hfiles =>
      have htaken := hfiles.calm_eq
      rw [← hcalm, htake, Prod.mk.injEq] at htaken
      obtain ⟨hdone, htaken⟩ := htaken
      rw [← List.take_length (l := plan.files.zipIdx)] at htake
      refine ⟨⟨_, taken, hfirst htake, ?_, hfinished (Nat.le_refl _) htake⟩, ?_⟩
      . rw [perform_bind_ok hrun, perform_bind_ok (perform_eq_of_result hdone.symm), yield_finish,
          htaken]
        rfl
      . refine .inr (hpass.bind_ok hok.symm (hfiles.bind ?_))
        intro _ run
        apply passesAt_finish

end

end RunM

namespace Miner

variable [Scale ν] {miner : Miner ν} {request : Request} {start last : Run ν}

theorem run_of_ok (h : perform (RunM.body miner request) start = (.ok ⟨⟩, last))
    : miner.run request start = ⟨.ok last.tally, last⟩ := by
  rw [perform] at h
  rw [run, h]

theorem run_of_cancelled
    (h : perform (RunM.body miner request) start = (.error .cancelled, last))
    : miner.run request start =
      ⟨.ok last.tally, (perform (RunM.enter .cancelled) last).2⟩ := by
  rw [perform] at h
  rw [run, h]
  rfl

theorem run_of_error {failure : Failure} (hfailure : failure ≠ .cancelled)
    (h : perform (RunM.body miner request) start = (.error failure, last))
    : miner.run request start = ⟨.error failure, (perform (RunM.enter .failed) last).2⟩ := by
  rw [perform] at h
  rw [run, h]
  cases failure <;> first | contradiction | rfl

theorem ok_of_completed (h : (miner.run request start).run.phase = .completed)
    : perform (RunM.body miner request) start = (.ok ⟨⟩, (miner.run request start).run) := by
  cases hresult : (perform (RunM.body miner request) start).1 with
  | ok a =>
    have hbody := perform_eq_of_result hresult
    rw [run_of_ok hbody]
    exact hbody
  | error failure =>
    have hbody := perform_eq_of_result hresult
    by_cases hfailure : failure = .cancelled
    . rw [hfailure] at hbody
      rw [run_of_cancelled hbody, RunM.perform_enter] at h
      contradiction
    . rw [run_of_error hfailure hbody, RunM.perform_enter] at h
      contradiction

/--
A run that is stopped has yielded what the run that nobody stops yields of its first files, and of
no other one. It is cancelled if a check heard of a request to stop, and goes to the end otherwise.
-/
theorem run_yields_first_files (sink : Sink) (directory : Directory) (stopRequested : Bool)
    (hcompleted :
      (miner.calm.run request (initial sink directory false)).run.phase = .completed)
    : let full := miner.calm.run request (initial sink directory false)
    let outcome := miner.run request (initial sink directory stopRequested)
    let first := perform (RunM.firstFiles miner.calm request outcome.run.yield.finished)
      (initial sink directory false)
    outcome.result = .ok outcome.run.tally
      ∧ first.1 = .ok ⟨⟩
      ∧ first.2.yield = outcome.run.yield
      ∧ (outcome.run.phase = .cancelled ∧ outcome.run.survey.stopRequested = true
        ∨ outcome.run.phase = .completed ∧ outcome.run.tally = full.run.tally
          ∧ outcome.run.yield = full.run.yield
          ∧ ∀ n, 0 < n → n ≤ outcome.run.survey.checks → miner.monitor.stopsAtCheck n = false)
      ∧ (miner.monitor.AsksAtChecks → stopRequested = false →
        (outcome.run.phase = .cancelled ↔
          ∃ n, 0 < n ∧ n ≤ outcome.run.survey.checks ∧ miner.monitor.stopsAtCheck n = true)) := by
  intro full outcome first
  have hcalm : Surveyed.calm (initial sink directory stopRequested : Run ν) =
      initial sink directory false := rfl
  have hfull : perform (RunM.body miner.calm request) (Surveyed.calm (initial sink directory
      stopRequested)) = (.ok ⟨⟩, full.run) := ok_of_completed hcompleted
  obtain ⟨⟨k, reached, hreached, hyield, hfinished⟩, hcases⟩ := RunM.body_cases _ hfull
  have hk : reached.yield.finished = k := hfinished.trans (Nat.zero_add k)
  have hfirst (h : outcome.run.yield = (perform (RunM.body miner request)
      (initial sink directory stopRequested)).2.yield)
      : first.1 = .ok ⟨⟩ ∧ first.2.yield = outcome.run.yield := by
    have hcount : outcome.run.yield.finished = k := by
      rw [h, ← hyield, hk]
    have hperform : first = (.ok ⟨⟩, reached) := by
      rw [← hreached, ← hcount]
      rfl
    rw [hperform, h]
    exact ⟨rfl, hyield⟩
  cases hcases with
  | inl hstop =>
    have houtcome : outcome = _ := run_of_cancelled hstop.perform_eq
    have hstopped := hstop.stopped
    rw [← and_assoc (a := first.1 = _)]
    refine ⟨?_, hfirst ?_, ?_, ?_⟩
    . rw [houtcome]
      rfl
    . rw [houtcome]
      rfl
    . rw [houtcome]
      exact .inl ⟨rfl, hstopped.requested⟩
    . intro hmonitor hrequested
      rw [houtcome]
      obtain ⟨hlt, hstops⟩ := hstopped.heard hmonitor hrequested
      exact iff_of_true rfl ⟨_, hlt, Nat.le_refl _, hstops⟩
  | inr hpass =>
    -- Both runs go to the end and differ at most in a request to stop that no check has heard of.
    have hbody := hpass.calm_eq
    rw [hfull, Prod.mk.injEq] at hbody
    obtain ⟨hok, hlast⟩ := hbody
    have houtcome : outcome = _ := run_of_ok (perform_eq_of_result hok.symm)
    have hphase : outcome.run.phase = .completed := by
      rw [houtcome]
      change (Surveyed.calm (perform (RunM.body miner request) _).2).phase = _
      rw [← hlast]
      exact hcompleted
    have hunheard := hpass.passed.unheard
    rw [← and_assoc (a := first.1 = _)]
    refine ⟨?_, hfirst ?_, .inr ⟨hphase, ?_, ?_, ?_⟩, ?_⟩
    . rw [houtcome]
    . rw [houtcome]
    . rw [houtcome, hlast]
      rfl
    . rw [houtcome, hlast]
      rfl
    . rw [houtcome]
      exact hunheard
    . intro _ _
      rw [hphase]
      refine iff_of_false (by decide) ?_
      rintro ⟨n, hpos, hle, hstops⟩
      rw [houtcome] at hle
      rw [hunheard n hpos hle] at hstops
      contradiction

end Miner

/-! A run over three files, of which one has no readable history -/

namespace Sample

def source : Source where
  allCommits :=
    .ok [⟨"new", some "", none, .first, some "", 0⟩, ⟨"old", some "", none, .first, some "", 1⟩]
  tagTarget _ := .ok none
  revisionsOf path :=
    if path = "Locked.java" then .error (.revision (.unreadableHistory path "locked"))
    else .ok [⟨"new", .first⟩, ⟨"old", .first⟩]
  contentAt path commit := .ok (some (path ++ commit).toUTF8)
  filesAt _ _ := .ok ["A.java", "Locked.java", "Other.java"]

def compare (older newer : ByteArray) : Option (List Change) :=
  if older = newer then none
  else
    some [⟨.statementInsert, some ("m" ++ toString newer.size), none, none, none, some "x();"⟩]

def engine : Engine := fun previous actual =>
  match previous.content, actual.content with
  | some older, some newer =>
    match compare older newer with
    | some changes => .ok changes
    | none => .error (.other "equal")
  | _, _ => .error (.unread "missing")

def limits : NameLimits :=
  ⟨255, 4095⟩

def miner (monitor : Monitor) : Miner Rat :=
  ⟨source, engine, monitor, .text (.ofText "p"), limits, .nothing "", false, .ok (0, 1)⟩

def request : Request :=
  ⟨.value "old", .value "new", .ok .positional, .nothing ""⟩

def start : Run Rat :=
  Miner.initial (.buffer .empty) .empty false

def stoppingAt (check : Nat) : Monitor :=
  ⟨fun n => n = check, fun _ => false, fun _ => false⟩

end Sample

theorem Miner.run_stopped_in_third_file
    : let miner := Sample.miner (Sample.stoppingAt 13)
    let outcome := miner.run Sample.request Sample.start
    (miner.calm.run Sample.request Sample.start).run.phase = .completed
      ∧ outcome.run.phase = .cancelled ∧ outcome.run.yield.finished = 2
      ∧ (perform (RunM.firstFiles miner.calm Sample.request 2) Sample.start).2.yield =
        outcome.run.yield := by
  intro miner outcome
  have hcompleted : (miner.calm.run Sample.request Sample.start).run.phase = .completed := by
    decide +kernel
  have hfinished : outcome.run.yield.finished = 2 := by
    decide +kernel
  have hphase : outcome.run.phase = .cancelled := by
    decide +kernel
  obtain ⟨-, -, hyield, -⟩ := run_yields_first_files (.buffer .empty) .empty false hcompleted
  change (perform (RunM.firstFiles miner.calm Sample.request outcome.run.yield.finished)
    Sample.start).2.yield = outcome.run.yield at hyield
  rw [hfinished] at hyield
  exact ⟨hcompleted, hphase, hfinished, hyield⟩

end MethodHistory
