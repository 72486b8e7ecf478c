import MethodHistory.Proofs.Run.Completion
import MethodHistory.Proofs.Run.Emission
import MethodHistory.Proofs.Run.Steady

/-!
This module contains what becomes of a run that is done again: with the same answers of its source
and the same findings of its engine it has the same result, and its sink knows all records already.
-/

namespace MethodHistory

variable {ν : Type}

def Run.Alike (one other : Run ν) : Prop :=
  ∃ comparisons slots directory sink, other = { one with comparisons, slots, directory, sink }

def Run.AlikeInSlots (one other : Run ν) : Prop :=
  one.Alike other ∧ ∃ older newer, one.slots.Hold one.directory older newer
    ∧ other.slots.Hold other.directory older newer

namespace RunM

open Run

variable {miner : Miner ν} {compare : ByteArray → ByteArray → Option (List Change)}

theorem alike_receive {one other : Run ν} (h : one.Alike other) (record : Record)
    : (one.receive record).Alike (other.receive record) := by
  obtain ⟨comparisons, slots, directory, sink, rfl⟩ := h
  rw [Run.receive, Run.receive]
  dsimp only
  split
  . exact ⟨_, _, _, _, rfl⟩
  . exact ⟨_, _, _, _, rfl⟩

theorem mirrors_emit (records : List Record) : Mirrors Alike (emit miner records) := by
  rw [emit]
  cases miner.project.misuse? with
  | none =>
    intro one other h
    refine ⟨rfl, ?_⟩
    change (records.foldl Run.receive one).Alike (records.foldl Run.receive other)
    induction records generalizing one other with
    | nil => exact h
    | cons record records ih => exact ih _ _ (alike_receive h record)
  | some misuse =>
    rintro one _ ⟨comparisons, slots, directory, sink, rfl⟩
    dsimp only
    rw [perform_bind, perform_bind, perform_get, perform_get]
    dsimp only
    cases records.find? fun record => (accept one.survey.emitted record).1 with
    | none => exact ⟨rfl, _, _, _, _, rfl⟩
    | some record => exact ⟨rfl, _, _, _, _, rfl⟩

theorem mirrors_inSurvey {α : Type} (act : SurveyM α)
    : Mirrors (Alike : Run ν → Run ν → Prop) (inSurvey act) := by
  rintro one _ ⟨comparisons, slots, directory, sink, rfl⟩
  rw [perform_inSurvey, perform_inSurvey]
  exact ⟨rfl, _, _, _, _, rfl⟩

theorem mirrors_report [Scale ν] (fraction : ν) : Mirrors Alike (report miner fraction) := by
  rintro one _ ⟨comparisons, slots, directory, sink, rfl⟩
  rw [perform_report, perform_report]
  cases Scale.misuse? fraction with
  | some misuse => exact ⟨rfl, _, _, _, _, rfl⟩
  | none =>
    dsimp only
    split
    . exact ⟨rfl, _, _, _, _, rfl⟩
    . exact ⟨rfl, _, _, _, _, rfl⟩

theorem mirrors_inSlots {α : Type} {act : RunM ν α} (h : Mirrors Alike act)
    (hleaves : LeavesFiles act) : Mirrors AlikeInSlots act := by
  rintro one other ⟨halike, older, newer, hone, hother⟩
  obtain ⟨hresult, hlast⟩ := h one other halike
  refine ⟨hresult, hlast, older, newer, ?_, ?_⟩
  . rw [(hleaves one).1, (hleaves one).2]
    exact hone
  . rw [(hleaves other).1, (hleaves other).2]
    exact hother

theorem mirrors_compare (hmonitor : miner.monitor = .never)
    (hengine : miner.engine.Computes compare) (path : String)
    : Mirrors AlikeInSlots (RunM.compare miner path) := by
  have hcompare {run : Run ν} {older newer : ByteArray}
      (h : run.slots.Hold run.directory older newer) : ∃ comparisons,
        perform (RunM.compare miner path) run =
          (.ok (((compare older newer).getD []).filterMap (·.event? path)), { run with
            comparisons
            tally := run.tally.counting (compare older newer).isSome }) := by
    obtain ⟨comparisons, stopRequested, hperform, hnever⟩ := @perform_compare _ miner path run
    rw [hengine (run.snapshotOf _) (run.snapshotOf _) older newer h.read_previous h.read_actual,
      hnever hmonitor] at hperform
    exact ⟨comparisons, hperform⟩
  rintro one _ ⟨⟨_, slots, directory, sink, rfl⟩, older, newer, hone, hother⟩
  obtain ⟨_, hperform⟩ := hcompare hone
  obtain ⟨comparisons, hperformOther⟩ := hcompare hother
  rw [hperform, hperformOther]
  exact ⟨rfl, ⟨comparisons, slots, directory, sink, rfl⟩, older, newer, hone, hother⟩

theorem isWalkable_alikeInSlots [Scale ν] (hmonitor : miner.monitor = .never)
    (hengine : miner.engine.Computes compare) : IsWalkable miner AlikeInSlots := by
  constructor
  . constructor
    . intro α act calmAct _
      exact mirrors_inSlots (mirrors_inSurvey act) (leavesFiles_inSurvey act)
    . intro fraction
      exact mirrors_inSlots (mirrors_report fraction) (leavesFiles_report fraction)
  . exact mirrors_compare hmonitor hengine
  . rintro content one _ ⟨⟨comparisons, slots, directory, sink, rfl⟩, older, newer, hone, hother⟩
    obtain ⟨written, hwrite, hlast⟩ := hone.write_previous content
    obtain ⟨writtenOther, hwriteOther, hlastOther⟩ := hother.write_previous content
    rw [perform_write, perform_write, hwrite, hwriteOther]
    exact ⟨rfl, ⟨_, _, _, _, rfl⟩, content, newer, hlast, hlastOther⟩
  . rintro content one _ ⟨⟨comparisons, slots, directory, sink, rfl⟩, older, newer, hone, hother⟩
    obtain ⟨written, hwrite, hlast⟩ := hone.write_actual content
    obtain ⟨writtenOther, hwriteOther, hlastOther⟩ := hother.write_actual content
    rw [perform_write, perform_write, hwrite, hwriteOther]
    exact ⟨rfl, ⟨_, _, _, _, rfl⟩, older, content, hlast, hlastOther⟩
  . rintro one _ ⟨⟨comparisons, slots, directory, sink, rfl⟩, older, newer, hone, hother⟩
    obtain ⟨swapped, after, hswap, hlast⟩ := hone.swap
    obtain ⟨swappedOther, afterOther, hswapOther, hlastOther⟩ := hother.swap
    rw [perform_useSlots, perform_useSlots, hswap, hswapOther]
    exact ⟨rfl, ⟨_, _, _, _, rfl⟩, newer, .empty, hlast, hlastOther⟩

theorem mirrors_withSlots {α : Type} {act : RunM ν α} (h : Mirrors AlikeInSlots act)
    (limits : NameLimits) (suffix : String) : Mirrors Alike (withSlots limits suffix act) := by
  rintro one _ ⟨comparisons, slots, directory, sink, rfl⟩
  rw [withSlots, perform_bind, perform_bind, perform_useSlots, perform_useSlots]
  cases htrouble : SnapshotPath.trouble? limits suffix with
  | some trouble =>
    rw [Slots.enter_eq_error htrouble, Slots.enter_eq_error htrouble]
    exact ⟨rfl, _, _, _, _, rfl⟩
  | none =>
    obtain ⟨entered, made, henter, hhold⟩ := Slots.hold_enter htrouble one.directory
    obtain ⟨enteredOther, madeOther, henterOther, hholdOther⟩ := Slots.hold_enter htrouble directory
    rw [henter, henterOther]
    have halike : AlikeInSlots { one with slots := entered, directory := made }
        { one with comparisons, sink, slots := enteredOther, directory := madeOther } :=
      ⟨⟨_, _, _, _, rfl⟩, _, _, hhold, hholdOther⟩
    obtain ⟨hresult, ⟨_, _, _, _, hlast⟩, -⟩ := h _ _ halike
    dsimp only
    rw [perform_outcome_bind, perform_outcome_bind, hlast, hresult]
    -- Both runs have given back their slots.
    exact (Mirrors.lift _) _ _ ⟨_, _, _, _, rfl⟩

theorem isRunnable_alike [Scale ν] (hmonitor : miner.monitor = .never)
    (hengine : miner.engine.Computes compare) : IsRunnable miner Alike := by
  constructor
  . constructor
    . intro α act calmAct _
      exact mirrors_inSurvey act
    . exact mirrors_report
  . intro path
    apply mirrors_inSurvey
  . intro request mode
    apply mirrors_inSurvey
  . rintro phase one _ ⟨comparisons, slots, directory, sink, rfl⟩
    exact ⟨rfl, _, _, _, _, rfl⟩
  . rintro change _ one _ ⟨comparisons, slots, directory, sink, rfl⟩
    exact ⟨rfl, _, _, _, _, rfl⟩
  . exact mirrors_emit
  . intro range path suffix revisions
    apply mirrors_withSlots
    exact mirrors_walk (isWalkable_alikeInSlots hmonitor hengine) range path false revisions

end RunM

def Sink.fed (sink : Sink) (records : List Record) : Sink :=
  records.foldl (fun sink record => (sink.insert record).2) sink

theorem Sink.fed_append_singleton (sink : Sink) (records : List Record) (record : Record)
    : sink.fed (records ++ [record]) = ((sink.fed records).insert record).2 := by
  rw [fed, List.foldl_append]
  rfl

theorem Sink.fed_of_subset {held records : List Record} (h : records ⊆ held)
    : (buffer ⟨held⟩).fed records = buffer ⟨held⟩ := by
  induction records with
  | nil => rfl
  | cons record records ih =>
    have hknown : (⟨held⟩ : BufferSink).insert record = (false, ⟨held⟩) := by
      rw [BufferSink.insert, if_pos]
      rw [List.any_eq_true]
      exact ⟨record, h List.mem_cons_self, decide_eq_true rfl⟩
    rw [fed, List.foldl_cons, insert, hknown]
    exact ih fun other hother => h (List.mem_cons_of_mem _ hother)

namespace RunM

open Run

variable {miner : Miner ν}

theorem keeps_of_composed {α : Type} {p : Yield → Prop} {act calmAct : RunM ν α}
    (h : Composed miner act calmAct) : Keeps (fun run => p run.yield) act := by
  intro run hrun
  rw [h.yield_eq]
  exact hrun

theorem keeps_emit_fed (start : Sink) (records : List Record)
    : Keeps (fun run => run.yield.sink = start.fed run.yield.records) (emit miner records) := by
  apply keeps_emit
  . intro run record hrun
    rw [Run.receive]
    dsimp only
    split
    . change (run.sink.insert record).2 = start.fed (run.tally.records ++ [record])
      rw [Sink.fed_append_singleton]
      exact congrArg (fun sink : Sink => (sink.insert record).2) hrun
    . exact hrun
  . intro run emitted hrun
    exact hrun

theorem isRunnable_fed [Scale ν] (start : Sink)
    : IsRunnable miner (Same fun run => run.yield.sink = start.fed run.yield.records) := by
  have hcomposed {α : Type} {act calmAct : RunM ν α} (h : Composed miner act calmAct)
      : Mirrors (Same fun run => run.yield.sink = start.fed run.yield.records) act :=
    (keeps_of_composed (p := fun yield => yield.sink = start.fed yield.records) h).mirrors
  constructor
  . constructor
    . intro α act calmAct h
      exact hcomposed (.survey h)
    . intro fraction
      exact hcomposed (.report fraction)
  . intro path
    exact hcomposed (.history path)
  . intro request mode
    exact hcomposed (.resolveRange request mode)
  . intro phase
    exact hcomposed (.apart (.enter phase))
  . intro change hchange
    apply Keeps.mirrors
    intro run hrun
    change run.sink = start.fed (change run.tally).records
    rw [hchange]
    exact hrun
  . intro records
    exact (keeps_emit_fed start records).mirrors
  . intro range path suffix revisions
    exact hcomposed (.withSlots miner.limits suffix (.walk range path false revisions))

end RunM

namespace Miner

variable [Scale ν] {miner : Miner ν} {request : Request}
  {compare : ByteArray → ByteArray → Option (List Change)}

theorem sink_run (sink : Sink) (directory : Directory) (stopRequested : Bool)
    : let outcome := miner.run request (initial sink directory stopRequested)
      outcome.run.sink = sink.fed outcome.run.tally.records := by
  have hstart : (initial sink directory stopRequested : Run ν).yield.sink =
      sink.fed (initial sink directory stopRequested : Run ν).yield.records := rfl
  exact keeps_run (RunM.isRunnable_fed sink) request hstart

theorem not_stopRequested_run (hmonitor : miner.monitor = .never) (sink : Sink)
    (directory : Directory)
    (hcompleted : (miner.run request (initial sink directory false)).run.phase = .completed)
    : (miner.run request (initial sink directory false)).run.survey.stopRequested = false := by
  have hbody := ok_of_completed hcompleted
  have hcalm : perform (RunM.body miner.calm request)
      (Surveyed.calm (initial sink directory false)) =
        (.ok ⟨⟩, (miner.run request (initial sink directory false)).run) := by
    rw [calm_of_never hmonitor]
    exact hbody
  have hchecks : miner.monitor.AsksAtChecks := by
    rw [hmonitor]
    exact ⟨fun _ => rfl, fun _ => rfl⟩
  cases (RunM.body_cases _ hcalm).2 with
  | inl hstop =>
    have hresult := hstop.result_eq
    rw [hbody] at hresult
    contradiction
  | inr hpass =>
    have hrequested := hpass.passed.requested_eq hchecks
    change (perform (RunM.body miner request) _).2.survey.stopRequested = false at hrequested
    rw [hbody] at hrequested
    exact hrequested

/--
A completed run that is done again, with the sink and the files that the first run has left, has the
same result, and its sink ignores all that it is offered.
-/
theorem run_again (hmonitor : miner.monitor = .never) (hengine : miner.engine.Computes compare)
    (directory : Directory)
    (hcompleted :
      (miner.run request (initial (.buffer .empty) directory false)).run.phase = .completed)
    : let first := miner.run request (initial (.buffer .empty) directory false)
      let second := miner.run request
        (initial first.run.sink first.run.directory first.run.survey.stopRequested)
      second.run.phase = first.run.phase
        ∧ second.run.sink = first.run.sink
        ∧ ∃ tally, first.result = .ok tally ∧ second.result = .ok tally
          ∧ first.run.sink = .buffer ⟨tally.records⟩ := by
  intro first second
  have hstopped := not_stopRequested_run hmonitor (.buffer .empty) directory hcompleted
  have hsecond : second = miner.run request (initial first.run.sink first.run.directory false) := by
    change miner.run request (initial _ _ first.run.survey.stopRequested) = _
    rw [hstopped]
  have hstart : Run.Alike (initial (.buffer .empty) directory false : Run ν)
      (initial first.run.sink first.run.directory false) := ⟨_, _, _, _, rfl⟩
  obtain ⟨⟨_, _, _, _, hlast⟩, hresult⟩ :=
    related_run (RunM.isRunnable_alike hmonitor hengine) request hstart
  rw [← hsecond] at hlast hresult
  have hfirst : first.result = .ok first.run.tally := by
    have hbody := ok_of_completed hcompleted
    have houtcome : first = _ := run_of_ok hbody
    rw [houtcome]
  have htaken : first.run.sink = .buffer ⟨first.run.tally.records⟩ :=
    (isSound_run miner request .buffer directory false).1.takes.eq_buffer rfl
  have htally : second.run.tally = first.run.tally := by
    rw [hlast]
  refine ⟨?_, ?_, first.run.tally, hfirst, ?_, htaken⟩
  . rw [hlast]
  . have hfed : second.run.sink = first.run.sink.fed second.run.tally.records := by
      rw [hsecond]
      exact sink_run _ _ _
    rw [hfed, htally, htaken]
    exact Sink.fed_of_subset (List.Subset.refl _)
  . rw [← hfirst]
    exact (hresult htally.symm).symm

theorem run_again_over_three_files
    : let miner := Sample.miner .never
      let first := miner.run Sample.request (initial (.buffer .empty) .empty false)
      let second := miner.run Sample.request
        (initial first.run.sink first.run.directory first.run.survey.stopRequested)
      first.run.phase = .completed ∧ second.run.phase = .completed
        ∧ first.run.tally.records.length = 2
        ∧ ∃ tally, first.result = .ok tally ∧ second.result = .ok tally
          ∧ second.run.sink = .buffer ⟨tally.records⟩ := by
  have hcompleted : ((Sample.miner .never).run Sample.request
      (initial (.buffer .empty) .empty false)).run.phase = .completed := by
    decide +kernel
  have hlength : ((Sample.miner .never).run Sample.request
      (initial (.buffer .empty) .empty false)).run.tally.records.length = 2 := by
    decide +kernel
  obtain ⟨hphase, hsink, tally, hfirst, hsecond, hheld⟩ :=
    run_again rfl Sample.computes_engine .empty hcompleted
  exact ⟨hcompleted, hphase.trans hcompleted, hlength, tally, hfirst, hsecond, hsink.trans hheld⟩

end Miner
end MethodHistory
