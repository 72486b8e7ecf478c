import Mathlib.Data.String.Basic
import MethodHistory.Proofs.Run.Stopping
import MethodHistory.Proofs.Run.Walk

/-!
This module contains the result of a run that nobody stops: it comes to its end, with the records
that its source and its engine account for.
-/

namespace MethodHistory

variable {ν α : Type}

namespace SurveyM

variable {source : Source} {β : Type}

theorem Tells.perform_bind_eq_ok {act : SurveyM α} {next : α → SurveyM β} (h : Tells source act)
    {survey last : Survey} {b : β} (hs : survey.IsCalm source)
    (hok : perform (act >>= next) survey = (.ok b, last))
    : ∃ a after, answer act = .ok a ∧ after.IsCalm source
      ∧ perform (next a) after = (.ok b, last) := by
  rw [MethodHistory.perform_bind_eq_ok] at hok
  obtain ⟨a, after, hact, hnext⟩ := hok
  refine ⟨a, after, ?_, ?_, hnext⟩
  . rw [← h.answer_eq survey hs, hact]
  . have := h.isCalm survey hs
    rw [hact] at this
    exact this

end SurveyM

theorem Source.exists_commits_of_rangeOf {source : Source} {request : Request} {mode : Mode}
    {range : Range} (h : source.rangeOf request mode = .ok range)
    : ∃ commits, source.allCommits = .ok commits := by
  have hperform := perform_eq_of_result h
  have hstart := Survey.isCalm_start source
  have hcommits := @SurveyM.IsLookup.commits source
  -- In both modes the list of commits is asked for, after the ends of the window in the second one.
  cases mode with
  | positional =>
    obtain ⟨commits, _, hanswer, -, -⟩ := hcommits.tells.perform_bind_eq_ok hstart hperform
    rw [SurveyM.answer_commits] at hanswer
    exact ⟨commits, hanswer⟩
  | date =>
    have htext := @SurveyM.IsLookup.textOf source
    have hend := @SurveyM.IsLookup.dateEndpoint source
    obtain ⟨lower, one, -, hone, hperform⟩ := (htext _).tells.perform_bind_eq_ok hstart hperform
    obtain ⟨upper, two, -, htwo, hperform⟩ := (htext _).tells.perform_bind_eq_ok hone hperform
    obtain ⟨lower, three, -, hthree, hperform⟩ := (hend _ _).tells.perform_bind_eq_ok htwo hperform
    obtain ⟨upper, four, -, hfour, hperform⟩ := (hend _ _).tells.perform_bind_eq_ok hthree hperform
    have hbound := (@SurveyM.Composed.lowerBound source .never lower request.since).tells
    obtain ⟨dateMin, five, -, hfive, hperform⟩ := hbound.perform_bind_eq_ok hfour hperform
    obtain ⟨commits, _, hanswer, -, -⟩ := hcommits.tells.perform_bind_eq_ok hfive hperform
    rw [SurveyM.answer_commits] at hanswer
    exact ⟨commits, hanswer⟩

structure Yield.Admits (yield : Yield) (seen : List Record) : Prop where
  records_eq : yield.records = freshRecords [] seen
  emitted_eq : yield.emitted = yield.records.map Record.key

theorem Run.admits_receive {run : Run ν} {seen : List Record} (h : run.yield.Admits seen)
    (record : Record) : (run.receive record).yield.Admits (seen ++ [record]) := by
  obtain ⟨hrecords, hemitted⟩ := h
  have hseen : freshRecords [] (seen ++ [record]) =
      run.yield.records ++ freshRecords run.survey.emitted [record] := by
    rw [freshRecords_append, List.nil_append, ← hrecords, ← hemitted]
    rfl
  cases hfresh : record.isFresh run.survey.emitted with
  | true =>
    rw [freshRecords_cons_of_isFresh hfresh, freshRecords_nil] at hseen
    rw [Run.receive, accept_of_isFresh hfresh]
    constructor
    . rw [hseen]
      rfl
    . change run.survey.emitted ++ [record.key] = (run.yield.records ++ [record]).map Record.key
      rw [List.map_append, ← hemitted]
      rfl
  | false =>
    rw [freshRecords_cons_of_not_isFresh hfresh, freshRecords_nil, List.append_nil] at hseen
    rw [Run.receive, accept_of_not_isFresh hfresh]
    exact ⟨hseen.symm, hemitted⟩

namespace RunM

open Run

variable {miner : Miner ν} {range : Range} {compared : List (ByteArray × ByteArray)}
  {p q : Run ν → Prop} {seen : List Record}

/-! The files of a run -/

theorem eraseDups_append_filter (listed paths : List String)
    : listed.eraseDups ++ (paths.filter (!listed.eraseDups.contains ·)).eraseDups =
      (listed ++ paths).eraseDups := by
  have hnew : paths.filter (fun path => !listed.eraseDups.contains path) =
      paths.removeAll listed := by
    rw [List.removeAll]
    congr 1
    funext path
    rw [List.contains_eq_mem, List.elem_eq_mem]
    simp only [List.mem_eraseDups]
  rw [List.eraseDups_append, hnew]

theorem reaches_addFiles (hp : Run.IsApart miner.source p) {commit : String} {paths : List String}
    (hlisted : miner.source.filesAt commit miner.suffix = .ok paths) (listed : List String)
    : Reaches p (addFiles miner.calm listed.eraseDups commit)
      (listed ++ miner.source.pathsAt miner.suffix commit).eraseDups p := by
  have hpaths : miner.source.pathsAt miner.suffix commit = paths := by
    rw [Source.pathsAt, hlisted]
    rfl
  rw [addFiles, hpaths]
  apply (reaches_checkpoint hp).bind
  apply (reaches_outcome_inSurvey hp (.lookup (.ask _ _))).bind
  have hcalm : miner.calm.source.filesAt commit miner.calm.suffix = .ok paths := hlisted
  rw [SurveyM.answer_ask, hcalm, ← eraseDups_append_filter]
  exact .pure fun _ h => h

theorem reaches_addAll (hp : Run.IsApart miner.source p) (commits : List String)
    (hlisted : ∀ commit ∈ commits, ∃ paths, miner.source.filesAt commit miner.suffix = .ok paths)
    (listed : List String)
    : Reaches p (commits.foldlM (addFiles miner.calm) listed.eraseDups)
      (listed ++ commits.flatMap (miner.source.pathsAt miner.suffix)).eraseDups p := by
  induction commits generalizing listed with
  | nil =>
    rw [List.flatMap_nil, List.append_nil]
    exact .pure fun _ h => h
  | cons commit commits ih =>
    obtain ⟨paths, hcommit⟩ := hlisted commit List.mem_cons_self
    rw [List.foldlM_cons, List.flatMap_cons, ← List.append_assoc]
    apply (reaches_addFiles hp hcommit listed).bind
    apply ih
    intro other hother
    exact hlisted other (List.mem_cons_of_mem _ hother)

theorem eraseDups_flatMap_ends (list : String → List String) (upper last : String)
    : ([upper, last].eraseDups.flatMap list).eraseDups = (list upper ++ list last).eraseDups := by
  by_cases h : last = upper
  . have hnone : (list upper).removeAll (list upper) = [] := by
      rw [List.removeAll, List.filter_eq_nil_iff]
      simp
    rw [h, List.eraseDups_append, hnone]
    simp [List.eraseDups_cons]
  . have hne : (last == upper) = false := beq_false_of_ne h
    simp [List.eraseDups_cons, hne]

theorem eraseDups_flatMap_anchors (miner : Miner ν) (range : Range)
    : ((anchors range).flatMap (miner.source.pathsAt miner.suffix)).eraseDups =
      miner.source.filesOf miner.suffix range := by
  rw [anchors, Source.filesOf]
  cases range.minedCommits with
  | nil => rfl
  | cons first rest =>
    dsimp only
    rw [List.head?_cons, List.getLast?_cons, ← List.getLastD_eq_getLast?]
    apply eraseDups_flatMap_ends

theorem reaches_filesIn (hp : Run.IsApart miner.source p)
    (hlisted : ∀ commit ∈ anchors range,
      ∃ paths, miner.source.filesAt commit miner.suffix = .ok paths)
    : Reaches p (filesIn miner.calm range) (miner.source.filesOf miner.suffix range) p := by
  have hall := reaches_addAll hp (anchors range) hlisted []
  rw [List.nil_append, eraseDups_flatMap_anchors] at hall
  exact hall

/-! The loop over the files -/

def IsLooping (miner : Miner ν) (range : Range) (seen : List Record) (run : Run ν) : Prop :=
  (∃ compared, run.IsMining miner range compared) ∧ run.yield.Admits seen

theorem isMining_receive {run : Run ν} (h : run.IsMining miner range compared) (record : Record)
    : (run.receive record).IsMining miner range compared := by
  rw [Run.receive]
  dsimp only
  split
  . exact ⟨⟨⟨h.isCalm.recalls.commits, h.isCalm.recalls.tags⟩, h.isCalm.not_stopped⟩, h.range_eq,
      h.comparisons_eq⟩
  . exact h

theorem isLooping_receiveAll {run : Run ν} (h : IsLooping miner range seen run)
    (records : List Record)
    : IsLooping miner range (seen ++ records) (records.foldl Run.receive run) := by
  induction records generalizing run seen with
  | nil =>
    rw [List.append_nil]
    exact h
  | cons record records ih =>
    obtain ⟨⟨compared, hmining⟩, hadmits⟩ := h
    rw [List.append_cons]
    exact ih ⟨⟨compared, isMining_receive hmining record⟩, Run.admits_receive hadmits record⟩

theorem reaches_handOver (hproject : miner.project.misuse? = none)
    (records : Option (List Record))
    : Reaches (IsLooping miner range seen) (handOver miner.calm records) ⟨⟩
      (IsLooping miner range (seen ++ records.getD [])) := by
  have hcount {seen : List Record} {change : Tally → Tally}
      (hchange : ∀ tally, (change tally).records = tally.records)
      : Reaches (IsLooping miner range seen) (count change) ⟨⟩ (IsLooping miner range seen) := by
    rintro run ⟨⟨compared, hmining⟩, hadmits⟩
    refine ⟨_, rfl, ⟨compared, hmining.isCalm, hmining.range_eq, hmining.comparisons_eq⟩, ?_, ?_⟩
    . exact (hchange run.tally).trans hadmits.records_eq
    . exact hadmits.emitted_eq.trans (congrArg _ (hchange run.tally).symm)
  cases records with
  | none =>
    rw [handOver, Option.getD_none, List.append_nil]
    apply hcount
    intros
    rfl
  | some records =>
    rw [handOver, Option.getD_some]
    apply @Reaches.bind _ _ _ _ (IsLooping miner range seen)
    . rintro run ⟨⟨compared, hmining⟩, hadmits⟩
      exact ⟨_, rfl, ⟨compared, hmining.isCalm, hmining.range_eq, hmining.comparisons_eq⟩,
        hadmits.records_eq, hadmits.emitted_eq⟩
    . apply @Reaches.bind _ _ _ _ (IsLooping miner range (seen ++ records))
      . intro run hrun
        rw [emit]
        have hcalm : miner.calm.project.misuse? = none := hproject
        rw [hcalm]
        exact ⟨_, rfl, isLooping_receiveAll hrun records⟩
      . apply hcount
        intros
        rfl

theorem reaches_looping {act calmAct : RunM ν α} {a : α}
    (hcomposed : Composed miner.calm act calmAct)
    (h : ∀ compared, ∃ later, Reaches (IsMining miner range compared) act a
      (IsMining miner range later))
    : Reaches (IsLooping miner range seen) act a (IsLooping miner range seen) := by
  rintro run ⟨⟨compared, hmining⟩, hadmits⟩
  -- What is composed of acts of the survey and acts apart from it leaves the yield alone.
  obtain ⟨later, hact⟩ := h compared
  obtain ⟨last, hperform, hlast⟩ := hact run hmining
  have hyield := hcomposed.yield_eq run
  rw [hperform] at hyield
  refine ⟨last, hperform, ⟨later, hlast⟩, ?_⟩
  rw [hyield]
  exact hadmits

theorem reaches_nextRecords {compare : ByteArray → ByteArray → Option (List Change)}
    (hcompare : miner.engine.Computes compare) {commits : List Commit}
    (hcommits : miner.source.allCommits = .ok commits) (hsource : miner.source.FailsSoftly)
    {path : String} (hsuffix : miner.Walks range path →
      SnapshotPath.trouble? miner.limits (snapshotSuffix path) = none)
    : ∃ records, records.getD [] = miner.recordsOf compare range path ∧
      Reaches (IsLooping miner range seen) (nextRecords miner.calm range path) records
        (IsLooping miner range seen) := by
  have hmining : ∃ records, records.getD [] = miner.recordsOf compare range path ∧
      ∀ compared, ∃ later, Reaches (IsMining miner range compared)
        (nextRecords miner.calm range path) records (IsMining miner range later) := by
    have hexclude : miner.calm.excludeTests = miner.excludeTests := rfl
    rw [nextRecords, hexclude, Miner.recordsOf]
    split
    . refine ⟨none, rfl, fun compared => ⟨compared, ?_⟩⟩
      exact (reaches_checkpoint isApart_isMining).bind (.pure fun _ h => h)
    next hleft =>
      refine ⟨_, ?_, fun compared => ⟨_, (reaches_checkpoint isApart_isMining).bind
        (reaches_fileRecords hcompare hcommits hsource ?_)⟩⟩
      . cases miner.source.pairsIn range path <;> rfl
      . intro history hhistory hrevisions
        exact hsuffix ⟨hleft, history, hhistory, hrevisions⟩
  obtain ⟨records, hrecords, hnext⟩ := hmining
  exact ⟨records, hrecords, reaches_looping (Composed.nextRecords range path) hnext⟩

theorem reaches_report [Scale ν] {fraction : ν} (hfraction : Scale.misuse? fraction = none)
    : Reaches (IsMining miner range compared) (report miner.calm fraction) ⟨⟩
      (IsMining miner range compared) := by
  intro run hrun
  rw [report, hfraction]
  change ∃ last, perform (if Scale.isLess fraction run.reached then _ else _) run = _ ∧ _
  split
  . exact ⟨run, rfl, hrun⟩
  . refine ⟨_, rfl, ⟨⟨hrun.isCalm.recalls.commits, hrun.isCalm.recalls.tags⟩, ?_⟩, hrun.range_eq,
      hrun.comparisons_eq⟩
    change (run.survey.stopRequested || false) = false
    rw [hrun.isCalm.not_stopped]
    rfl

def IsCalmStart (source : Source) (run : Run ν) : Prop :=
  run.survey.IsCalm source ∧ run.comparisons = []

theorem isApart_isCalmStart {source : Source}
    : Run.IsApart source (IsCalmStart source : Run ν → Prop) := by
  constructor
  . intro run hrun
    exact hrun.1
  . intro run survey hrun hcalm _
    exact ⟨hcalm, hrun.2⟩

theorem reaches_resolveRange {request : Request} {mode : Mode}
    (hrange : miner.source.rangeOf request mode = .ok range)
    : Reaches (IsCalmStart miner.source) (resolveRange miner.calm request mode) range
      (IsMining miner range []) := by
  intro run hrun
  have hsettling := @SurveyM.Settling.resolve miner.source .never request mode
  have hanswer : (perform (request.resolve miner.source .never mode) run.survey).1 = .ok range := by
    rw [hsettling.tells.answer_eq _ hrun.1]
    exact hrange
  have hkeeps := (hsettling.keeps run.survey).2
  rw [hanswer] at hkeeps
  refine ⟨{ run with survey := (perform (request.resolve miner.source .never mode) run.survey).2 },
    ?_, hsettling.tells.isCalm _ hrun.1, hkeeps, fun _ => hrun.2⟩
  rw [resolveRange, perform_inSurvey]
  change ((perform (request.resolve miner.source .never mode) run.survey).1, _) = _
  rw [hanswer]
  rfl

section

variable [Scale ν] {compare : ByteArray → ByteArray → Option (List Change)} {commits : List Commit}
  {start stop : ν} {total : Nat}

theorem reaches_visit (hcompare : miner.engine.Computes compare)
    (hcommits : miner.source.allCommits = .ok commits) (hsource : miner.source.FailsSoftly)
    (hproject : miner.project.misuse? = none)
    (hfraction : ∀ done, Scale.misuse? (fractionAt start stop done total) = none)
    (file : String × Nat) (hsuffix : miner.Walks range file.1 →
      SnapshotPath.trouble? miner.limits (snapshotSuffix file.1) = none)
    : Reaches (IsLooping miner range seen) (visit miner.calm range start stop total file) ⟨⟩
      (IsLooping miner range (seen ++ miner.recordsOf compare range file.1)) := by
  obtain ⟨records, hrecords, hnext⟩ := reaches_nextRecords hcompare hcommits hsource hsuffix
  rw [visit, ← hrecords]
  apply hnext.bind
  apply (reaches_handOver hproject records).bind
  apply reaches_looping (Composed.report _)
  intro compared
  exact ⟨compared, reaches_report (hfraction _)⟩

theorem reaches_takeFiles (hcompare : miner.engine.Computes compare)
    (hcommits : miner.source.allCommits = .ok commits) (hsource : miner.source.FailsSoftly)
    (hproject : miner.project.misuse? = none)
    (hfraction : ∀ done, Scale.misuse? (fractionAt start stop done total) = none)
    (files : List (String × Nat)) (hsuffix : ∀ file ∈ files, miner.Walks range file.1 →
      SnapshotPath.trouble? miner.limits (snapshotSuffix file.1) = none)
    : Reaches (IsLooping miner range seen) (takeFiles miner.calm range start stop total files) ⟨⟩
      (IsLooping miner range (seen ++ files.flatMap fun file =>
        miner.recordsOf compare range file.1)) := by
  induction files generalizing seen with
  | nil =>
    rw [List.flatMap_nil, List.append_nil]
    exact .pure fun _ h => h
  | cons file files ih =>
    rw [takeFiles, List.forM, List.flatMap_cons, ← List.append_assoc]
    apply (reaches_visit hcompare hcommits hsource hproject hfraction file
      (hsuffix file List.mem_cons_self)).bind
    apply ih
    intro other hother
    exact hsuffix other (List.mem_cons_of_mem _ hother)

/-! A run as a whole -/

theorem reaches_plan {request : Request} (h : miner.IsPrepared compare request range start stop)
    : Reaches (IsCalmStart miner.source) (plan miner.calm request)
      ⟨range, miner.source.filesOf miner.suffix range, start, stop⟩ (IsMining miner range []) := by
  have hlift {α : Type} {p : Run ν → Prop} {a : α}
      : Reaches p (liftM (.ok a : Except Failure α)) a p := fun run hrun => ⟨run, rfl, hrun⟩
  have hspan : miner.calm.span.mapError Failure.misuse = .ok (start, stop) := by
    change miner.span.mapError _ = _
    rw [h.span_eq]
    rfl
  obtain ⟨mode, hmode, hrange⟩ := h.range_eq
  rw [plan, hmode, hspan]
  apply (reaches_checkpoint isApart_isCalmStart).bind
  apply @Reaches.bind _ _ _ _ (IsCalmStart miner.source)
  . exact fun run hrun => ⟨_, rfl, hrun⟩
  apply hlift.bind
  apply (reaches_resolveRange hrange).bind
  apply @Reaches.bind _ _ _ _ (IsMining miner range [])
  . exact fun run hrun => ⟨_, rfl, hrun.isCalm, hrun.range_eq, hrun.comparisons_eq⟩
  apply (reaches_enter _).bind
  apply (reaches_filesIn isApart_isMining h.listings).bind
  apply hlift.bind
  apply (reaches_report h.tells_start).bind
  exact .pure fun _ h => h

theorem reaches_plan_looping {request : Request}
    (h : miner.IsPrepared compare request range start stop)
    : Reaches (fun run => IsCalmStart miner.source run ∧ run.yield.Admits [])
      (plan miner.calm request) ⟨range, miner.source.filesOf miner.suffix range, start, stop⟩
      (IsLooping miner range []) := by
  rintro run ⟨hrun, hadmits⟩
  obtain ⟨last, hperform, hlast⟩ := reaches_plan h run hrun
  have hyield := (@Composed.plan _ miner.calm _ request).yield_eq run
  rw [hperform] at hyield
  refine ⟨last, hperform, ⟨_, hlast⟩, ?_⟩
  rw [hyield]
  exact hadmits

theorem phase_report (miner : Miner ν) (fraction : ν) (run : Run ν)
    : (perform (report miner.calm fraction) run).2.phase = run.phase := by
  rw [report]
  cases Scale.misuse? fraction with
  | some misuse => rfl
  | none =>
    change (perform (if Scale.isLess fraction run.reached then _ else _) run).2.phase = _
    split <;> rfl

theorem reaches_finish (plan : Plan ν) (hstop : Scale.misuse? plan.stop = none)
    : Reaches (IsLooping miner range seen) (finish miner.calm plan) ⟨⟩
      fun run => run.phase = .completed ∧ IsLooping miner range seen run := by
  rw [finish]
  apply @Reaches.bind _ _ _ _ fun run => run.phase = .completed ∧ IsLooping miner range seen run
  . rintro run ⟨⟨compared, hmining⟩, hadmits⟩
    exact ⟨_, rfl, rfl, ⟨compared, hmining.isCalm, hmining.range_eq, hmining.comparisons_eq⟩,
      hadmits.records_eq, hadmits.emitted_eq⟩
  . rintro run ⟨hphase, hrun⟩
    have hreport : Reaches (IsLooping miner range seen) (report miner.calm plan.stop) ⟨⟩ _ :=
      reaches_looping (Composed.report _) fun compared => ⟨compared, reaches_report hstop⟩
    obtain ⟨last, hperform, hlast⟩ := hreport run hrun
    have hkept := phase_report miner plan.stop run
    rw [hperform] at hkept
    exact ⟨last, hperform, hkept.trans hphase, hlast⟩

theorem fails_visit (file : String × Nat) {trouble : FileTrouble}
    (hwalks : miner.Walks range file.1)
    (htrouble : SnapshotPath.trouble? miner.limits (snapshotSuffix file.1) = some trouble)
    : Fails (IsLooping miner range seen) (visit miner.calm range start stop total file)
      (.snapshot (.path trouble)) := by
  have hexclude : miner.calm.excludeTests = miner.excludeTests := rfl
  obtain ⟨hleft, history, hhistory, hrevisions⟩ := hwalks
  rw [visit]
  apply Fails.bind
  rintro run ⟨⟨compared, hmining⟩, -⟩
  rw [nextRecords, hexclude, if_neg hleft]
  exact (reaches_checkpoint isApart_isMining).bind_fails
    (fails_fileRecords hhistory hrevisions htrouble) run hmining

theorem fails_takeFiles (hcompare : miner.engine.Computes compare)
    (hcommits : miner.source.allCommits = .ok commits) (hsource : miner.source.FailsSoftly)
    (hproject : miner.project.misuse? = none)
    (hfraction : ∀ done, Scale.misuse? (fractionAt start stop done total) = none)
    (files : List (String × Nat)) (hsuffix : ∃ file ∈ files, miner.Walks range file.1 ∧
      SnapshotPath.trouble? miner.limits (snapshotSuffix file.1) ≠ none)
    : ∃ trouble, Fails (IsLooping miner range seen)
      (takeFiles miner.calm range start stop total files) (.snapshot (.path trouble)) := by
  induction files generalizing seen with
  | nil =>
    obtain ⟨file, hfile, -⟩ := hsuffix
    contradiction
  | cons file files ih =>
    rw [takeFiles, List.forM]
    -- The loop ends with the first file that it walks through without a name for its snapshots.
    by_cases hhead : miner.Walks range file.1 →
      SnapshotPath.trouble? miner.limits (snapshotSuffix file.1) = none
    . have htail : ∃ file ∈ files, miner.Walks range file.1 ∧
          SnapshotPath.trouble? miner.limits (snapshotSuffix file.1) ≠ none := by
        obtain ⟨other, hother, hwalks, htrouble⟩ := hsuffix
        cases hother with
        | head => exact absurd (hhead hwalks) htrouble
        | tail _ hother => exact ⟨other, hother, hwalks, htrouble⟩
      obtain ⟨trouble, hfails⟩ := ih htail
      exact ⟨trouble, (reaches_visit hcompare hcommits hsource hproject hfraction file
        hhead).bind_fails hfails⟩
    . rw [Classical.not_imp] at hhead
      obtain ⟨trouble, htrouble⟩ := Option.ne_none_iff_exists'.1 hhead.2
      exact ⟨trouble, (fails_visit file hhead.1 htrouble).bind _⟩

theorem reaches_body {request : Request} (h : miner.IsPrepared compare request range start stop)
    (hsnapshots : miner.HasSnapshots range)
    : Reaches (fun run => IsCalmStart miner.source run ∧ run.yield.Admits [])
      (body miner.calm request)
      ⟨⟩ fun run => run.phase = .completed ∧
        run.yield.records = miner.referenceRecords compare range := by
  obtain ⟨_, -, hrange⟩ := h.range_eq
  obtain ⟨commits, hcommits⟩ := Source.exists_commits_of_rangeOf hrange
  rw [body_eq]
  apply (reaches_plan_looping h).bind
  apply Reaches.bind
  . apply reaches_takeFiles h.engine hcommits h.source h.project (h.tells_fractions · _)
    intro file hfile
    exact hsnapshots file.1 (List.fst_mem_of_mem_zipIdx hfile)
  . intro run hrun
    obtain ⟨last, hperform, hphase, -, hadmits⟩ :=
      reaches_finish ⟨range, _, start, stop⟩ h.tells_stop run hrun
    refine ⟨last, hperform, hphase, ?_⟩
    rw [hadmits.records_eq, List.nil_append, Miner.referenceRecords, ← List.flatMap_map Prod.fst,
      List.zipIdx_map_fst]

theorem fails_body {request : Request} (h : miner.IsPrepared compare request range start stop)
    (hsnapshots : ¬ miner.HasSnapshots range)
    : ∃ trouble, Fails (fun run => IsCalmStart miner.source run ∧ run.yield.Admits [])
      (body miner.calm request) (.snapshot (.path trouble)) := by
  obtain ⟨_, -, hrange⟩ := h.range_eq
  obtain ⟨commits, hcommits⟩ := Source.exists_commits_of_rangeOf hrange
  have hfile : ∃ file ∈ (miner.source.filesOf miner.suffix range).zipIdx, miner.Walks range file.1 ∧
      SnapshotPath.trouble? miner.limits (snapshotSuffix file.1) ≠ none := by
    simp only [Miner.HasSnapshots, Classical.not_forall, exists_prop] at hsnapshots
    obtain ⟨path, hpath, hwalks, htrouble⟩ := hsnapshots
    obtain ⟨place, hplace⟩ := List.getElem?_of_mem hpath
    exact ⟨(path, place), List.mk_mem_zipIdx_iff_getElem?.2 hplace, hwalks, htrouble⟩
  obtain ⟨trouble, hfails⟩ := fails_takeFiles h.engine hcommits h.source h.project
    (h.tells_fractions · _) _ hfile
  refine ⟨trouble, ?_⟩
  rw [body_eq]
  apply (reaches_plan_looping h).bind_fails
  exact hfails.bind _

end

end RunM

namespace Miner

variable [Scale ν] {miner : Miner ν} {compare : ByteArray → ByteArray → Option (List Change)}
  {range : Range} {start stop : ν} {request : Request}

theorem isCalmStart_initial (source : Source) (sink : Sink) (directory : Directory)
    : RunM.IsCalmStart source (initial sink directory false : Run ν)
      ∧ (initial sink directory false : Run ν).yield.Admits [] :=
  ⟨⟨Survey.isCalm_start _, rfl⟩, rfl, rfl⟩

theorem run_of_hasSnapshots (hmonitor : miner.monitor = .never)
    (h : miner.IsPrepared compare request range start stop) (hsnapshots : miner.HasSnapshots range)
    (sink : Sink) (directory : Directory)
    : let outcome := miner.run request (initial sink directory false)
    outcome.run.phase = .completed ∧
      ∃ tally, outcome.result = .ok tally ∧
        tally.records = miner.referenceRecords compare range := by
  intro outcome
  have hbody := RunM.reaches_body h hsnapshots
  rw [calm_of_never hmonitor] at hbody
  obtain ⟨last, hperform, hphase, hrecords⟩ := hbody _ (isCalmStart_initial _ sink directory)
  have houtcome : outcome = ⟨.ok last.tally, last⟩ := run_of_ok hperform
  rw [houtcome]
  exact ⟨hphase, last.tally, rfl, hrecords⟩

theorem run_of_not_hasSnapshots (hmonitor : miner.monitor = .never)
    (h : miner.IsPrepared compare request range start stop)
    (hsnapshots : ¬ miner.HasSnapshots range) (sink : Sink) (directory : Directory)
    : let outcome := miner.run request (initial sink directory false)
    outcome.run.phase = .failed ∧
      ∃ trouble, outcome.result = .error (.snapshot (.path trouble)) := by
  intro outcome
  obtain ⟨trouble, hbody⟩ := RunM.fails_body h hsnapshots
  rw [calm_of_never hmonitor] at hbody
  have hresult := hbody _ (isCalmStart_initial _ sink directory)
  have houtcome : outcome = _ := run_of_error (by simp) (perform_eq_of_result hresult)
  rw [houtcome]
  exact ⟨rfl, trouble, rfl⟩

/--
A run that nobody stops has the records that its source and its engine account for, if a snapshot
can be named after each file that it walks through. It fails otherwise.
-/
theorem run_has_reference_records (hmonitor : miner.monitor = .never)
    (h : miner.IsPrepared compare request range start stop) (sink : Sink) (directory : Directory)
    : let outcome := miner.run request (initial sink directory false)
    (miner.HasSnapshots range → outcome.run.phase = .completed ∧
      ∃ tally, outcome.result = .ok tally ∧ tally.records = miner.referenceRecords compare range)
    ∧ (¬ miner.HasSnapshots range → outcome.run.phase = .failed ∧
      ∃ trouble, outcome.result = .error (.snapshot (.path trouble))) := by
  constructor
  . intro hsnapshots
    exact run_of_hasSnapshots hmonitor h hsnapshots sink directory
  . intro hsnapshots
    exact run_of_not_hasSnapshots hmonitor h hsnapshots sink directory

end Miner

namespace Sample

theorem computes_engine : engine.Computes compare := by
  intro previous actual older newer hprevious hactual
  rw [engine, hprevious, hactual]
  dsimp only
  cases compare older newer <;> rfl

theorem failsSoftly_source : source.FailsSoftly := by
  constructor
  . intro path failure h
    rw [source] at h
    dsimp only at h
    split at h
    . cases h
      exact ⟨_, rfl⟩
    . contradiction
  . intro path commit failure h
    contradiction

def range : Range :=
  ⟨some "old", some "new", ["new", "old"], .first, .first, .positional⟩

theorem rangeOf_eq {source : Source}
    (h : (source.rangeOf request .positional).toOption = some range)
    : source.rangeOf request .positional = .ok range := by
  cases hrange : source.rangeOf request .positional <;> simp_all [Except.toOption]

theorem isPrepared : (miner .never).IsPrepared compare request range 0 1 :=
  ⟨computes_engine, failsSoftly_source, ⟨.positional, rfl, rangeOf_eq (by decide +kernel)⟩,
    fun _ _ => ⟨_, rfl⟩, rfl, rfl, rfl, rfl, fun _ _ => rfl⟩

/-! A run over a file with a suffix that is too long for the name of a snapshot -/

def longSuffix : List Char :=
  '.' :: List.replicate 240 'x'

def longPath : String :=
  .ofList ('a' :: longSuffix)

def longMiner : Miner Rat :=
  { miner .never with
    source :=
      { source with
        revisionsOf _ := .ok [⟨"new", .first⟩, ⟨"old", .first⟩]
        filesAt _ _ := .ok [longPath] } }

theorem isPrepared_longMiner : longMiner.IsPrepared compare request range 0 1 :=
  ⟨computes_engine, ⟨by simp [longMiner], failsSoftly_source.contentAt⟩,
    ⟨.positional, rfl, rangeOf_eq (by decide +kernel)⟩, fun _ _ => ⟨_, rfl⟩, rfl, rfl, rfl, rfl,
    fun _ _ => rfl⟩

theorem trouble?_longPath
    : SnapshotPath.trouble? limits (RunM.snapshotSuffix longPath) = some .nameTooLong := by
  have hsuffix : suffixIn ('a' :: longSuffix) = longSuffix := by
    decide +kernel
  rw [RunM.snapshotSuffix, longPath, String.toList_ofList, hsuffix]
  change SnapshotPath.trouble? limits (String.ofList longSuffix) = _
  apply SnapshotPath.trouble?_of_long
  . rw [String.toList_ofList]
    decide +kernel
  . rw [String.toList_ofList]
    decide +kernel
  . rw [String.utf8ByteSize_ofList]
    decide +kernel

theorem not_hasSnapshots_longMiner : ¬ longMiner.HasSnapshots range := by
  intro h
  have hlisted : longPath ∈ longMiner.source.filesOf longMiner.suffix range := by
    change longPath ∈ ([longPath] ++ [longPath]).eraseDups
    simp
  have hwalks : longMiner.Walks range longPath := by
    refine ⟨Bool.false_ne_true, _, rfl, ?_⟩
    decide +kernel
  exact Option.some_ne_none _ (trouble?_longPath.symm.trans (h longPath hlisted hwalks))

end Sample

theorem Miner.run_has_reference_records_of_three_files
    : let miner := Sample.miner .never
    let outcome := miner.run Sample.request (initial (.buffer .empty) .empty false)
    miner.HasSnapshots Sample.range
      ∧ outcome.run.phase = .completed
      ∧ ∃ tally, outcome.result = .ok tally
        ∧ tally.records = miner.referenceRecords Sample.compare Sample.range := by
  have hsnapshots : (Sample.miner .never).HasSnapshots Sample.range := by
    have : ∀ path ∈ Sample.source.filesOf (.nothing "") Sample.range,
        SnapshotPath.trouble? Sample.limits (RunM.snapshotSuffix path) = none := by
      decide +kernel
    exact fun path hpath _ => this path hpath
  have h := run_has_reference_records rfl Sample.isPrepared (.buffer .empty) .empty
  exact ⟨hsnapshots, h.1 hsnapshots⟩

theorem Miner.not_all_runs_have_reference_records
    : ¬ ∀ (miner : Miner Rat) (compare : ByteArray → ByteArray → Option (List Change))
      (request : Request) (range : Range) (start stop : Rat), miner.monitor = .never →
      miner.IsPrepared compare request range start stop →
      let outcome := miner.run request (initial (.buffer .empty) .empty false)
      outcome.run.phase = .completed ∧
        ∃ tally, outcome.result = .ok tally ∧
          tally.records = miner.referenceRecords compare range := by
  intro h
  have hfailed := run_of_not_hasSnapshots rfl Sample.isPrepared_longMiner
    Sample.not_hasSnapshots_longMiner (.buffer .empty) .empty
  have hcompleted := h Sample.longMiner Sample.compare Sample.request Sample.range 0 1 rfl
    Sample.isPrepared_longMiner
  have hphase := hcompleted.1
  rw [hfailed.1] at hphase
  exact absurd hphase (by decide)

end MethodHistory
