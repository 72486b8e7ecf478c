import MethodHistory.Proofs.Run.Completion
import MethodHistory.Proofs.Run.Steady

/-!
This module contains the phases that a run passes through, in terms of what its source tells, and
what it has counted on the way. A run that is stopped or that fails breaks off its course.
-/

namespace MethodHistory

variable {ν α : Type}

/-! What a survey finds out that can be stopped -/

namespace SurveyM

variable {source : Source} {monitor : Monitor} {survey : Survey}

theorem Tells.cases_of_follows {act calmAct : SurveyM α} (htells : Tells source calmAct)
    (h : Follows monitor act calmAct) (hs : survey.Recalls source)
    : (perform act survey).1 = .error .cancelled ∨ (perform act survey).1 = answer calmAct := by
  cases h survey with
  | inl hstop => exact .inl hstop.result_eq
  | inr hpass =>
    have hcalm : survey.calm.IsCalm source := ⟨⟨hs.commits, hs.tags⟩, rfl⟩
    have hanswer := htells.answer_eq _ hcalm
    rw [show perform calmAct survey.calm = _ from hpass.calm_eq] at hanswer
    exact .inr hanswer

theorem history_cases {range : Range} (hs : survey.Recalls source)
    (hrange : survey.range = some range) (path : String)
    : (perform (history source monitor path) survey).1 = .error .cancelled
      ∨ (perform (history source monitor path) survey).1 = source.historyOf range path := by
  have h := @Composed.historyIn source monitor path range
  rw [perform_history_of_some hrange, ← answer_historyIn]
  exact h.tells.cases_of_follows h.follows hs

theorem keeps_history {range : Range} (path : String)
    : Keeps (fun survey => survey.Recalls source ∧ survey.range = some range)
        (history source monitor path) := by
  rintro survey ⟨hs, hrange⟩
  have h := @Composed.historyIn source monitor path range
  rw [perform_history_of_some hrange]
  exact ⟨h.recalls survey hs, (h.keeps survey).2.trans hrange⟩

end SurveyM

/-! What a run has counted -/

def VersionPair.succeeds (compare : ByteArray → ByteArray → Option (List Change))
    (pair : VersionPair) : Bool :=
  (compare pair.older pair.newer).isSome

structure Engine.Counts (engine : Engine) (pairs : List VersionPair) (diffed failed : Nat)
    : Prop where
  sum_eq : diffed + failed = pairs.length
  diffed_eq : ∀ compare, engine.Computes compare → diffed = pairs.countP (·.succeeds compare)

theorem Engine.counts_nil (engine : Engine) : engine.Counts [] 0 0 :=
  ⟨rfl, fun _ _ => rfl⟩

theorem Engine.Counts.counting {engine : Engine} {pairs : List VersionPair} {tally : Tally}
    (h : engine.Counts pairs tally.diffed tally.failed) {previous actual : Snapshot}
    {older newer : ByteArray} (holder : previous.content = some older)
    (hnewer : actual.content = some newer) (revision : Revision)
    : engine.Counts (pairs ++ [⟨older, newer, revision⟩])
        (tally.counting (engine previous actual).toOption.isSome).diffed
        (tally.counting (engine previous actual).toOption.isSome).failed := by
  obtain ⟨hsum, hdiffed⟩ := h
  rw [Tally.counting]
  constructor
  . rw [List.length_append, ← hsum]
    split
    . exact Nat.add_right_comm ..
    . rfl
  . intro compare hcompare
    rw [List.countP_append, ← hdiffed compare hcompare,
      hcompare previous actual older newer holder hnewer]
    split
    next h => simp [VersionPair.succeeds, h]
    next h => simp [VersionPair.succeeds, h]

theorem Engine.Counts.failed_eq {engine : Engine} {pairs : List VersionPair} {diffed failed : Nat}
    (h : engine.Counts pairs diffed failed)
    {compare : ByteArray → ByteArray → Option (List Change)} (hcompare : engine.Computes compare)
    : failed = pairs.countP (!·.succeeds compare) := by
  have hsum := h.sum_eq
  rw [h.diffed_eq compare hcompare,
    List.length_eq_countP_add_countP (VersionPair.succeeds compare)] at hsum
  simpa using hsum

structure Run.Stands (miner : Miner ν) (range : Range) (pairs : List VersionPair) (files : Nat)
    (run : Run ν) : Prop where
  recalls : run.survey.Recalls miner.source
  range_eq : run.survey.range = some range
  told_eq : run.tally.range = some range
  counts : miner.engine.Counts pairs run.tally.diffed run.tally.failed
  finished_eq : run.yield.finished = files

structure Run.StandsWith (miner : Miner ν) (range : Range) (pairs : List VersionPair) (files : Nat)
    (older newer : ByteArray) (run : Run ν) : Prop extends run.Stands miner range pairs files where
  hold : run.slots.Hold run.directory older newer

structure Run.IsNew (source : Source) (run : Run ν) : Prop where
  recalls : run.survey.Recalls source
  tally_eq : run.tally = .zero

structure Run.IsAside (source : Source) (p : Run ν → Prop) : Prop where
  recalls : ∀ run, p run → run.survey.Recalls source
  keeps : ∀ run survey reports reached, p run → survey.Recalls source →
    survey.range = run.survey.range → p { run with survey, reports, reached }

namespace Run

variable {miner : Miner ν} {range : Range} {pairs : List VersionPair} {files : Nat}
  {older newer : ByteArray}

theorem Stands.of_eq {run other : Run ν} (h : run.Stands miner range pairs files)
    (hsurvey : other.survey = run.survey) (htally : other.tally = run.tally)
    : other.Stands miner range pairs files := by
  obtain ⟨hrecalls, hrange, htold, hcounts, hfinished⟩ := h
  rw [← hsurvey] at hrecalls hrange
  rw [← htally] at htold hcounts
  refine ⟨hrecalls, hrange, htold, hcounts, ?_⟩
  rw [← hfinished, yield, yield, htally]
  rfl

theorem isAside_isNew : IsAside miner.source (IsNew miner.source : Run ν → Prop) := by
  constructor
  . intro run hrun
    exact hrun.recalls
  . intro run survey reports reached hrun hrecalls _
    exact ⟨hrecalls, hrun.tally_eq⟩

theorem isAside_stands : IsAside miner.source (Stands miner range pairs files) := by
  constructor
  . intro run hrun
    exact hrun.recalls
  . intro run survey reports reached hrun hrecalls hrange
    exact ⟨hrecalls, hrange.trans hrun.range_eq, hrun.told_eq, hrun.counts, hrun.finished_eq⟩

theorem isAside_standsWith
    : IsAside miner.source (StandsWith miner range pairs files older newer) := by
  constructor
  . intro run hrun
    exact hrun.recalls
  . intro run survey reports reached hrun hrecalls hrange
    exact ⟨isAside_stands.keeps run survey reports reached hrun.toStands hrecalls hrange, hrun.hold⟩

theorem isSteady_of_isAside [Scale ν] {p : Run ν → Prop} (hp : IsAside miner.source p)
    (phases : List Phase) : IsSteady miner (Same fun run => p run ∧ run.phases = phases) := by
  constructor
  . intro α act calmAct h
    apply Keeps.mirrors
    rintro run ⟨hrun, hphases⟩
    rw [RunM.perform_inSurvey]
    exact ⟨hp.keeps run _ run.reports run.reached hrun (h.recalls _ (hp.recalls run hrun))
      (h.keeps run.survey).2, hphases⟩
  . intro fraction
    apply Keeps.mirrors
    rintro run ⟨hrun, hphases⟩
    have hrecalls := hp.recalls run hrun
    rw [RunM.perform_report]
    split
    . exact ⟨hrun, hphases⟩
    . split
      . exact ⟨hrun, hphases⟩
      . exact ⟨hp.keeps run _ _ _ hrun ⟨hrecalls.commits, hrecalls.tags⟩ rfl, hphases⟩

end Run

def Source.rangeFor (source : Source) (request : Request) : Except Failure Range := do
  source.rangeOf request (← request.mode.mapError Failure.unknownMode)

namespace Miner

variable (miner : Miner ν) (range : Range) (path : String)

def phasesOf : List Phase :=
  if miner.excludeTests && isTestSource path then
    []
  else
    match miner.source.historyOf range path with
    | .error _ => [.extractingHistory]
    | .ok history =>
      if history.revisions.isEmpty then [.extractingHistory, .emitting]
      else [.extractingHistory, .diffingRevisionPairs, .emitting]

def course (request : Request) : List Phase :=
  .resolvingRange :: .enumeratingFiles ::
    match miner.source.rangeFor request with
    | .ok range => (miner.source.filesOf miner.suffix range).flatMap (miner.phasesOf range)
    | .error _ => []

def pairsIn : List VersionPair :=
  if miner.excludeTests && isTestSource path then []
  else (miner.source.pairsIn range path).toOption.getD []

end Miner

namespace RunM

open Run

variable {miner : Miner ν} {range : Range} {pairs : List VersionPair} {files : Nat}
  {older newer : ByteArray} {path : String} {p : Run ν → Prop}

/-! The steps of a walk, which enter no phase -/

theorem logs_ask {question : Question} {answer : Except Failure α} (hp : IsAside miner.source p)
    : Logs Run.phases p (outcome (inSurvey (SurveyM.ask question answer))) []
        fun told run => told = answer ∧ p run := by
  intro run hrun
  have hrecalls := hp.recalls run hrun
  rw [perform_outcome, perform_inSurvey, SurveyM.perform_ask]
  exact ⟨(List.append_nil _).symm, rfl,
    hp.keeps run _ run.reports run.reached hrun ⟨hrecalls.commits, hrecalls.tags⟩ rfl⟩

theorem logs_readRevision (hp : IsAside miner.source p) (revision : Revision)
    : Logs Run.phases p (readRevision miner path revision) []
        fun content run => content = miner.source.content? path revision ∧ p run := by
  rw [readRevision]
  apply (logs_ask hp).bind _ rfl
  intro told
  apply Logs.given
  rintro rfl
  rw [Source.content?]
  split
  next content h =>
    rw [h]
    exact .pure fun _ hrun => ⟨rfl, hrun⟩
  next fault h =>
    rw [h]
    exact .pure fun _ hrun => ⟨rfl, hrun⟩
  next => exact .throw _

theorem logs_write_previous (content : ByteArray)
    : Logs Run.phases (StandsWith miner range pairs files older newer)
        (write (·.previous) content) []
        fun _ => StandsWith miner range pairs files content newer := by
  intro run hrun
  obtain ⟨written, hwrite, hlast⟩ := hrun.hold.write_previous content
  rw [perform_write, hwrite]
  exact ⟨(List.append_nil _).symm, hrun.toStands.of_eq rfl rfl, hlast⟩

theorem logs_write_actual (content : ByteArray)
    : Logs Run.phases (StandsWith miner range pairs files older newer)
        (write (·.actual) content) []
        fun _ => StandsWith miner range pairs files older content := by
  intro run hrun
  obtain ⟨written, hwrite, hlast⟩ := hrun.hold.write_actual content
  rw [perform_write, hwrite]
  exact ⟨(List.append_nil _).symm, hrun.toStands.of_eq rfl rfl, hlast⟩

theorem logs_swap
    : Logs Run.phases (StandsWith miner range pairs files older newer) (useSlots Slots.swap) []
        fun _ => StandsWith miner range pairs files newer .empty := by
  intro run hrun
  obtain ⟨swapped, after, hswap, hlast⟩ := hrun.hold.swap
  rw [perform_useSlots, hswap]
  exact ⟨(List.append_nil _).symm, hrun.toStands.of_eq rfl rfl, hlast⟩

theorem logs_compare (revision : Revision)
    : Logs Run.phases (StandsWith miner range pairs files older newer) (compare miner path) []
        fun _ =>
          StandsWith miner range (pairs ++ [⟨older, newer, revision⟩]) files older newer := by
  intro run hrun
  obtain ⟨comparisons, stopRequested, hperform, -⟩ := @perform_compare _ miner path run
  have holder : (run.snapshotOf (·.previous)).content = some older := hrun.hold.read_previous
  have hnewer : (run.snapshotOf (·.actual)).content = some newer := hrun.hold.read_actual
  have hcounts := hrun.counts.counting holder hnewer revision
  obtain ⟨diffed, failed, htally⟩ := run.tally.exists_counting
    (miner.engine (run.snapshotOf (·.previous)) (run.snapshotOf (·.actual))).toOption.isSome
  rw [htally] at hcounts hperform
  rw [hperform]
  exact ⟨(List.append_nil _).symm, ⟨⟨hrun.recalls.commits, hrun.recalls.tags⟩, hrun.range_eq,
    hrun.told_eq, hcounts, hrun.finished_eq⟩, hrun.hold⟩

variable [Scale ν]

theorem logs_steady (hp : IsAside miner.source p) {act : RunM ν α}
    (h : ∀ {related : Run ν → Run ν → Prop}, IsSteady miner related → Mirrors related act)
    : Logs Run.phases p act [] fun _ => p :=
  .of_keeps fun phases => (h (isSteady_of_isAside hp phases)).keeps

theorem logs_recordPair (revision : Revision)
    : Logs Run.phases (StandsWith miner range pairs files older newer)
        (recordPair miner range path revision) []
        fun _ =>
          StandsWith miner range (pairs ++ [⟨older, newer, revision⟩]) files older newer := by
  rw [recordPair]
  apply (logs_compare revision).bind _ rfl
  intro events
  apply (logs_steady isAside_standsWith fun h => mirrors_creditedCommit h revision).bind _ rfl
  intro commit
  apply (logs_steady isAside_standsWith fun h => ?_).bind _ rfl
  . intro _
    exact .pure fun _ hrun => hrun
  . apply Mirrors.forM
    intro _
    exact mirrors_checkpoint h

theorem logs_walk (revisions : List Revision) (start : Option Version) {versions : List Version}
    (hversions : versions = start.toList ++ miner.source.versions path revisions)
    (hstart : ∀ version ∈ start, version.content = older)
    : Logs Run.phases (StandsWith miner range pairs files older newer)
        (walk miner range path start.isSome revisions) []
        fun _ run => ∃ older newer,
          run.StandsWith miner range (pairs ++ pairsOf versions) files older newer := by
  -- The slot for the previous version holds the last version that was read, if there is one.
  induction revisions generalizing start versions pairs older newer with
  | nil =>
    have hpairs : pairsOf versions = [] := by
      rw [hversions]
      cases start <;> rfl
    rw [hpairs, List.append_nil]
    exact .pure fun run hrun => ⟨older, newer, hrun⟩
  | cons revision revisions ih =>
    rw [walk]
    apply (logs_steady isAside_standsWith mirrors_checkpoint).bind _ rfl
    intro _
    apply (logs_readRevision isAside_standsWith revision).bind _ rfl
    intro content
    apply Logs.given
    intro hcontent
    cases content with
    | none =>
      rw [Source.versions_cons_of_none _ hcontent.symm] at hversions
      exact ih start hversions hstart
    | some content =>
      rw [Source.versions_cons_of_some _ hcontent.symm] at hversions
      let next : Version := ⟨revision, content⟩
      have hnext : ∀ version ∈ some next, version.content = content := by
        intro version hversion
        cases hversion
        rfl
      cases start with
      | none =>
        apply (logs_write_previous content).bind _ rfl
        intro _
        exact ih (some next) hversions hnext
      | some version =>
        have holder := hstart version rfl
        have hpairs : pairs ++ pairsOf versions = (pairs ++ [⟨older, content, revision⟩])
            ++ pairsOf (next :: miner.source.versions path revisions) := by
          rw [hversions, ← holder, List.append_assoc]
          rfl
        rw [hpairs]
        dsimp only
        rw [if_pos Option.isSome_some]
        apply (logs_write_actual content).bind _ rfl
        intro _
        apply (logs_recordPair revision).bind _ rfl
        intro records
        apply logs_swap.bind _ rfl
        intro _
        apply (ih (some next) rfl hnext).bind _ rfl
        intro later
        exact .pure fun _ hrun => hrun

omit [Scale ν] in
theorem logs_withSlots {act : RunM ν α} {later : List VersionPair} (limits : NameLimits)
    (suffix : String)
    (h : Logs Run.phases (StandsWith miner range pairs files .empty .empty) act []
      fun _ run => ∃ older newer, run.StandsWith miner range later files older newer)
    : Logs Run.phases (Stands miner range pairs files) (withSlots limits suffix act) []
        fun _ => Stands miner range later files := by
  intro run hrun
  rw [withSlots, perform_bind, perform_useSlots]
  cases htrouble : SnapshotPath.trouble? limits suffix with
  | some trouble =>
    rw [Slots.enter_eq_error htrouble]
    exact ⟨[], List.nil_prefix, (List.append_nil _).symm⟩
  | none =>
    obtain ⟨slots, directory, henter, hhold⟩ := Slots.hold_enter htrouble run.directory
    have hentered : ({ run with slots, directory } : Run ν).StandsWith miner range pairs files
        .empty .empty :=
      ⟨hrun.of_eq rfl rfl, hhold⟩
    have hact := h _ hentered
    rw [henter]
    dsimp only
    rw [perform_outcome_bind]
    generalize perform act { run with slots, directory } = done at *
    obtain ⟨result, last⟩ := done
    cases result with
    | error failure => exact hact
    | ok a =>
      obtain ⟨hphases, _, _, hlast⟩ := hact
      exact ⟨hphases, hlast.toStands.of_eq rfl rfl⟩

/-! The files of a run -/

omit [Scale ν] in
theorem logs_enter (phase : Phase)
    : Logs Run.phases (Stands miner range pairs files) (enter phase) [phase]
        fun _ => Stands miner range pairs files := by
  intro run hrun
  exact ⟨rfl, hrun.of_eq rfl rfl⟩

omit [Scale ν] in
theorem logs_history_bind {next : Except Failure FileHistory → RunM ν α} {added : List Phase}
    {after : α → Run ν → Prop} (hcancelled : next (.error .cancelled) = throw .cancelled)
    (hnext : Logs Run.phases (Stands miner range pairs files)
      (next (miner.source.historyOf range path)) added after)
    : Logs Run.phases (Stands miner range pairs files)
        (outcome (inSurvey (SurveyM.history miner.source miner.monitor path)) >>= next) added
        after := by
  have hhistory : Logs Run.phases (Stands miner range pairs files)
      (outcome (inSurvey (SurveyM.history miner.source miner.monitor path))) []
      fun told run => (told = .error .cancelled ∨ told = miner.source.historyOf range path)
        ∧ run.Stands miner range pairs files := by
    intro run hrun
    obtain ⟨hrecalls, hrange⟩ := SurveyM.keeps_history path run.survey ⟨hrun.recalls, hrun.range_eq⟩
    rw [perform_outcome, perform_inSurvey]
    exact ⟨(List.append_nil _).symm, SurveyM.history_cases hrun.recalls hrun.range_eq path,
      hrecalls, hrange, hrun.told_eq, hrun.counts, hrun.finished_eq⟩
  apply hhistory.bind _ rfl
  intro told
  apply Logs.given
  rintro (rfl | rfl)
  . rw [hcancelled]
    exact .throw _
  . exact hnext

def phasesAfter (records : Option (List Record)) : List Phase :=
  if records.isSome then [.emitting] else []

theorem logs_fileRecords (hleft : ¬(miner.excludeTests && isTestSource path))
    : ∃ added more, miner.phasesOf range path = added ++ more
      ∧ Logs Run.phases (Stands miner range pairs files) (fileRecords miner range path) added
          fun records run => more = phasesAfter records
            ∧ run.Stands miner range (pairs ++ miner.pairsIn range path) files := by
  have hpairs {records : Option (List Record)} {more : List Phase}
      (hmore : more = phasesAfter records) (hnone : miner.pairsIn range path = [])
      : Logs Run.phases (Stands miner range pairs files) (pure records) []
          fun records run => more = phasesAfter records
            ∧ run.Stands miner range (pairs ++ miner.pairsIn range path) files := by
    rw [hnone, List.append_nil]
    exact .pure fun _ hrun => ⟨hmore, hrun⟩
  have hphases : miner.phasesOf range path = _ := if_neg hleft
  have hin : miner.pairsIn range path = _ := if_neg hleft
  rw [Source.pairsIn] at hin
  rw [hphases, fileRecords]
  cases hhistory : miner.source.historyOf range path with
  | error failure =>
    rw [hhistory] at hin
    refine ⟨[.extractingHistory], [], rfl, (logs_enter _).bind (fun _ => ?_) rfl⟩
    apply logs_history_bind rfl
    rw [hhistory]
    split
    . exact hpairs rfl hin
    . exact .throw _
    . contradiction
  | ok history =>
    rw [hhistory] at hin
    dsimp only
    split
    next h =>
      refine ⟨[.extractingHistory], [.emitting], rfl, (logs_enter _).bind (fun _ => ?_) rfl⟩
      apply logs_history_bind rfl
      rw [hhistory]
      dsimp only
      rw [if_pos h]
      exact hpairs rfl (hin.trans (miner.source.pairsOf_versions_of_isEmpty path h))
    next h =>
      refine ⟨[.extractingHistory, .diffingRevisionPairs], [.emitting], rfl,
        (logs_enter _).bind (fun _ => ?_) rfl⟩
      apply logs_history_bind rfl
      rw [hhistory]
      dsimp only
      rw [if_neg h, map_eq_pure_bind]
      -- Nothing depends on what the suffix is, which takes long to evaluate.
      generalize snapshotSuffix path = suffix
      apply (logs_enter _).bind _ rfl
      intro _
      apply Logs.bind (logs_withSlots _ _ (logs_walk _ none rfl _)) _ rfl
      . intro version hversion
        contradiction
      . intro records
        rw [hin]
        exact .pure fun _ hrun => ⟨rfl, hrun⟩

theorem logs_nextRecords
    : ∃ added more, miner.phasesOf range path = added ++ more
      ∧ Logs Run.phases (Stands miner range pairs files) (nextRecords miner range path) added
          fun records run => more = phasesAfter records
            ∧ run.Stands miner range (pairs ++ miner.pairsIn range path) files := by
  rw [nextRecords]
  by_cases hleft : miner.excludeTests && isTestSource path
  . refine ⟨[], [], if_pos hleft, (logs_steady isAside_stands mirrors_checkpoint).bind ?_ rfl⟩
    have hnone : miner.pairsIn range path = [] := if_pos hleft
    rw [if_pos hleft, hnone, List.append_nil]
    intro _
    exact .pure fun _ hrun => ⟨rfl, hrun⟩
  . obtain ⟨added, more, hphases, hrecords⟩ :=
      @logs_fileRecords _ miner range pairs files path _ hleft
    refine ⟨added, more, hphases, (logs_steady isAside_stands mirrors_checkpoint).bind ?_ rfl⟩
    rw [if_neg hleft]
    exact fun _ => hrecords

omit [Scale ν] in
theorem logs_handOver (records : Option (List Record))
    : Logs Run.phases (Stands miner range pairs files) (handOver miner records)
        (phasesAfter records) fun _ => Stands miner range pairs (files + 1) := by
  cases records with
  | none =>
    intro run hrun
    refine ⟨(List.append_nil _).symm, hrun.recalls, hrun.range_eq, hrun.told_eq, hrun.counts, ?_⟩
    rw [← hrun.finished_eq]
    rfl
  | some records =>
    rw [handOver]
    apply (logs_enter _).bind _ rfl
    intro _
    have hemit : Logs Run.phases (Stands miner range pairs files) (emit miner records) []
        fun _ => Stands miner range pairs files := by
      apply Logs.of_keeps
      intro phases
      apply keeps_emit
      . rintro run record ⟨hrun, hphases⟩
        rw [Run.receive]
        dsimp only
        split
        . exact ⟨⟨⟨hrun.recalls.commits, hrun.recalls.tags⟩, hrun.range_eq, hrun.told_eq,
            hrun.counts, hrun.finished_eq⟩, hphases⟩
        . exact ⟨hrun, hphases⟩
      . rintro run emitted ⟨hrun, hphases⟩
        exact ⟨⟨⟨hrun.recalls.commits, hrun.recalls.tags⟩, hrun.range_eq, hrun.told_eq,
          hrun.counts, hrun.finished_eq⟩, hphases⟩
    apply hemit.bind _ rfl
    intro _ run hrun
    refine ⟨(List.append_nil _).symm, hrun.recalls, hrun.range_eq, hrun.told_eq, hrun.counts, ?_⟩
    rw [← hrun.finished_eq]
    exact Nat.add_right_comm ..

variable {start stop : ν} {total : Nat}

theorem logs_visit (file : String × Nat)
    : Logs Run.phases (Stands miner range pairs files) (visit miner range start stop total file)
        (miner.phasesOf range file.1)
        fun _ => Stands miner range (pairs ++ miner.pairsIn range file.1) (files + 1) := by
  obtain ⟨added, more, hphases, hrecords⟩ := @logs_nextRecords _ miner range pairs files file.1 _
  rw [visit, hphases]
  apply hrecords.bind _ rfl
  intro records
  apply Logs.given
  rintro rfl
  apply (logs_handOver records).bind _ (List.append_nil _)
  intro _
  exact logs_steady isAside_stands fun h => h.report _

theorem logs_takeFiles (queue : List (String × Nat))
    : Logs Run.phases (Stands miner range pairs files)
        (takeFiles miner range start stop total queue)
        ((queue.map Prod.fst).flatMap (miner.phasesOf range))
        fun _ => Stands miner range (pairs ++ (queue.map Prod.fst).flatMap (miner.pairsIn range))
          (files + queue.length) := by
  induction queue generalizing pairs files with
  | nil =>
    rw [List.map_nil, List.flatMap_nil, List.flatMap_nil, List.append_nil]
    exact .pure fun _ hrun => hrun
  | cons file queue ih =>
    rw [takeFiles, List.forM, List.map_cons, List.flatMap_cons, List.flatMap_cons,
      List.length_cons, ← List.append_assoc, Nat.add_comm queue.length, ← Nat.add_assoc]
    apply (logs_visit file).bind _ rfl
    intro _
    exact ih

/-! The plan of a run -/

theorem logs_addFiles (hp : IsAside miner.source p) (listed : List String) (commit : String)
    : Logs Run.phases p (addFiles miner listed.eraseDups commit) []
        fun files run =>
          files = (listed ++ miner.source.pathsAt miner.suffix commit).eraseDups ∧ p run := by
  rw [addFiles]
  apply (logs_steady hp mirrors_checkpoint).bind _ rfl
  intro _
  apply (logs_ask hp).bind _ rfl
  intro told
  apply Logs.given
  rintro rfl
  rw [Source.pathsAt]
  split
  next paths h =>
    rw [h, ← eraseDups_append_filter]
    exact .pure fun _ hrun => ⟨rfl, hrun⟩
  next => exact .throw _
  next => exact .throw _

theorem logs_filesIn (hp : IsAside miner.source p)
    : Logs Run.phases p (filesIn miner range) []
        fun files run => files = miner.source.filesOf miner.suffix range ∧ p run := by
  have hall (commits listed : List String)
      : Logs Run.phases p (commits.foldlM (addFiles miner) listed.eraseDups) []
          fun files run => files =
            (listed ++ commits.flatMap (miner.source.pathsAt miner.suffix)).eraseDups ∧ p run := by
    induction commits generalizing listed with
    | nil =>
      rw [List.flatMap_nil, List.append_nil]
      exact .pure fun _ hrun => ⟨rfl, hrun⟩
    | cons commit commits ih =>
      rw [List.foldlM_cons, List.flatMap_cons, ← List.append_assoc]
      apply (logs_addFiles hp listed commit).bind _ rfl
      intro files
      apply Logs.given
      rintro rfl
      exact ih _
  rw [← eraseDups_flatMap_anchors]
  exact hall _ []

omit [Scale ν] in
theorem logs_enter_of_isNew (phase : Phase)
    : Logs Run.phases (IsNew miner.source) (enter phase) [phase]
        fun _ => (IsNew miner.source : Run ν → Prop) := by
  intro run hrun
  exact ⟨rfl, hrun.recalls, hrun.tally_eq⟩

omit [Scale ν] in
theorem logs_resolveRange (request : Request) (mode : Mode)
    : Logs Run.phases (IsNew miner.source) (resolveRange miner request mode) []
        fun range run => miner.source.rangeOf request mode = .ok range
          ∧ run.IsNew miner.source ∧ run.survey.range = some range := by
  intro run hrun
  have h := @SurveyM.Settling.resolve miner.source miner.monitor request mode
  have hrecalls := h.recalls run.survey hrun.recalls
  have hrange := (h.keeps run.survey).2
  have hcases := h.tells.cases_of_follows h.follows hrun.recalls
  rw [resolveRange, perform_inSurvey]
  generalize perform (request.resolve miner.source miner.monitor mode) run.survey = done at *
  obtain ⟨result, survey⟩ := done
  cases result with
  | error failure => exact ⟨[], List.nil_prefix, (List.append_nil _).symm⟩
  | ok range =>
    cases hcases with
    | inl hcancelled => contradiction
    | inr hanswer =>
      exact ⟨(List.append_nil _).symm, hanswer.symm, ⟨hrecalls, hrun.tally_eq⟩, hrange⟩

theorem logs_plan (request : Request)
    : Logs Run.phases (IsNew miner.source) (plan miner request)
        [.resolvingRange, .enumeratingFiles]
        fun plan run => (miner.source.rangeFor request = .ok plan.range
            ∧ plan.files = miner.source.filesOf miner.suffix plan.range
            ∧ miner.span = .ok (plan.start, plan.stop))
          ∧ run.Stands miner plan.range [] 0 := by
  rw [plan]
  apply (logs_steady isAside_isNew mirrors_checkpoint).bind _ rfl
  intro _
  apply (logs_enter_of_isNew _).bind _ rfl
  intro _
  apply (Logs.lift _).bind _ rfl
  intro mode
  apply Logs.given
  intro hmode
  apply (logs_resolveRange request mode).bind _ rfl
  intro range
  apply Logs.given
  intro hrange
  have hfor : miner.source.rangeFor request = .ok range := by
    rw [Source.rangeFor, hmode]
    exact hrange
  have hcount : Logs Run.phases
      (fun run => run.IsNew miner.source ∧ run.survey.range = some range)
      (count fun tally => { tally with range }) [] fun _ => Stands miner range [] 0 := by
    rintro run ⟨hrun, hrange⟩
    rw [perform_count, hrun.tally_eq]
    exact ⟨(List.append_nil _).symm, hrun.recalls, hrange, rfl, miner.engine.counts_nil, rfl⟩
  apply hcount.bind _ rfl
  intro _
  apply (logs_enter _).bind _ rfl
  intro _
  apply (logs_filesIn isAside_stands).bind _ rfl
  intro files
  apply Logs.given
  intro hfiles
  apply (Logs.lift _).bind _ rfl
  intro ends
  apply Logs.given
  intro hends
  have hspan : miner.span = .ok ends := by
    cases h : miner.span with
    | ok ends => rw [h] at hends; exact congrArg Except.ok (Except.ok.inj hends)
    | error misuse => rw [h] at hends; contradiction
  apply (logs_steady isAside_stands fun h => h.report _).bind _ rfl
  intro _
  exact .pure fun _ hrun => ⟨⟨hfor, hfiles, hspan⟩, hrun⟩

def mining (miner : Miner ν) (request : Request) : RunM ν (Plan ν) := do
  let plan ← plan miner request
  takeFiles miner plan.range plan.start plan.stop plan.files.length plan.files.zipIdx
  pure plan

theorem body_eq_mining (request : Request)
    : body miner request = mining miner request >>= finish miner := by
  rw [body_eq, mining]
  simp only [bind_assoc, pure_bind]

theorem logs_mining (request : Request)
    : Logs Run.phases (IsNew miner.source) (mining miner request) (miner.course request)
        fun plan run => (miner.source.rangeFor request = .ok plan.range
            ∧ plan.files = miner.source.filesOf miner.suffix plan.range
            ∧ miner.span = .ok (plan.start, plan.stop))
          ∧ run.Stands miner plan.range (plan.files.flatMap (miner.pairsIn plan.range))
            plan.files.length := by
  rw [mining]
  apply (logs_plan request).bind _ rfl
  intro plan
  apply Logs.given
  rintro ⟨hfor, hfiles, hspan⟩
  have htake := @logs_takeFiles _ miner plan.range [] 0 _ plan.start plan.stop plan.files.length
    plan.files.zipIdx
  rw [List.zipIdx_map_fst, List.length_zipIdx, List.nil_append, Nat.zero_add] at htake
  rw [hfor]
  dsimp only
  rw [← hfiles]
  apply htake.bind _ (List.append_nil _)
  intro _
  exact .pure fun _ hrun => ⟨⟨rfl, hfiles, hspan⟩, hrun⟩

theorem exists_finish (miner : Miner ν) (plan : Plan ν) (run : Run ν)
    : ∃ survey reports reached,
        (perform (finish miner plan) run).2 = { run with
          survey, reports, reached
          phase := .completed
          phases := run.phases ++ [.completed] }
        ∧ (Scale.misuse? plan.stop = none → (perform (finish miner plan) run).1 = .ok ⟨⟩) := by
  rw [finish, perform_bind_ok (perform_enter _ _), perform_report]
  cases Scale.misuse? plan.stop with
  | some misuse =>
    refine ⟨_, _, _, rfl, ?_⟩
    intro hnone
    contradiction
  | none =>
    dsimp only
    split
    . exact ⟨_, _, _, rfl, fun _ => rfl⟩
    . exact ⟨_, _, _, rfl, fun _ => rfl⟩

end RunM
end MethodHistory
