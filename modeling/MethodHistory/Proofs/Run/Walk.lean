import MethodHistory.Proofs.Run.Composed
import MethodHistory.Proofs.Run.Reference
import MethodHistory.Proofs.Snapshots

/-!
This module contains what a run without a monitor mines of a file: it hands each two versions that
follow each other to the engine, and has the records of their changes in the end.
-/

namespace MethodHistory

variable {ν α : Type}

structure Run.IsMining (miner : Miner ν) (range : Range) (compared : List (ByteArray × ByteArray))
    (run : Run ν) : Prop where
  isCalm : run.survey.IsCalm miner.source
  range_eq : run.survey.range = some range
  comparisons_eq : (∀ previous actual, hasCompared (miner.engine previous actual) = true) →
    run.comparisons = compared

structure Run.IsWalking (miner : Miner ν) (range : Range) (compared : List (ByteArray × ByteArray))
    (older newer : ByteArray) (run : Run ν) : Prop extends run.IsMining miner range compared where
  hold : run.slots.Hold run.directory older newer

structure Run.IsApart (source : Source) (p : Run ν → Prop) : Prop where
  isCalm : ∀ run, p run → run.survey.IsCalm source
  keeps : ∀ run survey, p run → survey.IsCalm source → survey.range = run.survey.range →
    p { run with survey }

namespace Run

variable {miner : Miner ν} {range : Range} {compared : List (ByteArray × ByteArray)}
  {older newer : ByteArray}

theorem isApart_isMining : IsApart miner.source (IsMining miner range compared) := by
  constructor
  . intro run hrun
    exact hrun.isCalm
  . intro run survey hrun hcalm hrange
    exact ⟨hcalm, hrange.trans hrun.range_eq, hrun.comparisons_eq⟩

theorem isApart_isWalking
    : IsApart miner.source (IsWalking miner range compared older newer) := by
  constructor
  . intro run hrun
    exact hrun.isCalm
  . intro run survey hrun hcalm hrange
    exact ⟨⟨hcalm, hrange.trans hrun.range_eq, hrun.comparisons_eq⟩, hrun.hold⟩

end Run

namespace RunM

open Run

section

variable {source : Source} {p : Run ν → Prop} {act : SurveyM α}

theorem reaches_outcome_inSurvey (hp : Run.IsApart source p)
    (h : SurveyM.Composed source .never act act)
    : Reaches p (outcome (inSurvey act)) (SurveyM.answer act) p := by
  intro run hrun
  have hcalm := hp.isCalm run hrun
  refine ⟨{ run with survey := (perform act run.survey).2 }, ?_, ?_⟩
  . rw [perform_outcome, perform_inSurvey, h.tells.answer_eq _ hcalm]
  . exact hp.keeps run _ hrun (h.tells.isCalm _ hcalm) (h.keeps run.survey).2

theorem reaches_inSurvey {a : α} (hp : Run.IsApart source p)
    (h : SurveyM.Composed source .never act act) (hanswer : SurveyM.answer act = .ok a)
    : Reaches p (inSurvey act) a p := by
  intro run hrun
  obtain ⟨last, hperform, hlast⟩ := reaches_outcome_inSurvey hp h run hrun
  rw [perform_outcome, Prod.mk.injEq, Except.ok.injEq, hanswer] at hperform
  exact ⟨last, Prod.ext hperform.1 hperform.2, hlast⟩

end

variable {miner : Miner ν} {range : Range} {compared : List (ByteArray × ByteArray)}
  {older newer : ByteArray} {path : String} {p : Run ν → Prop}

theorem reaches_checkpoint (hp : Run.IsApart miner.source p)
    : Reaches p (checkpoint miner.calm) ⟨⟩ p := by
  apply reaches_inSurvey hp .checkpoint
  rfl

theorem reaches_checkpoints (hp : Run.IsApart miner.source p) (xs : List α)
    : Reaches p (xs.forM fun _ => checkpoint miner.calm) ⟨⟩ p := by
  induction xs with
  | nil => exact .pure fun _ h => h
  | cons x xs ih => exact (reaches_checkpoint hp).bind ih

theorem reaches_readRevision (hp : Run.IsApart miner.source p)
    (hsource : miner.source.FailsSoftly) (revision : Revision)
    : Reaches p (readRevision miner.calm path revision) (miner.source.content? path revision)
        p := by
  rw [readRevision, Source.content?]
  apply (reaches_outcome_inSurvey hp (.lookup (.ask _ _))).bind
  have hcalm : miner.calm.source = miner.source := by
    rfl
  rw [SurveyM.answer_ask, hcalm]
  cases h : miner.source.contentAt path revision.commit with
  | ok content => exact .pure fun _ h => h
  | error failure =>
    obtain ⟨fault, rfl⟩ := hsource.contentAt path _ failure h
    exact .pure fun _ h => h

theorem reaches_creditedCommit (hp : Run.IsApart miner.source p) {commits : List Commit}
    (hcommits : miner.source.allCommits = .ok commits) (revision : Revision)
    : Reaches p (creditedCommit miner.calm revision) (miner.source.creditFor revision) p := by
  rw [creditedCommit, Source.creditFor, hcommits]
  apply Reaches.bind
  . apply reaches_inSurvey hp (.lookup (.commit _))
    rw [SurveyM.answer_commit, hcommits]
    rfl
  . exact .pure fun _ h => h

theorem reaches_write_previous (content : ByteArray)
    : Reaches (IsWalking miner range compared older newer) (write (·.previous) content) ⟨⟩
      (IsWalking miner range compared content newer) := by
  intro run hrun
  obtain ⟨written, hwrite, hhold⟩ := hrun.hold.write_previous content
  refine ⟨{ run with directory := written }, ?_, ⟨hrun.isCalm, hrun.range_eq, hrun.comparisons_eq⟩,
    hhold⟩
  rw [perform_write, hwrite]

theorem reaches_write_actual (content : ByteArray)
    : Reaches (IsWalking miner range compared older newer) (write (·.actual) content) ⟨⟩
      (IsWalking miner range compared older content) := by
  intro run hrun
  obtain ⟨written, hwrite, hhold⟩ := hrun.hold.write_actual content
  refine ⟨{ run with directory := written }, ?_, ⟨hrun.isCalm, hrun.range_eq, hrun.comparisons_eq⟩,
    hhold⟩
  rw [perform_write, hwrite]

theorem reaches_swap
    : Reaches (IsWalking miner range compared older newer) (useSlots Slots.swap) ⟨⟩
      (IsWalking miner range compared newer .empty) := by
  intro run hrun
  obtain ⟨slots, directory, hswap, hhold⟩ := hrun.hold.swap
  refine ⟨{ run with slots, directory }, ?_, ⟨hrun.isCalm, hrun.range_eq, hrun.comparisons_eq⟩,
    hhold⟩
  rw [perform_useSlots, hswap]

theorem exists_snapshot {slot : Slots → Option SnapshotPath} {run : Run ν} {content : ByteArray}
    (h : (slot run.slots).bind run.directory.read? = some content)
    : ∃ taken, perform (snapshot slot) run = (.ok taken, run) ∧ taken.content = some content := by
  refine ⟨_, perform_snapshot slot run, h⟩

theorem reaches_noteComparison {previous actual : Snapshot}
    (hprevious : previous.content = some older) (hactual : actual.content = some newer)
    : Reaches (IsWalking miner range compared older newer)
      (noteComparison miner.calm previous actual (miner.engine previous actual)) ⟨⟩
      (IsWalking miner range (compared ++ [(older, newer)]) older newer) := by
  intro run hrun
  rw [noteComparison]
  split
  . refine ⟨_, rfl, ⟨⟨⟨hrun.isCalm.recalls.commits, hrun.isCalm.recalls.tags⟩, ?_⟩,
      hrun.range_eq, ?_⟩, hrun.hold⟩
    . change (run.survey.stopRequested || false) = false
      rw [hrun.isCalm.not_stopped]
      rfl
    . intro hengine
      change run.comparisons ++ [_] = _
      rw [hrun.comparisons_eq hengine, hprevious, hactual]
      rfl
  next h =>
    refine ⟨run, rfl, ⟨hrun.isCalm, hrun.range_eq, ?_⟩, hrun.hold⟩
    intro hengine
    rw [hengine] at h
    contradiction

theorem reaches_countEvents (result : Except EngineFault (List Change))
    : Reaches (IsWalking miner range compared older newer) (countEvents path result)
      ((result.toOption.getD []).filterMap (·.event? path))
      (IsWalking miner range compared older newer) := by
  have hcount (change : Tally → Tally) : Reaches (IsWalking miner range compared older newer)
      (count change) ⟨⟩ (IsWalking miner range compared older newer) := by
    intro run hrun
    exact ⟨_, rfl, ⟨hrun.isCalm, hrun.range_eq, hrun.comparisons_eq⟩, hrun.hold⟩
  cases result with
  | ok changes => exact (hcount _).bind (.pure fun _ h => h)
  | error fault => cases fault <;> exact (hcount _).bind (.pure fun _ h => h)

theorem reaches_compare {compare : ByteArray → ByteArray → Option (List Change)}
    (hcompare : miner.engine.Computes compare)
    : Reaches (IsWalking miner range compared older newer) (RunM.compare miner.calm path)
      (((compare older newer).getD []).filterMap (·.event? path))
      (IsWalking miner range (compared ++ [(older, newer)]) older newer) := by
  intro run hrun
  obtain ⟨previous, hprevious, holder⟩ := exists_snapshot hrun.hold.read_previous
  obtain ⟨actual, hactual, hnewer⟩ := exists_snapshot hrun.hold.read_actual
  rw [RunM.compare, perform_bind_ok hprevious, perform_bind_ok hactual]
  rw [← hcompare previous actual older newer holder hnewer]
  exact (reaches_noteComparison holder hnewer).bind (reaches_countEvents _) run hrun

theorem reaches_recordPair {compare : ByteArray → ByteArray → Option (List Change)}
    (hcompare : miner.engine.Computes compare) {commits : List Commit}
    (hcommits : miner.source.allCommits = .ok commits) (revision : Revision)
    : Reaches (IsWalking miner range compared older newer)
      (recordPair miner.calm range path revision)
      (miner.pairRecords compare range path ⟨older, newer, revision⟩)
      (IsWalking miner range (compared ++ [(older, newer)]) older newer) := by
  rw [recordPair]
  apply (reaches_compare hcompare).bind
  apply (reaches_creditedCommit isApart_isWalking hcommits revision).bind
  apply (reaches_checkpoints isApart_isWalking _).bind
  exact .pure fun _ h => h

theorem reaches_walk {compare : ByteArray → ByteArray → Option (List Change)}
    (hcompare : miner.engine.Computes compare) {commits : List Commit}
    (hcommits : miner.source.allCommits = .ok commits) (hsource : miner.source.FailsSoftly)
    (revisions : List Revision) (start : Option Version) {versions : List Version}
    (hversions : versions = start.toList ++ miner.source.versions path revisions)
    (hstart : ∀ version ∈ start, version.content = older)
    : Reaches (IsWalking miner range compared older newer)
      (walk miner.calm range path start.isSome revisions)
      ((pairsOf versions).flatMap (miner.pairRecords compare range path))
      fun run => ∃ older newer, run.IsWalking miner range
        (compared ++ (pairsOf versions).map fun pair => (pair.older, pair.newer)) older newer := by
  -- The slot for the previous version holds the last version that was read, if there is one.
  induction revisions generalizing start versions compared older newer with
  | nil =>
    have hpairs : pairsOf versions = [] := by
      rw [hversions]
      cases start <;> rfl
    rw [hpairs, List.map_nil, List.append_nil]
    exact .pure fun run hrun => ⟨older, newer, hrun⟩
  | cons revision revisions ih =>
    rw [walk]
    apply (reaches_checkpoint isApart_isWalking).bind
    apply (reaches_readRevision isApart_isWalking hsource revision).bind
    cases hcontent : miner.source.content? path revision with
    | none =>
      -- A revision without content leaves the slots as they are.
      rw [Source.versions_cons_of_none _ hcontent] at hversions
      exact ih start hversions hstart
    | some content =>
      rw [Source.versions_cons_of_some _ hcontent] at hversions
      let next : Version := ⟨revision, content⟩
      have hnext : ∀ version ∈ some next, version.content = content := by
        intro version hversion
        cases hversion
        rfl
      cases start with
      | none =>
        apply (reaches_write_previous content).bind
        exact ih (some next) hversions hnext
      | some version =>
        have holder := hstart version rfl
        have hpairs : pairsOf versions = ⟨older, content, revision⟩ ::
            pairsOf (next :: miner.source.versions path revisions) := by
          rw [hversions, ← holder]
          rfl
        rw [hpairs, List.flatMap_cons, List.map_cons]
        dsimp only
        rw [if_pos Option.isSome_some]
        apply (reaches_write_actual content).bind
        apply (reaches_recordPair hcompare hcommits revision).bind
        apply reaches_swap.bind
        apply (ih (some next) rfl hnext).bind
        apply Reaches.pure
        rintro run ⟨older, newer, hrun⟩
        rw [List.append_cons]
        exact ⟨older, newer, hrun⟩

theorem reaches_enter (phase : Phase) : Reaches (IsMining miner range compared) (enter phase) ⟨⟩
    (IsMining miner range compared) := by
  intro run hrun
  exact ⟨_, rfl, hrun.isCalm, hrun.range_eq, hrun.comparisons_eq⟩

theorem reaches_withSlots {limits : NameLimits} {suffix : String}
    (hsuffix : SnapshotPath.trouble? limits suffix = none)
    {act : RunM ν α} {a : α} {later : List (ByteArray × ByteArray)}
    (h : Reaches (IsWalking miner range compared .empty .empty) act a
      fun run => ∃ older newer, run.IsWalking miner range later older newer)
    : Reaches (IsMining miner range compared) (withSlots limits suffix act) a
      (IsMining miner range later) := by
  rw [withSlots]
  apply @Reaches.bind _ _ _ _ (IsWalking miner range compared .empty .empty)
  . intro run hrun
    obtain ⟨slots, directory, henter, hhold⟩ := Slots.hold_enter hsuffix run.directory
    refine ⟨{ run with slots, directory }, ?_, ⟨hrun.isCalm, hrun.range_eq, hrun.comparisons_eq⟩,
      hhold⟩
    rw [perform_useSlots, henter]
  . intro run hrun
    obtain ⟨last, hact, older, newer, hlast⟩ := h run hrun
    -- The slots are given back, so that nothing is left to say of their contents.
    rw [perform_outcome_bind, hact]
    exact ⟨_, rfl, hlast.isCalm, hlast.range_eq, hlast.comparisons_eq⟩

theorem reaches_history
    : Reaches (IsMining miner range compared)
      (outcome (inSurvey (SurveyM.history miner.source .never path)))
      (miner.source.historyOf range path) (IsMining miner range compared) := by
  intro run hrun
  have h := @SurveyM.Composed.historyIn miner.source .never path range
  obtain ⟨last, hperform, hlast⟩ := reaches_outcome_inSurvey isApart_isMining h run hrun
  refine ⟨last, ?_, hlast⟩
  rw [← SurveyM.answer_historyIn, ← hperform, perform_outcome, perform_outcome, perform_inSurvey,
    perform_inSurvey, SurveyM.perform_history_of_some hrun.range_eq]

theorem exists_fault_of_historyOf {source : Source} (hsource : source.FailsSoftly)
    {commits : List Commit} (hcommits : source.allCommits = .ok commits) {failure : Failure}
    (h : source.historyOf range path = .error failure) : ∃ fault, failure = .revision fault := by
  rw [Source.historyOf] at h
  split at h
  . contradiction
  . cases hrevisions : source.revisionsOf path with
    | error other =>
      rw [hrevisions] at h
      cases h
      exact hsource.revisionsOf path failure hrevisions
    | ok revisions =>
      rw [hrevisions, hcommits] at h
      cases hmode : range.mode <;> rw [hmode] at h <;> contradiction

theorem reaches_fileRecords {compare : ByteArray → ByteArray → Option (List Change)}
    (hcompare : miner.engine.Computes compare) {commits : List Commit}
    (hcommits : miner.source.allCommits = .ok commits) (hsource : miner.source.FailsSoftly)
    (hsuffix : ∀ history, miner.source.historyOf range path = .ok history →
      history.revisions ≠ [] → SnapshotPath.trouble? miner.limits (snapshotSuffix path) = none)
    : Reaches (IsMining miner range compared) (fileRecords miner.calm range path)
      ((miner.source.pairsIn range path).toOption.map
        (·.flatMap (miner.pairRecords compare range path)))
      (IsMining miner range (compared ++
        ((miner.source.pairsIn range path).toOption.getD []).map fun pair =>
          (pair.older, pair.newer))) := by
  rw [fileRecords]
  apply (reaches_enter _).bind
  apply reaches_history.bind
  rw [Source.pairsIn]
  cases hhistory : miner.source.historyOf range path with
  | error failure =>
    obtain ⟨fault, rfl⟩ := exists_fault_of_historyOf hsource hcommits hhistory
    change Reaches _ (pure none) none (IsMining miner range (compared ++ []))
    rw [List.append_nil]
    exact .pure fun _ h => h
  | ok history =>
    change Reaches _ (if history.revisions.isEmpty then _ else _) _ _
    split
    next h =>
      have hpairs := miner.source.pairsOf_versions_of_isEmpty path h
      change Reaches _ _ (some (List.flatMap _ (pairsOf _)))
        (IsMining miner range (compared ++ (pairsOf _).map _))
      rw [hpairs, List.map_nil, List.append_nil]
      exact .pure fun _ h => h
    next h =>
      have hrevisions : history.revisions ≠ [] := by
        intro heq
        rw [heq] at h
        exact h rfl
      apply (reaches_enter _).bind
      apply Reaches.map
      apply reaches_withSlots (hsuffix history hhistory hrevisions)
      apply reaches_walk hcompare hcommits hsource history.chronological none rfl
      intro version hversion
      contradiction

theorem fails_withSlots {limits : NameLimits} {suffix : String} {trouble : FileTrouble}
    (htrouble : SnapshotPath.trouble? limits suffix = some trouble) (act : RunM ν α)
    (p : Run ν → Prop)
    : Fails p (withSlots limits suffix act) (.snapshot (.path trouble)) := by
  apply Fails.bind
  intro run _
  rw [perform_useSlots, Slots.enter_eq_error htrouble]

theorem fails_fileRecords {history : FileHistory} {trouble : FileTrouble}
    (hhistory : miner.source.historyOf range path = .ok history)
    (hrevisions : history.revisions ≠ [])
    (htrouble : SnapshotPath.trouble? miner.limits (snapshotSuffix path) = some trouble)
    : Fails (IsMining miner range compared) (fileRecords miner.calm range path)
      (.snapshot (.path trouble)) := by
  rw [fileRecords]
  apply (reaches_enter _).bind_fails
  apply reaches_history.bind_fails
  rw [hhistory]
  change Fails _ (if history.revisions.isEmpty then _ else _) _
  rw [if_neg (by simpa using hrevisions)]
  apply (reaches_enter _).bind_fails
  rw [map_eq_pure_bind]
  apply Fails.bind
  apply fails_withSlots htrouble

end RunM
end MethodHistory
