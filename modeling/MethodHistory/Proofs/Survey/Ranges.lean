import MethodHistory.Proofs.Stopping
import MethodHistory.Proofs.Survey.Calm
import MethodHistory.Proofs.WindowHistory

/-!
This module contains the ranges between the commits that two references name, and what a survey
finds out of a file in such a range. Whether a range is given by places or by dates makes no
difference to the pairs of a file.
-/

namespace MethodHistory

variable {α : Type} {source : Source} {commits : List Commit} {commit lower upper : Commit}

namespace SurveyM

theorem Tells.reaches {act : SurveyM α} {a : α} (h : Tells source act) (ha : answer act = .ok a)
    : Reaches (·.IsCalm source) act a (·.IsCalm source) := by
  intro survey hs
  exact ⟨_, perform_eq_of_result ((h.answer_eq survey hs).trans ha), h.isCalm survey hs⟩

theorem answer_of_reaches {act : SurveyM α} {a : α}
    (h : Reaches (·.IsCalm source) act a (·.IsCalm source)) : answer act = .ok a := by
  obtain ⟨last, hperform, -⟩ := h _ (Survey.isCalm_start source)
  rw [answer, hperform]

theorem answer_commit_of_mem (hcommits : source.allCommits = .ok commits)
    (hnodup : (commits.map Commit.id).Nodup) (hcommit : commit ∈ commits)
    : answer (SurveyM.commit source commit.id) = .ok (some commit) := by
  rw [answer_commit, hcommits, ← (commitIn_eq_some_of_nodup hnodup).2 ⟨hcommit, rfl⟩]
  rfl

theorem answer_commitOf (hcommits : source.allCommits = .ok commits)
    (hnodup : (commits.map Commit.id).Nodup) (hcommit : commit ∈ commits)
    : answer (commitOf source commit.id) = .ok commit := by
  have hfound := answer_commit_of_mem hcommits hnodup hcommit
  rw [commitOf]
  apply answer_of_reaches
  apply ((IsLookup.commit commit.id).tells.reaches hfound).bind
  exact .pure fun _ hs => hs

theorem answer_lookup (hcommits : source.allCommits = .ok commits)
    (hnodup : (commits.map Commit.id).Nodup) (hcommit : commit ∈ commits) (mode : Mode)
    (endpoint : Endpoint)
    : answer (lookup source mode endpoint commit.id) = .ok commit.id := by
  have hlisted : answer (isListed source commit.id) = .ok true := by
    have hfound := answer_commit_of_mem hcommits hnodup hcommit
    apply answer_of_reaches
    apply ((IsLookup.commit commit.id).tells.reaches hfound).bind
    exact .pure fun _ hs => hs
  rw [lookup]
  apply answer_of_reaches
  apply ((IsLookup.isListed commit.id).tells.reaches hlisted).bind
  exact .pure fun _ hs => hs

/-! The commits that references name -/

def NamesPlace (source : Source) (endpoint : Endpoint) (reference : Given String) (commit : Commit)
    : Prop :=
  answer (endpointId source endpoint reference) = .ok commit.id

def NamesDate (source : Source) (endpoint : Endpoint) (reference : Given String) (commit : Commit)
    : Prop :=
  ∃ text, answer (textOf reference) = .ok text
    ∧ answer (dateEndpoint source endpoint text) = .ok (some commit)

structure IsPlain (id : String) : Prop where
  strip_eq : Text.strip id = id
  not_isEmpty : id.isEmpty = false
  not_tag : id.startsWith "tag:" = false
  ne_initial : id ≠ initial
  ne_current : id ≠ current

theorem answer_textOf {id : String} (h : IsPlain id) : answer (textOf (.value id)) = .ok id := by
  change Except.ok (Text.strip id) = _
  rw [h.strip_eq]

theorem namesPlace_id (hcommits : source.allCommits = .ok commits) (hline : IsLine commits)
    (hcommit : commit ∈ commits) (hplain : IsPlain commit.id) (endpoint : Endpoint)
    : NamesPlace source endpoint (.value commit.id) commit := by
  rw [NamesPlace, endpointId]
  apply answer_of_reaches
  apply ((IsLookup.textOf _).tells.reaches (answer_textOf hplain)).bind
  rw [if_neg (by simp [hplain.not_isEmpty]), if_neg (by simp [hplain.not_tag]),
    if_neg hplain.ne_initial, if_neg hplain.ne_current]
  exact (IsLookup.lookup _ _ _).tells.reaches (answer_lookup hcommits hline.nodup hcommit _ _)

theorem namesDate_id (hcommits : source.allCommits = .ok commits) (hline : IsLine commits)
    (hcommit : commit ∈ commits) (hplain : IsPlain commit.id) (endpoint : Endpoint)
    : NamesDate source endpoint (.value commit.id) commit := by
  refine ⟨commit.id, answer_textOf hplain, ?_⟩
  rw [dateEndpoint, if_neg (by simp [hplain.not_isEmpty])]
  apply answer_of_reaches
  have hfound := answer_lookup hcommits hline.nodup hcommit .date endpoint
  apply ((IsLookup.lookup _ _ _).tells.reaches hfound).bind
  apply ((IsLookup.commitOf _).tells.reaches (answer_commitOf hcommits hline.nodup hcommit)).bind
  exact .pure fun _ hs => hs

/-! The ranges that are put in use -/

structure IsSettled (source : Source) (range : Range) (survey : Survey) : Prop
    extends survey.IsCalm source where
  range_eq : survey.range = some range

theorem reaches_use (range : Range)
    : Reaches (·.IsCalm source) (do useRange range; pure range) range (IsSettled source range) := by
  intro survey hs
  exact ⟨_, rfl, ⟨⟨hs.recalls.commits, hs.recalls.tags⟩, hs.not_stopped⟩, rfl⟩

theorem Settling.reaches {act : SurveyM Range} {range : Range} (h : Settling source .never act act)
    (hanswer : answer act = .ok range)
    : Reaches (·.IsCalm source) act range (IsSettled source range) := by
  intro survey hs
  have hperform := perform_eq_of_result ((h.tells.answer_eq survey hs).trans hanswer)
  refine ⟨_, hperform, h.tells.isCalm survey hs, ?_⟩
  rw [(h.keeps survey).2, hperform]
  rfl

theorem reaches_resolveBlock (hcommits : source.allCommits = .ok commits) (hline : IsLine commits)
    (hlower : lower ∈ commits) (hupper : upper ∈ commits) {start stop : Given String}
    (hstart : NamesPlace source .lower start lower) (hstop : NamesPlace source .upper stop upper)
    : Reaches (·.IsCalm source) (resolveBlock source start stop) (.block commits lower upper)
        (IsSettled source (.block commits lower upper)) := by
  rw [resolveBlock]
  apply (IsLookup.commits.tells.reaches ((answer_commits source).trans hcommits)).bind
  apply ((IsLookup.endpointId _ _).tells.reaches hstart).bind
  apply ((IsLookup.commitOf _).tells.reaches (answer_commitOf hcommits hline.nodup hlower)).bind
  apply ((IsLookup.endpointId _ _).tells.reaches hstop).bind
  apply ((IsLookup.commitOf _).tells.reaches (answer_commitOf hcommits hline.nodup hupper)).bind
  apply reaches_use

theorem reaches_useWindow (hcommits : source.allCommits = .ok commits)
    : Reaches (·.IsCalm source)
        (useWindow source .never (some lower) (some upper) lower.date upper.date)
        (.window commits lower upper) (IsSettled source (.window commits lower upper)) := by
  rw [useWindow]
  apply (IsLookup.commits.tells.reaches ((answer_commits source).trans hcommits)).bind
  apply ((tells_checkpoints source commits).reaches (answer_checkpoints commits)).bind
  apply reaches_use

theorem reaches_resolveWindow (hcommits : source.allCommits = .ok commits)
    {start stop : Given String} (hstart : NamesDate source .lower start lower)
    (hstop : NamesDate source .upper stop upper) (since : Given Instant)
    : Reaches (·.IsCalm source) (resolveWindow source .never start stop since)
        (.window commits lower upper) (IsSettled source (.window commits lower upper)) := by
  obtain ⟨first, hfirst, hlower⟩ := hstart
  obtain ⟨last, hlast, hupper⟩ := hstop
  rw [resolveWindow]
  apply ((IsLookup.textOf _).tells.reaches hfirst).bind
  apply ((IsLookup.textOf _).tells.reaches hlast).bind
  apply ((IsLookup.dateEndpoint _ _).tells.reaches hlower).bind
  apply ((IsLookup.dateEndpoint _ _).tells.reaches hupper).bind
  apply Reaches.bind (.pure fun _ hs => hs)
  apply reaches_useWindow hcommits

theorem reaches_history {range : Range} {path : String} {history : FileHistory}
    (h : source.historyOf range path = .ok history)
    : Reaches (IsSettled source range) (SurveyM.history source .never path) history
        (·.IsCalm source) := by
  intro survey hs
  rw [perform_history_of_some hs.range_eq]
  rw [← answer_historyIn] at h
  exact (@Composed.historyIn source .never path range).tells.reaches h survey hs.toIsCalm

end SurveyM

namespace Source

variable {revisions : List Revision} {path : String}

theorem historyOf_block (hcommits : source.allCommits = .ok commits)
    (hrevisions : source.revisionsOf path = .ok revisions)
    : source.historyOf (.block commits lower upper) path
        =
      .ok (.ofBlock (positionIn commits) (.block commits lower upper) path revisions) := by
  rw [historyOf]
  split
  next h => rw [FileHistory.ofBlock_of_isEmpty h]
  next =>
    rw [hrevisions, hcommits]
    rfl

theorem historyOf_window (hrecords : Records commits revisions)
    (hrevisions : source.revisionsOf path = .ok revisions)
    : source.historyOf (.window commits lower upper) path
        =
      .ok (.ofWindow (.window commits lower upper) path revisions) := by
  rw [historyOf]
  split
  next h => rw [FileHistory.ofWindow_of_isEmpty hrecords h]
  next =>
    rw [hrevisions]
    rfl

end Source

open SurveyM in
/--
Between two commits of a line with ever earlier dates a file has the same pairs in the window of
their dates and in the block from the commit in front of the lower one, whatever names these
commits.
-/
theorem pairs_window_eq_pairs_block {revisions : List Revision} {path : String}
    (hcommits : source.allCommits = .ok commits) (hline : IsDated commits)
    (hrevisions : source.revisionsOf path = .ok revisions) (hrecords : Records commits revisions)
    (hlower : lower ∈ commits) (hupper : upper ∈ commits)
    : let older := olderThan commits lower
      ∃ dated placed : FileHistory,
        source.historyOf (.window commits lower upper) path = .ok dated
          ∧ source.historyOf (.block commits older upper) path = .ok placed
          ∧ dated.pairs = placed.pairs
          ∧ (∀ start stop since, NamesDate source .lower start lower →
            NamesDate source .upper stop upper →
            answer (do
              let _ ← resolveWindow source .never start stop since
              history source .never path) = .ok dated)
          ∧ ∀ start stop, NamesPlace source .lower start older →
            NamesPlace source .upper stop upper →
            answer (do
              let _ ← resolveBlock source start stop
              history source .never path) = .ok placed := by
  intro older
  have hdated := @Source.historyOf_window source commits lower upper _ _ hrecords hrevisions
  have hplaced := @Source.historyOf_block source commits older upper _ _ hcommits hrevisions
  refine ⟨_, _, hdated, hplaced,
    FileHistory.pairs_ofWindow_eq_pairs_ofBlock hline hrecords hlower hupper path, ?_, ?_⟩
  . intro start stop since hstart hstop
    apply answer_of_reaches
    exact (reaches_resolveWindow hcommits hstart hstop since).bind (reaches_history hdated)
  . intro start stop hstart hstop
    apply answer_of_reaches
    exact (reaches_resolveBlock hcommits hline.toIsLine (olderThan_mem hlower) hupper hstart
      hstop).bind (reaches_history hplaced)

/-! A file with versions at all of three commits -/

namespace Sample

def startOf (date : Date) : Instant :=
  ⟨date, .midnight, .universal⟩

def yearly : List Commit :=
  [⟨"2003", some "", none, startOf ⟨2003, 1, 1, by decide⟩, some "", 0⟩,
    ⟨"2002", some "", none, startOf ⟨2002, 1, 1, by decide⟩, some "", 1⟩,
    ⟨"2001", some "", none, startOf ⟨2001, 1, 1, by decide⟩, some "", 2⟩]

def yearlySource : Source where
  allCommits := .ok yearly
  tagTarget _ := .ok none
  revisionsOf _ := .ok (yearly.map fun commit => ⟨commit.id, commit.date⟩)
  contentAt _ _ := .ok none
  filesAt _ _ := .ok ["A.java"]

theorem isDated_yearly : IsDated yearly := by
  refine ⟨⟨?_, ?_⟩, ?_⟩
  . decide +kernel
  . decide +kernel
  . decide +kernel

theorem records_yearly : Records yearly (yearly.map fun commit => ⟨commit.id, commit.date⟩) := by
  constructor
  . decide +kernel
  . decide +kernel

theorem isPlain_yearly {commit : Commit} (h : commit ∈ yearly) : SurveyM.IsPlain commit.id := by
  have hplain : ∀ commit ∈ yearly, Text.strip commit.id = commit.id ∧ commit.id.isEmpty = false
      ∧ commit.id.startsWith "tag:" = false ∧ commit.id ≠ SurveyM.initial
      ∧ commit.id ≠ SurveyM.current := by
    decide +kernel
  obtain ⟨hstrip, hempty, htag, hinitial, hcurrent⟩ := hplain commit h
  exact ⟨hstrip, hempty, htag, hinitial, hcurrent⟩

theorem length_pairs_yearly
    : (FileHistory.ofBlock (positionIn yearly)
        (.block yearly (olderThan yearly yearly[1]) yearly[0]) "A.java"
        (yearly.map fun commit => ⟨commit.id, commit.date⟩)).pairs.length = 2 := by
  have hmem : olderThan yearly yearly[1] ∈ yearly := olderThan_mem (List.getElem_mem _)
  rw [FileHistory.pairs_ofBlock isDated_yearly.toIsLine hmem, FileHistory.onLine, byPlace,
    List.mergeSort_of_pairwise]
  . decide +kernel
  . decide +kernel

end Sample

open SurveyM in
theorem pairs_from_2002_to_2003
    : ∃ dated placed : FileHistory,
      answer (do
        let _ ← resolveWindow Sample.yearlySource .never (.value "2002") (.value "2003")
          (.nothing "")
        history Sample.yearlySource .never "A.java") = .ok dated
      ∧ answer (do
        let _ ← resolveBlock Sample.yearlySource (.value "2001") (.value "2003")
        history Sample.yearlySource .never "A.java") = .ok placed
      ∧ dated.pairs = placed.pairs
      ∧ placed.pairs.length = 2 := by
  have hnew : Sample.yearly[0] ∈ Sample.yearly := List.getElem_mem _
  have hmiddle : Sample.yearly[1] ∈ Sample.yearly := List.getElem_mem _
  have hold : Sample.yearly[2] ∈ Sample.yearly := List.getElem_mem _
  obtain ⟨dated, placed, -, hplaced, hpairs, hdatedAnswer, hplacedAnswer⟩ :=
    @pairs_window_eq_pairs_block Sample.yearlySource _ _ _ _ "A.java" rfl Sample.isDated_yearly rfl
      Sample.records_yearly hmiddle hnew
  rw [Source.historyOf_block rfl rfl, Except.ok.injEq] at hplaced
  have hline := Sample.isDated_yearly.toIsLine
  refine ⟨dated, placed, hdatedAnswer _ _ _ ?_ ?_, hplacedAnswer _ _ ?_ ?_, hpairs,
    hplaced ▸ Sample.length_pairs_yearly⟩
  . exact namesDate_id rfl hline hmiddle (Sample.isPlain_yearly hmiddle) _
  . exact namesDate_id rfl hline hnew (Sample.isPlain_yearly hnew) _
  . exact namesPlace_id rfl hline hold (Sample.isPlain_yearly hold) _
  . exact namesPlace_id rfl hline hnew (Sample.isPlain_yearly hnew) _

end MethodHistory
