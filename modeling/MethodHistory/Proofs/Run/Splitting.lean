import MethodHistory.Proofs.Run.Stopping
import MethodHistory.Proofs.Run.Walk
import MethodHistory.Proofs.Survey.Ranges

/-!
This module contains what becomes of the pairs of a file when a block of commits is mined in two
parts: nothing changes, but for the pair that leads over the place where the parts meet. It is lost
if the file has no readable version there.
-/

namespace MethodHistory

variable {ν : Type}

def jointOf (older newer : Option Version) : List VersionPair :=
  match older, newer with
  | some older, some newer => [⟨older.content, newer.content, newer.revision⟩]
  | _, _ => []

theorem jointOf_none_right (older : Option Version) : jointOf older none = [] := by
  cases older <;> rfl

theorem pairsOf_append (olders newers : List Version)
    : pairsOf (olders ++ newers)
        =
      pairsOf olders ++ (jointOf olders.getLast? newers.head? ++ pairsOf newers) := by
  induction olders with
  | nil => rfl
  | cons first olders ih =>
    cases olders with
    | nil =>
      cases newers with
      | nil => rfl
      | cons => rfl
    | cons second olders =>
      rw [List.cons_append, List.cons_append, pairsOf_cons_cons, ← List.cons_append, ih,
        pairsOf_cons_cons, List.getLast?_cons_cons, List.cons_append]

namespace Source

variable (source : Source)

def readHistory (range : Range) (path : String) : FileHistory :=
  (source.historyOf range path).toOption.getD (.nothing path)

def minedPairs (range : Range) (path : String) : List VersionPair :=
  pairsOf (source.versions path (source.readHistory range path).chronological)

/--
The pair that leads over the place where two ranges meet and belongs to neither of them: the
boundary of the late one is not there or cannot be read.
-/
def bridge (early late : Range) (path : String) : List VersionPair :=
  match (source.readHistory late path).boundary.bind (source.content? path) with
  | some _ => []
  | none =>
    jointOf (source.versions path (source.readHistory early path).chronological).getLast?
      (source.versions path (source.readHistory late path).chronological).head?

variable {source} {range : Range} {path : String}

theorem minedPairs_eq : source.minedPairs range path
    = (source.pairsIn range path).toOption.getD [] := by
  rw [minedPairs, readHistory, pairsIn]
  cases source.historyOf range path <;> rfl

theorem versions_append (olders newers : List Revision)
    : source.versions path (olders ++ newers)
        =
      source.versions path olders ++ source.versions path newers :=
  List.filterMap_append

theorem pairsOf_versions_toList (revision : Option Revision)
    : pairsOf (source.versions path revision.toList) = [] := by
  apply pairsOf_of_length_le_one
  apply Nat.le_trans (List.length_filterMap_le ..)
  cases revision <;> simp

section

variable {commits : List Commit} {lower middle upper : Commit}

theorem readHistory_block (hcommits : source.allCommits = .ok commits) {revisions : List Revision}
    (hrevisions : source.revisionsOf path = .ok revisions)
    : source.readHistory (.block commits lower upper) path
        =
      .ofBlock (positionIn commits) (.block commits lower upper) path revisions := by
  rw [readHistory, historyOf_block hcommits hrevisions]
  rfl

theorem readHistory_of_error {failure : Failure} (h : source.revisionsOf path = .error failure)
    : source.readHistory range path = .nothing path := by
  rw [readHistory, historyOf]
  split
  next => rfl
  next =>
    rw [h]
    rfl

theorem getLast?_versions {revisions : List Revision} {revision : Revision} {content : ByteArray}
    (hlast : revisions.getLast? = some revision)
    (hcontent : source.content? path revision = some content)
    : (source.versions path revisions).getLast? = some ⟨revision, content⟩ := by
  obtain ⟨olders, rfl⟩ := List.getLast?_eq_some_iff.1 hlast
  rw [versions_append, versions_cons_of_some [] hcontent, List.getLast?_append]
  rfl

theorem versions_toList_of_none {revision : Option Revision}
    (h : revision.bind (source.content? path) = none)
    : source.versions path revision.toList = [] := by
  cases revision with
  | none => rfl
  | some revision => exact versions_cons_of_none [] h

open FileHistory

variable {revisions : List Revision}

theorem minedPairs_block (hcommits : source.allCommits = .ok commits) (hline : IsLine commits)
    (hrevisions : source.revisionsOf path = .ok revisions) (hlower : lower ∈ commits)
    : source.minedPairs (.block commits lower upper) path
        =
      pairsOf (source.versions path
        (upTo (onLine commits revisions) lower.position upper.position)) := by
  rw [minedPairs, readHistory_block hcommits hrevisions, chronological_ofBlock hline hlower]
  split
  next h =>
    rw [upTo, h, List.append_nil, pairsOf_versions_toList]
    rfl
  next => rfl

theorem jointOf_blocks (hcommits : source.allCommits = .ok commits) (hline : IsLine commits)
    (hrevisions : source.revisionsOf path = .ok revisions) (hlower : lower ∈ commits)
    (hmiddle : middle ∈ commits) (hle : middle.position ≤ lower.position)
    {olds news : List Revision}
    (holds : upTo (onLine commits revisions) lower.position middle.position = olds)
    (hnews : inBlock (onLine commits revisions) middle.position upper.position = news)
    : jointOf (source.versions path olds).getLast? (source.versions path news).head?
        =
      source.bridge (.block commits lower middle) (.block commits middle upper) path
        ++ jointOf (source.versions path olds.getLast?.toList).getLast?
          (source.versions path news).head? := by
  have hfront : inFront (onLine commits revisions) middle.position = olds.getLast? := by
    rw [← holds, inFront_middle (pairwise_onLine _ _) hle]
  rw [bridge, readHistory_block hcommits hrevisions, readHistory_block hcommits hrevisions,
    boundary_ofBlock hline hmiddle, chronological_ofBlock hline hmiddle,
    chronological_ofBlock hline hlower, holds, upTo, hfront, hnews]
  by_cases hempty : news = []
  . rw [if_pos hempty, if_pos hempty, hempty]
    change jointOf _ none = jointOf _ none ++ jointOf _ none
    rw [jointOf_none_right, jointOf_none_right, jointOf_none_right, List.append_nil]
  . rw [if_neg hempty, if_neg hempty]
    cases hread : olds.getLast?.bind (source.content? path) with
    | some content =>
      obtain ⟨revision, hlast, hcontent⟩ := Option.bind_eq_some_iff.1 hread
      have hone : (source.versions path (some revision).toList).getLast?
          = some ⟨revision, content⟩ := getLast?_versions rfl hcontent
      rw [getLast?_versions hlast hcontent, hlast, hone]
      rfl
    | none =>
      have hunread := versions_toList_of_none hread
      have hearly : source.versions path (if inBlock (onLine commits revisions) lower.position
          middle.position = [] then [] else olds) = source.versions path olds := by
        split
        next hinside =>
          -- There is at most the revision in front of both blocks, which cannot be read.
          have hone : olds = olds.getLast?.toList := by
            rw [← holds, upTo, hinside, List.append_nil]
            cases inFront (onLine commits revisions) lower.position <;> rfl
          rw [hone, hunread]
          rfl
        next => rfl
      rw [versions_append, hunread, List.nil_append, hearly]
      change _ = _ ++ []
      rw [List.append_nil]

theorem minedPairs_block_append (hcommits : source.allCommits = .ok commits)
    (hline : IsLine commits) (hlower : lower ∈ commits) (hmiddle : middle ∈ commits)
    (hearly : middle.position ≤ lower.position) (hlate : upper.position ≤ middle.position)
    (path : String)
    : source.minedPairs (.block commits lower upper) path
        =
      source.minedPairs (.block commits lower middle) path
        ++ (source.bridge (.block commits lower middle) (.block commits middle upper) path
          ++ source.minedPairs (.block commits middle upper) path) := by
  cases hrevisions : source.revisionsOf path with
  | error failure =>
    rw [minedPairs, minedPairs, minedPairs, bridge, readHistory_of_error hrevisions,
      readHistory_of_error hrevisions, readHistory_of_error hrevisions]
    rfl
  | ok revisions =>
    have hfront := @inFront_middle _ lower.position middle.position
      (pairwise_onLine commits revisions) hearly
    have hjoint := jointOf_blocks hcommits hline hrevisions hlower hmiddle hearly
      rfl (rfl : inBlock _ _ upper.position = _)
    rw [minedPairs_block hcommits hline hrevisions hlower,
      minedPairs_block hcommits hline hrevisions hlower,
      minedPairs_block hcommits hline hrevisions hmiddle,
      upTo_append (pairwise_onLine _ _) hearly hlate, versions_append, pairsOf_append, hjoint,
      upTo.eq_def _ middle.position, hfront, versions_append, pairsOf_append,
      pairsOf_versions_toList, List.nil_append, List.append_assoc]

end
end Source
namespace Miner

variable {miner : Miner ν} {compare : ByteArray → ByteArray → Option (List Change)} {range : Range}
  {path : String}

/--
Whether mining a file in a range means to hand just these pairs to the engine, in order, and to
attribute the changes of each to the commit of its newer version.
-/
def Hands (miner : Miner ν) (compare : ByteArray → ByteArray → Option (List Change)) (range : Range)
    (path : String) (pairs : List VersionPair) : Prop :=
  ∀ compared, ∃ records,
    Reaches (Run.IsMining miner range compared) (RunM.fileRecords miner.calm range path) records
      (Run.IsMining miner range
        (compared ++ pairs.map fun pair => (pair.older, pair.newer)))
    ∧ records.getD [] = pairs.flatMap (miner.pairRecords compare range path)

theorem hands_minedPairs (hcompare : miner.engine.Computes compare) {commits : List Commit}
    (hcommits : miner.source.allCommits = .ok commits) (hsource : miner.source.FailsSoftly)
    (hsuffix : SnapshotPath.trouble? miner.limits (RunM.snapshotSuffix path) = none)
    : miner.Hands compare range path (miner.source.minedPairs range path) := by
  intro compared
  have hreaches := @RunM.reaches_fileRecords _ _ range compared path compare hcompare commits
    hcommits hsource fun _ _ _ => hsuffix
  rw [Source.minedPairs_eq]
  refine ⟨_, hreaches, ?_⟩
  cases miner.source.pairsIn range path <;> rfl

theorem Hands.contents_eq [Scale ν] {pairs others : List VersionPair}
    (hengine : ∀ previous actual, hasCompared (miner.engine previous actual) = true)
    (h : miner.Hands compare range path pairs) (hothers : miner.Hands compare range path others)
    : pairs.map (fun pair => (pair.older, pair.newer))
        =
      others.map fun pair => (pair.older, pair.newer) := by
  obtain ⟨_, hreaches, _⟩ := h []
  obtain ⟨_, hreachesOthers, _⟩ := hothers []
  have hstart : Run.IsMining miner range []
      { (initial (.buffer .empty) .empty false : Run ν) with
        survey := { Survey.start false with range := some range } } := by
    have hcalm := Survey.isCalm_start miner.source
    exact ⟨⟨⟨hcalm.recalls.commits, hcalm.recalls.tags⟩, hcalm.not_stopped⟩, rfl, fun _ => rfl⟩
  obtain ⟨last, hlast, hmining⟩ := hreaches _ hstart
  obtain ⟨lastOthers, hlastOthers, hminingOthers⟩ := hreachesOthers _ hstart
  rw [hlast, Prod.mk.injEq] at hlastOthers
  rw [← hlastOthers.2] at hminingOthers
  have hcompared := hmining.comparisons_eq hengine
  rw [hminingOthers.comparisons_eq hengine] at hcompared
  exact hcompared.symm

/--
Mining a block of commits in two parts hands over the same pairs in the same order, but for one that
may lead over the place where the parts meet.
-/
theorem hands_block_append (hcompare : miner.engine.Computes compare)
    (hsource : miner.source.FailsSoftly) {commits : List Commit}
    (hcommits : miner.source.allCommits = .ok commits) (hline : IsLine commits)
    {lower middle upper : Commit} (hlower : lower ∈ commits) (hmiddle : middle ∈ commits)
    (hearly : middle.position ≤ lower.position) (hlate : upper.position ≤ middle.position)
    (hsuffix : SnapshotPath.trouble? miner.limits (RunM.snapshotSuffix path) = none)
    : let early := Range.block commits lower middle
      let late := Range.block commits middle upper
      miner.Hands compare early path (miner.source.minedPairs early path)
        ∧ miner.Hands compare late path (miner.source.minedPairs late path)
        ∧ miner.Hands compare (.block commits lower upper) path
          (miner.source.minedPairs early path ++ (miner.source.bridge early late path
            ++ miner.source.minedPairs late path)) := by
  intro early late
  refine ⟨hands_minedPairs hcompare hcommits hsource hsuffix,
    hands_minedPairs hcompare hcommits hsource hsuffix, ?_⟩
  rw [← Source.minedPairs_block_append hcommits hline hlower hmiddle hearly hlate path]
  exact hands_minedPairs hcompare hcommits hsource hsuffix

end Miner

namespace Sample

/-! A file that the second of three commits deletes and the third one adds again -/

def first : Commit :=
  ⟨"first", some "", none, .first, some "", 2⟩

def second : Commit :=
  ⟨"second", some "", none, .first, some "", 1⟩

def third : Commit :=
  ⟨"third", some "", none, .first, some "", 0⟩

def line : List Commit :=
  [third, second, first]

def renewed : Source where
  allCommits := .ok line
  tagTarget _ := .ok none
  revisionsOf _ := .ok [⟨"third", .first⟩, ⟨"second", .first⟩, ⟨"first", .first⟩]
  contentAt _ commit :=
    .ok (if commit = "first" then some ⟨#[1]⟩ else if commit = "third" then some ⟨#[3]⟩ else none)
  filesAt _ _ := .ok ["A.java"]

def still : Engine := fun _ _ =>
  .ok []

def renewedMiner : Miner Rat :=
  { miner .never with source := renewed, engine := still }

theorem computes_still : renewedMiner.engine.Computes fun _ _ => some [] := by
  intro _ _ _ _ _ _
  rfl

theorem failsSoftly_renewed : renewedMiner.source.FailsSoftly := by
  constructor
  . intro path failure h
    contradiction
  . intro path commit failure h
    contradiction

theorem isLine_line : IsLine line := by
  constructor
  . decide +kernel
  . decide +kernel

def crossing : List VersionPair :=
  [⟨⟨#[1]⟩, ⟨#[3]⟩, ⟨"third", .first⟩⟩]

theorem minedPairs_early
    : renewedMiner.source.minedPairs (.block line first second) "A.java" = [] := by
  decide +kernel

theorem minedPairs_late
    : renewedMiner.source.minedPairs (.block line second third) "A.java" = [] := by
  decide +kernel

theorem bridge_crossing
    : renewedMiner.source.bridge (.block line first second) (.block line second third) "A.java"
        =
      crossing := by
  decide +kernel

theorem first_mem : first ∈ line := by
  decide

theorem second_mem : second ∈ line := by
  decide

theorem second_le_first : second.position ≤ first.position := by
  decide

theorem third_le_second : third.position ≤ second.position := by
  decide

theorem minedPairs_whole
    : renewedMiner.source.minedPairs (.block line first third) "A.java" = crossing := by
  rw [Source.minedPairs_block_append rfl isLine_line first_mem second_mem second_le_first
    third_le_second, minedPairs_early, minedPairs_late, bridge_crossing]
  rfl

theorem trouble?_java
    : SnapshotPath.trouble? Sample.limits (RunM.snapshotSuffix "A.java") = none := by
  decide +kernel

theorem hands_renewedMiner (range : Range)
    : renewedMiner.Hands (fun _ _ => some []) range "A.java"
        (renewedMiner.source.minedPairs range "A.java") :=
  Miner.hands_minedPairs computes_still rfl failsSoftly_renewed trouble?_java

end Sample

theorem Miner.hands_renewed
    : let early := Range.block Sample.line Sample.first Sample.second
      let late := Range.block Sample.line Sample.second Sample.third
      let whole := Range.block Sample.line Sample.first Sample.third
      Sample.renewedMiner.Hands (fun _ _ => some []) early "A.java" []
        ∧ Sample.renewedMiner.Hands (fun _ _ => some []) late "A.java" []
        ∧ Sample.renewedMiner.Hands (fun _ _ => some []) whole "A.java" Sample.crossing := by
  have h := hands_block_append Sample.computes_still Sample.failsSoftly_renewed rfl
    Sample.isLine_line Sample.first_mem Sample.second_mem Sample.second_le_first
    Sample.third_le_second Sample.trouble?_java
  dsimp only at h
  rw [Sample.minedPairs_early, Sample.minedPairs_late, Sample.bridge_crossing] at h
  exact h

theorem Miner.not_all_hands_append
    : ¬ ∀ (miner : Miner Rat) (compare : ByteArray → ByteArray → Option (List Change))
      (commits : List Commit) (lower middle upper : Commit) (path : String),
      miner.engine.Computes compare → miner.source.FailsSoftly →
      miner.source.allCommits = .ok commits → IsLine commits →
      lower ∈ commits → middle ∈ commits → upper ∈ commits →
      middle.position ≤ lower.position → upper.position ≤ middle.position →
      SnapshotPath.trouble? miner.limits (RunM.snapshotSuffix path) = none →
      ∀ first second, miner.Hands compare (.block commits lower middle) path first →
        miner.Hands compare (.block commits middle upper) path second →
        miner.Hands compare (.block commits lower upper) path (first ++ second) := by
  intro h
  have hearly := Sample.hands_renewedMiner (.block Sample.line Sample.first Sample.second)
  have hlate := Sample.hands_renewedMiner (.block Sample.line Sample.second Sample.third)
  have hwhole := Sample.hands_renewedMiner (.block Sample.line Sample.first Sample.third)
  rw [Sample.minedPairs_early] at hearly
  rw [Sample.minedPairs_late] at hlate
  rw [Sample.minedPairs_whole] at hwhole
  have hjoined := h _ _ _ _ _ _ _ Sample.computes_still Sample.failsSoftly_renewed rfl
    Sample.isLine_line Sample.first_mem Sample.second_mem List.mem_cons_self
    Sample.second_le_first Sample.third_le_second Sample.trouble?_java _ _ hearly hlate
  have hcontents := hwhole.contents_eq (fun _ _ => rfl) hjoined
  contradiction

end MethodHistory
