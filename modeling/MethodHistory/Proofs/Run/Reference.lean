import Mathlib
import MethodHistory.Proofs.Survey.Calm

/-!
This module contains what a run is to mine, in terms of what its source tells: the files at both
ends of the range, the versions of a file that can be read, and for each two versions that follow
each other the records of the changes between them. The first record with a key is admitted.
-/

namespace MethodHistory

variable {ν : Type}

structure Version where
  revision : Revision
  content : ByteArray

structure VersionPair where
  older : ByteArray
  newer : ByteArray
  revision : Revision
  deriving DecidableEq

def pairsOf (versions : List Version) : List VersionPair :=
  versions.zipWith (fun older newer => ⟨older.content, newer.content, newer.revision⟩) versions.tail

@[simp]
theorem pairsOf_cons_cons (older newer : Version) (versions : List Version)
    : pairsOf (older :: newer :: versions) =
      ⟨older.content, newer.content, newer.revision⟩ :: pairsOf (newer :: versions) := by
  rfl

theorem pairsOf_of_length_le_one {versions : List Version} (h : versions.length ≤ 1)
    : pairsOf versions = [] := by
  match versions with
  | [] => rfl
  | [version] => rfl
  | older :: newer :: versions => simp at h

namespace Source

variable (source : Source)

def content? (path : String) (revision : Revision) : Option ByteArray :=
  (source.contentAt path revision.commit).toOption.join

def versions (path : String) (revisions : List Revision) : List Version :=
  revisions.filterMap fun revision =>
    (source.content? path revision).map fun content => ⟨revision, content⟩

variable {source} in
theorem versions_cons_of_none {path : String} {revision : Revision} (revisions : List Revision)
    (h : source.content? path revision = none)
    : source.versions path (revision :: revisions) = source.versions path revisions := by
  rw [versions, List.filterMap_cons_none, versions]
  rw [h]
  rfl

variable {source} in
theorem versions_cons_of_some {path : String} {revision : Revision} {content : ByteArray}
    (revisions : List Revision) (h : source.content? path revision = some content)
    : source.versions path (revision :: revisions) =
      ⟨revision, content⟩ :: source.versions path revisions := by
  rw [versions, List.filterMap_cons_some, versions]
  rw [h]
  rfl

theorem pairsOf_versions_of_isEmpty (path : String) {history : FileHistory}
    (h : history.revisions.isEmpty)
    : pairsOf (source.versions path history.chronological) = [] := by
  apply pairsOf_of_length_le_one
  apply Nat.le_trans (List.length_filterMap_le ..)
  rw [FileHistory.chronological, List.isEmpty_iff.1 h]
  cases history.boundary <;> simp

def pairsIn (range : Range) (path : String) : Except Failure (List VersionPair) :=
  (source.historyOf range path).map fun history =>
    pairsOf (source.versions path history.chronological)

def pathsAt (suffix : Given String) (commit : String) : List String :=
  (source.filesAt commit suffix).toOption.getD []

def filesOf (suffix : Given String) (range : Range) : List String :=
  match range.minedCommits.head?, range.minedCommits.getLast? with
  | some first, some last =>
    let upper := (range.upper.filter (!·.isEmpty)).getD first
    (source.pathsAt suffix upper ++ source.pathsAt suffix last).eraseDups
  | _, _ => []

def creditFor (revision : Revision) : Commit :=
  (commitIn (source.allCommits.toOption.getD []) revision.commit).getD (.ofRevision revision)

end Source

/--
An engine whose changes depend on the two contents alone. It may fail in any way for the same
contents.
-/
def Engine.Computes (engine : Engine) (compare : ByteArray → ByteArray → Option (List Change))
    : Prop :=
  ∀ previous actual older newer, previous.content = some older → actual.content = some newer →
    (engine previous actual).toOption = compare older newer

/--
A source of which single histories and contents can be unreadable, and nothing else goes wrong with
them.
-/
structure Source.FailsSoftly (source : Source) : Prop where
  revisionsOf : ∀ path failure, source.revisionsOf path = .error failure →
    ∃ fault, failure = .revision fault
  contentAt : ∀ path commit failure, source.contentAt path commit = .error failure →
    ∃ fault, failure = .revision fault

namespace Miner

variable (miner : Miner ν) (compare : ByteArray → ByteArray → Option (List Change))

def pairRecords (range : Range) (path : String) (pair : VersionPair) : List Record :=
  (((compare pair.older pair.newer).getD []).filterMap (·.event? path)).map fun event =>
    ⟨event, (miner.source.creditFor pair.revision).attribution, miner.project, range.dateMin,
      range.dateMax⟩

def recordsOf (range : Range) (path : String) : List Record :=
  if miner.excludeTests && isTestSource path then
    []
  else
    ((miner.source.pairsIn range path).toOption.getD []).flatMap
      (miner.pairRecords compare range path)

def Walks (range : Range) (path : String) : Prop :=
  ¬(miner.excludeTests && isTestSource path) ∧
    ∃ history, miner.source.historyOf range path = .ok history ∧ history.revisions ≠ []

def HasSnapshots (range : Range) : Prop :=
  ∀ path ∈ miner.source.filesOf miner.suffix range, miner.Walks range path →
    SnapshotPath.trouble? miner.limits (RunM.snapshotSuffix path) = none

/--
Whether nothing goes wrong in a run but with single histories, contents, comparisons and snapshots.
-/
structure IsPrepared [Scale ν] (request : Request) (range : Range) (start stop : ν) : Prop where
  engine : miner.engine.Computes compare
  source : miner.source.FailsSoftly
  range_eq : ∃ mode, request.mode = .ok mode ∧ miner.source.rangeOf request mode = .ok range
  listings : ∀ commit ∈ RunM.anchors range,
    ∃ paths, miner.source.filesAt commit miner.suffix = .ok paths
  project : miner.project.misuse? = none
  span_eq : miner.span = .ok (start, stop)
  tells_start : Scale.misuse? start = none
  tells_stop : Scale.misuse? stop = none
  tells_fractions : ∀ done total, Scale.misuse? (RunM.fractionAt start stop done total) = none

end Miner

def Record.isFresh (keys : List String) (record : Record) : Bool :=
  record.event.kind.isMined && !keys.contains record.key

def freshRecords (keys : List String) (records : List Record) : List Record :=
  (records.filter (·.isFresh keys)).eraseDupsBy fun a b => a.key = b.key

/--
The records of all files, the first one of each key.
-/
def Miner.referenceRecords (miner : Miner ν)
    (compare : ByteArray → ByteArray → Option (List Change)) (range : Range) : List Record :=
  freshRecords []
    ((miner.source.filesOf miner.suffix range).flatMap (miner.recordsOf compare range))

theorem accept_of_isFresh {keys : List String} {record : Record} (h : record.isFresh keys = true)
    : accept keys record = (true, keys ++ [record.key]) := by
  rw [accept, if_neg]
  simpa [Record.isFresh] using h

theorem accept_of_not_isFresh {keys : List String} {record : Record}
    (h : record.isFresh keys = false) : accept keys record = (false, keys) := by
  rw [Record.isFresh, Bool.and_eq_false_iff] at h
  rw [accept, if_pos]
  simpa using h

theorem freshRecords_nil (keys : List String) : freshRecords keys [] = [] := by
  rfl

theorem freshRecords_cons_of_isFresh {keys : List String} {record : Record}
    (h : record.isFresh keys = true) (records : List Record)
    : freshRecords keys (record :: records) =
      record :: freshRecords (keys ++ [record.key]) records := by
  have hrest : ∀ other : Record, (decide (decide (other.key = record.key) = false)
      && other.isFresh keys) = other.isFresh (keys ++ [record.key]) := by
    intro other
    by_cases h : other.key = record.key <;> simp [Record.isFresh, h, List.contains_eq_mem]
  rw [freshRecords, List.filter_cons_of_pos h, List.eraseDupsBy_cons, List.filter_filter,
    freshRecords]
  congr 3
  funext other
  rw [hrest]

theorem freshRecords_cons_of_not_isFresh {keys : List String} {record : Record}
    (h : record.isFresh keys = false) (records : List Record)
    : freshRecords keys (record :: records) = freshRecords keys records := by
  rw [freshRecords, List.filter_cons_of_neg (ne_true_of_eq_false h), freshRecords]

theorem freshRecords_append (keys : List String) (xs ys : List Record)
    : freshRecords keys (xs ++ ys) =
      freshRecords keys xs ++ freshRecords (keys ++ (freshRecords keys xs).map Record.key) ys := by
  induction xs generalizing keys with
  | nil =>
    rw [List.nil_append, freshRecords_nil, List.map_nil, List.append_nil, List.nil_append]
  | cons record xs ih =>
    rw [List.cons_append]
    cases h : record.isFresh keys with
    | true =>
      rw [freshRecords_cons_of_isFresh h, freshRecords_cons_of_isFresh h, ih, List.cons_append,
        List.map_cons, List.append_assoc, List.singleton_append]
    | false =>
      rw [freshRecords_cons_of_not_isFresh h, freshRecords_cons_of_not_isFresh h, ih]

end MethodHistory
