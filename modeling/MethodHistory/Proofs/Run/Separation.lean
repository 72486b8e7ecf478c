import MethodHistory.Proofs.Run.Consistency

/-!
This module contains what a run has of all files but one, when its source has another history or
other contents of that one: the same records but for keys of the file, and the same counters but for
the pairs of the file.
-/

namespace MethodHistory

variable {ν : Type}

/--
Whether two sources have the same answers but for the history and the contents of a file.
-/
structure Source.AgreeBesides (path : String) (one other : Source) : Prop where
  allCommits_eq : one.allCommits = other.allCommits
  tagTarget_eq : one.tagTarget = other.tagTarget
  filesAt_eq : one.filesAt = other.filesAt
  revisionsOf_eq : ∀ file, file ≠ path → one.revisionsOf file = other.revisionsOf file
  contentAt_eq : ∀ file, file ≠ path → one.contentAt file = other.contentAt file

namespace Source.AgreeBesides

variable {path file : String} {one other : Source} {range : Range}

theorem rangeOf_eq (h : AgreeBesides path one other) (request : Request) (mode : Mode)
    : one.rangeOf request mode = other.rangeOf request mode := by
  obtain ⟨commits, tags, revisions, contents, files⟩ := one
  obtain ⟨_, _, otherRevisions, otherContents, _⟩ := other
  obtain ⟨rfl, rfl, rfl, -, -⟩ := h
  cases mode <;> rfl

theorem filesOf_eq (h : AgreeBesides path one other) (suffix : Given String) (range : Range)
    : one.filesOf suffix range = other.filesOf suffix range := by
  rw [filesOf, filesOf]
  simp only [pathsAt, h.filesAt_eq]

theorem creditFor_eq (h : AgreeBesides path one other) : one.creditFor = other.creditFor := by
  funext revision
  rw [creditFor, creditFor, h.allCommits_eq]

theorem pairsIn_eq (h : AgreeBesides path one other) (hfile : file ≠ path)
    : one.pairsIn range file = other.pairsIn range file := by
  rw [pairsIn, pairsIn, historyOf, historyOf, h.allCommits_eq, h.revisionsOf_eq file hfile]
  simp only [versions, content?, h.contentAt_eq file hfile]

end Source.AgreeBesides

section

variable {record : Record} {path key : String} {keys one other : List String}

theorem mem_accept
    : key ∈ (accept keys record).2 ↔ key ∈ keys ∨ record.isFresh keys ∧ key = record.key := by
  cases hfresh : record.isFresh keys with
  | true => simp [accept_of_isFresh hfresh]
  | false => simp [accept_of_not_isFresh hfresh]

theorem freshRecords_cons (keys : List String) (record : Record) (records : List Record)
    : freshRecords keys (record :: records) =
      (if record.isFresh keys then [record] else [])
        ++ freshRecords (accept keys record).2 records := by
  cases hfresh : record.isFresh keys with
  | true =>
    rw [freshRecords_cons_of_isFresh hfresh, accept_of_isFresh hfresh]
    rfl
  | false =>
    rw [freshRecords_cons_of_not_isFresh hfresh, accept_of_not_isFresh hfresh]
    rfl

def Record.isOf (path : String) (record : Record) : Bool :=
  record.event.file = some path

def Record.isForeign (path : String) (keys : List String) (record : Record) : Bool :=
  !record.isOf path && !keys.contains record.key

theorem filter_freshRecords (records : List Record)
    (hkeys : ∀ key, key ∉ keys → (key ∈ one ↔ key ∈ other))
    (hown : ∀ record ∈ freshRecords one records, record.isOf path → record.key ∈ keys)
    : (freshRecords one records).filter (·.isForeign path keys)
        =
      (freshRecords other (records.filter (!·.isOf path))).filter (·.isForeign path keys) := by
  -- What was admitted before on the two sides differs in some of the keys at most.
  induction records generalizing one other with
  | nil => rfl
  | cons record records ih =>
    have hfresh (hkey : record.key ∉ keys) : record.isFresh one = record.isFresh other := by
      rw [Record.isFresh, Record.isFresh, List.contains_eq_mem, List.contains_eq_mem]
      simp only [hkeys record.key hkey]
    have hlater : ∀ later ∈ freshRecords (accept one record).2 records, later.isOf path →
        later.key ∈ keys := by
      intro later hlater
      apply hown
      rw [freshRecords_cons]
      exact List.mem_append_right _ hlater
    rw [freshRecords_cons, List.filter_append]
    cases howned : record.isOf path with
    | true =>
      have hnone : (if record.isFresh one then [record] else []).filter (·.isForeign path keys)
          = [] := by
        split <;> simp [Record.isForeign, howned]
      rw [List.filter_cons_of_neg (by simp [howned]), hnone, List.nil_append]
      refine ih ?_ hlater
      intro key hnot
      rw [mem_accept, hkeys key hnot, or_iff_left]
      rintro ⟨hadmitted, rfl⟩
      refine hnot (hown record ?_ howned)
      rw [freshRecords_cons, if_pos hadmitted]
      exact List.mem_cons_self
    | false =>
      rw [List.filter_cons_of_pos (by simp [howned]), freshRecords_cons, List.filter_append]
      congr 1
      . by_cases hkey : record.key ∈ keys
        . have hnone (admitted : List String)
              : (if record.isFresh admitted then [record] else []).filter (·.isForeign path keys)
                = [] := by
            split <;> simp [Record.isForeign, hkey]
          rw [hnone, hnone]
        . rw [hfresh hkey]
      . refine ih ?_ hlater
        intro key hnot
        rw [mem_accept, mem_accept, hkeys key hnot]
        refine or_congr_right (and_congr_left ?_)
        rintro rfl
        rw [hfresh hnot]

end

namespace Miner

variable {miner : Miner ν} {other : Source} {path : String} {range : Range}
  {compare : ByteArray → ByteArray → Option (List Change)}

def withSource (miner : Miner ν) (source : Source) : Miner ν :=
  { miner with source }

/-! The records of the other files -/

theorem recordsOf_eq (h : miner.source.AgreeBesides path other) {file : String}
    (hfile : file ≠ path)
    : miner.recordsOf compare range file =
      (miner.withSource other).recordsOf compare range file := by
  rw [recordsOf, recordsOf, h.pairsIn_eq hfile]
  congr 2
  funext pair
  rw [pairRecords, pairRecords, h.creditFor_eq]
  rfl

theorem isOf_of_mem_recordsOf {record : Record} (h : record ∈ miner.recordsOf compare range path)
    : record.isOf path := by
  rw [recordsOf] at h
  split at h
  . contradiction
  . obtain ⟨pair, -, hpair⟩ := List.mem_flatMap.1 h
    obtain ⟨event, hevent, rfl⟩ := List.mem_map.1 hpair
    obtain ⟨change, -, hchange⟩ := List.mem_filterMap.1 hevent
    rw [Change.event?] at hchange
    split at hchange
    . cases hchange
      exact decide_eq_true rfl
    . contradiction

theorem filter_recordsOf_self
    : (miner.recordsOf compare range path).filter (!·.isOf path) = [] := by
  rw [List.filter_eq_nil_iff]
  intro record hrecord
  simp [isOf_of_mem_recordsOf hrecord]

theorem filter_candidates_eq (h : miner.source.AgreeBesides path other) (files : List String)
    : (files.flatMap (miner.recordsOf compare range)).filter (!·.isOf path)
        =
      (files.flatMap ((miner.withSource other).recordsOf compare range)).filter
        (!·.isOf path) := by
  rw [List.filter_flatMap, List.filter_flatMap]
  congr 1
  funext file
  by_cases hfile : file = path
  . rw [hfile, filter_recordsOf_self, filter_recordsOf_self]
  . rw [recordsOf_eq h hfile]

def keysOf (path : String) (records : List Record) : List String :=
  (records.filter (·.isOf path)).map Record.key

theorem filter_referenceRecords_eq (h : miner.source.AgreeBesides path other) {keys : List String}
    (hone : keysOf path (miner.referenceRecords compare range) ⊆ keys)
    (htwo : keysOf path ((miner.withSource other).referenceRecords compare range) ⊆ keys)
    : (miner.referenceRecords compare range).filter (·.isForeign path keys)
        =
      ((miner.withSource other).referenceRecords compare range).filter
        (·.isForeign path keys) := by
  have hown {records : List Record} (hkeys : keysOf path records ⊆ keys)
      : ∀ record ∈ records, record.isOf path → record.key ∈ keys := by
    intro record hrecord hof
    exact hkeys (List.mem_map_of_mem (List.mem_filter.2 ⟨hrecord, hof⟩))
  rw [referenceRecords, referenceRecords, filter_freshRecords _ (fun _ _ => Iff.rfl) (hown hone),
    filter_freshRecords _ (fun _ _ => Iff.rfl) (hown htwo), filter_candidates_eq h,
    h.filesOf_eq miner.suffix range]
  rfl

/-! The pairs of the other files -/

def pairsAmong (miner : Miner ν) (range : Range) (isMeant : String → Bool) : List VersionPair :=
  ((miner.source.filesOf miner.suffix range).filter isMeant).flatMap (miner.pairsIn range)

theorem pairsAmong_eq (h : miner.source.AgreeBesides path other)
    : miner.pairsAmong range (· ≠ path) =
      (miner.withSource other).pairsAmong range (· ≠ path) := by
  rw [pairsAmong, pairsAmong, h.filesOf_eq]
  apply List.flatMap_congr
  intro file hfile
  rw [pairsIn, pairsIn, h.pairsIn_eq (by simpa using (List.mem_filter.1 hfile).2)]
  rfl

theorem countP_pairs (miner : Miner ν) (range : Range) (path : String) (counts : VersionPair → Bool)
    : ((miner.source.filesOf miner.suffix range).flatMap (miner.pairsIn range)).countP counts =
      (miner.pairsAmong range (· ≠ path)).countP counts
        + (miner.pairsAmong range (· = path)).countP counts := by
  rw [pairsAmong, pairsAmong]
  induction miner.source.filesOf miner.suffix range with
  | nil => rfl
  | cons file files ih =>
    rw [List.flatMap_cons, List.countP_append, ih]
    by_cases hfile : file = path
    . rw [List.filter_cons_of_neg (by simpa using hfile),
        List.filter_cons_of_pos (by simpa using hfile), List.flatMap_cons, List.countP_append]
      omega
    . rw [List.filter_cons_of_pos (by simpa using hfile),
        List.filter_cons_of_neg (by simpa using hfile), List.flatMap_cons, List.countP_append]
      omega

variable [Scale ν] {request : Request} {start stop : ν}

theorem IsPrepared.rangeFor_eq (h : miner.IsPrepared compare request range start stop)
    : miner.source.rangeFor request = .ok range := by
  obtain ⟨mode, hmode, hrange⟩ := h.range_eq
  rw [Source.rangeFor, hmode]
  exact hrange

theorem IsPrepared.of_agreeBesides (h : miner.IsPrepared compare request range start stop)
    (hagree : miner.source.AgreeBesides path other) (hother : other.FailsSoftly)
    : (miner.withSource other).IsPrepared compare request range start stop := by
  obtain ⟨mode, hmode, hrange⟩ := h.range_eq
  rw [hagree.rangeOf_eq] at hrange
  have hlistings := h.listings
  rw [hagree.filesAt_eq] at hlistings
  exact ⟨h.engine, hother, ⟨mode, hmode, hrange⟩, hlistings, h.project, h.span_eq, h.tells_start,
    h.tells_stop, h.tells_fractions⟩

/--
How a run ends that nobody stops: it fails if there is a file that it walks through without a name
for its snapshots.
-/
structure EndsBySnapshots (miner : Miner ν) (range : Range) (outcome : Outcome ν) : Prop where
  completed : miner.HasSnapshots range → outcome.run.phase = .completed
  failed : ¬ miner.HasSnapshots range → outcome.run.phase = .failed
    ∧ ∃ trouble, outcome.result = .error (.snapshot (.path trouble))

theorem endsBySnapshots_run (hmonitor : miner.monitor = .never)
    (h : miner.IsPrepared compare request range start stop) (sink : Sink) (directory : Directory)
    : miner.EndsBySnapshots range (miner.run request (initial sink directory false)) := by
  constructor
  . intro hsnapshots
    exact (run_of_hasSnapshots hmonitor h hsnapshots sink directory).1
  . intro hsnapshots
    exact run_of_not_hasSnapshots hmonitor h hsnapshots sink directory

theorem tally_of_completed (hmonitor : miner.monitor = .never)
    (h : miner.IsPrepared compare request range start stop) (sink : Sink) (directory : Directory)
    (path : String)
    (hcompleted : (miner.run request (initial sink directory false)).run.phase = .completed)
    : let tally := (miner.run request (initial sink directory false)).run.tally
      tally.records = miner.referenceRecords compare range
        ∧ tally.processed + tally.skipped = (miner.source.filesOf miner.suffix range).length
        ∧ tally.diffed = (miner.pairsAmong range (· ≠ path)).countP (·.succeeds compare)
          + (miner.pairsAmong range (· = path)).countP (·.succeeds compare)
        ∧ tally.failed = (miner.pairsAmong range (· ≠ path)).countP (!·.succeeds compare)
          + (miner.pairsAmong range (· = path)).countP (!·.succeeds compare) := by
  intro tally
  have hsnapshots : miner.HasSnapshots range := by
    by_contra hnot
    have hfailed := ((endsBySnapshots_run hmonitor h sink directory).failed hnot).1
    rw [hcompleted] at hfailed
    contradiction
  have hresult : (miner.run request (initial sink directory false)).result = .ok tally := by
    have hrun := run_of_ok (ok_of_completed hcompleted)
    rw [hrun]
  obtain ⟨-, found, hfound, hrecords⟩ := run_of_hasSnapshots hmonitor h hsnapshots sink directory
  cases hresult.symm.trans hfound
  obtain ⟨_, hfor, -, hfinished, hcounts⟩ :=
    counts_of_completed (isNew_initial miner.source sink directory false) hcompleted
  cases h.rangeFor_eq.symm.trans hfor
  refine ⟨hrecords, hfinished, ?_, ?_⟩
  . rw [← countP_pairs]
    exact hcounts.diffed_eq compare h.engine
  . rw [← countP_pairs]
    exact hcounts.failed_eq h.engine

/--
A run has the same records of all files but one, whatever its source answers about that one, except
for the keys that the admitted records of the file have. It counts the same files, and the same
pairs but for those of the file.
-/
theorem runs_separate_files (hmonitor : miner.monitor = .never)
    (h : miner.IsPrepared compare request range start stop)
    (hagree : miner.source.AgreeBesides path other) (hother : other.FailsSoftly) (sink : Sink)
    (directory : Directory)
    : let second := miner.withSource other
      let one := miner.run request (initial sink directory false)
      let two := second.run request (initial sink directory false)
      let keys := keysOf path one.run.tally.records ++ keysOf path two.run.tally.records
      miner.EndsBySnapshots range one ∧ second.EndsBySnapshots range two
        ∧ (one.run.phase = .completed → two.run.phase = .completed →
          one.run.tally.records.filter (·.isForeign path keys)
              = two.run.tally.records.filter (·.isForeign path keys)
            ∧ one.run.tally.processed + one.run.tally.skipped
              = two.run.tally.processed + two.run.tally.skipped
            ∧ ∃ diffed failed,
              one.run.tally.diffed
                = diffed + (miner.pairsAmong range (· = path)).countP (·.succeeds compare)
              ∧ two.run.tally.diffed
                = diffed + (second.pairsAmong range (· = path)).countP (·.succeeds compare)
              ∧ one.run.tally.failed
                = failed + (miner.pairsAmong range (· = path)).countP (!·.succeeds compare)
              ∧ two.run.tally.failed
                = failed + (second.pairsAmong range (· = path)).countP (!·.succeeds compare)) := by
  intro second one two keys
  have hsecond := h.of_agreeBesides hagree hother
  have hnever : second.monitor = .never := hmonitor
  refine ⟨endsBySnapshots_run hmonitor h sink directory,
    endsBySnapshots_run hnever hsecond sink directory, fun hone htwo => ?_⟩
  obtain ⟨hrecords, hfinished, hdiffed, hfailed⟩ :=
    tally_of_completed hmonitor h sink directory path hone
  obtain ⟨hrecords', hfinished', hdiffed', hfailed'⟩ :=
    tally_of_completed hnever hsecond sink directory path htwo
  refine ⟨?_, ?_, _, _, hdiffed, ?_, hfailed, ?_⟩
  . have hkeys : keys = keysOf path (miner.referenceRecords compare range)
        ++ keysOf path (second.referenceRecords compare range) := by
      rw [← hrecords, ← hrecords']
    rw [hkeys, hrecords, hrecords']
    exact filter_referenceRecords_eq hagree (List.subset_append_left _ _)
      (List.subset_append_right _ _)
  . rw [hfinished, hfinished', hagree.filesOf_eq]
    rfl
  . rw [pairsAmong_eq hagree]
    exact hdiffed'
  . rw [pairsAmong_eq hagree]
    exact hfailed'

end Miner

namespace Sample

def damaged : Source :=
  { source with
    contentAt path commit :=
      if path = "Other.java" ∧ commit = "old" then
        .error (.revision (.unreadableContent path commit "damaged"))
      else source.contentAt path commit }

theorem agreeBesides_damaged : source.AgreeBesides "Other.java" damaged :=
  ⟨rfl, rfl, rfl, fun _ _ => rfl, fun _ hfile => by funext commit; simp [damaged, hfile]⟩

theorem failsSoftly_damaged : damaged.FailsSoftly := by
  constructor
  . exact failsSoftly_source.revisionsOf
  . intro path commit failure h
    rw [damaged] at h
    dsimp only at h
    split at h
    . cases h
      exact ⟨_, rfl⟩
    . exact failsSoftly_source.contentAt path commit failure h

def locked : Source :=
  { longMiner.source with
    revisionsOf path :=
      if path = longPath then .error (.revision (.unreadableHistory path "locked"))
      else longMiner.source.revisionsOf path }

theorem agreeBesides_locked : longMiner.source.AgreeBesides longPath locked :=
  ⟨rfl, rfl, rfl, fun _ hfile => by simp [locked, hfile], fun _ _ => rfl⟩

theorem failsSoftly_locked : locked.FailsSoftly := by
  constructor
  . intro path failure h
    rw [locked] at h
    dsimp only at h
    split at h
    . cases h
      exact ⟨_, rfl⟩
    . exact isPrepared_longMiner.source.revisionsOf path failure h
  . exact failsSoftly_source.contentAt

end Sample

theorem Miner.runs_separate_damaged_file
    : let one := (Sample.miner .never).run Sample.request (initial (.buffer .empty) .empty false)
      let two := ((Sample.miner .never).withSource Sample.damaged).run Sample.request
        (initial (.buffer .empty) .empty false)
      let keys := keysOf "Other.java" one.run.tally.records
        ++ keysOf "Other.java" two.run.tally.records
      one.run.phase = .completed ∧ two.run.phase = .completed
        ∧ one.run.tally.records.length = 2 ∧ two.run.tally.records.length = 1
        ∧ one.run.tally.records.filter (·.isForeign "Other.java" keys)
          = two.run.tally.records.filter (·.isForeign "Other.java" keys) := by
  intro one two keys
  have hone : one.run.phase = .completed := by
    decide +kernel
  have htwo : two.run.phase = .completed := by
    decide +kernel
  have hlengths : one.run.tally.records.length = 2 ∧ two.run.tally.records.length = 1 := by
    decide +kernel
  obtain ⟨-, -, h⟩ := runs_separate_files rfl Sample.isPrepared Sample.agreeBesides_damaged
    Sample.failsSoftly_damaged (.buffer .empty) .empty
  exact ⟨hone, htwo, hlengths.1, hlengths.2, (h hone htwo).1⟩

theorem Miner.not_all_runs_separate_files
    : ¬ ∀ (miner : Miner Rat) (compare : ByteArray → ByteArray → Option (List Change))
      (request : Request) (range : Range) (start stop : Rat) (path : String) (other : Source),
      miner.monitor = .never → miner.IsPrepared compare request range start stop →
      miner.source.AgreeBesides path other → other.FailsSoftly →
      let one := miner.run request (initial (.buffer .empty) .empty false)
      let two := (miner.withSource other).run request (initial (.buffer .empty) .empty false)
      let keys := keysOf path one.run.tally.records ++ keysOf path two.run.tally.records
      one.run.phase = .completed ∧ two.run.phase = .completed
        ∧ one.run.tally.records.filter (·.isForeign path keys)
          = two.run.tally.records.filter (·.isForeign path keys)
        ∧ one.run.tally.processed + one.run.tally.skipped
          = two.run.tally.processed + two.run.tally.skipped := by
  intro h
  obtain ⟨hcompleted, -⟩ := h Sample.longMiner Sample.compare Sample.request Sample.range 0 1
    Sample.longPath Sample.locked rfl Sample.isPrepared_longMiner Sample.agreeBesides_locked
    Sample.failsSoftly_locked
  obtain ⟨hfailed, -⟩ := run_of_not_hasSnapshots rfl Sample.isPrepared_longMiner
    Sample.not_hasSnapshots_longMiner (.buffer .empty) .empty
  rw [hfailed] at hcompleted
  contradiction

end MethodHistory
