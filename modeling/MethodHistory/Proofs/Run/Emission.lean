import MethodHistory.Proofs.Run.Reference
import MethodHistory.Proofs.Run.Stopping
import Mathlib.Data.List.Nodup

/-!
This module contains what a run reports of the records that it hands over: a sink that was empty
takes each of them as a new one, and their keys are just the keys that the run knows as emitted.
-/

namespace MethodHistory

variable {ν α β : Type}

theorem Record.key_eq_of_identity_eq {one other : Record} (h : one.identity = other.identity)
    : one.key = other.key := by
  rw [identity, identity, Identity.mk.injEq] at h
  rw [key, key, h.1, h.2.1]

namespace Sink

inductive IsFresh : Sink → Prop
  | buffer : IsFresh (.buffer .empty)
  | lines (content : String) : IsFresh (.lines (.open none content))

inductive Takes (start : Sink) : List Record → Sink → Prop
  | nothing : Takes start [] start
  | next {records : List Record} {record : Record} {sink last : Sink}
      (h : Takes start records sink) (hinsert : sink.insert record = (true, last))
      : Takes start (records ++ [record]) last

def held : Sink → List Identity
  | buffer sink => sink.records.map Record.identity
  | lines sink => sink.seen

def isUnlimited : Sink → Bool
  | buffer _ => true
  | lines sink => sink.limit.isNone

variable {start sink last : Sink} {record : Record} {records : List Record}

theorem insert_of_not_mem (hunlimited : sink.isUnlimited) (hnew : record.identity ∉ sink.held)
    : ∃ last, sink.insert record = (true, last) := by
  cases sink with
  | buffer sink =>
    have hany : ¬sink.records.any (·.identity = record.identity) := by
      rw [List.any_eq_true]
      rintro ⟨other, hother, hidentity⟩
      exact hnew (of_decide_eq_true hidentity ▸ List.mem_map_of_mem hother)
    have hinsert : sink.insert record = (true, ⟨sink.records ++ [record]⟩) := if_neg hany
    rw [insert, hinsert]
    exact ⟨_, rfl⟩
  | lines sink =>
    have hseen : ¬sink.seen.contains record.identity := by
      rw [List.contains_eq_mem, decide_eq_true_iff]
      exact hnew
    have hroom : sink.reached? = none := by
      rw [LineSink.reached?, Option.isNone_iff_eq_none.1 hunlimited]
      rfl
    rw [insert, LineSink.insert, if_neg hseen, hroom]
    exact ⟨_, rfl⟩

theorem of_buffer_insert {sink last : BufferSink} (h : sink.insert record = (true, last))
    : last = ⟨sink.records ++ [record]⟩ := by
  rw [BufferSink.insert] at h
  split at h
  next => cases h
  next =>
    cases h
    rfl

theorem of_lines_insert {sink last : LineSink} (h : sink.insert record = (true, last))
    : last.seen = sink.seen ++ [record.identity] ∧ last.limit = sink.limit := by
  rw [LineSink.insert] at h
  split at h
  next => cases h
  next =>
    split at h
    next => cases h
    next =>
      cases h
      exact ⟨rfl, rfl⟩

theorem of_insert (h : sink.insert record = (true, last))
    : last.held = sink.held ++ [record.identity] ∧ last.isUnlimited = sink.isUnlimited := by
  cases sink with
  | buffer sink =>
    rw [insert] at h
    generalize hinsert : sink.insert record = done at h
    obtain ⟨added, after⟩ := done
    cases h
    rw [of_buffer_insert hinsert]
    exact ⟨List.map_append, rfl⟩
  | lines sink =>
    rw [insert] at h
    generalize hinsert : sink.insert record = done at h
    obtain ⟨added, after⟩ := done
    cases h
    obtain ⟨hseen, hlimit⟩ := of_lines_insert hinsert
    exact ⟨hseen, congrArg Option.isNone hlimit⟩

theorem IsFresh.held_eq (h : start.IsFresh) : start.held = [] := by
  cases h <;> rfl

theorem IsFresh.isUnlimited (h : start.IsFresh) : start.isUnlimited := by
  cases h <;> rfl

namespace Takes

theorem held_eq (h : start.Takes records last)
    : last.held = start.held ++ records.map Record.identity := by
  induction h with
  | nothing => rw [List.map_nil, List.append_nil]
  | next _ hinsert ih =>
    rw [(of_insert hinsert).1, ih, List.map_append, List.append_assoc]
    rfl

theorem isUnlimited_eq (h : start.Takes records last) : last.isUnlimited = start.isUnlimited := by
  induction h with
  | nothing => rfl
  | next _ hinsert ih => rw [(of_insert hinsert).2, ih]

theorem eq_buffer (h : start.Takes records last) (hstart : start = buffer .empty)
    : last = buffer ⟨records⟩ := by
  induction h with
  | nothing => exact hstart
  | next _ hinsert ih =>
    rw [ih, insert] at hinsert
    generalize hbuffer : BufferSink.insert _ _ = done at hinsert
    obtain ⟨added, after⟩ := done
    cases hinsert
    rw [of_buffer_insert hbuffer]

end Takes
end Sink

namespace Yield

structure IsSound (start : Sink) (yield : Yield) : Prop where
  takes : start.Takes yield.records yield.sink
  keys_nodup : (yield.records.map Record.key).Nodup
  isMined : ∀ record ∈ yield.records, record.event.kind.isMined
  isComplete : ∀ record ∈ yield.records, record.event.isComplete

structure IsBalanced (start : Sink) (yield : Yield) : Prop extends yield.IsSound start where
  emitted_eq : yield.emitted = yield.records.map Record.key

end Yield

theorem Run.isBalanced_receive {start : Sink} (hstart : start.IsFresh) {run : Run ν}
    {record : Record} (h : run.yield.IsBalanced start) (hcomplete : record.event.isComplete)
    : (run.receive record).yield.IsBalanced start := by
  have hemitted : run.survey.emitted = run.tally.records.map Record.key := h.emitted_eq
  rw [receive]
  cases hfresh : record.isFresh run.survey.emitted with
  | false =>
    rw [accept_of_not_isFresh hfresh]
    exact h
  | true =>
    rw [accept_of_isFresh hfresh]
    rw [Record.isFresh, Bool.and_eq_true, Bool.not_eq_true', List.contains_eq_mem,
      decide_eq_false_iff_not, hemitted] at hfresh
    obtain ⟨hmined, hnew⟩ := hfresh
    -- The sink could only know the record by its identity, which has the key in it.
    have hheld : record.identity ∉ run.sink.held := by
      have heq := h.takes.held_eq
      rw [hstart.held_eq, List.nil_append] at heq
      change run.sink.held = run.tally.records.map Record.identity at heq
      rw [heq]
      intro hmem
      obtain ⟨other, hother, hidentity⟩ := List.mem_map.1 hmem
      exact hnew (Record.key_eq_of_identity_eq hidentity ▸ List.mem_map_of_mem hother)
    have hunlimited : run.sink.isUnlimited := h.takes.isUnlimited_eq.trans hstart.isUnlimited
    obtain ⟨last, hinsert⟩ := Sink.insert_of_not_mem hunlimited hheld
    have hall {p : Record → Prop} (h : ∀ record ∈ run.tally.records, p record) (hrecord : p record)
        : ∀ other ∈ run.tally.records ++ [record], p other := by
      intro other hother
      rcases List.mem_append.1 hother with hother | hother
      . exact h other hother
      . rw [List.mem_singleton.1 hother]
        exact hrecord
    refine ⟨⟨?_, ?_, hall h.isMined hmined, hall h.isComplete hcomplete⟩, ?_⟩
    . change start.Takes (run.tally.records ++ [record]) (run.sink.insert record).2
      rw [hinsert]
      exact h.takes.next hinsert
    . change ((run.tally.records ++ [record]).map Record.key).Nodup
      rw [List.map_append, List.map_singleton, ← List.concat_eq_append]
      exact List.Nodup.concat hnew h.keys_nodup
    . change run.survey.emitted ++ [record.key] = (run.tally.records ++ [record]).map Record.key
      rw [hemitted, List.map_append]
      rfl

namespace RunM

variable {miner : Miner ν} {post : α → Prop}

/-! The records of a file are complete before they are handed over -/

def AreComplete (records : List Record) : Prop :=
  ∀ record ∈ records, record.event.isComplete

theorem ensures_countEvents (path : String) (result : Except EngineFault (List Change))
    : Ensures (countEvents path result : RunM ν (List Event)) fun events =>
        ∀ event ∈ events, event.isComplete := by
  rw [countEvents, eventsOf.eq_def]
  cases result with
  | ok changes =>
    apply Ensures.after
    intro _
    apply Ensures.pure
    intro event hevent
    obtain ⟨change, _, hchange⟩ := List.mem_filterMap.1 hevent
    rw [Change.event?] at hchange
    split at hchange
    next hcomplete =>
      cases hchange
      exact hcomplete
    next => cases hchange
  | error fault =>
    have hnone : Ensures (do count fun tally => { tally with failed := tally.failed + 1 }; pure []
        : RunM ν (List Event)) fun events => ∀ event ∈ events, event.isComplete := by
      apply Ensures.after
      intro _
      apply Ensures.pure
      intro event hevent
      cases hevent
    cases fault <;> exact hnone

theorem ensures_recordPair (range : Range) (path : String) (revision : Revision)
    : Ensures (recordPair miner range path revision) AreComplete := by
  have hcompare : Ensures (compare miner path) fun events =>
      ∀ event ∈ events, event.isComplete := by
    rw [compare]
    apply Ensures.after
    intro previous
    apply Ensures.after
    intro actual
    apply Ensures.after
    intro _
    apply ensures_countEvents
  rw [recordPair]
  apply hcompare.bind
  intro events hevents
  apply Ensures.after
  intro commit
  apply Ensures.after
  intro _
  apply Ensures.pure
  intro record hrecord
  obtain ⟨event, hevent, rfl⟩ := List.mem_map.1 hrecord
  exact hevents event hevent

theorem ensures_walk (range : Range) (path : String) (started : Bool) (revisions : List Revision)
    : Ensures (walk miner range path started revisions) AreComplete := by
  induction revisions generalizing started with
  | nil =>
    apply Ensures.pure
    intro record hrecord
    cases hrecord
  | cons revision revisions ih =>
    rw [walk]
    apply Ensures.after
    intro _
    apply Ensures.after
    intro content
    cases content with
    | none => apply ih
    | some content =>
      dsimp only
      split
      . apply Ensures.after
        intro _
        apply (ensures_recordPair range path revision).bind
        intro records hrecords
        apply Ensures.after
        intro _
        apply (ih true).bind
        intro later hlater
        apply Ensures.pure
        intro record hrecord
        rcases List.mem_append.1 hrecord with hrecord | hrecord
        . exact hrecords record hrecord
        . exact hlater record hrecord
      . apply Ensures.after
        intro _
        apply ih

theorem ensures_withSlots (limits : NameLimits) (suffix : String) {act : RunM ν α}
    (h : Ensures act post)
    : Ensures (withSlots limits suffix act) post := by
  have houtcome : Ensures (outcome act) fun result => ∀ a, result = .ok a → post a := by
    constructor
    intro run result last hresult a ha
    rw [perform_outcome, Prod.mk.injEq, Except.ok.injEq] at hresult
    exact h.of_perform run a _ (perform_eq_of_result (hresult.1.trans ha))
  rw [withSlots]
  apply Ensures.after
  intro _
  apply houtcome.bind
  intro result hresult
  apply Ensures.after
  intro _
  constructor
  intro run a last ha
  rw [perform_lift, Prod.mk.injEq] at ha
  exact hresult a ha.1

theorem ensures_nextRecords (range : Range) (path : String)
    : Ensures (nextRecords miner range path) fun records => AreComplete (records.getD []) := by
  have hnothing : AreComplete [] := by
    intro record hrecord
    cases hrecord
  rw [nextRecords]
  apply Ensures.after
  intro _
  split
  . exact Ensures.pure hnothing
  . rw [fileRecords]
    apply Ensures.after
    intro _
    apply Ensures.after
    intro history
    split
    . exact Ensures.pure hnothing
    . apply Ensures.throw
    . split
      . exact Ensures.pure hnothing
      . apply Ensures.after
        intro _
        apply Ensures.map
        . apply ensures_withSlots
          apply ensures_walk
        . intro records hrecords
          exact hrecords

def KeepsBalance (start : Sink) (act : RunM ν α) : Prop :=
  ∀ run, run.yield.IsBalanced start →
    (perform act run).2.yield.IsSound start
      ∧ ((∀ misuse, (perform act run).1 ≠ .error (.misuse misuse)) →
        (perform act run).2.yield.IsBalanced start)

namespace KeepsBalance

variable {start : Sink}

theorem of_composed {act calmAct : RunM ν α} (h : Composed miner act calmAct)
    : KeepsBalance start act := by
  intro run hrun
  rw [h.yield_eq]
  exact ⟨hrun.toIsSound, fun _ => hrun⟩

theorem bind_ensures {act : RunM ν α} {next : α → RunM ν β} (hact : KeepsBalance start act)
    (hensures : Ensures act post) (hnext : ∀ a, post a → KeepsBalance start (next a))
    : KeepsBalance start (act >>= next) := by
  intro run hrun
  cases hresult : (perform act run).1 with
  | error failure =>
    rw [perform_bind_error (perform_eq_of_result hresult)]
    refine ⟨(hact run hrun).1, ?_⟩
    intro hfailure
    apply (hact run hrun).2
    intro misuse hmisuse
    rw [hresult, Except.error.injEq] at hmisuse
    exact hfailure misuse (congrArg Except.error hmisuse)
  | ok a =>
    rw [perform_bind_ok (perform_eq_of_result hresult)]
    apply hnext a (hensures.of_perform run a _ (perform_eq_of_result hresult))
    apply (hact run hrun).2
    intro misuse hmisuse
    rw [hresult] at hmisuse
    contradiction

theorem bind {act : RunM ν α} {next : α → RunM ν β} (hact : KeepsBalance start act)
    (hnext : ∀ a, KeepsBalance start (next a)) : KeepsBalance start (act >>= next) := by
  apply hact.bind_ensures ⟨fun _ _ _ _ => trivial⟩
  intro a _
  exact hnext a

theorem count {change : Tally → Tally} (hchange : ∀ tally, (change tally).records = tally.records)
    : KeepsBalance start (count change : RunM ν Unit) := by
  have hrecords (run : Run ν) : (perform (RunM.count change) run).2.yield.records =
      run.yield.records := hchange run.tally
  intro run hrun
  have hbalanced : (perform (RunM.count change) run).2.yield.IsBalanced start := by
    refine ⟨⟨?_, ?_, ?_, ?_⟩, ?_⟩
    all_goals rw [hrecords]
    . exact hrun.takes
    . exact hrun.keys_nodup
    . exact hrun.isMined
    . exact hrun.isComplete
    . exact hrun.emitted_eq
  exact ⟨hbalanced.toIsSound, fun _ => hbalanced⟩

theorem emit (hstart : start.IsFresh) {records : List Record} (hrecords : AreComplete records)
    : KeepsBalance start (emit miner records) := by
  intro run hrun
  rw [RunM.emit]
  cases miner.project.misuse? with
  | none =>
    have hall : (records.foldl Run.receive run).yield.IsBalanced start := by
      induction records generalizing run with
      | nil => exact hrun
      | cons record records ih =>
        apply ih fun other hother => hrecords other (List.mem_cons_of_mem _ hother)
        exact Run.isBalanced_receive hstart hrun (hrecords record List.mem_cons_self)
    exact ⟨hall.toIsSound, fun _ => hall⟩
  | some misuse =>
    dsimp only
    rw [perform_bind, perform_get]
    dsimp only
    cases records.find? fun record => (accept run.survey.emitted record).1 with
    | none =>
      exact ⟨hrun.toIsSound, fun _ => hrun⟩
    | some record =>
      -- The key is noted, but the sink is not offered its record.
      refine ⟨⟨hrun.takes, hrun.keys_nodup, hrun.isMined, hrun.isComplete⟩, ?_⟩
      intro hfailure
      exact absurd rfl (hfailure misuse)

theorem handOver (hstart : start.IsFresh) {records : Option (List Record)}
    (hrecords : AreComplete (records.getD [])) : KeepsBalance start (handOver miner records) := by
  cases records with
  | none =>
    rw [RunM.handOver]
    apply count
    intros
    rfl
  | some records =>
    rw [RunM.handOver]
    apply bind (@of_composed _ _ miner _ _ _ (.apart (.enter _)))
    intro _
    apply bind (emit hstart hrecords)
    intro _
    apply count
    intros
    rfl

variable [Scale ν]

theorem takeFiles (hstart : start.IsFresh) (range : Range) (first last : ν) (total : Nat)
    (files : List (String × Nat))
    : KeepsBalance start (takeFiles miner range first last total files) := by
  induction files with
  | nil => exact @of_composed _ _ miner _ _ _ (.pure _)
  | cons file files ih =>
    rw [RunM.takeFiles, List.forM]
    apply bind
    . rw [visit]
      apply bind_ensures (of_composed (.nextRecords range file.1)) (ensures_nextRecords _ _)
      intro records hrecords
      apply bind (handOver hstart hrecords)
      intro _
      exact of_composed (.report _)
    . intro _
      exact ih

theorem body (hstart : start.IsFresh) (request : Request)
    : KeepsBalance start (body miner request) := by
  rw [body_eq]
  apply bind (of_composed (.plan request))
  intro plan
  apply bind (takeFiles hstart _ _ _ _ _)
  intro _ run hrun
  rw [yield_finish]
  exact ⟨hrun.toIsSound, fun _ => hrun⟩

end KeepsBalance
end RunM

namespace Miner

variable [Scale ν]

theorem isSound_run (miner : Miner ν) (request : Request) {sink : Sink} (hsink : sink.IsFresh)
    (directory : Directory) (stopRequested : Bool)
    : let outcome := miner.run request (initial sink directory stopRequested)
      outcome.run.yield.IsSound sink
        ∧ ∀ tally, outcome.result = .ok tally →
          tally = outcome.run.tally ∧ outcome.run.yield.IsBalanced sink := by
  intro outcome
  have hstart : (initial sink directory stopRequested : Run ν).yield.IsBalanced sink := by
    refine ⟨⟨.nothing, List.nodup_nil, ?_, ?_⟩, rfl⟩
    all_goals
      intro record hrecord
      cases hrecord
  obtain ⟨hsound, hbalanced⟩ := @RunM.KeepsBalance.body _ miner _ _ hsink request _ hstart
  cases hresult : (perform (RunM.body miner request) (initial sink directory stopRequested)).1 with
  | ok a =>
    have houtcome : outcome = _ := run_of_ok (perform_eq_of_result hresult)
    rw [hresult] at hbalanced
    have hbalanced := hbalanced (by simp)
    rw [houtcome]
    refine ⟨hsound, ?_⟩
    rintro tally ⟨⟩
    exact ⟨rfl, hbalanced⟩
  | error failure =>
    by_cases hfailure : failure = .cancelled
    . rw [hfailure] at hresult
      have houtcome : outcome = _ := run_of_cancelled (perform_eq_of_result hresult)
      rw [hresult] at hbalanced
      have hbalanced := hbalanced (by simp)
      rw [houtcome]
      refine ⟨hsound, ?_⟩
      rintro tally ⟨⟩
      exact ⟨rfl, hbalanced⟩
    . have houtcome : outcome = _ := run_of_error hfailure (perform_eq_of_result hresult)
      rw [houtcome]
      refine ⟨hsound, ?_⟩
      rintro tally ⟨⟩

theorem run_records_are_taken (miner : Miner ν) (request : Request) {sink : Sink}
    (hsink : sink.IsFresh) (directory : Directory) (stopRequested : Bool)
    : let outcome := miner.run request (initial sink directory stopRequested)
      sink.Takes outcome.run.tally.records outcome.run.sink
        ∧ ∀ tally, outcome.result = .ok tally →
          tally.records = outcome.run.tally.records
            ∧ (sink = .buffer .empty → outcome.run.sink = .buffer ⟨tally.records⟩)
            ∧ (tally.records.map Record.key).Nodup
            ∧ (∀ record ∈ tally.records, record.event.kind.isMined ∧ record.event.isComplete)
            ∧ outcome.run.survey.emitted = tally.records.map Record.key := by
  intro outcome
  obtain ⟨hsound, hreturned⟩ := isSound_run miner request hsink directory stopRequested
  refine ⟨hsound.takes, ?_⟩
  intro tally htally
  obtain ⟨rfl, hbalanced⟩ := hreturned tally htally
  refine ⟨rfl, hsound.takes.eq_buffer, hsound.keys_nodup, ?_, hbalanced.emitted_eq⟩
  intro record hrecord
  exact ⟨hsound.isMined record hrecord, hsound.isComplete record hrecord⟩

theorem run_stopped_with_record_taken
    : let outcome := (Sample.miner (Sample.stoppingAt 13)).run Sample.request Sample.start
    ∃ tally, outcome.result = .ok tally
      ∧ tally.records.length = 1
      ∧ outcome.run.sink = .buffer ⟨tally.records⟩
      ∧ outcome.run.survey.emitted = tally.records.map Record.key := by
  intro outcome
  have hok : outcome.result.toOption.isSome := by
    decide +kernel
  have hlength : outcome.run.tally.records.length = 1 := by
    decide +kernel
  cases hresult : outcome.result with
  | error failure =>
    rw [hresult] at hok
    contradiction
  | ok tally =>
    obtain ⟨hrecords, hsink, -, -, hemitted⟩ := (run_records_are_taken
      (Sample.miner (Sample.stoppingAt 13)) Sample.request .buffer .empty false).2 tally hresult
    exact ⟨tally, rfl, (congrArg List.length hrecords).trans hlength, hsink rfl, hemitted⟩

end Miner
end MethodHistory
