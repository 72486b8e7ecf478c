import MethodHistory.Run

/-!
This module contains the laws of performing acts that change a state and can fail, for the acts of a
survey as well as for those of a run.
-/

namespace MethodHistory

variable {σ α β γ ν : Type}

def perform (act : ExceptT Failure (StateM σ) α) (state : σ) : Except Failure α × σ :=
  act.run.run state

theorem perform_eq_of_result {act : ExceptT Failure (StateM σ) α} {state : σ}
    {result : Except Failure α} (h : (perform act state).1 = result)
    : perform act state = (result, (perform act state).2) := by
  rw [← h]

theorem perform_bind (act : ExceptT Failure (StateM σ) α)
    (next : α → ExceptT Failure (StateM σ) β) (state : σ)
    : perform (act >>= next) state =
      match perform act state with
      | (.ok a, after) => perform (next a) after
      | (.error failure, after) => (.error failure, after) := by
  change ExceptT.bindCont next (perform act state).1 (perform act state).2 = _
  generalize perform act state = done
  obtain ⟨result, after⟩ := done
  cases result <;> rfl

theorem perform_bind_ok {act : ExceptT Failure (StateM σ) α}
    {next : α → ExceptT Failure (StateM σ) β} {state after : σ} {a : α}
    (h : perform act state = (.ok a, after))
    : perform (act >>= next) state = perform (next a) after := by
  rw [perform_bind, h]

theorem perform_bind_error {act : ExceptT Failure (StateM σ) α}
    {next : α → ExceptT Failure (StateM σ) β} {state after : σ} {failure : Failure}
    (h : perform act state = (.error failure, after))
    : perform (act >>= next) state = (.error failure, after) := by
  rw [perform_bind, h]

theorem perform_bind_eq_ok {act : ExceptT Failure (StateM σ) α}
    {next : α → ExceptT Failure (StateM σ) β} {state last : σ} {b : β}
    : perform (act >>= next) state = (.ok b, last) ↔
      ∃ a after, perform act state = (.ok a, after) ∧ perform (next a) after = (.ok b, last) := by
  rw [perform_bind]
  generalize perform act state = done
  obtain ⟨result, after⟩ := done
  constructor
  . intro h
    cases result with
    | ok a => exact ⟨a, after, rfl, h⟩
    | error failure => simp at h
  . rintro ⟨a, other, hact, hnext⟩
    cases hact
    exact hnext

@[simp]
theorem perform_get (state : σ)
    : perform (get : ExceptT Failure (StateM σ) σ) state = (.ok state, state) := by
  rfl

@[simp]
theorem perform_set (state after : σ)
    : perform (set after : ExceptT Failure (StateM σ) PUnit) state = (.ok ⟨⟩, after) := by
  rfl

@[simp]
theorem perform_modify (change : σ → σ) (state : σ)
    : perform (modify change : ExceptT Failure (StateM σ) PUnit) state
        =
      (.ok ⟨⟩, change state) := by
  rfl

@[simp]
theorem perform_lift (result : Except Failure α) (state : σ)
    : perform (liftM result : ExceptT Failure (StateM σ) α) state = (result, state) := by
  cases result <;> rfl

theorem perform_tryCatch (act : ExceptT Failure (StateM σ) α)
    (rescue : Failure → ExceptT Failure (StateM σ) α) (state : σ)
    : perform (tryCatch act rescue) state =
      match perform act state with
      | (.ok a, after) => (.ok a, after)
      | (.error failure, after) => perform (rescue failure) after := by
  rw [perform, ExceptT.run_tryCatch, StateT.run_bind]
  change (do let done ← perform act state; _ : Id (Except Failure α × σ)) = _
  generalize perform act state = done
  obtain ⟨result, after⟩ := done
  cases result <;> rfl

def Reaches (before : σ → Prop) (act : ExceptT Failure (StateM σ) α) (a : α) (after : σ → Prop)
    : Prop :=
  ∀ state, before state → ∃ last, perform act state = (.ok a, last) ∧ after last

def Fails (before : σ → Prop) (act : ExceptT Failure (StateM σ) α) (failure : Failure) : Prop :=
  ∀ state, before state → (perform act state).1 = .error failure

theorem Fails.bind {before : σ → Prop} {act : ExceptT Failure (StateM σ) α} {failure : Failure}
    (h : Fails before act failure) (next : α → ExceptT Failure (StateM σ) β)
    : Fails before (act >>= next) failure := by
  intro state hstate
  rw [perform_bind_error (perform_eq_of_result (h state hstate))]

namespace Reaches

variable {before between after : σ → Prop} {act : ExceptT Failure (StateM σ) α} {a : α}

theorem pure (h : ∀ state, before state → after state)
    : Reaches before (pure a : ExceptT Failure (StateM σ) α) a after := by
  intro state hstate
  exact ⟨state, rfl, h state hstate⟩

theorem bind {next : α → ExceptT Failure (StateM σ) β} {b : β} (hact : Reaches before act a between)
    (hnext : Reaches between (next a) b after) : Reaches before (act >>= next) b after := by
  intro state hstate
  obtain ⟨middle, hact, hmiddle⟩ := hact state hstate
  obtain ⟨last, hnext, hlast⟩ := hnext middle hmiddle
  exact ⟨last, (perform_bind_ok hact).trans hnext, hlast⟩

theorem bind_fails {next : α → ExceptT Failure (StateM σ) β} {failure : Failure}
    (hact : Reaches before act a between) (hnext : Fails between (next a) failure)
    : Fails before (act >>= next) failure := by
  intro state hstate
  obtain ⟨middle, hact, hmiddle⟩ := hact state hstate
  rw [perform_bind_ok hact]
  exact hnext middle hmiddle

theorem map {f : α → β} (h : Reaches before act a after)
    : Reaches before (f <$> act) (f a) after := by
  rw [map_eq_pure_bind]
  apply h.bind
  apply pure
  exact fun _ hlast => hlast

end Reaches

structure Ensures (act : ExceptT Failure (StateM σ) α) (post : α → Prop) : Prop where
  of_perform : ∀ state a last, perform act state = (.ok a, last) → post a

namespace Ensures

variable {act : ExceptT Failure (StateM σ) α} {between : α → Prop} {post : β → Prop}

theorem pure {b : β} (h : post b) : Ensures (pure b : ExceptT Failure (StateM σ) β) post := by
  constructor
  intro state a last ha
  cases ha
  exact h

theorem throw (failure : Failure)
    : Ensures (throw failure : ExceptT Failure (StateM σ) β) post := by
  constructor
  intro state a last ha
  cases ha

theorem bind {next : α → ExceptT Failure (StateM σ) β} (hact : Ensures act between)
    (hnext : ∀ a, between a → Ensures (next a) post) : Ensures (act >>= next) post := by
  constructor
  intro state b last hb
  obtain ⟨a, middle, ha, hb⟩ := perform_bind_eq_ok.1 hb
  exact (hnext a (hact.of_perform state a middle ha)).of_perform middle b last hb

theorem after {next : α → ExceptT Failure (StateM σ) β} (hnext : ∀ a, Ensures (next a) post)
    : Ensures (act >>= next) post := by
  have hact : Ensures act fun _ => True := ⟨fun _ _ _ _ => trivial⟩
  apply hact.bind
  intro a _
  exact hnext a

theorem map {f : α → β} (hact : Ensures act between) (h : ∀ a, between a → post (f a))
    : Ensures (f <$> act) post := by
  rw [map_eq_pure_bind]
  apply hact.bind
  intro a ha
  exact pure (h a ha)

end Ensures

def Keeps (p : σ → Prop) (act : ExceptT Failure (StateM σ) α) : Prop :=
  ∀ state, p state → p (perform act state).2

def Mirrors (related : σ → σ → Prop) (act : ExceptT Failure (StateM σ) α) : Prop :=
  ∀ one other, related one other →
    (perform act one).1 = (perform act other).1
      ∧ related (perform act one).2 (perform act other).2

def Same (p : σ → Prop) (one other : σ) : Prop :=
  one = other ∧ p one

theorem Keeps.mirrors {p : σ → Prop} {act : ExceptT Failure (StateM σ) α} (h : Keeps p act)
    : Mirrors (Same p) act := by
  rintro one other ⟨rfl, hone⟩
  exact ⟨rfl, rfl, h one hone⟩

theorem Keeps.bind {p : σ → Prop} {act : ExceptT Failure (StateM σ) α}
    {next : α → ExceptT Failure (StateM σ) β} (hact : Keeps p act) (hnext : ∀ a, Keeps p (next a))
    : Keeps p (act >>= next) := by
  intro state hstate
  have hact := hact state hstate
  rw [perform_bind]
  generalize perform act state = done at *
  obtain ⟨result, after⟩ := done
  cases result with
  | ok a => exact hnext a after hact
  | error failure => exact hact

namespace Mirrors

variable {related : σ → σ → Prop} {act : ExceptT Failure (StateM σ) α}

theorem keeps {p : σ → Prop} (h : Mirrors (Same p) act) : Keeps p act := by
  intro state hstate
  exact (h state state ⟨rfl, hstate⟩).2.2

theorem pure (a : α) : Mirrors related (pure a : ExceptT Failure (StateM σ) α) := by
  intro one other h
  exact ⟨rfl, h⟩

theorem throw (failure : Failure)
    : Mirrors related (throw failure : ExceptT Failure (StateM σ) α) := by
  intro one other h
  exact ⟨rfl, h⟩

theorem lift (result : Except Failure α)
    : Mirrors related (liftM result : ExceptT Failure (StateM σ) α) := by
  intro one other h
  rw [perform_lift, perform_lift]
  exact ⟨rfl, h⟩

theorem bind {next : α → ExceptT Failure (StateM σ) β} (hact : Mirrors related act)
    (hnext : ∀ a, Mirrors related (next a)) : Mirrors related (act >>= next) := by
  intro one other h
  obtain ⟨hresult, hstates⟩ := hact one other h
  rw [perform_bind, perform_bind]
  generalize perform act one = done at *
  generalize perform act other = otherDone at *
  obtain ⟨result, after⟩ := done
  obtain ⟨_, otherAfter⟩ := otherDone
  cases hresult
  cases result with
  | ok a => exact hnext a after otherAfter hstates
  | error failure => exact ⟨rfl, hstates⟩

theorem map {f : α → β} (h : Mirrors related act) : Mirrors related (f <$> act) := by
  rw [map_eq_pure_bind]
  apply h.bind
  intro a
  apply pure

theorem forM {next : β → ExceptT Failure (StateM σ) PUnit} (h : ∀ x, Mirrors related (next x))
    (xs : List β) : Mirrors related (xs.forM next) := by
  induction xs with
  | nil => apply pure
  | cons x xs ih =>
    rw [List.forM]
    apply (h x).bind
    intro _
    exact ih

end Mirrors

def Logs (log : σ → List γ) (before : σ → Prop) (act : ExceptT Failure (StateM σ) α)
    (added : List γ) (after : α → σ → Prop) : Prop :=
  ∀ state, before state →
    match perform act state with
    | (.ok a, last) => log last = log state ++ added ∧ after a last
    | (.error _, last) => ∃ taken, taken <+: added ∧ log last = log state ++ taken

namespace Logs

variable {log : σ → List γ} {before : σ → Prop} {between after : α → σ → Prop}
  {last : β → σ → Prop} {act : ExceptT Failure (StateM σ) α}
  {next : α → ExceptT Failure (StateM σ) β} {added more all : List γ}

theorem pure {a : α} (h : ∀ state, before state → after a state)
    : Logs log before (pure a : ExceptT Failure (StateM σ) α) [] after := by
  intro state hstate
  exact ⟨(List.append_nil _).symm, h state hstate⟩

theorem throw (failure : Failure)
    : Logs log before (throw failure : ExceptT Failure (StateM σ) α) added after := by
  intro state hstate
  exact ⟨[], List.nil_prefix, (List.append_nil _).symm⟩

theorem of_keeps {p : σ → Prop}
    (h : ∀ entries, Keeps (fun state => p state ∧ log state = entries) act)
    : Logs log p act [] fun _ => p := by
  intro state hstate
  have hlast := h (log state) state ⟨hstate, rfl⟩
  generalize perform act state = done at *
  obtain ⟨result, last⟩ := done
  cases result with
  | ok a => exact ⟨hlast.2.trans (List.append_nil _).symm, hlast.1⟩
  | error failure => exact ⟨[], List.nil_prefix, hlast.2.trans (List.append_nil _).symm⟩

theorem lift (result : Except Failure α)
    : Logs log before (liftM result : ExceptT Failure (StateM σ) α) []
        fun a state => result = .ok a ∧ before state := by
  intro state hstate
  rw [perform_lift]
  cases result with
  | ok a => exact ⟨(List.append_nil _).symm, rfl, hstate⟩
  | error failure => exact ⟨[], List.nil_prefix, (List.append_nil _).symm⟩

theorem given {φ : Prop} (h : φ → Logs log before act added between)
    : Logs log (fun state => φ ∧ before state) act added between :=
  fun state hstate => h hstate.1 state hstate.2

theorem and {δ : Type} {otherLog : σ → List δ} {start : σ → Prop} {stop : α → σ → Prop}
    {others : List δ} (h : Logs log before act added between)
    (hother : Logs otherLog start act others stop)
    : Logs log (fun state => before state ∧ start state) act added
        fun a state => between a state ∧ stop a state := by
  intro state hstate
  have h := h state hstate.1
  have hother := hother state hstate.2
  generalize perform act state = done at *
  obtain ⟨result, last⟩ := done
  cases result with
  | ok a => exact ⟨h.1, h.2, hother.2⟩
  | error failure => exact h

theorem bind (hact : Logs log before act added between)
    (hnext : ∀ a, Logs log (between a) (next a) more last) (hall : added ++ more = all)
    : Logs log before (act >>= next) all last := by
  intro state hstate
  have hact := hact state hstate
  rw [perform_bind]
  generalize perform act state = done at *
  obtain ⟨result, middle⟩ := done
  cases result with
  | error failure =>
    obtain ⟨taken, htaken, hlog⟩ := hact
    exact ⟨taken, htaken.trans (hall ▸ List.prefix_append added more), hlog⟩
  | ok a =>
    obtain ⟨hlog, hmiddle⟩ := hact
    have hnext := hnext a middle hmiddle
    dsimp only
    generalize perform (next a) middle = done at *
    obtain ⟨result, final⟩ := done
    cases result with
    | error failure =>
      obtain ⟨taken, htaken, hend⟩ := hnext
      refine ⟨added ++ taken, ?_, ?_⟩
      . rw [← hall]
        exact (List.prefix_append_right_inj added).2 htaken
      . rw [hend, hlog, List.append_assoc]
    | ok b =>
      obtain ⟨hend, hlast⟩ := hnext
      refine ⟨?_, hlast⟩
      rw [hend, hlog, List.append_assoc, hall]

end Logs

namespace SurveyM

@[simp]
theorem perform_ask (question : Question) (answer : Except Failure α) (survey : Survey)
    : perform (ask question answer) survey =
      (answer, { survey with questions := survey.questions ++ [question] }) := by
  rw [ask, perform_bind, perform_modify]
  apply perform_lift

theorem perform_checkpoint (monitor : Monitor) (survey : Survey)
    : perform (checkpoint monitor) survey =
      let checks := survey.checks + 1
      let stopRequested := survey.stopRequested || monitor.stopsAtCheck checks
      (if stopRequested then .error .cancelled else .ok (),
        { survey with checks, stopRequested }) := by
  rw [checkpoint, perform_bind, perform_modify]
  dsimp only
  rw [perform_bind, perform_get]
  dsimp only
  split <;> rfl

end SurveyM

def Tally.counting (tally : Tally) (succeeded : Bool) : Tally :=
  if succeeded then { tally with diffed := tally.diffed + 1 }
  else { tally with failed := tally.failed + 1 }

theorem Tally.exists_counting (tally : Tally) (succeeded : Bool)
    : ∃ diffed failed, tally.counting succeeded = { tally with diffed, failed } := by
  rw [counting]
  split
  . exact ⟨_, _, rfl⟩
  . exact ⟨_, _, rfl⟩

def Run.snapshotOf (run : Run ν) (slot : Slots → Option SnapshotPath) : Snapshot where
  label := ((slot run.slots).map SnapshotPath.name).getD ""
  content := (slot run.slots).bind run.directory.read?

namespace RunM

@[simp]
theorem perform_inSurvey (act : SurveyM α) (run : Run ν)
    : perform (inSurvey act) run =
      ((perform act run.survey).1, { run with survey := (perform act run.survey).2 }) := by
  rw [inSurvey, perform_bind, perform_get]
  change perform (set _ >>= fun _ => _) run = _
  rw [perform_bind, perform_set]
  apply perform_lift

@[simp]
theorem perform_outcome (act : RunM ν α) (run : Run ν)
    : perform (outcome act) run = (.ok (perform act run).1, (perform act run).2) := by
  rfl

@[simp]
theorem perform_enter (phase : Phase) (run : Run ν)
    : perform (enter phase) run
        =
      (.ok ⟨⟩, { run with phase, phases := run.phases ++ [phase] }) := by
  rfl

@[simp]
theorem perform_count (change : Tally → Tally) (run : Run ν)
    : perform (count change) run = (.ok ⟨⟩, { run with tally := change run.tally }) := by
  rfl

@[simp]
theorem perform_snapshot (slot : Slots → Option SnapshotPath) (run : Run ν)
    : perform (snapshot slot) run =
      (.ok ⟨((slot run.slots).map SnapshotPath.name).getD "",
        (slot run.slots).bind run.directory.read?⟩, run) := by
  rfl

theorem perform_write (slot : Slots → Option SnapshotPath) (content : ByteArray) (run : Run ν)
    : perform (write slot content) run =
      match run.directory.write (slot run.slots) content with
      | .ok directory => (.ok ⟨⟩, { run with directory })
      | .error fault => (.error (.snapshot fault), run) := by
  rw [write, perform_bind, perform_get]
  dsimp only
  cases run.directory.write (slot run.slots) content <;> rfl

theorem perform_useSlots (change : Slots → Directory → Except SnapshotFault (Slots × Directory))
    (run : Run ν) : perform (useSlots change) run =
      match change run.slots run.directory with
      | .ok (slots, directory) => (.ok ⟨⟩, { run with slots, directory })
      | .error fault => (.error (.snapshot fault), run) := by
  rw [useSlots, perform_bind, perform_get]
  dsimp only
  cases change run.slots run.directory <;> rfl

variable {miner : Miner ν}

theorem perform_report [Scale ν] (fraction : ν) (run : Run ν)
    : perform (report miner fraction) run =
      match Scale.misuse? fraction with
      | some misuse => (.error (.misuse misuse), run)
      | none =>
        if Scale.isLess fraction run.reached then
          (.ok ⟨⟩, run)
        else
          (.ok ⟨⟩, { run with
            reports := run.reports ++ [fraction]
            reached := fraction
            survey := { run.survey with
              stopRequested := run.survey.stopRequested
                || miner.monitor.stopsAtReport (run.reports ++ [fraction]).length } }) := by
  rw [report]
  cases Scale.misuse? fraction with
  | some misuse => rfl
  | none =>
    change perform (if Scale.isLess fraction run.reached then _ else _) run = _
    dsimp only
    split <;> rfl

theorem perform_noteComparison (previous actual : Snapshot)
    (result : Except EngineFault (List Change)) (run : Run ν)
    : ∃ comparisons stopRequested,
      perform (noteComparison miner previous actual result) run =
        (.ok ⟨⟩, { run with comparisons, survey := { run.survey with stopRequested } })
      ∧ (miner.monitor = .never → stopRequested = run.survey.stopRequested) := by
  rw [noteComparison]
  split
  . refine ⟨_, _, rfl, ?_⟩
    intro hmonitor
    rw [hmonitor]
    exact Bool.or_false _
  . exact ⟨run.comparisons, run.survey.stopRequested, rfl, fun _ => rfl⟩

theorem perform_countEvents (path : String) (result : Except EngineFault (List Change))
    (run : Run ν) : perform (countEvents path result) run =
      (.ok ((result.toOption.getD []).filterMap (·.event? path)),
        { run with tally := run.tally.counting result.toOption.isSome }) := by
  cases result with
  | ok changes => rfl
  | error fault => cases fault <;> rfl

theorem perform_compare (path : String) (run : Run ν)
    : let result := (miner.engine (run.snapshotOf (·.previous))
        (run.snapshotOf (·.actual))).toOption
      ∃ comparisons stopRequested,
        perform (compare miner path) run =
          (.ok ((result.getD []).filterMap (·.event? path)), { run with
            comparisons
            survey := { run.survey with stopRequested }
            tally := run.tally.counting result.isSome })
        ∧ (miner.monitor = .never → stopRequested = run.survey.stopRequested) := by
  intro result
  rw [compare, perform_bind_ok (perform_snapshot _ _), perform_bind_ok (perform_snapshot _ _)]
  obtain ⟨comparisons, stopRequested, hnote, hnever⟩ := @perform_noteComparison _ miner
    (run.snapshotOf (·.previous)) (run.snapshotOf (·.actual))
    (miner.engine (run.snapshotOf (·.previous)) (run.snapshotOf (·.actual))) run
  refine ⟨comparisons, stopRequested, ?_, hnever⟩
  exact (perform_bind_ok hnote).trans (perform_countEvents _ _ _)

end RunM
end MethodHistory
