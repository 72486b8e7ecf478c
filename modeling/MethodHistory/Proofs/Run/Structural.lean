import MethodHistory.Proofs.Run.Completion

/-!
This module contains what the engine for Java files makes of two versions. Its changes depend on the
two contents alone. Without a grammar it has none, and neither has a run with it any records.
-/

namespace MethodHistory

namespace Language

variable {γ : Type} {language : Option String} {text : String}

theorem find?_eq_some (h : text.toLower = "java") : find? (some text) = some "java" := by
  rw [find?, Option.bind_some, h]
  decide

theorem find?_eq_none (h : ∀ text, language = some text → text.toLower ≠ "java")
    : find? language = none := by
  rw [find?, Option.bind_eq_none_iff]
  intro text htext
  rw [List.find?_eq_none, supported, List.forall_mem_singleton, decide_eq_true_iff]
  exact (h text htext).symm

theorem isSupported_iff
    : isSupported language ↔ ∃ text, language = some text ∧ text.toLower = "java" := by
  constructor
  . intro h
    by_contra hnone
    rw [isSupported, find?_eq_none fun text htext hlower => hnone ⟨text, htext, hlower⟩] at h
    contradiction
  . rintro ⟨text, rfl, hlower⟩
    rw [isSupported, find?_eq_some hlower]
    rfl

theorem grammar_eq (load : String → Except String γ) (language : Option String)
    : grammar load language
        =
      if isSupported language then (load "java").mapError (.unusable "java")
      else .error (.unsupported language) := by
  split
  next h =>
    obtain ⟨text, rfl, hlower⟩ := isSupported_iff.1 h
    rw [grammar, find?_eq_some hlower]
  next h =>
    rw [grammar, find?_eq_none]
    intro text htext hlower
    exact h (isSupported_iff.2 ⟨text, htext, hlower⟩)

theorem grammar_java (load : String → Except String γ)
    : grammar load (some "java") = (load "java").mapError (.unusable "java") := by
  rw [grammar_eq, if_pos]
  exact isSupported_iff.2 ⟨"java", rfl, by decide +kernel⟩

end Language

def contentChanges (thresholds : Thresholds) (grammar : ByteArray → Document)
    (older newer : ByteArray) : Option (List Change) :=
  if (grammar older).hasError || (grammar newer).hasError then none
  else some (fileChanges thresholds (grammar older).root (grammar newer).root)

variable {load : String → Except String (ByteArray → Document)} {grammar : ByteArray → Document}
  {thresholds : Thresholds} {previous actual : Snapshot} {older newer : ByteArray} {reason : String}

theorem toOption_documentChanges (oldLabel newLabel : String)
    : (documentChanges thresholds oldLabel (grammar older) newLabel (grammar newer)).toOption
        =
      contentChanges thresholds grammar older newer := by
  rw [documentChanges, contentChanges, Document.tree, Document.tree]
  cases (grammar older).hasError <;> cases (grammar newer).hasError <;> rfl

theorem tree_of_grammar {snapshot : Snapshot} {content : ByteArray}
    (hload : load "java" = .ok grammar) (h : snapshot.content = some content)
    : structuralEngine.tree load snapshot
        =
      ((grammar content).tree snapshot.label).mapError .comparison := by
  rw [structuralEngine.tree, h, Language.grammar_java, hload]
  rfl

theorem structuralEngine_of_grammar (hload : load "java" = .ok grammar)
    (hprevious : previous.content = some older) (hactual : actual.content = some newer)
    : structuralEngine load thresholds previous actual
        =
      (documentChanges thresholds previous.label (grammar older) actual.label
        (grammar newer)).mapError .comparison := by
  rw [structuralEngine, tree_of_grammar hload hprevious, tree_of_grammar hload hactual,
    documentChanges]
  cases (grammar older).tree previous.label with
  | error => rfl
  | ok => cases (grammar newer).tree actual.label <;> rfl

theorem structuralEngine_of_unusable (hload : load "java" = .error reason)
    (hprevious : previous.content = some older)
    : structuralEngine load thresholds previous actual
        =
      .error (.other (LanguageFault.unusable "java" reason).message) := by
  have htree : structuralEngine.tree load previous
      = .error (.other (LanguageFault.unusable "java" reason).message) := by
    rw [structuralEngine.tree, hprevious, Language.grammar_java, hload]
    rfl
  rw [structuralEngine, htree]
  rfl

theorem computes_structuralEngine (hload : load "java" = .ok grammar)
    : (structuralEngine load thresholds).Computes (contentChanges thresholds grammar) := by
  intro previous actual older newer hprevious hactual
  rw [structuralEngine_of_grammar hload hprevious hactual,
    ← toOption_documentChanges previous.label actual.label]
  cases documentChanges thresholds previous.label (grammar older) actual.label (grammar newer)
  . rfl
  . rfl

theorem computes_structuralEngine_of_unusable (hload : load "java" = .error reason)
    : (structuralEngine load thresholds).Computes fun _ _ => none := by
  intro previous actual older newer hprevious _
  rw [structuralEngine_of_unusable hload hprevious]
  rfl

theorem hasCompared_structuralEngine (load : String → Except String (ByteArray → Document))
    (thresholds : Thresholds) (previous actual : Snapshot)
    : hasCompared (structuralEngine load thresholds previous actual) := by
  have hread (snapshot : Snapshot) (reason : String)
      : structuralEngine.tree load snapshot ≠ .error (.unread reason) := by
    rw [structuralEngine.tree]
    split
    next => simp
    next =>
      rw [Language.grammar_java]
      cases load "java" with
      | error => simp [Except.mapError, bind, Except.bind]
      | ok grammar =>
        change ((grammar _).tree _).mapError EngineFault.comparison ≠ _
        cases (grammar _).tree snapshot.label <;> simp [Except.mapError]
  rw [structuralEngine]
  cases hold : structuralEngine.tree load previous with
  | error fault =>
    cases fault with
    | unread reason => exact absurd hold (hread previous reason)
    | comparison | other => rfl
  | ok old =>
    cases hnew : structuralEngine.tree load actual with
    | error fault =>
      cases fault with
      | unread reason => exact absurd hnew (hread actual reason)
      | comparison | other => rfl
    | ok new => rfl

/-! Runs -/

namespace Miner

variable {ν : Type} {miner : Miner ν} {range : Range}

theorem referenceRecords_of_none : miner.referenceRecords (fun _ _ => none) range = [] := by
  have hrecords (path : String) : miner.recordsOf (fun _ _ => none) range path = [] := by
    rw [recordsOf]
    split
    next => rfl
    next => exact List.flatMap_eq_nil_iff.2 fun _ _ => rfl
  rw [referenceRecords, List.flatMap_eq_nil_iff.2 fun path _ => hrecords path]
  rfl

variable [Scale ν] {compare : ByteArray → ByteArray → Option (List Change)} {request : Request}
  {start stop : ν}

theorem run_of_unusable_grammar (hengine : miner.engine = structuralEngine load thresholds)
    (hload : load "java" = .error reason) (hmonitor : miner.monitor = .never)
    (h : miner.IsPrepared compare request range start stop) (hsnapshots : miner.HasSnapshots range)
    (sink : Sink) (directory : Directory)
    : let outcome := miner.run request (initial sink directory false)
      outcome.run.phase = .completed
        ∧ ∃ tally, outcome.result = .ok tally ∧ tally.records = [] := by
  have hcompare : compare = fun _ _ => none := by
    funext older newer
    rw [← h.engine ⟨"", some older⟩ ⟨"", some newer⟩ older newer rfl rfl, hengine,
      computes_structuralEngine_of_unusable hload _ _ older newer rfl rfl]
  subst hcompare
  obtain ⟨hphase, tally, hresult, hrecords⟩ :=
    run_of_hasSnapshots hmonitor h hsnapshots sink directory
  exact ⟨hphase, tally, hresult, hrecords.trans referenceRecords_of_none⟩

end Miner
end MethodHistory
