import MethodHistory.Engine
import MethodHistory.Proofs.Diff.Fragments
import MethodHistory.Proofs.Diff.Matching

/-!
This module contains what becomes of the changes of methods that a comparison of two files reports:
if no text is blank, all of them are events, but for conditions that come or go unseen.
-/

namespace MethodHistory

inductive Inside (body : List Statement) : Statement → Prop where
  | here {statement : Statement} (h : statement ∈ body) : Inside body statement
  | clause {head : Fragment} {condition header : String} {clauses : List (Clause Statement)}
      {alternative : Option (Clause Statement)} {clause : Clause Statement} {statement : Statement}
      (h : Inside body (.compound head condition header clauses alternative))
      (hclause : clause ∈ clauses) (hstatement : statement ∈ clause.body) : Inside body statement
  | alternative {head : Fragment} {condition header : String} {clauses : List (Clause Statement)}
      {alternative : Option (Clause Statement)} {clause : Clause Statement} {statement : Statement}
      (h : Inside body (.compound head condition header clauses alternative))
      (hclause : clause ∈ alternative) (hstatement : statement ∈ clause.body)
      : Inside body statement

namespace Statement

def IsClear : Statement → Prop
  | leaf head => head.text ≠ ""
  | compound head condition header clauses alternative =>
    head.text ≠ "" ∧ (header = "" ↔ head.kind = "block") ∧ (head.kind = "block" → condition = "")
      ∧ (∀ clause ∈ clauses, clause.head.text ≠ "")
      ∧ ∀ clause ∈ alternative, clause.head.text ≠ ""

theorem IsClear.text_ne {statement : Statement} (h : statement.IsClear) : statement.text ≠ "" := by
  cases statement with
  | leaf => exact h
  | compound => exact h.1

end Statement

namespace BodyDiff

def shownCondition (condition header : String) : String :=
  if condition.isEmpty then header else condition

inductive Obscured (oldBody newBody : List Statement) : Edit → Prop where
  | intro {oldHead newHead : Fragment} {oldCondition oldHeader newCondition newHeader : String}
      {oldClauses newClauses : List (Clause Statement)}
      {oldAlternative newAlternative : Option (Clause Statement)}
      (hold : Inside oldBody
        (.compound oldHead oldCondition oldHeader oldClauses oldAlternative))
      (hnew : Inside newBody
        (.compound newHead newCondition newHeader newClauses newAlternative))
      (hkind : oldHead.kind = newHead.kind)
      (h : oldCondition = "" ∧ oldHeader = newCondition
        ∨ newCondition = "" ∧ newHeader = oldCondition)
      : Obscured oldBody newBody
          ⟨.conditionExpressionChange, newHead.kind, shownCondition oldCondition oldHeader,
            shownCondition newCondition newHeader⟩

structure AreClear (oldBody newBody : List Statement) (findings : Findings) : Prop where
  edits : ∀ edit ∈ findings.edits, edit.IsTold ∨ Obscured oldBody newBody edit
  deleted : ∀ stray ∈ findings.deleted, stray.head.text ≠ ""
  inserted : ∀ stray ∈ findings.inserted, stray.head.text ≠ ""

variable {threshold : Float} {oldBody newBody : List Statement} {found more : Findings}

theorem AreClear.nothing : AreClear oldBody newBody .nothing :=
  ⟨List.forall_mem_nil _, List.forall_mem_nil _, List.forall_mem_nil _⟩

theorem AreClear.append (h : AreClear oldBody newBody found) (hmore : AreClear oldBody newBody more)
    : AreClear oldBody newBody (found ++ more) :=
  ⟨List.forall_mem_append.2 ⟨h.edits, hmore.edits⟩,
    List.forall_mem_append.2 ⟨h.deleted, hmore.deleted⟩,
    List.forall_mem_append.2 ⟨h.inserted, hmore.inserted⟩⟩

theorem AreClear.join {findings : List Findings}
    (h : ∀ found ∈ findings, AreClear oldBody newBody found)
    : AreClear oldBody newBody (.join findings) := by
  induction findings with
  | nil => exact .nothing
  | cons found findings ih =>
    rw [List.forall_mem_cons] at h
    exact h.1.append (ih h.2)

theorem AreClear.delete {stray : Stray} (h : stray.head.text ≠ "")
    : AreClear oldBody newBody (.delete stray) :=
  ⟨List.forall_mem_nil _, List.forall_mem_singleton.2 h, List.forall_mem_nil _⟩

theorem AreClear.insert {stray : Stray} (h : stray.head.text ≠ "")
    : AreClear oldBody newBody (.insert stray) :=
  ⟨List.forall_mem_nil _, List.forall_mem_nil _, List.forall_mem_singleton.2 h⟩

theorem AreClear.edit {kind : ChangeKind} {entity : String} {before after : Option String}
    (h : kind.accepts before after) : AreClear oldBody newBody (.edit kind entity before after) :=
  ⟨List.forall_mem_singleton.2 (.inl h), List.forall_mem_nil _, List.forall_mem_nil _⟩

/-! What the steps are about -/

end BodyDiff

def Step.IsAbout {α : Type} (r : α → α → Prop) (olds news : List α) : Step α → Prop
  | .drop old => old ∈ olds
  | .add new => new ∈ news
  | .pair old new => old ∈ olds ∧ new ∈ news ∧ r old new

namespace BodyDiff

theorem isAbout_of_mem_clauseSteps {olds news : List (Clause Statement)}
    {step : Step (Clause Statement)} (h : step ∈ clauseSteps olds news)
    : step.IsAbout (fun _ _ => True) olds news := by
  rw [clauseSteps, List.mem_append] at h
  rcases h with h | h
  . obtain ⟨⟨new, partner⟩, hfound, rfl⟩ := List.mem_map.1 h
    have hnew := List.mem_map_of_mem (f := Prod.fst) hfound
    rw [map_fst_firstFit] at hnew
    cases partner with
    | none => exact hnew
    | some old => exact ⟨Table.mem_of_mem_latest (mem_of_mem_firstFit hfound), hnew, trivial⟩
  . obtain ⟨old, hold, rfl⟩ := List.mem_map.1 h
    exact Table.mem_of_mem_latest (mem_free_of_mem_firstFit hold)

theorem isAbout_of_mem_pairUp {isPairable : Statement → Statement → Bool}
    (olds news : List Statement)
    : (∀ old ∈ (pairUp isPairable olds news).1, old ∈ olds)
      ∧ ∀ found ∈ (pairUp isPairable olds news).2,
        found.2 ∈ news ∧ ∀ old ∈ found.1, old ∈ olds ∧ isPairable old found.2 := by
  induction olds generalizing news with
  | nil => simp [pairUp]
  | cons first olds ih =>
    rw [pairUp]
    split
    next skipped new rest hspan =>
      obtain ⟨rfl, hfits⟩ := eq_append_of_span hspan
      obtain ⟨hunpaired, hrest⟩ := ih rest
      refine ⟨fun old hold => List.mem_cons_of_mem _ (hunpaired old hold), ?_⟩
      rw [List.forall_mem_append, List.forall_mem_cons]
      refine ⟨?_, ⟨?_, ?_⟩, ?_⟩
      . intro found hfound
        obtain ⟨other, hother, rfl⟩ := List.mem_map.1 hfound
        exact ⟨List.mem_append_left _ hother, by simp⟩
      . exact List.mem_append_right _ List.mem_cons_self
      . rintro old ⟨⟩
        exact ⟨List.mem_cons_self, by simpa using hfits⟩
      . intro found hfound
        obtain ⟨hnew, hold⟩ := hrest found hfound
        refine ⟨List.mem_append_right _ (List.mem_cons_of_mem _ hnew), ?_⟩
        exact fun old hmem => (hold old hmem).imp_left (List.mem_cons_of_mem _)
    next =>
      obtain ⟨hunpaired, hrest⟩ := ih news
      constructor
      . rw [List.forall_mem_cons]
        exact ⟨List.mem_cons_self, fun old hold => List.mem_cons_of_mem _ (hunpaired old hold)⟩
      . intro found hfound
        obtain ⟨hnew, hold⟩ := hrest found hfound
        exact ⟨hnew, fun old hmem => (hold old hmem).imp_left (List.mem_cons_of_mem _)⟩

theorem isAbout_of_mem_gapSteps {isPairable : Statement → Statement → Bool}
    {olds news : List Statement} {step : Step Statement} (h : step ∈ gapSteps isPairable olds news)
    : step.IsAbout (fun old new => isPairable old new) olds news := by
  obtain ⟨hunpaired, hfound⟩ := @isAbout_of_mem_pairUp isPairable olds news
  rw [gapSteps, List.mem_append] at h
  rcases h with h | h
  . obtain ⟨old, hold, rfl⟩ := List.mem_map.1 h
    exact hunpaired old hold
  . obtain ⟨⟨partner, new⟩, hmem, rfl⟩ := List.mem_map.1 h
    obtain ⟨hnew, hold⟩ := hfound _ hmem
    cases partner with
    | none => exact hnew
    | some old => exact ⟨(hold old rfl).1, hnew, (hold old rfl).2⟩

theorem isAbout_of_mem_steps {isPairable : Statement → Statement → Bool}
    {olds news : List Statement} {step : Step Statement} (h : step ∈ steps isPairable olds news)
    : step.IsAbout (fun old new => isPairable old new) olds news := by
  obtain ⟨segment, hsegment, h⟩ := List.mem_flatMap.1 h
  cases segment with
  | run => contradiction
  | gap gapOlds gapNews =>
    have holds : ∀ old ∈ gapOlds, old ∈ olds := by
      intro old hold
      rw [← @align_flatMap_olds _ _ _ Statement.text (fun _ => true) olds news]
      exact List.mem_flatMap.2 ⟨_, hsegment, hold⟩
    have hnews : ∀ new ∈ gapNews, new ∈ news := by
      intro new hnew
      rw [← @align_flatMap_news _ _ _ Statement.text (fun _ => true) olds news]
      exact List.mem_flatMap.2 ⟨_, hsegment, hnew⟩
    have hgap := isAbout_of_mem_gapSteps h
    cases step with
    | drop old => exact holds old hgap
    | add new => exact hnews new hgap
    | pair old new => exact ⟨holds old hgap.1, hnews new hgap.2.1, hgap.2.2⟩

/-! What is found -/

theorem shownCondition_ne_empty {condition header : String} (h : header ≠ "")
    : shownCondition condition header ≠ "" := by
  rw [shownCondition]
  split
  next => exact h
  next hempty => rwa [String.isEmpty_iff] at hempty

theorem shownCondition_ne {oldCondition oldHeader newCondition newHeader : String}
    (hcondition : oldCondition ≠ newCondition)
    (hold : ¬(oldCondition = "" ∧ oldHeader = newCondition))
    (hnew : ¬(newCondition = "" ∧ newHeader = oldCondition))
    : shownCondition oldCondition oldHeader ≠ shownCondition newCondition newHeader := by
  rw [shownCondition, shownCondition]
  simp only [String.isEmpty_iff]
  split
  next hempty =>
    rw [if_neg (fun h => hcondition (hempty.trans h.symm))]
    exact fun h => hold ⟨hempty, h⟩
  next =>
    split
    next hempty => exact fun h => hnew ⟨hempty, h.symm⟩
    next => exact hcondition

theorem areClear_heading {oldHead newHead : Fragment}
    {oldCondition oldHeader newCondition newHeader : String}
    {oldClauses newClauses : List (Clause Statement)}
    {oldAlternative newAlternative : Option (Clause Statement)}
    (hold : Inside oldBody (.compound oldHead oldCondition oldHeader oldClauses oldAlternative))
    (hnew : Inside newBody (.compound newHead newCondition newHeader newClauses newAlternative))
    (hkind : oldHead.kind = newHead.kind)
    (holdHeader : oldHeader = "" ↔ oldHead.kind = "block")
    (hnewHeader : newHeader = "" ↔ newHead.kind = "block")
    (holdCondition : oldHead.kind = "block" → oldCondition = "")
    (hnewCondition : newHead.kind = "block" → newCondition = "")
    : AreClear oldBody newBody
        (heading newHead.kind oldCondition oldHeader newCondition newHeader) := by
  have hheaders (hdifferent : oldCondition ≠ newCondition ∨ oldHeader ≠ newHeader)
      : oldHeader ≠ "" ∧ newHeader ≠ "" := by
    have hblock : newHead.kind ≠ "block" := by
      intro hnewBlock
      have holdBlock := hkind.trans hnewBlock
      rcases hdifferent with hdifferent | hdifferent
      . exact hdifferent ((holdCondition holdBlock).trans (hnewCondition hnewBlock).symm)
      . exact hdifferent ((holdHeader.2 holdBlock).trans (hnewHeader.2 hnewBlock).symm)
    exact ⟨mt holdHeader.1 (hkind ▸ hblock), mt hnewHeader.1 hblock⟩
  rw [heading]
  dsimp only
  split
  next hcondition =>
    obtain ⟨hold', hnew'⟩ := hheaders (.inl hcondition)
    by_cases hobscured : oldCondition = "" ∧ oldHeader = newCondition
      ∨ newCondition = "" ∧ newHeader = oldCondition
    . exact ⟨List.forall_mem_singleton.2 (.inr (.intro hold hnew hkind hobscured)),
        List.forall_mem_nil _, List.forall_mem_nil _⟩
    . rw [not_or] at hobscured
      apply AreClear.edit
      exact ChangeKind.accepts_replaced (shownCondition_ne_empty hold')
        (shownCondition_ne_empty hnew')
        fun _ => shownCondition_ne hcondition hobscured.1 hobscured.2
  next =>
    split
    next hheader =>
      obtain ⟨hold', hnew'⟩ := hheaders (.inr hheader)
      exact .edit (ChangeKind.accepts_replaced hold' hnew' fun _ => hheader)
    next => exact .nothing

theorem areClear_alternativeFinding {place : Place} {old new : Option (Clause Statement)}
    (hold : ∀ clause ∈ old, clause.head.text ≠ "") (hnew : ∀ clause ∈ new, clause.head.text ≠ "")
    (h : ∀ oldClause ∈ old, ∀ newClause ∈ new, ∀ place, AreClear oldBody newBody
      (lists threshold oldClause.body newClause.body place))
    : AreClear oldBody newBody (alternativeFinding threshold place old new) := by
  cases old with
  | none =>
    cases new with
    | none => exact .nothing
    | some new => exact .edit (ChangeKind.accepts_added rfl rfl (hnew new rfl))
  | some old =>
    cases new with
    | none => exact .edit (ChangeKind.accepts_removed rfl rfl (hold old rfl))
    | some new => exact h old rfl new rfl _

theorem areClear_clauseFinding {place : Place} {olds news : List (Clause Statement)}
    (hold : ∀ clause ∈ olds, clause.head.text ≠ "") (hnew : ∀ clause ∈ news, clause.head.text ≠ "")
    (h : ∀ oldClause ∈ olds, ∀ newClause ∈ news, ∀ place, AreClear oldBody newBody
      (lists threshold oldClause.body newClause.body place)) {step : Step (Clause Statement)}
    (hstep : step ∈ clauseSteps olds news)
    : AreClear oldBody newBody (clauseFinding threshold place step) := by
  have habout := isAbout_of_mem_clauseSteps hstep
  cases step with
  | drop old => exact .delete (hold old habout)
  | add new => exact .insert (hnew new habout)
  | pair old new => exact h old habout.1 new habout.2.1 _

theorem areClear_pair_leaf {old new : Statement} {place : Place}
    (hleaf : old.isCompound = false ∨ new.isCompound = false) (hold : old.text ≠ "")
    (hnew : new.text ≠ "") : AreClear oldBody newBody (pair threshold old new place) := by
  rw [pair_of_leaf hleaf]
  split
  next htext => exact .edit (ChangeKind.accepts_replaced hold hnew fun _ => htext)
  next => exact .nothing

section

variable (holdClear : ∀ statement, Inside oldBody statement → statement.IsClear)
  (hnewClear : ∀ statement, Inside newBody statement → statement.IsClear)

include holdClear hnewClear

mutual

theorem areClear_lists {olds news : List Statement} {place : Place}
    (holds : ∀ statement ∈ olds, Inside oldBody statement)
    (hnews : ∀ statement ∈ news, Inside newBody statement)
    : AreClear oldBody newBody (lists threshold olds news place) := by
  rw [lists_eq]
  apply AreClear.join
  intro found hfound
  obtain ⟨step, hstep, rfl⟩ := List.mem_map.1 hfound
  have habout := isAbout_of_mem_steps hstep
  cases step with
  | drop old => exact .delete (holdClear old (holds old habout)).text_ne
  | add new => exact .insert (hnewClear new (hnews new habout)).text_ne
  | pair old new =>
    obtain ⟨hold, hnew, hpairable⟩ := habout
    exact areClear_pair (holds old hold) (hnews new hnew) hpairable
termination_by sizeOf olds
decreasing_by exact List.sizeOf_lt_of_mem hold

theorem areClear_pair {old new : Statement} {place : Place} (hold : Inside oldBody old)
    (hnew : Inside newBody new) (hpairable : isPairable threshold old new)
    : AreClear oldBody newBody (pair threshold old new place) := by
  match old, new with
  | .leaf _, _ =>
    exact areClear_pair_leaf (.inl rfl) (holdClear _ hold).text_ne (hnewClear _ hnew).text_ne
  | _, .leaf _ =>
    exact areClear_pair_leaf (.inr rfl) (holdClear _ hold).text_ne (hnewClear _ hnew).text_ne
  | .compound oldHead oldCondition oldHeader oldClauses oldAlternative,
      .compound newHead newCondition newHeader newClauses newAlternative =>
    obtain ⟨-, holdHeader, holdCondition, holdClauses, holdAlternative⟩ := holdClear _ hold
    obtain ⟨-, hnewHeader, hnewCondition, hnewClauses, hnewAlternative⟩ := hnewClear _ hnew
    rw [isPairable, Bool.and_eq_true] at hpairable
    have hkind : oldHead.kind = newHead.kind := of_decide_eq_true hpairable.1
    have hclauses : ∀ oldClause ∈ oldClauses, ∀ newClause ∈ newClauses, ∀ place,
        AreClear oldBody newBody (lists threshold oldClause.body newClause.body place) := by
      intro oldClause holdClause newClause hnewClause place
      apply areClear_lists
      . intro statement hstatement
        exact .clause hold holdClause hstatement
      . intro statement hstatement
        exact .clause hnew hnewClause hstatement
    have halternative : ∀ oldClause ∈ oldAlternative, ∀ newClause ∈ newAlternative, ∀ place,
        AreClear oldBody newBody (lists threshold oldClause.body newClause.body place) := by
      intro oldClause holdClause newClause hnewClause place
      apply areClear_lists
      . intro statement hstatement
        exact .alternative hold holdClause hstatement
      . intro statement hstatement
        exact .alternative hnew hnewClause hstatement
    rw [pair_compound]
    apply AreClear.append
    . apply AreClear.append
        (areClear_heading hold hnew hkind holdHeader hnewHeader holdCondition hnewCondition)
      apply AreClear.join
      intro found hfound
      obtain ⟨step, hstep, rfl⟩ := List.mem_map.1 hfound
      exact areClear_clauseFinding holdClauses hnewClauses hclauses hstep
    . exact areClear_alternativeFinding holdAlternative hnewAlternative halternative
termination_by sizeOf old
decreasing_by
  . exact Statement.sizeOf_body_lt_of_mem holdClause
  . exact Statement.sizeOf_body_lt_of_alternative holdClause

end

theorem isTold_of_mem_bodyEdits {edit : Edit}
    (h : edit ∈ bodyEdits threshold oldBody newBody)
    : edit.IsTold ∨ Obscured oldBody newBody edit := by
  have hclear : AreClear oldBody newBody (lists threshold oldBody newBody .body) :=
    areClear_lists holdClear hnewClear (fun _ => .here) (fun _ => .here)
  rw [bodyEdits, List.mem_append] at h
  rcases h with h | h
  . exact hclear.edits edit h
  . exact .inl (isTold_of_mem_resolve hclear.deleted hclear.inserted h)

end

end BodyDiff

structure Method.IsClear (method : Method) : Prop where
  name_ne : method.name ≠ ""
  returnType_ne : method.returnType ≠ some ""
  statements : ∀ statement, Inside method.body statement → statement.IsClear

theorem isTold_of_mem_methodEdits {threshold : Float} {old new : Method} {edit : Edit}
    (hold : old.IsClear) (hnew : new.IsClear) (h : edit ∈ methodEdits threshold old new)
    : edit.IsTold ∨ BodyDiff.Obscured old.body new.body edit := by
  rw [methodEdits] at h
  simp only [List.mem_append] at h
  rcases h with ((((h | h) | h) | h) | h) | h
  . exact .inl (MethodDiff.isTold_of_mem_nameEdits hold.name_ne hnew.name_ne h)
  . exact .inl (MethodDiff.isTold_of_mem_accessEdits h)
  . exact .inl (MethodDiff.isTold_of_mem_returnTypeEdits hold.returnType_ne hnew.returnType_ne h)
  . exact .inl (isTold_of_mem_parameterEdits h)
  . exact .inl (MethodDiff.isTold_of_mem_docEdits h)
  . exact BodyDiff.isTold_of_mem_bodyEdits hold.statements hnew.statements h

/-! Syntax trees -/

namespace Node

def methodNodes (root : Node) : List Node :=
  root.types.flatMap fun type =>
    (type.members.map Prod.snd).filter
      (["method_declaration", "constructor_declaration"].contains ·.kind)

inductive IsStatementOf (body : Option Node) : Node → Prop where
  | here {node : Node} (h : node ∈ statementsOf body) : IsStatementOf body node
  | part {node child : Node} {layout : Layout} {part : Clause Node} (h : IsStatementOf body node)
      (hlayout : Layout.ofKind? node.kind = some layout) (hpart : part ∈ node.parts layout)
      (hchild : child ∈ part.body) : IsStatementOf body child
  | alternative {node child : Node} {part : Clause Node} (h : IsStatementOf body node)
      (hpart : node.alternative? = some part) (hchild : child ∈ part.body)
      : IsStatementOf body child

def IsGrammatical (node : Node) : Prop :=
  node.kind = "block" → node.child? "condition" = none

/--
A statement with no blank text where one is read: of itself, its condition, its clauses, its
alternative, and, unless it is a block, in front of its body.
-/
structure IsLegible (node : Node) : Prop where
  text_ne : Text.normalize node.text ≠ ""
  condition_ne : ∀ condition, node.child? "condition" = some condition →
    Text.normalize condition.text ≠ ""
  header_ne : ∀ layout, Layout.ofKind? node.kind = some layout → node.kind ≠ "block" →
    node.header layout ≠ ""
  parts_ne : ∀ layout, Layout.ofKind? node.kind = some layout → ∀ part ∈ node.parts layout,
    part.head.text ≠ ""
  alternative_ne : ∀ part, node.alternative? = some part → part.head.text ≠ ""

/--
A method or constructor with a name, a return type if it is a method, and legible statements.
-/
structure IsLegibleMethod (node : Node) : Prop where
  name_ne : node.childText "name" ≠ ""
  type_ne : node.kind = "method_declaration" → node.normalChildText "type" ≠ ""
  statements : ∀ statement, IsStatementOf (node.child? "body") statement → statement.IsLegible
  grammatical : ∀ statement, IsStatementOf (node.child? "body") statement → statement.IsGrammatical

/--
A statement without a condition, next to another one whose condition is the text in front of its
body.
-/
structure LacksCondition (one other : Node) : Prop where
  condition_eq : one.child? "condition" = none
  header_eq : ∀ layout, Layout.ofKind? one.kind = some layout →
    one.header layout = other.normalChildText "condition"

def shownCondition (node : Node) : String :=
  BodyDiff.shownCondition (node.normalChildText "condition")
    (((Layout.ofKind? node.kind).map node.header).getD "")

/--
A change of the condition of a statement that one of its versions lacks.
-/
structure Obscures (one other : Node) (change : Change) : Prop where
  kind_eq : one.kind = other.kind
  lacks : one.LacksCondition other ∨ other.LacksCondition one
  entity_eq : change.entity = some other.kind
  before_eq : change.before = some one.shownCondition
  after_eq : change.after = some other.shownCondition

theorem kind_of_mem_methodNodes {root node : Node} (h : node ∈ root.methodNodes)
    : node.kind = "method_declaration" ∨ node.kind = "constructor_declaration" := by
  obtain ⟨type, -, h⟩ := List.mem_flatMap.1 h
  simpa using (List.mem_filter.1 h).2

theorem exists_mem_methodNodes {root : Node} {method : Method} (h : method ∈ root.methods)
    : ∃ node ∈ root.methodNodes, ∃ owner default previous,
        method = .ofNode owner default previous node := by
  obtain ⟨type, htype, h⟩ := List.mem_flatMap.1 h
  obtain ⟨⟨previous, member⟩, hmember, h⟩ := List.mem_filterMap.1 h
  dsimp only at h
  split at h
  next hkind =>
    cases h
    refine ⟨member, ?_, _, _, _, rfl⟩
    exact List.mem_flatMap.2
      ⟨type, htype, List.mem_filter.2 ⟨List.mem_map_of_mem (f := Prod.snd) hmember, hkind⟩⟩
  next => contradiction

end Node

namespace Statement

theorem exists_layout {node : Node} {head : Fragment} {condition header : String}
    {clauses : List (Clause Statement)} {alternative : Option (Clause Statement)}
    (h : compound head condition header clauses alternative = ofNode node)
    : ∃ layout, Layout.ofKind? node.kind = some layout ∧ head = .ofNode node
        ∧ condition = node.normalChildText "condition" ∧ header = node.header layout
        ∧ clauses = (node.parts layout).map (fun part =>
          ⟨part.role, part.head, part.body.map ofNode⟩)
        ∧ alternative = node.alternative?.map fun part =>
          ⟨part.role, part.head, part.body.map ofNode⟩ := by
  cases hlayout : Layout.ofKind? node.kind with
  | none =>
    rw [ofNode_leaf hlayout] at h
    contradiction
  | some layout =>
    rw [ofNode_compound hlayout, compound.injEq] at h
    exact ⟨layout, rfl, h⟩

theorem exists_isStatementOf {body : Option Node} {statement : Statement}
    (h : Inside (ofBody body) statement)
    : ∃ node, Node.IsStatementOf body node ∧ statement = ofNode node := by
  induction h with
  | here h =>
    obtain ⟨node, hnode, rfl⟩ := List.mem_map.1 h
    exact ⟨node, .here hnode, rfl⟩
  | clause _ hclause hstatement ih =>
    obtain ⟨node, hnode, heq⟩ := ih
    obtain ⟨layout, hlayout, -, -, -, rfl, -⟩ := exists_layout heq
    obtain ⟨part, hpart, rfl⟩ := List.mem_map.1 hclause
    obtain ⟨child, hchild, rfl⟩ := List.mem_map.1 hstatement
    exact ⟨child, .part hnode hlayout hpart hchild, rfl⟩
  | alternative _ hclause hstatement ih =>
    obtain ⟨node, hnode, heq⟩ := ih
    obtain ⟨layout, hlayout, -, -, -, -, rfl⟩ := exists_layout heq
    obtain ⟨part, hpart, rfl⟩ := Option.map_eq_some_iff.1 hclause
    obtain ⟨child, hchild, rfl⟩ := List.mem_map.1 hstatement
    exact ⟨child, .alternative hnode hpart hchild, rfl⟩

theorem isClear_ofNode {node : Node} (h : node.IsLegible) (hgrammar : node.IsGrammatical)
    : (ofNode node).IsClear := by
  cases hlayout : Layout.ofKind? node.kind with
  | none =>
    rw [ofNode_leaf hlayout]
    exact h.text_ne
  | some layout =>
    rw [ofNode_compound hlayout]
    refine ⟨h.text_ne, ⟨?_, ?_⟩, ?_, ?_, ?_⟩
    . intro hheader
      by_contra hkind
      exact h.header_ne layout hlayout hkind hheader
    . intro hkind
      have hkind : node.kind = "block" := hkind
      rw [hkind] at hlayout
      cases hlayout
      rfl
    . intro hkind
      rw [Node.normalChildText, Node.childText, hgrammar hkind]
      rfl
    . intro clause hclause
      obtain ⟨part, hpart, rfl⟩ := List.mem_map.1 hclause
      exact h.parts_ne layout hlayout part hpart
    . intro clause hclause
      obtain ⟨part, hpart, rfl⟩ := Option.map_eq_some_iff.1 hclause
      exact h.alternative_ne part hpart

end Statement

theorem Method.isClear_ofNode {node : Node} (h : node.IsLegibleMethod)
    (hkind : node.kind = "method_declaration" ∨ node.kind = "constructor_declaration")
    (owner : String) (default : Access) (previous : Option Node)
    : (Method.ofNode owner default previous node).IsClear := by
  constructor
  . exact h.name_ne
  . rw [Method.ofNode]
    dsimp only
    split
    next => exact (Option.some_ne_none _).symm
    next hreturned =>
      rw [Bool.or_eq_true, not_or, decide_eq_true_iff] at hreturned
      have htype := h.type_ne (hkind.resolve_right hreturned.1)
      exact fun hsome => htype (Option.some_inj.1 hsome)
  . intro statement hstatement
    obtain ⟨child, hchild, rfl⟩ := Statement.exists_isStatementOf hstatement
    exact Statement.isClear_ofNode (h.statements child hchild) (h.grammatical child hchild)

/-! The changes of a file -/

namespace Change

def inFile (file : String) (change : Change) : Event :=
  ⟨change.kind, change.method, file, change.owner, change.entity, change.before, change.after⟩

def isVague (change : Change) : Bool :=
  change.kind = .conditionExpressionChange && !change.kind.accepts change.before change.after

variable {change : Change} {file : String}

theorem event?_of_method_eq_none (h : change.method = none) : change.event? file = none := by
  have hcomplete : (change.inFile file).isComplete = false := by
    simp [inFile, Event.isComplete, isPresent, h]
  exact if_neg (Bool.eq_false_iff.1 hcomplete)

theorem event?_of_method (hmethod : isPresent change.method) (hfile : file ≠ "")
    : change.event? file
        =
      if change.kind.accepts change.before change.after then some (change.inFile file) else none
    := by
  have hcomplete : (change.inFile file).isComplete
      = change.kind.accepts change.before change.after := by
    simp only [inFile, Event.isComplete, ChangeKind.accepts, hmethod, isPresent_some.2 hfile,
      Bool.true_and]
    rfl
  rw [← hcomplete]
  rfl

end Change

theorem Method.signature_ne_empty (method : Method) : method.signature ≠ "" := by
  intro h
  have hlength := congrArg String.length h
  simp [signature] at hlength

namespace FileDiff

theorem exists_edit_of_mem_methodChange {threshold : Float} {matching : List MethodMatch}
    {olds : List Method} {new : Placed} {change : Change}
    (h : change ∈ methodChange threshold matching olds new) (hmethod : change.method.isSome)
    : ∃ old ∈ olds, ∃ edit ∈ methodEdits threshold old new.method,
        change = ofEdit new.method edit := by
  rw [methodChange] at h
  split at h
  next old hfound =>
    obtain ⟨found, -, hold⟩ := Option.bind_eq_some_iff.1 hfound
    obtain ⟨edit, hedit, rfl⟩ := List.mem_map.1 h
    exact ⟨old, List.mem_of_getElem? hold, edit, hedit, rfl⟩
  next =>
    rw [List.mem_singleton.1 h] at hmethod
    contradiction

end FileDiff

theorem exists_edit_of_mem_fileChanges {thresholds : Thresholds} {old new : Node} {change : Change}
    (h : change ∈ fileChanges thresholds old new) (hmethod : change.method.isSome)
    : ∃ oldMethod ∈ old.methods, ∃ newMethod ∈ new.methods,
        ∃ edit ∈ methodEdits thresholds.update oldMethod newMethod,
          change = FileDiff.ofEdit newMethod edit := by
  rw [fileChanges, List.mem_append, List.mem_append] at h
  rcases h with (h | h) | h
  . rw [FileDiff.method_eq_none_of_mem_typeChanges h] at hmethod
    contradiction
  . rw [FileDiff.method_eq_none_of_mem_fieldChanges h] at hmethod
    contradiction
  . rw [FileDiff.methodChanges, List.mem_append] at h
    rcases h with h | h
    . obtain ⟨placed, hplaced, h⟩ := List.mem_flatMap.1 h
      obtain ⟨oldMethod, hold, edit, hedit, rfl⟩ :=
        FileDiff.exists_edit_of_mem_methodChange h hmethod
      exact ⟨oldMethod, hold, placed.method,
        List.mem_of_getElem? (Placed.mem_all.1 hplaced), edit, hedit, rfl⟩
    . obtain ⟨_, -, rfl⟩ := List.mem_map.1 h
      contradiction

namespace Node

theorem child?_eq_none_of_isLegible {node : Node} (h : node.IsLegible)
    (hcondition : node.normalChildText "condition" = "") : node.child? "condition" = none := by
  cases hchild : node.child? "condition" with
  | none => rfl
  | some condition =>
    rw [normalChildText, childText, hchild] at hcondition
    exact absurd hcondition (h.condition_ne condition hchild)

theorem exists_obscures {oldBody newBody : Option Node} {method : Method} {edit : Edit}
    (hold : ∀ node, IsStatementOf oldBody node → node.IsLegible)
    (hnew : ∀ node, IsStatementOf newBody node → node.IsLegible)
    (h : BodyDiff.Obscured (Statement.ofBody oldBody) (Statement.ofBody newBody) edit)
    : edit.kind = .conditionExpressionChange
        ∧ ∃ one other, IsStatementOf oldBody one ∧ IsStatementOf newBody other
          ∧ one.Obscures other (FileDiff.ofEdit method edit) := by
  obtain ⟨holdInside, hnewInside, hkind, h⟩ := h
  obtain ⟨one, hone, heq⟩ := Statement.exists_isStatementOf holdInside
  obtain ⟨oldLayout, holdLayout, rfl, rfl, rfl, -, -⟩ := Statement.exists_layout heq
  obtain ⟨other, hother, heq⟩ := Statement.exists_isStatementOf hnewInside
  obtain ⟨newLayout, hnewLayout, rfl, rfl, rfl, -, -⟩ := Statement.exists_layout heq
  have hkind : one.kind = other.kind := hkind
  refine ⟨rfl, one, other, hone, hother, hkind, ?_, rfl, ?_, ?_⟩
  . rcases h with ⟨hcondition, hheader⟩ | ⟨hcondition, hheader⟩
    . refine .inl ⟨child?_eq_none_of_isLegible (hold one hone) hcondition, ?_⟩
      intro layout hlayout
      obtain rfl := Option.some_inj.1 (holdLayout.symm.trans hlayout)
      exact hheader
    . refine .inr ⟨child?_eq_none_of_isLegible (hnew other hother) hcondition, ?_⟩
      intro layout hlayout
      obtain rfl := Option.some_inj.1 (hnewLayout.symm.trans hlayout)
      exact hheader
  . rw [shownCondition, holdLayout]
    rfl
  . rw [shownCondition, hnewLayout]
    rfl

end Node

section

variable {thresholds : Thresholds} {old new : Node}
  (hold : ∀ node ∈ old.methodNodes, node.IsLegibleMethod)
  (hnew : ∀ node ∈ new.methodNodes, node.IsLegibleMethod)

include hold hnew

theorem accepts_of_mem_fileChanges {change : Change} (h : change ∈ fileChanges thresholds old new)
    (hmethod : change.method.isSome)
    : change.kind.accepts change.before change.after
        ∨ change.kind = .conditionExpressionChange
          ∧ ∃ oldMethod ∈ old.methodNodes, ∃ newMethod ∈ new.methodNodes, ∃ one other,
            Node.IsStatementOf (oldMethod.child? "body") one
              ∧ Node.IsStatementOf (newMethod.child? "body") other
              ∧ one.Obscures other change := by
  obtain ⟨oldMethod, holdMethod, newMethod, hnewMethod, edit, hedit, rfl⟩ :=
    exists_edit_of_mem_fileChanges h hmethod
  obtain ⟨oldNode, holdNode, _, _, _, rfl⟩ := Node.exists_mem_methodNodes holdMethod
  obtain ⟨newNode, hnewNode, _, _, _, rfl⟩ := Node.exists_mem_methodNodes hnewMethod
  have holdLegible := hold oldNode holdNode
  have hnewLegible := hnew newNode hnewNode
  have htold := isTold_of_mem_methodEdits
    (Method.isClear_ofNode holdLegible (Node.kind_of_mem_methodNodes holdNode) _ _ _)
    (Method.isClear_ofNode hnewLegible (Node.kind_of_mem_methodNodes hnewNode) _ _ _) hedit
  rcases htold with htold | hobscured
  . exact .inl htold
  . obtain ⟨hkind, one, other, hone, hother, hobscures⟩ :=
      Node.exists_obscures holdLegible.statements hnewLegible.statements hobscured
    exact .inr ⟨hkind, oldNode, holdNode, newNode, hnewNode, one, other, hone, hother, hobscures⟩

theorem event?_of_mem_fileChanges {change : Change} {file : String}
    (h : change ∈ fileChanges thresholds old new) (hfile : file ≠ "")
    : change.event? file
        =
      if change.method.isSome && !change.isVague then some (change.inFile file) else none := by
  cases hmethod : change.method with
  | none => exact Change.event?_of_method_eq_none hmethod
  | some signature =>
    have hsome : change.method.isSome := by
      rw [hmethod]
      rfl
    have hpresent : isPresent change.method := by
      obtain ⟨_, _, newMethod, _, _, _, rfl⟩ := exists_edit_of_mem_fileChanges h hsome
      exact isPresent_some.2 newMethod.signature_ne_empty
    rw [Change.event?_of_method hpresent hfile, Change.isVague]
    rcases accepts_of_mem_fileChanges hold hnew h hsome with haccepts | ⟨hkind, -⟩
    . simp [haccepts]
    . simp [hkind]

end

/--
If no text of the methods is blank, their changes are events, in the same order. Only a change of a
condition can be left out, between two versions of a statement of which one has no condition and
shows the condition of the other one in its header.
-/
theorem events_of_fileChanges (thresholds : Thresholds) {old new : Node} {file : String}
    (hold : ∀ node ∈ old.methodNodes, node.IsLegibleMethod)
    (hnew : ∀ node ∈ new.methodNodes, node.IsLegibleMethod) (hfile : file ≠ "")
    : eventsOf file (.ok (fileChanges thresholds old new))
        = .ok (((fileChanges thresholds old new).filter fun change =>
          change.method.isSome && !change.isVague).map (Change.inFile file))
      ∧ ∀ change ∈ fileChanges thresholds old new, change.method.isSome → change.isVague →
        ∃ oldMethod ∈ old.methodNodes, ∃ newMethod ∈ new.methodNodes, ∃ one other,
          Node.IsStatementOf (oldMethod.child? "body") one
            ∧ Node.IsStatementOf (newMethod.child? "body") other
            ∧ one.Obscures other change := by
  constructor
  . rw [eventsOf.eq_def, ← List.filterMap_eq_map, List.filterMap_filter]
    dsimp only
    congr 1
    apply List.filterMap_congr
    intro change hchange
    exact event?_of_mem_fileChanges hold hnew hchange hfile
  . intro change hchange hmethod hvague
    rw [Change.isVague, Bool.and_eq_true, Bool.not_eq_true'] at hvague
    rcases accepts_of_mem_fileChanges hold hnew hchange hmethod with haccepts | hlacks
    . rw [hvague.2] at haccepts
      contradiction
    . exact hlacks.2

/-! A loop whose condition changes -/

namespace Sample

def placed (start : Nat) (part : Part) : Part :=
  (part.1, { part.2 with start })

def loopOf (condition : String) : Part :=
  placed 23 (branch " " "while_statement" ""
    [token "while", placed 29 (word "parenthesized_expression" "condition" condition),
      placed 33 (branch " " "block" "body" [token "\x7b", token "\x7d"])])

def methodAround (condition : String) : Part :=
  placed 10 (branch " " "method_declaration" ""
    [placed 10 (word "void_type" "type" "void"), placed 15 (word "identifier" "name" "m"),
      placed 17 (branch " " "formal_parameters" "parameters" [token "(", token ")"]),
      placed 21 (branch " " "block" "body" [token "\x7b", loopOf condition, token "\x7d"])])

def fileAround (condition : String) : Node :=
  (fileOf " " [methodAround condition]).2

def declared (condition : String) : Method :=
  .ofNode "A" .package none (methodAround condition).2

variable (condition : String)

theorem methodNodes_fileAround
    : (fileAround condition).methodNodes = [(methodAround condition).2] := by
  rw [fileAround, Node.methodNodes, types_fileOf]
  . rfl
  . exact List.forall_iff_forall_mem.1 (by rfl)

theorem methods_fileAround : (fileAround condition).methods = [declared condition] := by
  rw [fileAround, Node.methods, types_fileOf]
  . rfl
  . exact List.forall_iff_forall_mem.1 (by rfl)

theorem statementsOf_methodAround
    : Node.statementsOf ((methodAround condition).2.child? "body") = [(loopOf condition).2] := by
  rfl

theorem parts_loopOf
    : (loopOf condition).2.parts .bodied
        =
      [.ofNode "body" ((loopOf condition).2.child? "body") []] := by
  rfl

theorem alternative?_loopOf : (loopOf condition).2.alternative? = none := by
  rfl

theorem eq_of_isStatementOf {node : Node}
    (h : Node.IsStatementOf ((methodAround condition).2.child? "body") node)
    : node = (loopOf condition).2 := by
  induction h with
  | here h =>
    rw [statementsOf_methodAround] at h
    exact List.mem_singleton.1 h
  | @part _ _ layout _ _ hlayout hpart hchild ih =>
    subst ih
    obtain rfl : layout = .bodied := (Option.some_inj.1 hlayout).symm
    rw [parts_loopOf, List.mem_singleton] at hpart
    subst hpart
    exact absurd hchild List.not_mem_nil
  | alternative _ hpart _ ih =>
    rw [ih, alternative?_loopOf] at hpart
    cases hpart

def conditions : List String :=
  ["(a)", "(b)"]

theorem texts_loopOf
    : ∀ condition ∈ conditions,
        Text.normalize (loopOf condition).2.text = "while " ++ condition ++ " \x7b \x7d"
          ∧ (loopOf condition).2.header .bodied = "while " ++ condition
          ∧ (loopOf condition).2.normalChildText "condition" = condition
          ∧ (loopOf condition).2.normalChildText "body" = "\x7b \x7d" := by
  decide +kernel

theorem signatures_declared
    : ∀ condition ∈ conditions, (declared condition).signature = "A.m()" := by
  decide +kernel

variable {condition}

theorem isLegible_loopOf (h : condition ∈ conditions) : (loopOf condition).2.IsLegible := by
  obtain ⟨htext, hheader, hcondition, hbody⟩ := texts_loopOf condition h
  have happend (one other : String) (h : one ≠ "") : one ++ other ≠ "" := by
    intro hempty
    exact h (String.append_eq_empty_iff.1 hempty).1
  constructor
  . rw [htext, String.append_assoc]
    exact happend _ _ (by decide)
  . intro node hnode
    cases hnode
    change (loopOf condition).2.normalChildText "condition" ≠ ""
    rw [hcondition]
    rintro rfl
    exact absurd h (by decide)
  . intro layout hlayout _
    obtain rfl : layout = .bodied := (Option.some_inj.1 hlayout).symm
    rw [hheader]
    exact happend _ _ (by decide)
  . intro layout hlayout part hpart
    obtain rfl : layout = .bodied := (Option.some_inj.1 hlayout).symm
    rw [parts_loopOf, List.mem_singleton] at hpart
    subst hpart
    change (loopOf condition).2.normalChildText "body" ≠ ""
    rw [hbody]
    decide
  . intro part hpart
    rw [alternative?_loopOf] at hpart
    cases hpart

theorem isLegibleMethod_of_mem (h : condition ∈ conditions)
    : ∀ node ∈ (fileAround condition).methodNodes, node.IsLegibleMethod := by
  have hwords : Text.Utf8.toText "m".toUTF8 ≠ ""
      ∧ Text.normalize (Text.Utf8.toText "void".toUTF8) ≠ "" := by
    decide +kernel
  rw [methodNodes_fileAround, List.forall_mem_singleton]
  refine ⟨hwords.1, fun _ => hwords.2, ?_, ?_⟩
  . intro statement hstatement
    rw [eq_of_isStatementOf condition hstatement]
    exact isLegible_loopOf h
  . intro statement hstatement hblock
    rw [eq_of_isStatementOf condition hstatement] at hblock
    change "while_statement" = "block" at hblock
    contradiction

theorem ofNode_loopOf (h : condition ∈ conditions)
    : Statement.ofNode (loopOf condition).2
        =
      .compound (.ofNode (loopOf condition).2) condition ("while " ++ condition)
        [.ofNode "body" ((loopOf condition).2.child? "body") []] none := by
  obtain ⟨-, hheader, hcondition, -⟩ := texts_loopOf condition h
  rw [Statement.ofNode_compound rfl, hcondition, hheader, parts_loopOf]
  rfl

def conditionEdit : Edit :=
  ⟨.conditionExpressionChange, "while_statement", "(a)", "(b)"⟩

theorem edits_heading (oldHeader newHeader : String)
    : (BodyDiff.heading "while_statement" "(a)" oldHeader "(b)" newHeader).edits
        =
      [conditionEdit] := by
  have hshown (header : String) : BodyDiff.shownCondition "(a)" header = "(a)"
      ∧ BodyDiff.shownCondition "(b)" header = "(b)" :=
    ⟨if_neg (by decide), if_neg (by decide)⟩
  rw [BodyDiff.heading, if_pos (by decide)]
  change [Edit.mk _ _ (some (BodyDiff.shownCondition "(a)" oldHeader))
    (some (BodyDiff.shownCondition "(b)" newHeader))] = _
  rw [(hshown oldHeader).1, (hshown newHeader).2]
  rfl

theorem conditionEdit_mem_bodyEdits (threshold : Float)
    : conditionEdit ∈ bodyEdits threshold [Statement.ofNode (loopOf "(a)").2]
        [Statement.ofNode (loopOf "(b)").2] := by
  have hold : "(a)" ∈ conditions := by decide
  have hnew : "(b)" ∈ conditions := by decide
  have htext : (Statement.ofNode (loopOf "(a)").2).text
      ≠ (Statement.ofNode (loopOf "(b)").2).text := by
    rw [Statement.text_ofNode, Statement.text_ofNode, (texts_loopOf _ hold).1,
      (texts_loopOf _ hnew).1, ne_eq, String.append_left_inj, String.append_right_inj]
    decide
  rw [bodyEdits, List.mem_append]
  left
  have hkind {condition : String} (h : condition ∈ conditions)
      : (Statement.ofNode (loopOf condition).2).kind = "while_statement"
        ∧ (Statement.ofNode (loopOf condition).2).isCompound := by
    rw [ofNode_loopOf h]
    exact ⟨rfl, rfl⟩
  rw [BodyDiff.lists_singleton_of_compound htext ((hkind hold).1.trans (hkind hnew).1.symm)
    (hkind hold).2, ofNode_loopOf hold, ofNode_loopOf hnew, BodyDiff.pair_compound]
  have hedit : conditionEdit ∈ (BodyDiff.heading (Fragment.ofNode (loopOf "(b)").2).kind "(a)"
      ("while " ++ "(a)") "(b)" ("while " ++ "(b)")).edits := by
    change conditionEdit ∈ (BodyDiff.heading "while_statement" _ _ _ _).edits
    rw [edits_heading]
    exact List.mem_singleton_self _
  exact List.mem_append_left _ (List.mem_append_left _ (List.mem_append_left _ hedit))

theorem find?_methodMatching_declared (threshold : Float)
    : (methodMatching threshold [declared "(a)"] [declared "(b)"]).find? (·.new = 0)
        =
      some ⟨0, 0⟩ := by
  have hsignature : (declared "(a)").signature = (declared "(b)").signature := by
    rw [signatures_declared _ (by decide), signatures_declared _ (by decide)]
  apply @Matching.find?_methodMatching_head _ _ ⟨declared "(a)", 0⟩ ⟨declared "(b)", 0⟩ threshold
    _ rfl
  rw [List.filter_eq_self.2]
  . rfl
  . exact List.forall_iff_forall_mem.1 (decide_eq_true hsignature)

theorem conditionEdit_mem_methodEdits (threshold : Float)
    : conditionEdit ∈ methodEdits threshold (declared "(a)") (declared "(b)") := by
  rw [methodEdits, List.mem_append]
  exact .inr (conditionEdit_mem_bodyEdits threshold)

def conditionChange : Change :=
  FileDiff.ofEdit (declared "(b)") conditionEdit

theorem conditionChange_mem_fileChanges (thresholds : Thresholds)
    : conditionChange ∈ fileChanges thresholds (fileAround "(a)") (fileAround "(b)") := by
  rw [fileChanges, methods_fileAround, methods_fileAround, FileDiff.methodChanges]
  apply List.mem_append_right
  apply List.mem_append_left
  rw [List.mem_flatMap]
  refine ⟨⟨declared "(b)", 0⟩, List.mem_singleton_self _, ?_⟩
  rw [FileDiff.methodChange, find?_methodMatching_declared]
  exact List.mem_map_of_mem (conditionEdit_mem_methodEdits thresholds.update)

end Sample

theorem events_of_changed_condition
    : ∃ events, eventsOf "A.java" (.ok (fileChanges .default (Sample.fileAround "(a)")
          (Sample.fileAround "(b)"))) = .ok events
        ∧ ⟨.conditionExpressionChange, some "A.m()", "A.java", some "A", some "while_statement",
          some "(a)", some "(b)"⟩ ∈ events := by
  obtain ⟨hevents, -⟩ := events_of_fileChanges .default
    (Sample.isLegibleMethod_of_mem (show "(a)" ∈ Sample.conditions by decide))
    (Sample.isLegibleMethod_of_mem (show "(b)" ∈ Sample.conditions by decide))
    (show "A.java" ≠ "" by decide)
  have hchange := Sample.conditionChange_mem_fileChanges .default
  have hevent : Sample.conditionChange.inFile "A.java" = ⟨.conditionExpressionChange, some "A.m()",
      "A.java", some "A", some "while_statement", some "(a)", some "(b)"⟩ := by
    rw [Sample.conditionChange, FileDiff.ofEdit, Sample.signatures_declared _ (by decide)]
    rfl
  rw [← hevent]
  refine ⟨_, hevents, List.mem_map_of_mem (List.mem_filter.2 ⟨hchange, ?_⟩)⟩
  rfl

end MethodHistory
