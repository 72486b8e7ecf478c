import MethodHistory.Alignment
import MethodHistory.Change.Basic
import MethodHistory.FirstFit
import MethodHistory.Similarity
import MethodHistory.Syntax.Statement
import MethodHistory.Table

/-!
This module contains the comparison of two method bodies. Statement lists are aligned by the texts
of their statements; in a gap, statements are paired in order, and the lists inside paired compound
statements are compared in the same way. What one side lacks is collected and resolved at the end:
statements that vanish in one place and turn up with the same text in another have moved.
-/

namespace MethodHistory

structure Edit where
  kind : ChangeKind
  entity : String
  before : Option String
  after : Option String
  deriving DecidableEq

structure Thresholds where
  rename : Float
  update : Float

def Thresholds.default : Thresholds :=
  ⟨0.7, 0.6⟩

/--
The place of a statement list in the new version: the compound statements and the roles around it.
-/
structure Place where
  path : String
  deriving DecidableEq

namespace Place

def body : Place :=
  ⟨"body"⟩

def within (place : Place) (head : Fragment) : Place :=
  ⟨place.path ++ "/" ++ head.kind ++ "@" ++ toString head.start⟩

def inRole (place : Place) (role : String) : Place :=
  ⟨place.path ++ "/" ++ role⟩

end Place

inductive Step (α : Type) where
  | drop (old : α)
  | add (new : α)
  | pair (old new : α)

/--
A statement or clause that the other side lacks, with all that comes or goes with it.
-/
structure Stray where
  head : Fragment
  place : Place
  nested : List Fragment

namespace Stray

def ofStatement (place : Place) (statement : Statement) : Stray :=
  ⟨statement.head, place, statement.nested⟩

def ofClause (place : Place) (clause : Clause Statement) : Stray :=
  ⟨clause.head, place, clause.nested⟩

end Stray

structure Findings where
  edits : List Edit
  deleted : List Stray
  inserted : List Stray

namespace Findings

def nothing : Findings :=
  ⟨[], [], []⟩

def edit (kind : ChangeKind) (entity : String) (before after : Option String) : Findings :=
  ⟨[⟨kind, entity, before, after⟩], [], []⟩

def delete (stray : Stray) : Findings :=
  ⟨[], [stray], []⟩

def insert (stray : Stray) : Findings :=
  ⟨[], [], [stray]⟩

instance : Append Findings where
  append found more :=
    ⟨found.edits ++ more.edits, found.deleted ++ more.deleted, found.inserted ++ more.inserted⟩

def join (findings : List Findings) : Findings :=
  findings.foldr (· ++ ·) nothing

end Findings

namespace BodyDiff

def isPairable (threshold : Float) (old new : Statement) : Bool :=
  old.kind = new.kind
    && (old.isCompound || Similarity.reaches threshold (similarity old.head.source new.head.source))

/--
The pairing in a gap: each old statement takes the first statement that it can pair with behind the
partner of the one before. The old statements without a partner come first.
-/
def pairUp (isPairable : Statement → Statement → Bool)
    : List Statement → List Statement → List Statement × List (Option Statement × Statement)
  | [], news => ([], news.map (none, ·))
  | old :: olds, news =>
    match news.span (!isPairable old ·) with
    | (skipped, new :: news) =>
      let (unpaired, rest) := pairUp isPairable olds news
      (unpaired, skipped.map (none, ·) ++ (some old, new) :: rest)
    | (_, []) =>
      let (unpaired, rest) := pairUp isPairable olds news
      (old :: unpaired, rest)

def gapSteps (isPairable : Statement → Statement → Bool) (olds news : List Statement)
    : List (Step Statement) :=
  let (unpaired, rest) := pairUp isPairable olds news
  unpaired.map .drop ++ rest.map fun
    | (some old, new) => .pair old new
    | (none, new) => .add new

def steps (isPairable : Statement → Statement → Bool) (olds news : List Statement)
    : List (Step Statement) :=
  (align Statement.text (fun _ => true) olds news).flatMap fun
    | .run .. => []
    | .gap olds news => gapSteps isPairable olds news

/--
The steps for the clauses of two compound statements of one kind: clauses are paired by role. Of the
old clauses with one role the last one counts, and each is paired once.
-/
def clauseSteps (olds news : List (Clause Statement)) : List (Step (Clause Statement)) :=
  let (news, unpaired) :=
    firstFit (fun new old : Clause Statement => old.role = new.role) news
      (Table.latest Clause.role olds)
  (news.map fun
    | (new, some old) => .pair old new
    | (new, none) => .add new) ++ unpaired.map .drop

theorem mem_of_mem_pairUp {isPairable : Statement → Statement → Bool} {olds news : List Statement}
    {old new : Statement} (h : (some old, new) ∈ (pairUp isPairable olds news).2) : old ∈ olds := by
  induction olds generalizing news with
  | nil => simp [pairUp] at h
  | cons o olds ih =>
    rw [pairUp] at h
    split at h
    . rcases List.mem_append.1 h with h | h
      . simp at h
      . rcases List.mem_cons.1 h with h | h
        . cases h
          exact List.mem_cons_self
        . exact List.mem_cons_of_mem _ (ih h)
    . exact List.mem_cons_of_mem _ (ih h)

theorem mem_of_mem_align {α κ : Type} [DecidableEq κ] {key : α → κ} {seed : κ → Bool}
    {olds news gapOlds gapNews : List α} (h : .gap gapOlds gapNews ∈ align key seed olds news)
    {old : α} (hold : old ∈ gapOlds) : old ∈ olds := by
  fun_induction align key seed olds news with
  | case1 => simp at h
  | case2 =>
    cases List.mem_singleton.1 h
    exact hold
  | case3 olds news _ run ih₁ ih₂ =>
    rcases List.mem_append.1 h with h | h
    . exact List.mem_of_mem_take (ih₁ h)
    . rcases List.mem_cons.1 h with h | h
      . cases h
      . exact List.mem_of_mem_drop (ih₂ h)

theorem mem_of_mem_steps {isPairable : Statement → Statement → Bool} {olds news : List Statement}
    {old new : Statement} (h : .pair old new ∈ steps isPairable olds news) : old ∈ olds := by
  obtain ⟨segment, hs, h⟩ := List.mem_flatMap.1 h
  cases segment with
  | run => cases h
  | gap gapOlds gapNews =>
    refine mem_of_mem_align hs ?_
    rcases List.mem_append.1 h with h | h
    . obtain ⟨_, _, h⟩ := List.mem_map.1 h
      cases h
    . obtain ⟨⟨paired, new⟩, hp, h⟩ := List.mem_map.1 h
      cases paired with
      | none => cases h
      | some old =>
        cases h
        exact mem_of_mem_pairUp hp

theorem mem_of_mem_clauseSteps {olds news : List (Clause Statement)} {old new : Clause Statement}
    (h : .pair old new ∈ clauseSteps olds news) : old ∈ olds := by
  rcases List.mem_append.1 h with h | h
  . obtain ⟨⟨n, paired⟩, hp, h⟩ := List.mem_map.1 h
    cases paired with
    | none => cases h
    | some o =>
      cases h
      exact Table.mem_of_mem_latest (mem_of_mem_firstFit hp)
  . obtain ⟨_, _, h⟩ := List.mem_map.1 h
    cases h

/--
The finding about the condition of a compound statement, or else about the text in front of its
body. A missing condition is reported by that text.
-/
def heading (entity oldCondition oldHeader newCondition newHeader : String) : Findings :=
  let orHeader (condition header : String) := if condition.isEmpty then header else condition
  if oldCondition ≠ newCondition then
    .edit .conditionExpressionChange entity (orHeader oldCondition oldHeader)
      (orHeader newCondition newHeader)
  else if oldHeader ≠ newHeader then
    .edit .statementUpdate entity oldHeader newHeader
  else
    .nothing

mutual

def lists (threshold : Float) (olds news : List Statement) (place : Place) : Findings :=
  .join <| (steps (isPairable threshold) olds news).attach.map fun
    | ⟨.drop old, _⟩ => .delete (.ofStatement place old)
    | ⟨.add new, _⟩ => .insert (.ofStatement place new)
    | ⟨.pair old new, _h⟩ => pair threshold old new place
termination_by sizeOf olds
decreasing_by exact List.sizeOf_lt_of_mem (mem_of_mem_steps _h)

def pair (threshold : Float) (old new : Statement) (place : Place) : Findings :=
  match old, new with
  | .compound _ oldCondition oldHeader oldClauses oldAlternative,
      .compound head condition header clauses alternative =>
    let inside := place.within head
    heading head.kind oldCondition oldHeader condition header
      ++ .join ((clauseSteps oldClauses clauses).attach.map fun
        | ⟨.drop old, _⟩ => .delete (.ofClause inside old)
        | ⟨.add new, _⟩ => .insert (.ofClause inside new)
        | ⟨.pair old new, _h⟩ => lists threshold old.body new.body (inside.inRole new.role))
      ++ match oldAlternative, alternative with
        | none, none => .nothing
        | none, some new => .edit .alternativePartInsert "else" none new.head.text
        | some old, none => .edit .alternativePartDelete "else" old.head.text none
        | some old, some new => lists threshold old.body new.body (inside.inRole "else")
  | old, new =>
    if old.text ≠ new.text then .edit .statementUpdate new.kind old.text new.text else .nothing
termination_by sizeOf old
decreasing_by
  . have := List.sizeOf_lt_of_mem (mem_of_mem_clauseSteps _h)
    have := Statement.sizeOf_body_lt old
    simp only [Statement.compound.sizeOf_spec]
    omega
  . have := Statement.sizeOf_body_lt old
    simp only [Statement.compound.sizeOf_spec, Option.some.sizeOf_spec]
    omega

end

structure Landing where
  head : Fragment
  place : Option Place

def landings (inserted : List Stray) : List Landing :=
  (inserted.map fun stray => ⟨stray.head, stray.place⟩)
    ++ inserted.flatMap fun stray => stray.nested.map (⟨·, none⟩)

def moveKind (stray : Stray) (landing : Landing) : ChangeKind :=
  if landing.place = some stray.place then .statementOrderingChange else .statementParentChange

/--
The moves of vanished statements, then the moves of statements out of a vanished one, then what is
left of the deletions and of the insertions.
-/
def resolve (deleted inserted : List Stray) : List Edit :=
  let (vanished, free) :=
    firstFit (fun (stray : Stray) (landing : Landing) => landing.head.text = stray.head.text)
      deleted (landings inserted)
  let (arrived, _) :=
    firstFit (fun (landing : Landing) (head : Fragment) => head.text = landing.head.text)
      (free.filter (·.place.isSome)) (deleted.flatMap Stray.nested)
  vanished.filterMap (fun
      | (stray, some landing) =>
        some ⟨moveKind stray landing, landing.head.kind, stray.head.text, stray.head.text⟩
      | (_, none) => none)
    ++ arrived.filterMap (fun
      | (landing, some _) =>
        some ⟨.statementParentChange, landing.head.kind, landing.head.text, landing.head.text⟩
      | (_, none) => none)
    ++ vanished.filterMap (fun
      | (stray, none) => some ⟨.statementDelete, stray.head.kind, stray.head.text, none⟩
      | (_, some _) => none)
    ++ arrived.filterMap (fun
      | (landing, none) => some ⟨.statementInsert, landing.head.kind, none, landing.head.text⟩
      | (_, some _) => none)

end BodyDiff

def bodyEdits (threshold : Float) (olds news : List Statement) : List Edit :=
  let findings := BodyDiff.lists threshold olds news .body
  findings.edits ++ BodyDiff.resolve findings.deleted findings.inserted

end MethodHistory
