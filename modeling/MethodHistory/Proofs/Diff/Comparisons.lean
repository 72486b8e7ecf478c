import MethodHistory.Proofs.Diff.Accounts

/-!
This module contains the comparisons of lists that the comparison of two bodies consists of. What
the latter finds comes from their steps: one stray for each element that is dropped or added.
-/

namespace MethodHistory
namespace BodyDiff

/--
A comparison of two statement lists at a place, or of the parts of two compound statements of one
kind.
-/
inductive Comparison where
  | statements (olds news : List Statement) (place : Place)
  | parts (olds news : List (Clause Statement))
      (oldAlternative newAlternative : Option (Clause Statement)) (place : Place)

mutual

def comparisons (threshold : Float) (olds news : List Statement) (place : Place)
    : List Comparison :=
  .statements olds news place :: (steps (isPairable threshold) olds news).attach.flatMap fun
    | ⟨.pair old new, _h⟩ => comparisonsOfPair threshold old new place
    | _ => []
termination_by sizeOf olds
decreasing_by exact List.sizeOf_lt_of_mem (mem_of_mem_steps _h)

def comparisonsOfPair (threshold : Float) (old new : Statement) (place : Place)
    : List Comparison :=
  match old, new with
  | .compound _ _ _ oldClauses oldAlternative, .compound head _ _ clauses alternative =>
    let inside := place.within head
    .parts oldClauses clauses oldAlternative alternative inside
      :: (clauseSteps oldClauses clauses).attach.flatMap (fun
        | ⟨.pair old new, _h⟩ => comparisons threshold old.body new.body (inside.inRole new.role)
        | _ => [])
      ++ match oldAlternative, alternative with
        | some old, some new => comparisons threshold old.body new.body (inside.inRole "else")
        | _, _ => []
  | _, _ => []
termination_by sizeOf old
decreasing_by
  . exact Statement.sizeOf_body_lt_of_mem (mem_of_mem_clauseSteps _h)
  . exact Statement.sizeOf_body_lt_of_alternative rfl

end

def stepComparisons (threshold : Float) (place : Place) : Step Statement → List Comparison
  | .pair old new => comparisonsOfPair threshold old new place
  | _ => []

def clauseStepComparisons (threshold : Float) (place : Place)
    : Step (Clause Statement) → List Comparison
  | .pair old new => comparisons threshold old.body new.body (place.inRole new.role)
  | _ => []

def alternativeComparisons (threshold : Float) (place : Place)
    : Option (Clause Statement) → Option (Clause Statement) → List Comparison
  | some old, some new => comparisons threshold old.body new.body (place.inRole "else")
  | _, _ => []

theorem flatMap_attach {α β : Type} (xs : List α) (f : α → List β)
    : xs.attach.flatMap (fun x => f x.val) = xs.flatMap f := by
  rw [← List.flatMap_map, List.attach_map_subtype_val]

theorem comparisons_eq (threshold : Float) (olds news : List Statement) (place : Place)
    : comparisons threshold olds news place
        =
      .statements olds news place
        :: (steps (isPairable threshold) olds news).flatMap (stepComparisons threshold place) := by
  rw [comparisons, ← flatMap_attach _ (stepComparisons threshold place)]
  congr 2
  funext ⟨step, _⟩
  cases step <;> rfl

theorem comparisonsOfPair_compound (threshold : Float) (place : Place) (oldHead newHead : Fragment)
    (oldCondition oldHeader newCondition newHeader : String)
    (oldClauses newClauses : List (Clause Statement))
    (oldAlternative newAlternative : Option (Clause Statement))
    : comparisonsOfPair threshold
        (.compound oldHead oldCondition oldHeader oldClauses oldAlternative)
        (.compound newHead newCondition newHeader newClauses newAlternative) place
        =
      .parts oldClauses newClauses oldAlternative newAlternative (place.within newHead)
        :: ((clauseSteps oldClauses newClauses).flatMap
            (clauseStepComparisons threshold (place.within newHead))
          ++ alternativeComparisons threshold (place.within newHead) oldAlternative
            newAlternative) := by
  rw [comparisonsOfPair.eq_def, ← flatMap_attach _ (clauseStepComparisons threshold _)]
  dsimp only
  rw [List.cons_append]
  congr 3
  funext ⟨step, _⟩
  cases step <;> rfl

theorem comparisonsOfPair_of_leaf {threshold : Float} {old new : Statement} {place : Place}
    (hleaf : old.isCompound = false ∨ new.isCompound = false)
    : comparisonsOfPair threshold old new place = [] := by
  cases old with
  | leaf => rw [comparisonsOfPair]; simp
  | compound =>
    cases new with
    | leaf => rw [comparisonsOfPair]; simp
    | compound => simp [Statement.isCompound] at hleaf

/-! The strays of a comparison -/

end BodyDiff

def Edit.IsInPlace (edit : Edit) : Prop :=
  edit.kind ∈ [ChangeKind.conditionExpressionChange, .statementUpdate, .alternativePartInsert,
    .alternativePartDelete]

namespace BodyDiff

namespace Comparison

def deleted (threshold : Float) : Comparison → List Stray
  | statements olds news place =>
    (Account.ofSteps (steps (isPairable threshold) olds news)).dropped.map (.ofStatement place)
  | parts olds news _ _ place =>
    (Account.ofSteps (clauseSteps olds news)).dropped.map (.ofClause place)

def inserted (threshold : Float) : Comparison → List Stray
  | statements olds news place =>
    (Account.ofSteps (steps (isPairable threshold) olds news)).added.map (.ofStatement place)
  | parts olds news _ _ place =>
    (Account.ofSteps (clauseSteps olds news)).added.map (.ofClause place)

end Comparison

structure Gathers (threshold : Float) (found : Findings) (comparisons : List Comparison)
    : Prop where
  edits : ∀ edit ∈ found.edits, edit.IsInPlace
  deleted : found.deleted.Perm (comparisons.flatMap (Comparison.deleted threshold))
  inserted : found.inserted.Perm (comparisons.flatMap (Comparison.inserted threshold))

variable {threshold : Float} {place : Place}

theorem Gathers.nothing : Gathers threshold .nothing [] :=
  ⟨List.forall_mem_nil _, .nil, .nil⟩

theorem Gathers.edit {kind : ChangeKind} {entity : String} {before after : Option String}
    (h : Edit.IsInPlace ⟨kind, entity, before, after⟩)
    : Gathers threshold (.edit kind entity before after) [] :=
  ⟨List.forall_mem_singleton.2 h, .nil, .nil⟩

theorem Gathers.append {found more : Findings} {comparisons others : List Comparison}
    (h : Gathers threshold found comparisons) (hmore : Gathers threshold more others)
    : Gathers threshold (found ++ more) (comparisons ++ others) := by
  refine ⟨List.forall_mem_append.2 ⟨h.edits, hmore.edits⟩, ?_, ?_⟩
  . rw [List.flatMap_append]
    exact h.deleted.append hmore.deleted
  . rw [List.flatMap_append]
    exact h.inserted.append hmore.inserted

theorem gathers_join {α : Type} {steps : List (Step α)} {toStray : α → Stray}
    {finding : Step α → Findings} {inner : Step α → List Comparison} {whole : Comparison}
    (hdeleted : whole.deleted threshold = (Account.ofSteps steps).dropped.map toStray)
    (hinserted : whole.inserted threshold = (Account.ofSteps steps).added.map toStray)
    (hdrop : ∀ old, finding (.drop old) = .delete (toStray old) ∧ inner (.drop old) = [])
    (hadd : ∀ new, finding (.add new) = .insert (toStray new) ∧ inner (.add new) = [])
    (hpair : ∀ old new, .pair old new ∈ steps →
      Gathers threshold (finding (.pair old new)) (inner (.pair old new)))
    : Gathers threshold (.join (steps.map finding)) (whole :: steps.flatMap inner) := by
  suffices (∀ edit ∈ (Findings.join (steps.map finding)).edits, edit.IsInPlace)
      ∧ (Findings.join (steps.map finding)).deleted.Perm
        ((Account.ofSteps steps).dropped.map toStray
          ++ (steps.flatMap inner).flatMap (Comparison.deleted threshold))
      ∧ (Findings.join (steps.map finding)).inserted.Perm
        ((Account.ofSteps steps).added.map toStray
          ++ (steps.flatMap inner).flatMap (Comparison.inserted threshold)) by
    rw [← hdeleted, ← hinserted] at this
    exact ⟨this.1, this.2.1, this.2.2⟩
  clear hdeleted hinserted
  induction steps with
  | nil => exact ⟨List.forall_mem_nil _, .nil, .nil⟩
  | cons step steps ih =>
    obtain ⟨hedits, hdeleted, hinserted⟩ := ih fun old new hmem =>
      hpair old new (List.mem_cons_of_mem _ hmem)
    rw [List.map_cons, List.flatMap_cons]
    change (∀ edit ∈ (finding step ++ .join (steps.map finding)).edits, edit.IsInPlace)
      ∧ (finding step ++ .join (steps.map finding)).deleted.Perm _
      ∧ (finding step ++ .join (steps.map finding)).inserted.Perm _
    cases step with
    | drop old =>
      rw [(hdrop old).1, (hdrop old).2]
      exact ⟨hedits, hdeleted.cons _, hinserted⟩
    | add new =>
      rw [(hadd new).1, (hadd new).2]
      exact ⟨hedits, hdeleted, hinserted.cons _⟩
    | pair old new =>
      have hfirst := hpair old new List.mem_cons_self
      rw [List.flatMap_append, List.flatMap_append]
      refine ⟨List.forall_mem_append.2 ⟨hfirst.edits, hedits⟩, ?_, ?_⟩
      . exact (hfirst.deleted.append hdeleted).trans (List.perm_append_comm_assoc _ _ _)
      . exact (hfirst.inserted.append hinserted).trans (List.perm_append_comm_assoc _ _ _)

theorem gathers_heading (entity oldCondition oldHeader newCondition newHeader : String)
    : Gathers threshold (heading entity oldCondition oldHeader newCondition newHeader) [] := by
  rw [heading]
  dsimp only
  split
  . exact .edit (by simp [Edit.IsInPlace])
  . split
    . exact .edit (by simp [Edit.IsInPlace])
    . exact .nothing

theorem gathers_alternativeFinding {old new : Option (Clause Statement)}
    (h : ∀ oldClause ∈ old, ∀ newClause ∈ new, ∀ place,
      Gathers threshold (lists threshold oldClause.body newClause.body place)
        (comparisons threshold oldClause.body newClause.body place))
    : Gathers threshold (alternativeFinding threshold place old new)
        (alternativeComparisons threshold place old new) := by
  cases old with
  | none =>
    cases new with
    | none => exact .nothing
    | some new => exact .edit (by simp [Edit.IsInPlace])
  | some old =>
    cases new with
    | none => exact .edit (by simp [Edit.IsInPlace])
    | some new => exact h old rfl new rfl _

theorem gathers_pair_leaf {old new : Statement}
    (hleaf : old.isCompound = false ∨ new.isCompound = false)
    : Gathers threshold (pair threshold old new place)
        (comparisonsOfPair threshold old new place) := by
  rw [pair_of_leaf hleaf, comparisonsOfPair_of_leaf hleaf]
  split
  . exact .edit (by simp [Edit.IsInPlace])
  . exact .nothing

mutual

theorem gathers_lists (threshold : Float) (olds news : List Statement) (place : Place)
    : Gathers threshold (lists threshold olds news place)
        (comparisons threshold olds news place) := by
  rw [lists_eq, comparisons_eq]
  apply gathers_join rfl rfl (fun _ => ⟨rfl, rfl⟩) (fun _ => ⟨rfl, rfl⟩)
  intro old new hpair
  exact gathers_pair threshold old new place
termination_by sizeOf olds
decreasing_by exact List.sizeOf_lt_of_mem (mem_of_mem_steps hpair)

theorem gathers_pair (threshold : Float) (old new : Statement) (place : Place)
    : Gathers threshold (pair threshold old new place)
        (comparisonsOfPair threshold old new place) := by
  match old, new with
  | .leaf _, _ => exact gathers_pair_leaf (.inl rfl)
  | _, .leaf _ => exact gathers_pair_leaf (.inr rfl)
  | .compound oldHead oldCondition oldHeader oldClauses oldAlternative,
      .compound newHead newCondition newHeader newClauses newAlternative =>
    have hclauses : ∀ old new, .pair old new ∈ clauseSteps oldClauses newClauses → ∀ place,
        Gathers threshold (lists threshold old.body new.body place)
          (comparisons threshold old.body new.body place) := by
      intro oldClause newClause hpair place
      exact gathers_lists threshold oldClause.body newClause.body place
    have halternatives : ∀ oldClause ∈ oldAlternative, ∀ newClause ∈ newAlternative, ∀ place,
        Gathers threshold (lists threshold oldClause.body newClause.body place)
          (comparisons threshold oldClause.body newClause.body place) := by
      intro oldClause holdClause newClause hnewClause place
      exact gathers_lists threshold oldClause.body newClause.body place
    rw [pair_compound, comparisonsOfPair_compound]
    have hparts : Gathers threshold (.join ((clauseSteps oldClauses newClauses).map
          (clauseFinding threshold (place.within newHead))))
        (.parts oldClauses newClauses oldAlternative newAlternative (place.within newHead)
          :: (clauseSteps oldClauses newClauses).flatMap
            (clauseStepComparisons threshold (place.within newHead))) := by
      apply gathers_join rfl rfl (fun _ => ⟨rfl, rfl⟩) (fun _ => ⟨rfl, rfl⟩)
      exact fun oldClause newClause hpair => hclauses oldClause newClause hpair _
    exact ((gathers_heading _ _ _ _ _).append hparts).append
      (gathers_alternativeFinding halternatives)
termination_by sizeOf old
decreasing_by
  . exact Statement.sizeOf_body_lt_of_mem (mem_of_mem_clauseSteps hpair)
  . exact Statement.sizeOf_body_lt_of_alternative holdClause

end

/-! The insertions and deletions that are reported -/

theorem exists_added_of_insert {olds news : List Statement} {edit : Edit}
    (h : edit ∈ bodyEdits threshold olds news) (hkind : edit.kind = .statementInsert)
    : ∃ landing ∈ (outcome threshold olds news).added,
        edit = ⟨.statementInsert, landing.head.kind, none, landing.head.text⟩ := by
  rw [bodyEdits_eq_outcome, List.mem_append, Resolution.mem_edits] at h
  rcases h with h | ⟨move, hmove, rfl⟩ | ⟨stray, -, rfl⟩ | h
  . have hinPlace := (gathers_lists threshold olds news .body).edits edit h
    simp [Edit.IsInPlace, hkind] at hinPlace
  . have hmoved := Resolution.kind_of_mem_moves hmove
    change move.kind = .statementInsert at hkind
    simp [hkind] at hmoved
  . contradiction
  . exact h

theorem exists_removed_of_delete {olds news : List Statement} {edit : Edit}
    (h : edit ∈ bodyEdits threshold olds news) (hkind : edit.kind = .statementDelete)
    : ∃ stray ∈ (outcome threshold olds news).removed,
        edit = ⟨.statementDelete, stray.head.kind, stray.head.text, none⟩ := by
  rw [bodyEdits_eq_outcome, List.mem_append, Resolution.mem_edits] at h
  rcases h with h | ⟨move, hmove, rfl⟩ | h | ⟨landing, -, rfl⟩
  . have hinPlace := (gathers_lists threshold olds news .body).edits edit h
    simp [Edit.IsInPlace, hkind] at hinPlace
  . have hmoved := Resolution.kind_of_mem_moves hmove
    change move.kind = .statementDelete at hkind
    simp [hkind] at hmoved
  . exact h
  . contradiction

/-! The statements of a comparison -/

def Comparison.IsOf (oldBody newBody : List Statement) : Comparison → Prop
  | statements olds news _ =>
    (∀ statement ∈ olds, Inside oldBody statement) ∧ ∀ statement ∈ news, Inside newBody statement
  | parts olds news oldAlternative newAlternative _ =>
    ∃ oldHead oldCondition oldHeader newHead newCondition newHeader,
      Inside oldBody (.compound oldHead oldCondition oldHeader olds oldAlternative)
        ∧ Inside newBody (.compound newHead newCondition newHeader news newAlternative)

theorem forall_mem_alternativeComparisons {p : Comparison → Prop}
    {old new : Option (Clause Statement)}
    (h : ∀ oldClause ∈ old, ∀ newClause ∈ new, ∀ place,
      ∀ comparison ∈ comparisons threshold oldClause.body newClause.body place, p comparison)
    : ∀ comparison ∈ alternativeComparisons threshold place old new, p comparison := by
  cases old with
  | none => cases new <;> exact List.forall_mem_nil _
  | some old =>
    cases new with
    | none => exact List.forall_mem_nil _
    | some new => exact h old rfl new rfl _

section

variable {oldBody newBody : List Statement}

mutual

theorem isOf_of_mem_comparisons {olds news : List Statement} {place : Place}
    (holds : ∀ statement ∈ olds, Inside oldBody statement)
    (hnews : ∀ statement ∈ news, Inside newBody statement)
    : ∀ comparison ∈ comparisons threshold olds news place, comparison.IsOf oldBody newBody := by
  rw [comparisons_eq, List.forall_mem_cons]
  refine ⟨⟨holds, hnews⟩, ?_⟩
  intro comparison hcomparison
  obtain ⟨step, hstep, hcomparison⟩ := List.mem_flatMap.1 hcomparison
  have habout := isAbout_of_mem_steps hstep
  cases step with
  | drop => contradiction
  | add => contradiction
  | pair old new =>
    obtain ⟨hold, hnew, -⟩ := habout
    exact isOf_of_mem_comparisonsOfPair (holds old hold) (hnews new hnew) comparison hcomparison
termination_by sizeOf olds
decreasing_by exact List.sizeOf_lt_of_mem hold

theorem isOf_of_mem_comparisonsOfPair {old new : Statement} {place : Place}
    (hold : Inside oldBody old) (hnew : Inside newBody new)
    : ∀ comparison ∈ comparisonsOfPair threshold old new place,
        comparison.IsOf oldBody newBody := by
  match old, new with
  | .leaf _, _ =>
    rw [comparisonsOfPair_of_leaf (.inl rfl)]
    exact List.forall_mem_nil _
  | _, .leaf _ =>
    rw [comparisonsOfPair_of_leaf (.inr rfl)]
    exact List.forall_mem_nil _
  | .compound oldHead oldCondition oldHeader oldClauses oldAlternative,
      .compound newHead newCondition newHeader newClauses newAlternative =>
    rw [comparisonsOfPair_compound, List.forall_mem_cons, List.forall_mem_append]
    refine ⟨⟨_, _, _, _, _, _, hold, hnew⟩, ?_, ?_⟩
    . intro comparison hcomparison
      obtain ⟨step, hstep, hcomparison⟩ := List.mem_flatMap.1 hcomparison
      have habout := isAbout_of_mem_clauseSteps hstep
      cases step with
      | drop => contradiction
      | add => contradiction
      | pair oldClause newClause =>
        obtain ⟨holdClause, hnewClause, -⟩ := habout
        refine isOf_of_mem_comparisons ?_ ?_ comparison hcomparison
        . exact fun statement hstatement => .clause hold holdClause hstatement
        . exact fun statement hstatement => .clause hnew hnewClause hstatement
    . apply forall_mem_alternativeComparisons
      intro oldClause holdClause newClause hnewClause place
      apply isOf_of_mem_comparisons
      . exact fun statement hstatement => .alternative hold holdClause hstatement
      . exact fun statement hstatement => .alternative hnew hnewClause hstatement
termination_by sizeOf old
decreasing_by
  . exact Statement.sizeOf_body_lt_of_mem holdClause
  . exact Statement.sizeOf_body_lt_of_alternative holdClause

end

end

end BodyDiff
end MethodHistory
