import MethodHistory.Proofs.Diff.Moves
import MethodHistory.Proofs.Diff.Patch

/-!
This module contains the moves out of what is removed and into what is added: all of them are found
if what goes or comes is a statement or a handler, but none if it is a group or an alternative.
-/

namespace MethodHistory
namespace BodyDiff

inductive LonePart where
  | statement (whole : Statement)
  | clause (part : Clause Statement)
  | alternative (part : Clause Statement)

namespace LonePart

def inner : LonePart → List Fragment
  | statement whole => whole.nested
  | clause part | alternative part => Statement.fragments part.body

def isFollowed : LonePart → Bool
  | statement _ => true
  | clause part => ["catch_clause", "finally_clause"].contains part.head.kind
  | alternative _ => false

end LonePart

def loneAlternative
    : Option (Clause Statement) → Option (Clause Statement) → List (Clause Statement)
  | some part, none => [part]
  | _, _ => []

namespace Comparison

def removed (threshold : Float) : Comparison → List LonePart
  | statements olds news _ =>
    (Account.ofSteps (steps (isPairable threshold) olds news)).dropped.map .statement
  | parts olds news oldAlternative newAlternative _ =>
    (Account.ofSteps (clauseSteps olds news)).dropped.map .clause
      ++ (loneAlternative oldAlternative newAlternative).map .alternative

def added (threshold : Float) : Comparison → List LonePart
  | statements olds news _ =>
    (Account.ofSteps (steps (isPairable threshold) olds news)).added.map .statement
  | parts olds news oldAlternative newAlternative _ =>
    (Account.ofSteps (clauseSteps olds news)).added.map .clause
      ++ (loneAlternative newAlternative oldAlternative).map .alternative

end Comparison

def gone (threshold : Float) (olds news : List Statement) (isCounted : LonePart → Bool)
    : List Fragment :=
  (((comparisons threshold olds news .body).flatMap (Comparison.removed threshold)).filter
    isCounted).flatMap LonePart.inner

def come (threshold : Float) (olds news : List Statement) (isCounted : LonePart → Bool)
    : List Fragment :=
  (((comparisons threshold olds news .body).flatMap (Comparison.added threshold)).filter
    isCounted).flatMap LonePart.inner

/--
As long as a statement is inserted, none with its text that is gone stays unused as the source of a
move, and dually.
-/
structure FindsMoves (threshold : Float) (olds news : List Statement) (isCounted : LonePart → Bool)
    : Prop where
  sources : ∀ edit ∈ bodyEdits threshold olds news, edit.kind = .statementInsert →
    ((gone threshold olds news isCounted).filter (some ·.text = edit.after)).Subperm
      ((outcome threshold olds news).moves.map Move.source)
  targets : ∀ edit ∈ bodyEdits threshold olds news, edit.kind = .statementDelete →
    ((come threshold olds news isCounted).filter (some ·.text = edit.before)).Subperm
      ((outcome threshold olds news).moves.map Move.target)

/-! What is followed is what the strays bring with them -/

theorem flatMap_inner_filter (parts : List LonePart)
    : (parts.filter LonePart.isFollowed).flatMap LonePart.inner
        =
      parts.flatMap fun part => if part.isFollowed then part.inner else [] := by
  induction parts with
  | nil => rfl
  | cons part parts ih =>
    rw [List.filter_cons, List.flatMap_cons]
    split
    . rw [List.flatMap_cons, ih]
    . rw [ih, List.nil_append]

theorem inner_followed (statements : List Statement) (clauses : List (Clause Statement))
    (alternatives : List (Clause Statement)) (place : Place)
    : ((statements.map LonePart.statement).filter LonePart.isFollowed).flatMap LonePart.inner
          = (statements.map (Stray.ofStatement place)).flatMap Stray.nested
        ∧ ((clauses.map LonePart.clause ++ alternatives.map LonePart.alternative).filter
            LonePart.isFollowed).flatMap LonePart.inner
          = (clauses.map (Stray.ofClause place)).flatMap Stray.nested := by
  rw [flatMap_inner_filter, flatMap_inner_filter, List.flatMap_append, List.flatMap_map,
    List.flatMap_map, List.flatMap_map, List.flatMap_map, List.flatMap_map]
  refine ⟨rfl, ?_⟩
  have halternatives : (alternatives.flatMap fun part =>
      if (LonePart.alternative part).isFollowed then (LonePart.alternative part).inner else [])
        = [] := List.flatMap_eq_nil_iff.2 fun _ _ => rfl
  rw [halternatives, List.append_nil]
  rfl

theorem inner_removed (threshold : Float) (comparison : Comparison)
    : ((comparison.removed threshold).filter LonePart.isFollowed).flatMap LonePart.inner
        =
      (comparison.deleted threshold).flatMap Stray.nested := by
  cases comparison with
  | statements olds news place => exact (inner_followed _ [] [] place).1
  | parts olds news oldAlternative newAlternative place => exact (inner_followed [] _ _ place).2

theorem inner_added (threshold : Float) (comparison : Comparison)
    : ((comparison.added threshold).filter LonePart.isFollowed).flatMap LonePart.inner
        =
      (comparison.inserted threshold).flatMap Stray.nested := by
  cases comparison with
  | statements olds news place => exact (inner_followed _ [] [] place).1
  | parts olds news oldAlternative newAlternative place => exact (inner_followed [] _ _ place).2

theorem perm_gone (threshold : Float) (olds news : List Statement)
    : (gone threshold olds news LonePart.isFollowed).Perm
        ((lists threshold olds news .body).deleted.flatMap Stray.nested) := by
  have hgathers := (gathers_lists threshold olds news .body).deleted.flatMap_right Stray.nested
  rw [List.flatMap_assoc] at hgathers
  rw [gone, List.filter_flatMap, List.flatMap_assoc]
  simp only [inner_removed]
  exact hgathers.symm

theorem perm_come (threshold : Float) (olds news : List Statement)
    : (come threshold olds news LonePart.isFollowed).Perm
        ((lists threshold olds news .body).inserted.flatMap Stray.nested) := by
  have hgathers := (gathers_lists threshold olds news .body).inserted.flatMap_right Stray.nested
  rw [List.flatMap_assoc] at hgathers
  rw [come, List.filter_flatMap, List.flatMap_assoc]
  simp only [inner_added]
  exact hgathers.symm

theorem filter_subperm_used {α : Type} {used unused whole : List α} {p : α → Bool}
    (hperm : (used ++ unused).Perm whole) (h : ∀ x ∈ unused, p x = false)
    : (whole.filter p).Subperm used := by
  have hunused : unused.filter p = [] := by
    rw [List.filter_eq_nil_iff]
    exact fun x hx hp => absurd hp (by simp [h x hx])
  have hfilter := hperm.filter p
  rw [List.filter_append, hunused, List.append_nil] at hfilter
  exact hfilter.symm.subperm.trans List.filter_sublist.subperm

/--
All moves out of removed statements and handlers are found, and so are those into added ones.
-/
theorem findsMoves_followed (threshold : Float) (olds news : List Statement)
    : FindsMoves threshold olds news LonePart.isFollowed := by
  have hsettles := settles_resolution (lists threshold olds news .body).deleted
    (lists threshold olds news .body).inserted
  constructor
  . intro edit hedit hkind
    obtain ⟨landing, hlanding, rfl⟩ := exists_added_of_insert hedit hkind
    have hunused : ∀ fragment ∈ (outcome threshold olds news).unusedSources,
        decide (some fragment.text = (some landing.head.text : Option String)) = false :=
      fun fragment hfragment => decide_eq_false fun h =>
        hsettles.added_text landing hlanding fragment hfragment (Option.some.inj h)
    apply ((perm_gone threshold olds news).filter _).subperm.trans
    apply (filter_subperm_used hsettles.sources_perm hunused).trans
    rw [Resolution.moves, List.map_append, List.map_map, List.map_map]
    exact (List.sublist_append_right _ _).subperm
  . intro edit hedit hkind
    obtain ⟨stray, hstray, rfl⟩ := exists_removed_of_delete hedit hkind
    have hunused : ∀ fragment ∈ ((outcome threshold olds news).added
          ++ (outcome threshold olds news).unusedTargets).map Landing.head,
        decide (some fragment.text = (some stray.head.text : Option String)) = false := by
      rw [List.forall_mem_map]
      exact fun landing hlanding => decide_eq_false fun h =>
        hsettles.removed_text stray hstray landing hlanding (Option.some.inj h)
    have htargets := hsettles.targets_perm.map Landing.head
    rw [← List.append_assoc, List.map_append, map_head_landings] at htargets
    apply ((perm_come threshold olds news).filter _).subperm.trans
    apply ((List.sublist_append_right _ _).filter _).subperm.trans
    apply (filter_subperm_used htargets hunused).trans
    rw [Resolution.moves, List.map_append, List.map_append, List.map_map, List.map_map,
      List.map_map, List.map_map]
    exact List.Subperm.refl _

/-! A call that leaves an alternative, and one that leaves a group of a selection -/

theorem moves_eq_nil {deleted inserted : List Stray}
    (hnested : ∀ stray ∈ deleted, stray.nested = [])
    (htexts : ∀ stray ∈ deleted, ∀ landing ∈ landings inserted,
      landing.head.text ≠ stray.head.text)
    : (resolution deleted inserted).moves = [] := by
  have hsettles := settles_resolution deleted inserted
  have hlanded : (resolution deleted inserted).landed = [] := by
    rw [List.eq_nil_iff_forall_not_mem]
    intro move hmove
    have hstray := hsettles.deleted_perm.subset
      (List.mem_append_left _ (List.mem_map_of_mem hmove))
    have hlanding := hsettles.targets_perm.subset
      (List.mem_append_left _ (List.mem_map_of_mem hmove))
    exact htexts _ hstray _ hlanding (hsettles.landed_text move hmove).symm
  rw [Resolution.moves, hlanded, pulled_eq_nil hnested]
  rfl

theorem mem_gone_of_compound {threshold : Float} {olds news : List Statement} {old new : Statement}
    {oldHead newHead : Fragment} {oldCondition oldHeader newCondition newHeader : String}
    {oldClauses newClauses : List (Clause Statement)}
    {oldAlternative newAlternative : Option (Clause Statement)} {part : LonePart}
    {fragment : Fragment} (hpair : .pair old new ∈ steps (isPairable threshold) olds news)
    (hold : old = .compound oldHead oldCondition oldHeader oldClauses oldAlternative)
    (hnew : new = .compound newHead newCondition newHeader newClauses newAlternative)
    (hpart : part ∈ (Comparison.parts oldClauses newClauses oldAlternative newAlternative
      (Place.body.within newHead)).removed threshold)
    (hfragment : fragment ∈ part.inner)
    : fragment ∈ gone threshold olds news fun _ => true := by
  have hcomparison : .parts oldClauses newClauses oldAlternative newAlternative
      (Place.body.within newHead) ∈ comparisonsOfPair threshold old new .body := by
    rw [hold, hnew, comparisonsOfPair_compound]
    exact List.mem_cons_self
  have hinner := List.mem_flatMap_of_mem (f := stepComparisons threshold .body) hpair hcomparison
  rw [gone, List.filter_true, comparisons_eq]
  exact List.mem_flatMap.2 ⟨part,
    List.mem_flatMap.2 ⟨_, List.mem_cons_of_mem _ hinner, hpart⟩, hfragment⟩

theorem not_findsMoves {threshold : Float} {olds news : List Statement} {fragment : Fragment}
    {stray : Stray} (hmoves : (outcome threshold olds news).moves = [])
    (hstray : stray ∈ (lists threshold olds news .body).inserted)
    (hgone : fragment ∈ gone threshold olds news fun _ => true)
    (htext : fragment.text = stray.head.text)
    : ¬FindsMoves threshold olds news fun _ => true := by
  intro hfinds
  have hinserted := (settles_resolution (lists threshold olds news .body).deleted
    (lists threshold olds news .body).inserted).inserted_perm
  change (resolution _ _).moves = [] at hmoves
  obtain ⟨hlanded, hpulled⟩ := List.append_eq_nil_iff.1 hmoves
  rw [List.map_eq_nil_iff.1 hlanded, List.map_eq_nil_iff.1 hpulled, List.map_nil, List.map_nil,
    List.filter_nil, List.nil_append, List.nil_append] at hinserted
  have hadded := hinserted.symm.subset (List.mem_map_of_mem hstray)
  have hedit : ⟨.statementInsert, stray.head.kind, none, stray.head.text⟩
      ∈ bodyEdits threshold olds news := by
    rw [bodyEdits_eq_outcome, List.mem_append, Resolution.mem_edits]
    exact .inr (.inr (.inr ⟨_, hadded, rfl⟩))
  have hused := (hfinds.sources _ hedit rfl).subset
    (List.mem_filter.2 ⟨hgone, decide_eq_true (congrArg some htext)⟩)
  change _ ∈ (resolution _ _).moves.map Move.source at hused
  rw [hmoves] at hused
  contradiction

end BodyDiff
namespace Sample

def twoBranches : Node :=
  conditionalAt "if (a) \x7b g(); \x7d else \x7b f(); \x7d" 2
    [branchAt "consequence" "\x7b g(); \x7d" 9 (callAt "g();" 11),
      branchAt "alternative" "\x7b f(); \x7d" 23 (callAt "f();" 25)]

def oneBranch : Node :=
  conditionalAt "if (a) \x7b g(); \x7d" 7
    [branchAt "consequence" "\x7b g(); \x7d" 14 (callAt "g();" 16)]

def callInAlternative : Node :=
  spanned "block" "body" 0 "\x7b if (a) \x7b g(); \x7d else \x7b f(); \x7d \x7d" [twoBranches]

def callBeforeConditional : Node :=
  spanned "block" "body" 0 "\x7b f(); if (a) \x7b g(); \x7d \x7d" [callAt "f();" 2, oneBranch]

def groupAt (text label : String) (start : Nat) (call : Node) : Node :=
  spanned "switch_block_statement_group" "" start text
    [spanned "switch_label" "" start label [], call]

def selectionAt (text branch : String) (start : Nat) (groups : List Node) : Node :=
  spanned "switch_expression" "" start text
    [spanned "parenthesized_expression" "condition" (start + 7) "(a)" [],
      spanned "switch_block" "body" (start + 11) branch groups]

def twoGroups : Node :=
  selectionAt "switch (a) \x7b case 1: f(); default: g(); \x7d"
    "\x7b case 1: f(); default: g(); \x7d" 2
    [groupAt "case 1: f();" "case 1" 15 (callAt "f();" 23),
      groupAt "default: g();" "default" 28 (callAt "g();" 37)]

def oneGroup : Node :=
  selectionAt "switch (a) \x7b default: g(); \x7d" "\x7b default: g(); \x7d" 7
    [groupAt "default: g();" "default" 20 (callAt "g();" 29)]

def callInGroup : Node :=
  spanned "block" "body" 0 "\x7b switch (a) \x7b case 1: f(); default: g(); \x7d \x7d" [twoGroups]

def callBeforeSelection : Node :=
  spanned "block" "body" 0 "\x7b f(); switch (a) \x7b default: g(); \x7d \x7d"
    [callAt "f();" 2, oneGroup]

theorem texts_of_branches
    : (Fragment.ofNode twoBranches).text = "if (a) \x7b g(); \x7d else \x7b f(); \x7d"
      ∧ (Fragment.ofNode oneBranch).text = "if (a) \x7b g(); \x7d"
      ∧ (Fragment.ofNode twoGroups).text = "switch (a) \x7b case 1: f(); default: g(); \x7d"
      ∧ (Fragment.ofNode oneGroup).text = "switch (a) \x7b default: g(); \x7d"
      ∧ (Fragment.ofNode (groupAt "case 1: f();" "case 1" 15 (callAt "f();" 23))).text
        = "case 1: f();" := by
  decide +kernel

theorem headings_of_branches
    : twoBranches.normalChildText "condition" = "(a)"
      ∧ oneBranch.normalChildText "condition" = "(a)"
      ∧ twoBranches.header .conditional = "if (a)" ∧ oneBranch.header .conditional = "if (a)"
      ∧ twoGroups.normalChildText "condition" = "(a)"
      ∧ oneGroup.normalChildText "condition" = "(a)"
      ∧ twoGroups.header .selection = "switch (a)"
      ∧ oneGroup.header .selection = "switch (a)" := by
  decide +kernel

theorem ofNode_twoBranches
    : Statement.ofNode twoBranches
        =
      .compound (.ofNode twoBranches) "(a)" "if (a)"
        [⟨"then", .ofNode (branchAt "consequence" "\x7b g(); \x7d" 9 (callAt "g();" 11)),
          [Statement.ofNode (callAt "g();" 11)]⟩]
        (some ⟨"else", .ofNode (branchAt "alternative" "\x7b f(); \x7d" 23 (callAt "f();" 25)),
          [Statement.ofNode (callAt "f();" 25)]⟩) := by
  have hkind : Layout.ofKind? twoBranches.kind = some .conditional := by
    rfl
  rw [Statement.ofNode_compound hkind, headings_of_branches.1, headings_of_branches.2.2.1]
  rfl

theorem ofNode_oneBranch
    : Statement.ofNode oneBranch
        =
      .compound (.ofNode oneBranch) "(a)" "if (a)"
        [⟨"then", .ofNode (branchAt "consequence" "\x7b g(); \x7d" 14 (callAt "g();" 16)),
          [Statement.ofNode (callAt "g();" 16)]⟩] none := by
  have hkind : Layout.ofKind? oneBranch.kind = some .conditional := by
    rfl
  rw [Statement.ofNode_compound hkind, headings_of_branches.2.1, headings_of_branches.2.2.2.1]
  rfl

theorem roles_of_groups
    : "case:" ++ " ".intercalate [Text.normalize (spanned "switch_label" "" 0 "case 1" []).text]
        = "case:case 1"
      ∧ "case:" ++ " ".intercalate [Text.normalize (spanned "switch_label" "" 0 "default" []).text]
        = "case:default" := by
  decide +kernel

theorem ofNode_twoGroups
    : Statement.ofNode twoGroups
        =
      .compound (.ofNode twoGroups) "(a)" "switch (a)"
        [⟨"case:case 1", .ofNode (groupAt "case 1: f();" "case 1" 15 (callAt "f();" 23)),
          [Statement.ofNode (callAt "f();" 23)]⟩,
        ⟨"case:default", .ofNode (groupAt "default: g();" "default" 28 (callAt "g();" 37)),
          [Statement.ofNode (callAt "g();" 37)]⟩] none := by
  have hkind : Layout.ofKind? twoGroups.kind = some .selection := by
    rfl
  rw [Statement.ofNode_compound hkind, headings_of_branches.2.2.2.2.1,
    headings_of_branches.2.2.2.2.2.2.1, ← roles_of_groups.1, ← roles_of_groups.2]
  rfl

theorem ofNode_oneGroup
    : Statement.ofNode oneGroup
        =
      .compound (.ofNode oneGroup) "(a)" "switch (a)"
        [⟨"case:default", .ofNode (groupAt "default: g();" "default" 20 (callAt "g();" 29)),
          [Statement.ofNode (callAt "g();" 29)]⟩] none := by
  have hkind : Layout.ofKind? oneGroup.kind = some .selection := by
    rfl
  rw [Statement.ofNode_compound hkind, headings_of_branches.2.2.2.2.2.1,
    headings_of_branches.2.2.2.2.2.2.2, ← roles_of_groups.2]
  rfl

theorem lists_calls (threshold : Float) (place : Place) (start other : Nat)
    : BodyDiff.lists threshold [Statement.ofNode (callAt "g();" start)]
        [Statement.ofNode (callAt "g();" other)] place
        =
      .nothing := by
  apply BodyDiff.lists_singleton_of_text
  rw [Statement.text_ofNode, Statement.text_ofNode]
  rfl

theorem pair_branches (threshold : Float) (place : Place)
    : BodyDiff.pair threshold (Statement.ofNode twoBranches) (Statement.ofNode oneBranch) place
        =
      .edit .alternativePartDelete "else"
        (Fragment.ofNode (branchAt "alternative" "\x7b f(); \x7d" 23 (callAt "f();" 25))).text
        none := by
  rw [ofNode_twoBranches, ofNode_oneBranch, BodyDiff.pair_compound, BodyDiff.heading_self,
    Findings.nothing_append]
  change Findings.join [BodyDiff.lists threshold [Statement.ofNode (callAt "g();" 11)]
    [Statement.ofNode (callAt "g();" 16)] _] ++ _ = _
  rw [lists_calls]
  rfl

theorem pair_groups (threshold : Float) (place : Place)
    : BodyDiff.pair threshold (Statement.ofNode twoGroups) (Statement.ofNode oneGroup) place
        =
      .delete ⟨.ofNode (groupAt "case 1: f();" "case 1" 15 (callAt "f();" 23)),
        place.within (.ofNode oneGroup), []⟩ := by
  rw [ofNode_twoGroups, ofNode_oneGroup, BodyDiff.pair_compound, BodyDiff.heading_self,
    Findings.nothing_append]
  change Findings.join [BodyDiff.lists threshold [Statement.ofNode (callAt "g();" 37)]
    [Statement.ofNode (callAt "g();" 29)] _, .delete _] ++ _ = _
  rw [lists_calls]
  rfl

theorem steps_behind_call (threshold : Float) {old new : Node}
    (hcompound : (Statement.ofNode old).isCompound) (hkind : old.kind = new.kind)
    (hcall : old.kind ≠ "expression_statement")
    (htext : (Fragment.ofNode old).text ≠ (Fragment.ofNode new).text)
    (hcallText : (Fragment.ofNode old).text ≠ "f();")
    : BodyDiff.steps (BodyDiff.isPairable threshold) [Statement.ofNode old]
        [Statement.ofNode (callAt "f();" 2), Statement.ofNode new]
        =
      [.add (Statement.ofNode (callAt "f();" 2)),
        .pair (Statement.ofNode old) (Statement.ofNode new)] := by
  have htexts : ∀ one ∈ [Statement.ofNode old],
      ∀ other ∈ [Statement.ofNode (callAt "f();" 2), Statement.ofNode new],
      one.text ≠ other.text := by
    rw [List.forall_mem_singleton, List.forall_mem_cons, List.forall_mem_singleton, text_callAt,
      Statement.text_ofNode, Statement.text_ofNode]
    exact ⟨hcallText, htext⟩
  have hpairable : BodyDiff.isPairable threshold (Statement.ofNode old) (Statement.ofNode new)
      = true := by
    rw [BodyDiff.isPairable, hcompound, Bool.true_or, Bool.and_true, Statement.kind_ofNode,
      Statement.kind_ofNode]
    exact decide_eq_true hkind
  have hunpairable : BodyDiff.isPairable threshold (Statement.ofNode old)
      (Statement.ofNode (callAt "f();" 2)) = false := by
    have hkinds : decide ((Statement.ofNode old).kind = (Statement.ofNode (callAt "f();" 2)).kind)
        = false := by
      rw [Statement.kind_ofNode, Statement.kind_ofNode]
      exact decide_eq_false hcall
    rw [BodyDiff.isPairable, hkinds, Bool.false_and]
  rw [BodyDiff.steps_of_disjoint htexts]
  simp [BodyDiff.gapSteps, BodyDiff.pairUp, List.span, List.span.loop, hpairable, hunpairable]

theorem steps_branches (threshold : Float)
    : BodyDiff.steps (BodyDiff.isPairable threshold) [Statement.ofNode twoBranches]
        [Statement.ofNode (callAt "f();" 2), Statement.ofNode oneBranch]
        =
      [.add (Statement.ofNode (callAt "f();" 2)),
        .pair (Statement.ofNode twoBranches) (Statement.ofNode oneBranch)] := by
  obtain ⟨hold, hnew, -⟩ := texts_of_branches
  have hcompound : (Statement.ofNode twoBranches).isCompound := by
    rw [ofNode_twoBranches]
    rfl
  have hkind : twoBranches.kind = oneBranch.kind := rfl
  have hcall : "if_statement" ≠ "expression_statement" := by
    decide
  apply steps_behind_call threshold hcompound hkind hcall
  . rw [hold, hnew]
    decide
  . rw [hold]
    decide

theorem steps_groups (threshold : Float)
    : BodyDiff.steps (BodyDiff.isPairable threshold) [Statement.ofNode twoGroups]
        [Statement.ofNode (callAt "f();" 2), Statement.ofNode oneGroup]
        =
      [.add (Statement.ofNode (callAt "f();" 2)),
        .pair (Statement.ofNode twoGroups) (Statement.ofNode oneGroup)] := by
  obtain ⟨-, -, hold, hnew, -⟩ := texts_of_branches
  have hcompound : (Statement.ofNode twoGroups).isCompound := by
    rw [ofNode_twoGroups]
    rfl
  have hkind : twoGroups.kind = oneGroup.kind := rfl
  have hcall : "switch_expression" ≠ "expression_statement" := by
    decide
  apply steps_behind_call threshold hcompound hkind hcall
  . rw [hold, hnew]
    decide
  . rw [hold]
    decide

theorem lists_callInAlternative (threshold : Float)
    : BodyDiff.lists threshold (Statement.ofBody (some callInAlternative))
        (Statement.ofBody (some callBeforeConditional)) .body
        =
      ⟨[⟨.alternativePartDelete, "else",
          (Fragment.ofNode (branchAt "alternative" "\x7b f(); \x7d" 23 (callAt "f();" 25))).text,
          none⟩], [], [⟨.ofNode (callAt "f();" 2), .body, []⟩]⟩ := by
  change BodyDiff.lists threshold [Statement.ofNode twoBranches]
    [Statement.ofNode (callAt "f();" 2), Statement.ofNode oneBranch] .body = _
  rw [BodyDiff.lists_eq, steps_branches]
  change Findings.join [.insert (.ofStatement .body _), BodyDiff.pair threshold _ _ .body] = _
  rw [pair_branches, stray_callAt]
  rfl

theorem lists_callInGroup (threshold : Float)
    : BodyDiff.lists threshold (Statement.ofBody (some callInGroup))
        (Statement.ofBody (some callBeforeSelection)) .body
        =
      ⟨[], [⟨.ofNode (groupAt "case 1: f();" "case 1" 15 (callAt "f();" 23)),
          Place.body.within (.ofNode oneGroup), []⟩],
        [⟨.ofNode (callAt "f();" 2), .body, []⟩]⟩ := by
  change BodyDiff.lists threshold [Statement.ofNode twoGroups]
    [Statement.ofNode (callAt "f();" 2), Statement.ofNode oneGroup] .body = _
  rw [BodyDiff.lists_eq, steps_groups]
  change Findings.join [.insert (.ofStatement .body _), BodyDiff.pair threshold _ _ .body] = _
  rw [pair_groups, stray_callAt]
  rfl

theorem mem_fragments_callAt (text : String) (start : Nat)
    : .ofNode (callAt text start) ∈ Statement.fragments [Statement.ofNode (callAt text start)] := by
  rw [Statement.fragments, List.flatMap_singleton, ofNode_callAt]
  exact List.mem_cons_self

theorem not_findsMoves_alternative (threshold : Float)
    : ¬BodyDiff.FindsMoves threshold (Statement.ofBody (some callInAlternative))
        (Statement.ofBody (some callBeforeConditional)) fun _ => true := by
  have hlists := lists_callInAlternative threshold
  apply @BodyDiff.not_findsMoves _ _ _ (.ofNode (callAt "f();" 25))
  . rw [BodyDiff.outcome, hlists]
    exact BodyDiff.moves_eq_nil (List.forall_mem_nil _) (List.forall_mem_nil _)
  . rw [hlists]
    exact List.mem_singleton_self _
  . have hpair : .pair (Statement.ofNode twoBranches) (Statement.ofNode oneBranch)
        ∈ BodyDiff.steps (BodyDiff.isPairable threshold) [Statement.ofNode twoBranches]
          [Statement.ofNode (callAt "f();" 2), Statement.ofNode oneBranch] := by
      rw [steps_branches]
      exact List.mem_cons_of_mem _ List.mem_cons_self
    apply BodyDiff.mem_gone_of_compound hpair ofNode_twoBranches ofNode_oneBranch
      (List.mem_append_right _ List.mem_cons_self)
    exact mem_fragments_callAt _ _
  . rfl

theorem not_findsMoves_group (threshold : Float)
    : ¬BodyDiff.FindsMoves threshold (Statement.ofBody (some callInGroup))
        (Statement.ofBody (some callBeforeSelection)) fun _ => true := by
  have hlists := lists_callInGroup threshold
  have htext := texts_of_branches.2.2.2.2
  apply @BodyDiff.not_findsMoves _ _ _ (.ofNode (callAt "f();" 23))
  . rw [BodyDiff.outcome, hlists]
    apply BodyDiff.moves_eq_nil
    . rw [List.forall_mem_singleton]
    . change ∀ stray ∈ [_], ∀ landing ∈ [_], _
      rw [List.forall_mem_singleton, List.forall_mem_singleton]
      change (Fragment.ofNode (callAt "f();" 0)).text ≠ _
      rw [texts_of_loops.1, htext]
      decide
  . rw [hlists]
    exact List.mem_singleton_self _
  . have hpair : .pair (Statement.ofNode twoGroups) (Statement.ofNode oneGroup)
        ∈ BodyDiff.steps (BodyDiff.isPairable threshold) [Statement.ofNode twoGroups]
          [Statement.ofNode (callAt "f();" 2), Statement.ofNode oneGroup] := by
      rw [steps_groups]
      exact List.mem_cons_of_mem _ List.mem_cons_self
    apply BodyDiff.mem_gone_of_compound hpair ofNode_twoGroups ofNode_oneGroup
      (List.mem_append_left _ List.mem_cons_self)
    exact mem_fragments_callAt _ _
  . rfl

end Sample

/--
This is not so for all parts: the call in a removed alternative, or in a removed group of a
selection, is no source of a move, even if it is inserted elsewhere.
-/
theorem not_all_moves_found
    : (Sample.callInAlternative.IsSpanned ∧ Sample.callBeforeConditional.IsSpanned
        ∧ ¬BodyDiff.FindsMoves Thresholds.default.update
          (Statement.ofBody (some Sample.callInAlternative))
          (Statement.ofBody (some Sample.callBeforeConditional)) fun _ => true)
      ∧ (Sample.callInGroup.IsSpanned ∧ Sample.callBeforeSelection.IsSpanned
        ∧ ¬BodyDiff.FindsMoves Thresholds.default.update
          (Statement.ofBody (some Sample.callInGroup))
          (Statement.ofBody (some Sample.callBeforeSelection)) fun _ => true) := by
  have hspanned : (Sample.callInAlternative.IsSpanned ∧ Sample.callBeforeConditional.IsSpanned)
      ∧ Sample.callInGroup.IsSpanned ∧ Sample.callBeforeSelection.IsSpanned := by
    decide +kernel
  exact ⟨⟨hspanned.1.1, hspanned.1.2, Sample.not_findsMoves_alternative _⟩,
    hspanned.2.1, hspanned.2.2, Sample.not_findsMoves_group _⟩

end MethodHistory
