import MethodHistory.Proofs.Diff.Reformatted
import MethodHistory.Proofs.Moved
import Mathlib.Data.List.Forall2
import Mathlib.Data.List.Induction

/-!
This module contains what is reported of two bodies that differ in a single edit of one of their
statement lists, which can be inside of other statements.
-/

namespace MethodHistory

inductive SingleEdit where
  | insert (new : Statement)
  | delete (old : Statement)
  | update (old new : Statement)
  | move (olds news : List Statement)

namespace Statement

def fragments (statements : List Statement) : List Fragment :=
  statements.flatMap fun statement => statement.head :: statement.nested

theorem nested_compound (head : Fragment) (condition header : String)
    (clauses : List (Clause Statement)) (alternative : Option (Clause Statement))
    : (compound head condition header clauses alternative).nested
        =
      clauses.flatMap (fun clause => fragments clause.body)
        ++ (alternative.map fun clause => fragments clause.body).getD [] := by
  rw [nested.eq_def]
  dsimp only
  congr 1
  . simp [fragments]
  . cases alternative <;> simp [fragments]

theorem nested_of_leaf {statement : Statement} (h : statement.isCompound = false)
    : statement.nested = [] := by
  cases statement with
  | leaf => rw [nested.eq_def]
  | compound => cases h

theorem fragments_append (olds news : List Statement)
    : fragments (olds ++ news) = fragments olds ++ fragments news :=
  List.flatMap_append

theorem sublist_fragments (statements : List Statement)
    : (statements.map head).Sublist (fragments statements) := by
  induction statements with
  | nil => exact .slnil
  | cons statement statements ih =>
    rw [fragments, List.flatMap_cons, List.map_cons, List.cons_append]
    exact (ih.trans (List.sublist_append_right _ _)).cons_cons _

end Statement

def HasDistinctTexts (statements : List Statement) : Prop :=
  ((Statement.fragments statements).map Fragment.text).Nodup

namespace HasDistinctTexts

variable {statements front back : List Statement} {statement : Statement}

theorem nodup (h : HasDistinctTexts statements) : (statements.map Statement.text).Nodup := by
  have hsublist := (Statement.sublist_fragments statements).map Fragment.text
  rw [List.map_map] at hsublist
  exact List.Nodup.sublist hsublist h

theorem of_sublist {inner outer : List Statement} (h : HasDistinctTexts outer)
    (hsublist : (Statement.fragments inner).Sublist (Statement.fragments outer))
    : HasDistinctTexts inner :=
  List.Nodup.sublist (hsublist.map Fragment.text) h

end HasDistinctTexts

structure Clause.Agrees (old new : Clause Statement) : Prop where
  role_eq : old.role = new.role
  texts_eq : old.body.map Statement.text = new.body.map Statement.text

/--
Compound statements of one kind that agree but for one of their statement lists.
-/
inductive Encloses (olds news : List Statement) : Statement → Statement → Prop where
  | clause {oldHead newHead : Fragment} {condition header : String}
      {firsts lasts firsts' lasts' : List (Clause Statement)} {old new : Clause Statement}
      {oldAlternative newAlternative : Option (Clause Statement)}
      (hkind : oldHead.kind = newHead.kind)
      (hnodup : ((firsts ++ ([old] ++ lasts)).map Clause.role).Nodup)
      (hfirsts : List.Forall₂ Clause.Agrees firsts firsts')
      (hlasts : List.Forall₂ Clause.Agrees lasts lasts')
      (hrole : old.role = new.role) (hold : old.body = olds) (hnew : new.body = news)
      (halternative : Option.Rel Clause.Agrees oldAlternative newAlternative)
      : Encloses olds news
          (.compound oldHead condition header (firsts ++ ([old] ++ lasts)) oldAlternative)
          (.compound newHead condition header (firsts' ++ ([new] ++ lasts')) newAlternative)
  | alternative {oldHead newHead : Fragment} {condition header : String}
      {clauses clauses' : List (Clause Statement)} {old new : Clause Statement}
      (hkind : oldHead.kind = newHead.kind) (hnodup : (clauses.map Clause.role).Nodup)
      (hclauses : List.Forall₂ Clause.Agrees clauses clauses')
      (hold : old.body = olds) (hnew : new.body = news)
      : Encloses olds news (.compound oldHead condition header clauses (some old))
          (.compound newHead condition header clauses' (some new))

namespace SingleEdit

inductive Made : SingleEdit → List Statement → List Statement → Prop where
  | insert {olds front back : List Statement} {new : Statement}
      (h : olds.map Statement.text = (front ++ back).map Statement.text)
      : Made (.insert new) olds (front ++ ([new] ++ back))
  | delete {front back news : List Statement} {old : Statement}
      (h : (front ++ back).map Statement.text = news.map Statement.text)
      : Made (.delete old) (front ++ ([old] ++ back)) news
  | update {front back front' back' : List Statement} {old new : Statement}
      (hfront : front.map Statement.text = front'.map Statement.text)
      (hback : back.map Statement.text = back'.map Statement.text)
      (hold : old.isCompound = false) (hnew : new.isCompound = false) (hkind : old.kind = new.kind)
      (htext : old.text ≠ new.text)
      : Made (.update old new) (front ++ ([old] ++ back)) (front' ++ ([new] ++ back'))
  | move {olds news : List Statement} {old new : Statement}
      (h : Moved Statement.text old new olds news) : Made (.move olds news) olds news

/--
Two bodies that differ in an edit at any depth, with both versions of the statements that enclose
it, from the outside to the inside.
-/
inductive MadeWithin (edit : SingleEdit)
    : List (Statement × Statement) → List Statement → List Statement → Prop where
  | here {olds news : List Statement} (h : edit.Made olds news) : edit.MadeWithin [] olds news
  | inside {olds news front back front' back' : List Statement} {old new : Statement}
      {enclosing : List (Statement × Statement)}
      (hfront : front.map Statement.text = front'.map Statement.text)
      (hback : back.map Statement.text = back'.map Statement.text)
      (hencloses : Encloses olds news old new) (h : edit.MadeWithin enclosing olds news)
      : edit.MadeWithin ((old, new) :: enclosing) (front ++ ([old] ++ back))
          (front' ++ ([new] ++ back'))

/--
The report of an edit. Of a move, one of the statements is reported that can have moved.
-/
def IsReported (threshold : Float) : SingleEdit → List Edit → Prop
  | .insert new, edits => edits = [⟨.statementInsert, new.kind, none, new.text⟩]
  | .delete old, edits => edits = [⟨.statementDelete, old.kind, old.text, none⟩]
  | .update old new, edits =>
    edits
      =
    if Similarity.reaches threshold (similarity old.head.source new.head.source) then
      [⟨.statementUpdate, new.kind, old.text, new.text⟩]
    else
      [⟨.statementDelete, old.kind, old.text, none⟩, ⟨.statementInsert, new.kind, none, new.text⟩]
  | .move olds news, edits =>
    ∃ old new, Moved Statement.text old new olds news
      ∧ edits = [⟨.statementOrderingChange, new.kind, new.text, new.text⟩]

end SingleEdit

namespace Findings

theorem nothing_append (found : Findings) : nothing ++ found = found := by
  rfl

theorem append_nothing (found : Findings) : found ++ nothing = found := by
  cases found with
  | mk edits deleted inserted =>
    change mk (edits ++ []) (deleted ++ []) (inserted ++ []) = _
    rw [List.append_nil, List.append_nil, List.append_nil]

theorem join_around {front back : List Findings} (found : Findings)
    (hfront : ∀ other ∈ front, other = nothing) (hback : ∀ other ∈ back, other = nothing)
    : join (front ++ ([found] ++ back)) = found := by
  induction front with
  | nil =>
    have hrest : join back = nothing := join_eq_nothing.2 hback
    rw [join] at hrest
    rw [List.nil_append, List.singleton_append, join, List.foldr_cons, hrest, append_nothing]
  | cons other front ih =>
    rw [List.forall_mem_cons] at hfront
    rw [List.cons_append, join, List.foldr_cons, hfront.1, nothing_append, ← join, ih hfront.2]

end Findings

namespace BodyDiff

variable {threshold : Float} {place : Place}

/-! An enclosing statement is compared with itself, and so are the lists of it that agree -/

theorem firstFit_of_forall₂ {α β : Type} {fits : α → β → Bool} {xs : List α} {ys : List β}
    (h : List.Forall₂ (fun x y => fits x y) xs ys)
    : firstFit fits xs ys = (xs.zipWith (fun x y => (x, some y)) ys, []) := by
  induction h with
  | nil => rfl
  | cons hfits _ ih =>
    rw [firstFit, List.find?_cons_of_pos hfits]
    dsimp only
    rw [List.eraseP_cons_of_pos hfits, ih]
    rfl

theorem clauseSteps_of_roles {olds news : List (Clause Statement)}
    (hnodup : (olds.map Clause.role).Nodup) (hroles : olds.map Clause.role = news.map Clause.role)
    : clauseSteps olds news = olds.zipWith .pair news := by
  have hfits : List.Forall₂ (fun new old : Clause Statement => decide (old.role = new.role))
      news olds := by
    rw [map_eq_map_iff_forall₂] at hroles
    exact (hroles.imp fun _ _ hrole => decide_eq_true hrole).flip
  rw [clauseSteps, Table.latest_of_nodup hnodup, firstFit_of_forall₂ hfits]
  dsimp only
  rw [List.map_nil, List.append_nil, List.map_zipWith, List.zipWith_comm]

theorem clauseFinding_of_agrees {old new : Clause Statement} (h : old.Agrees new)
    : clauseFinding threshold place (.pair old new) = .nothing :=
  lists_of_texts h.texts_eq

theorem clauseFindings_of_agrees {olds news : List (Clause Statement)}
    (h : List.Forall₂ Clause.Agrees olds news)
    : ∀ found ∈ (olds.zipWith .pair news).map (clauseFinding threshold place),
        found = .nothing := by
  induction h with
  | nil => simp
  | cons hagrees _ ih =>
    rw [List.zipWith_cons_cons, List.map_cons, List.forall_mem_cons]
    exact ⟨clauseFinding_of_agrees hagrees, ih⟩

theorem alternativeFinding_of_agrees {old new : Option (Clause Statement)}
    (h : Option.Rel Clause.Agrees old new)
    : alternativeFinding threshold place old new = .nothing := by
  cases h with
  | none => rfl
  | some hagrees => exact lists_of_texts hagrees.texts_eq

theorem heading_self (entity condition header : String)
    : heading entity condition header condition header = .nothing := by
  rw [heading, if_neg (not_not.2 rfl), if_neg (not_not.2 rfl)]

theorem roles_of_agrees {olds news : List (Clause Statement)}
    (h : List.Forall₂ Clause.Agrees olds news)
    : olds.map Clause.role = news.map Clause.role := by
  rw [map_eq_map_iff_forall₂]
  exact h.imp fun _ _ hagrees => hagrees.role_eq

theorem exists_pair_eq_lists {olds news : List Statement} {old new : Statement}
    (h : Encloses olds news old new) (threshold : Float) (place : Place)
    : ∃ inner, pair threshold old new place = lists threshold olds news inner := by
  cases h with
  | @clause oldHead newHead condition header firsts lasts firsts' lasts' old new
      oldAlternative newAlternative hkind hnodup hfirsts hlasts hrole hold hnew halternative =>
    refine ⟨((place.within newHead).inRole new.role), ?_⟩
    have hroles : (firsts ++ ([old] ++ lasts)).map Clause.role
        = (firsts' ++ ([new] ++ lasts')).map Clause.role := by
      simp [roles_of_agrees hfirsts, roles_of_agrees hlasts, hrole]
    have hlength := hfirsts.length_eq
    rw [pair_compound, heading_self, Findings.nothing_append,
      alternativeFinding_of_agrees halternative, Findings.append_nothing,
      clauseSteps_of_roles hnodup hroles, List.zipWith_append hlength, List.singleton_append,
      List.singleton_append, List.zipWith_cons_cons, List.map_append, List.map_cons,
      ← List.singleton_append,
      Findings.join_around _ (clauseFindings_of_agrees hfirsts) (clauseFindings_of_agrees hlasts),
      ← hold, ← hnew]
    rfl
  | @alternative oldHead newHead condition header clauses clauses' old new hkind hnodup hclauses
      hold hnew =>
    refine ⟨((place.within newHead).inRole "else"), ?_⟩
    rw [pair_compound, heading_self, Findings.nothing_append,
      clauseSteps_of_roles hnodup (roles_of_agrees hclauses),
      Findings.join_eq_nothing.2 (clauseFindings_of_agrees hclauses), Findings.nothing_append,
      ← hold, ← hnew]
    rfl

theorem isPairable_of_encloses {olds news : List Statement} {old new : Statement}
    (h : Encloses olds news old new) (threshold : Float) : isPairable threshold old new := by
  cases h with
  | clause hkind =>
    rw [isPairable, Bool.and_eq_true]
    exact ⟨decide_eq_true hkind, rfl⟩
  | alternative hkind =>
    rw [isPairable, Bool.and_eq_true]
    exact ⟨decide_eq_true hkind, rfl⟩

theorem fragments_sublist_nested {olds news : List Statement} {old new : Statement}
    (h : Encloses olds news old new)
    : (Statement.fragments olds).Sublist old.nested
        ∧ (Statement.fragments news).Sublist new.nested := by
  cases h with
  | clause hkind hnodup hfirsts hlasts hrole hold hnew halternative =>
    rw [Statement.nested_compound, Statement.nested_compound, List.flatMap_append,
      List.flatMap_append, List.flatMap_append, List.flatMap_append, List.flatMap_singleton,
      List.flatMap_singleton, hold, hnew]
    constructor
    all_goals
      apply List.Sublist.trans _ (List.sublist_append_left _ _)
      apply List.Sublist.trans _ (List.sublist_append_right _ _)
      exact List.sublist_append_left _ _
  | alternative hkind hnodup hclauses hold hnew =>
    rw [Statement.nested_compound, Statement.nested_compound, ← hold, ← hnew]
    exact ⟨List.sublist_append_right _ _, List.sublist_append_right _ _⟩

/-! What is found at each depth -/

theorem steps_eq_inGaps (isPairable : Statement → Statement → Bool) (olds news : List Statement)
    : steps isPairable olds news = inGaps Statement.text (gapSteps isPairable) olds news := by
  rw [steps, inGaps]
  congr 1
  funext segment
  cases segment <;> rfl

theorem gapSteps_nil (isPairable : Statement → Statement → Bool)
    : gapSteps isPairable [] [] = [] := by
  rfl

theorem gapSteps_drop (isPairable : Statement → Statement → Bool) (old : Statement)
    : gapSteps isPairable [old] [] = [.drop old] := by
  rfl

theorem gapSteps_add (isPairable : Statement → Statement → Bool) (new : Statement)
    : gapSteps isPairable [] [new] = [.add new] := by
  rfl

theorem gapSteps_singleton {isPairable : Statement → Statement → Bool} (old new : Statement)
    : gapSteps isPairable [old] [new]
        =
      if isPairable old new then [.pair old new] else [.drop old, .add new] := by
  cases h : isPairable old new <;> simp [gapSteps, pairUp, List.span_eq_takeWhile_dropWhile, h]

theorem steps_around {isPairable : Statement → Statement → Bool}
    {front back front' back' : List Statement} {old new : Statement}
    (hold : ((front ++ ([old] ++ back)).map Statement.text).Nodup)
    (hnew : ((front' ++ ([new] ++ back')).map Statement.text).Nodup)
    (hfront : front.map Statement.text = front'.map Statement.text)
    (hback : back.map Statement.text = back'.map Statement.text) (htext : old.text ≠ new.text)
    : steps isPairable (front ++ ([old] ++ back)) (front' ++ ([new] ++ back'))
        =
      gapSteps isPairable [old] [new] := by
  rw [steps_eq_inGaps]
  apply inGaps_around (gapSteps_nil isPairable) hold hnew hfront hback
  simpa using htext

theorem lists_around {front back front' back' : List Statement} {old new : Statement}
    (hold : ((front ++ ([old] ++ back)).map Statement.text).Nodup)
    (hnew : ((front' ++ ([new] ++ back')).map Statement.text).Nodup)
    (hfront : front.map Statement.text = front'.map Statement.text)
    (hback : back.map Statement.text = back'.map Statement.text) (htext : old.text ≠ new.text)
    (hpairable : isPairable threshold old new)
    : lists threshold (front ++ ([old] ++ back)) (front' ++ ([new] ++ back')) place
        =
      pair threshold old new place := by
  rw [lists_eq, steps_around hold hnew hfront hback htext, gapSteps_singleton, if_pos hpairable]
  exact Findings.append_nothing _

end BodyDiff

namespace HasDistinctTexts

theorem of_encloses {olds news front back front' back' : List Statement} {old new : Statement}
    (h : Encloses olds news old new) (hold : HasDistinctTexts (front ++ ([old] ++ back)))
    (hnew : HasDistinctTexts (front' ++ ([new] ++ back')))
    : HasDistinctTexts olds ∧ HasDistinctTexts news := by
  have hinside {front back : List Statement} {statement : Statement}
      : statement.nested.Sublist (Statement.fragments (front ++ ([statement] ++ back))) := by
    rw [Statement.fragments_append, Statement.fragments_append]
    apply List.Sublist.trans _ (List.sublist_append_right _ _)
    apply List.Sublist.trans _ (List.sublist_append_left _ _)
    rw [Statement.fragments, List.flatMap_singleton]
    exact List.sublist_cons_self _ _
  obtain ⟨holds, hnews⟩ := BodyDiff.fragments_sublist_nested h
  exact ⟨hold.of_sublist (holds.trans hinside), hnew.of_sublist (hnews.trans hinside)⟩

end HasDistinctTexts

namespace SingleEdit

variable {threshold : Float} {edit : SingleEdit} {enclosing : List (Statement × Statement)}
  {olds news : List Statement}

theorem MadeWithin.exists_made (h : edit.MadeWithin enclosing olds news)
    (hold : HasDistinctTexts olds) (hnew : HasDistinctTexts news)
    (hshown : ∀ versions ∈ enclosing, versions.1.text ≠ versions.2.text) (place : Place)
    : ∃ inner innerOlds innerNews, edit.Made innerOlds innerNews
        ∧ HasDistinctTexts innerOlds ∧ HasDistinctTexts innerNews
        ∧ BodyDiff.lists threshold olds news place
            = BodyDiff.lists threshold innerOlds innerNews inner := by
  induction h generalizing place with
  | here h => exact ⟨place, _, _, h, hold, hnew, rfl⟩
  | inside hfront hback hencloses _ ih =>
    rw [List.forall_mem_cons] at hshown
    obtain ⟨inner, hpair⟩ := BodyDiff.exists_pair_eq_lists hencloses threshold place
    obtain ⟨holds, hnews⟩ := HasDistinctTexts.of_encloses hencloses hold hnew
    obtain ⟨innermost, innerOlds, innerNews, hmade, hinnerOlds, hinnerNews, hlists⟩ :=
      ih holds hnews hshown.2 inner
    refine ⟨innermost, innerOlds, innerNews, hmade, hinnerOlds, hinnerNews, ?_⟩
    rw [← hlists, ← hpair]
    exact BodyDiff.lists_around hold.nodup hnew.nodup hfront hback hshown.1
      (BodyDiff.isPairable_of_encloses hencloses threshold)

theorem MadeWithin.lists_eq_nothing (h : edit.MadeWithin enclosing olds news)
    (hold : HasDistinctTexts olds) (hnew : HasDistinctTexts news)
    (hhidden : ∃ versions ∈ enclosing, versions.1.text = versions.2.text) (place : Place)
    : BodyDiff.lists threshold olds news place = .nothing := by
  induction h generalizing place with
  | here h => simp at hhidden
  | @inside _ _ front back front' back' old new _ hfront hback hencloses _ ih =>
    by_cases htext : old.text = new.text
    . apply BodyDiff.lists_of_texts
      simp [hfront, hback, htext]
    . obtain ⟨versions, hversions, hsame⟩ := hhidden
      have hrest := (List.mem_cons.1 hversions).resolve_left (by rintro rfl; exact htext hsame)
      obtain ⟨inner, hpair⟩ := BodyDiff.exists_pair_eq_lists hencloses threshold place
      obtain ⟨holds, hnews⟩ := HasDistinctTexts.of_encloses hencloses hold hnew
      rw [BodyDiff.lists_around hold.nodup hnew.nodup hfront hback htext
        (BodyDiff.isPairable_of_encloses hencloses threshold), hpair]
      exact ih holds hnews ⟨versions, hrest, hsame⟩ inner

end SingleEdit

/-! What is reported of a leaf and its new version, and of single strays -/

namespace BodyDiff

theorem isPairable_leaf {threshold : Float} {old new : Statement} (hkind : old.kind = new.kind)
    (hleaf : old.isCompound = false)
    : isPairable threshold old new
        =
      Similarity.reaches threshold (similarity old.head.source new.head.source) := by
  rw [isPairable, hleaf, Bool.false_or, decide_eq_true hkind, Bool.true_and]

theorem filter_landings_nested (fragments : List Fragment)
    : (fragments.map (⟨·, none⟩ : Fragment → Landing)).filter (·.place.isSome) = [] := by
  simp

theorem resolve_deleted (stray : Stray)
    : resolve [stray] [] = [⟨.statementDelete, stray.head.kind, stray.head.text, none⟩] := by
  rfl

theorem resolve_inserted (stray : Stray)
    : resolve [] [stray] = [⟨.statementInsert, stray.head.kind, none, stray.head.text⟩] := by
  simp [resolve, landings, firstFit, filter_landings_nested]

theorem resolve_replaced {old new : Stray} (htext : old.head.text ≠ new.head.text)
    (hold : old.nested = []) (hnew : new.nested = [])
    : resolve [old] [new]
        =
      [⟨.statementDelete, old.head.kind, old.head.text, none⟩,
        ⟨.statementInsert, new.head.kind, none, new.head.text⟩] := by
  simp [resolve, landings, firstFit, hold, hnew, htext.symm]

theorem resolve_moved {old new : Stray} (htext : old.head.text = new.head.text)
    (hplace : old.place = new.place)
    : resolve [old] [new]
        =
      [⟨.statementOrderingChange, new.head.kind, new.head.text, new.head.text⟩] := by
  simp [resolve, landings, firstFit, htext, hplace, moveKind, filter_landings_nested]

end BodyDiff

namespace SingleEdit

theorem Made.isReported (threshold : Float) {edit : SingleEdit} {olds news : List Statement}
    (h : edit.Made olds news) (hold : (olds.map Statement.text).Nodup)
    (hnew : (news.map Statement.text).Nodup) (place : Place)
    : edit.IsReported threshold
        ((BodyDiff.lists threshold olds news place).edits
          ++ BodyDiff.resolve (BodyDiff.lists threshold olds news place).deleted
            (BodyDiff.lists threshold olds news place).inserted) := by
  have hnil := BodyDiff.gapSteps_nil (BodyDiff.isPairable threshold)
  rw [BodyDiff.lists_eq, BodyDiff.steps_eq_inGaps]
  cases h with
  | insert h =>
    rw [inGaps_added hnil hnew h, BodyDiff.gapSteps_add]
    exact BodyDiff.resolve_inserted _
  | delete h =>
    rw [inGaps_dropped hnil hold h, BodyDiff.gapSteps_drop]
    exact BodyDiff.resolve_deleted _
  | @update front back front' back' old new hfront hback holdLeaf hnewLeaf hkind htext =>
    rw [← BodyDiff.steps_eq_inGaps, BodyDiff.steps_around hold hnew hfront hback htext,
      BodyDiff.gapSteps_singleton, BodyDiff.isPairable_leaf hkind holdLeaf]
    dsimp only [IsReported]
    split
    next =>
      rw [List.map_singleton, BodyDiff.finding, BodyDiff.pair_of_leaf (.inl holdLeaf), if_pos htext]
      rfl
    next =>
      exact BodyDiff.resolve_replaced htext (Statement.nested_of_leaf holdLeaf)
        (Statement.nested_of_leaf hnewLeaf)
  | move h =>
    obtain ⟨old, new, hmoved, hgaps⟩ := inGaps_of_moved hnil hold hnew h
    refine ⟨old, new, hmoved, ?_⟩
    rw [BodyDiff.gapSteps_drop, BodyDiff.gapSteps_add] at hgaps
    rcases hgaps with hgaps | hgaps
    . rw [hgaps]
      exact BodyDiff.resolve_moved hmoved.key_eq rfl
    . rw [hgaps]
      exact BodyDiff.resolve_moved hmoved.key_eq rfl

end SingleEdit

/--
A single edit of two bodies is reported as this edit and nothing else, if the texts of the
statements that enclose it show that they have changed.
-/
theorem single_edit_is_reported (threshold : Float) {edit : SingleEdit}
    {enclosing : List (Statement × Statement)} {olds news : List Statement}
    (h : edit.MadeWithin enclosing olds news) (hold : HasDistinctTexts olds)
    (hnew : HasDistinctTexts news)
    (hshown : ∀ versions ∈ enclosing, versions.1.text ≠ versions.2.text)
    : edit.IsReported threshold (bodyEdits threshold olds news) := by
  obtain ⟨inner, innerOlds, innerNews, hmade, holds, hnews, hlists⟩ :=
    h.exists_made hold hnew hshown .body
  rw [bodyEdits, hlists]
  exact hmade.isReported threshold holds.nodup hnews.nodup inner

/-! A call that is deleted, and one that becomes a part of the comment in front of it -/

inductive Node.IsSpanned : Node → Prop where
  | node {node : Node} (hsize : node.bytes.size ≠ 0)
      (hwithin : ∀ child ∈ node.children, node.start ≤ child.start ∧ child.stop ≤ node.stop)
      (hdisjoint : node.children.Pairwise fun one other => one.stop ≤ other.start)
      (hchildren : ∀ child ∈ node.children, child.IsSpanned) : node.IsSpanned

namespace Node

mutual

def isSpanned : Node → Bool
  | ⟨_, start, bytes, _, _, children⟩ =>
    bytes.size ≠ 0
      && children.all (fun child => start ≤ child.start ∧ child.stop ≤ start + bytes.size)
      && decide (children.Pairwise fun one other => one.stop ≤ other.start)
      && areSpanned children

def areSpanned : List Node → Bool
  | [] => true
  | node :: nodes => node.isSpanned && areSpanned nodes

end

mutual

theorem isSpanned_iff : (node : Node) → (node.isSpanned ↔ node.IsSpanned)
  | ⟨_, _, _, _, _, children⟩ => by
    rw [isSpanned, Bool.and_eq_true, Bool.and_eq_true, Bool.and_eq_true, List.all_eq_true,
      areSpanned_iff children]
    simp only [decide_eq_true_eq]
    constructor
    . rintro ⟨⟨⟨hsize, hwithin⟩, hdisjoint⟩, hchildren⟩
      exact .node hsize hwithin hdisjoint hchildren
    . rintro ⟨hsize, hwithin, hdisjoint, hchildren⟩
      exact ⟨⟨⟨hsize, hwithin⟩, hdisjoint⟩, hchildren⟩

theorem areSpanned_iff : (nodes : List Node) → (areSpanned nodes ↔ ∀ node ∈ nodes, node.IsSpanned)
  | [] => by simp [areSpanned]
  | node :: nodes => by
    rw [areSpanned, Bool.and_eq_true, isSpanned_iff node, areSpanned_iff nodes,
      List.forall_mem_cons]

end

instance (node : Node) : Decidable node.IsSpanned :=
  decidable_of_iff _ (isSpanned_iff node)

end Node

namespace Sample

def spanned (kind field : String) (start : Nat) (text : String) (children : List Node) : Node :=
  ⟨kind, start, text.toUTF8, field, true, children⟩

def callBelow : Node :=
  spanned "expression_statement" "" 17 "f();" []

def branchWith (text comment : String) (calls : List Node) : Node :=
  spanned "block" "consequence" 9 text (spanned "line_comment" "" 11 comment [] :: calls)

def guarded (text : String) (branch : Node) : Node :=
  spanned "if_statement" "" 2 text
    [spanned "parenthesized_expression" "condition" 5 "(a)" [], branch]

def bodyWith (text : String) (statement : Node) : Node :=
  spanned "block" "body" 0 text [statement]

def guardedCall : Node :=
  guarded "if (a) \x7b // b\n f(); \x7d" (branchWith "\x7b // b\n f(); \x7d" "// b" [callBelow])

def guardedComment : Node :=
  guarded "if (a) \x7b // b f();\n \x7d" (branchWith "\x7b // b f();\n \x7d" "// b f();" [])

def guardedNothing : Node :=
  guarded "if (a) \x7b // b\n \x7d" (branchWith "\x7b // b\n \x7d" "// b" [])

theorem parts_guarded (text branch comment : String) {calls : List Node}
    (hcalls : ∀ call ∈ calls, call = callBelow)
    : (guarded text (branchWith branch comment calls)).parts .conditional
        =
      [⟨"then", .ofNode (branchWith branch comment calls), calls⟩] := by
  have hnamed : calls.filter (·.named) = calls := by
    rw [List.filter_eq_self]
    intro call hcall
    rw [hcalls call hcall]
    rfl
  have hcode : calls.filter (!·.isComment) = calls := by
    rw [List.filter_eq_self]
    intro call hcall
    rw [hcalls call hcall]
    rfl
  have hstatements : (branchWith branch comment calls).statements = calls := by
    have hblock : (branchWith branch comment calls).isBlock := by
      rfl
    rw [Node.statements, if_pos hblock, Node.namedChildren, branchWith]
    exact (congrArg (List.filter (!·.isComment)) hnamed).trans hcode
  change [Clause.ofNode "then" (some (branchWith branch comment calls))
    (branchWith branch comment calls).statements] = _
  rw [hstatements]
  rfl

theorem ofNode_guarded (text branch comment : String) {calls : List Node}
    (hcalls : ∀ call ∈ calls, call = callBelow)
    : Statement.ofNode (guarded text (branchWith branch comment calls))
        =
      .compound (.ofNode (guarded text (branchWith branch comment calls))) (Text.normalize "(a)")
        ((guarded text (branchWith branch comment calls)).header .conditional)
        [⟨"then", .ofNode (branchWith branch comment calls), calls.map Statement.ofNode⟩] none := by
  have hkind : Layout.ofKind? (guarded text (branchWith branch comment calls)).kind
      = some .conditional := by
    rfl
  have hcondition : (guarded text (branchWith branch comment calls)).normalChildText "condition"
      = Text.normalize (Text.Utf8.toText "(a)".toUTF8) := by
    rfl
  have htext : Text.Utf8.toText "(a)".toUTF8 = "(a)" := by
    decide +kernel
  rw [Statement.ofNode_compound hkind, parts_guarded text branch comment hcalls, hcondition, htext]
  rfl

theorem ofBody_bodyWith (text other : String) (branch : Node)
    : Statement.ofBody (some (bodyWith text (guarded other branch)))
        =
      [Statement.ofNode (guarded other branch)] := by
  rfl

theorem ofNode_callBelow : Statement.ofNode callBelow = .leaf (.ofNode callBelow) :=
  Statement.ofNode_leaf rfl

theorem fragments_calls {calls : List Node} (hcalls : ∀ call ∈ calls, call = callBelow)
    : Statement.fragments (calls.map Statement.ofNode) = calls.map .ofNode := by
  induction calls with
  | nil => rfl
  | cons call calls ih =>
    rw [List.forall_mem_cons] at hcalls
    rw [List.map_cons, Statement.fragments, List.flatMap_cons, ← Statement.fragments,
      ih hcalls.2, hcalls.1, ofNode_callBelow, Statement.nested_of_leaf rfl]
    rfl

theorem fragments_guarded (text branch comment : String) {calls : List Node}
    (hcalls : ∀ call ∈ calls, call = callBelow)
    : Statement.fragments [Statement.ofNode (guarded text (branchWith branch comment calls))]
        =
      .ofNode (guarded text (branchWith branch comment calls)) :: calls.map .ofNode := by
  rw [Statement.fragments, List.flatMap_singleton, ofNode_guarded text branch comment hcalls,
    Statement.nested_compound, List.flatMap_singleton, fragments_calls hcalls]
  exact congrArg _ (List.append_nil _)

theorem madeWithin_guarded {text text' branch branch' comment comment' : String}
    (oldText newText : String)
    (hheader : (guarded text (branchWith branch comment [callBelow])).header .conditional
      = (guarded text' (branchWith branch' comment' [])).header .conditional)
    : (SingleEdit.delete (Statement.ofNode callBelow)).MadeWithin
        [(Statement.ofNode (guarded text (branchWith branch comment [callBelow])),
          Statement.ofNode (guarded text' (branchWith branch' comment' [])))]
        (Statement.ofBody
          (some (bodyWith oldText (guarded text (branchWith branch comment [callBelow])))))
        (Statement.ofBody
          (some (bodyWith newText (guarded text' (branchWith branch' comment' []))))) := by
  rw [ofBody_bodyWith, ofBody_bodyWith]
  apply @SingleEdit.MadeWithin.inside _ [Statement.ofNode callBelow] [] [] [] [] [] _ _ [] rfl rfl
  . rw [ofNode_guarded _ _ _ (by simp), ofNode_guarded _ _ _ (by simp), hheader]
    exact @Encloses.clause _ _ _ _ _ _ [] [] [] [] _ _ none none rfl (by simp) .nil .nil rfl rfl rfl
      .none
  . exact .here (@SingleEdit.Made.delete [] [] [] _ rfl)

def bodyOfCall : Node :=
  bodyWith "\x7b if (a) \x7b // b\n f(); \x7d \x7d" guardedCall

def bodyOfComment : Node :=
  bodyWith "\x7b if (a) \x7b // b f();\n \x7d \x7d" guardedComment

def bodyOfNothing : Node :=
  bodyWith "\x7b if (a) \x7b // b\n \x7d \x7d" guardedNothing

theorem normalize_guarded
    : Text.normalize guardedCall.text = "if (a) \x7b // b f(); \x7d"
      ∧ Text.normalize guardedComment.text = "if (a) \x7b // b f(); \x7d"
      ∧ Text.normalize guardedNothing.text = "if (a) \x7b // b \x7d"
      ∧ Text.normalize callBelow.text = "f();" := by
  decide +kernel

theorem header_guarded
    : guardedCall.header .conditional = "if (a)" ∧ guardedComment.header .conditional = "if (a)"
      ∧ guardedNothing.header .conditional = "if (a)" := by
  decide +kernel

theorem ofNode_deleted
    : (Statement.ofNode callBelow).kind = "expression_statement"
      ∧ (Statement.ofNode callBelow).text = "f();" := by
  rw [ofNode_callBelow]
  exact ⟨rfl, normalize_guarded.2.2.2⟩

theorem distinct_bodyOfCall : HasDistinctTexts (Statement.ofBody (some bodyOfCall)) := by
  rw [bodyOfCall, guardedCall, ofBody_bodyWith, HasDistinctTexts, fragments_guarded _ _ _ (by simp)]
  change [Text.normalize guardedCall.text, Text.normalize callBelow.text].Nodup
  rw [normalize_guarded.1, normalize_guarded.2.2.2]
  decide

theorem distinct_bodyWith (text other branch comment : String)
    : HasDistinctTexts (Statement.ofBody
        (some (bodyWith text (guarded other (branchWith branch comment []))))) := by
  rw [ofBody_bodyWith, HasDistinctTexts, fragments_guarded _ _ _ (by simp)]
  exact List.nodup_singleton _

theorem madeWithin_bodyOfNothing
    : (SingleEdit.delete (Statement.ofNode callBelow)).MadeWithin
        [(Statement.ofNode guardedCall, Statement.ofNode guardedNothing)]
        (Statement.ofBody (some bodyOfCall)) (Statement.ofBody (some bodyOfNothing)) :=
  madeWithin_guarded _ _ (header_guarded.1.trans header_guarded.2.2.symm)

theorem madeWithin_bodyOfComment
    : (SingleEdit.delete (Statement.ofNode callBelow)).MadeWithin
        [(Statement.ofNode guardedCall, Statement.ofNode guardedComment)]
        (Statement.ofBody (some bodyOfCall)) (Statement.ofBody (some bodyOfComment)) :=
  madeWithin_guarded _ _ (header_guarded.1.trans header_guarded.2.1.symm)

end Sample

theorem deleted_call_is_reported
    : bodyEdits Thresholds.default.update (Statement.ofBody (some Sample.bodyOfCall))
        (Statement.ofBody (some Sample.bodyOfNothing))
        =
      [⟨.statementDelete, "expression_statement", "f();", none⟩] := by
  have hshown : ∀ versions ∈ [(Statement.ofNode Sample.guardedCall,
      Statement.ofNode Sample.guardedNothing)], versions.1.text ≠ versions.2.text := by
    rw [List.forall_mem_singleton, Statement.text_ofNode, Statement.text_ofNode,
      Sample.normalize_guarded.1, Sample.normalize_guarded.2.2.1]
    decide
  have hreported := single_edit_is_reported Thresholds.default.update
    Sample.madeWithin_bodyOfNothing Sample.distinct_bodyOfCall
    (Sample.distinct_bodyWith _ _ _ _) hshown
  rw [SingleEdit.IsReported, Sample.ofNode_deleted.1, Sample.ofNode_deleted.2] at hreported
  exact hreported

/--
Without a look at the texts of the enclosing statements, this is not so: an edit goes unreported if
line breaks are all that tell the versions of an enclosing statement apart.
-/
theorem not_all_single_edits_reported
    : ¬ ∀ (threshold : Float) (edit : SingleEdit) (enclosing : List (Statement × Statement))
        (old new : Node), old.IsSpanned → new.IsSpanned →
        edit.MadeWithin enclosing (Statement.ofBody (some old)) (Statement.ofBody (some new)) →
        HasDistinctTexts (Statement.ofBody (some old)) →
        HasDistinctTexts (Statement.ofBody (some new)) →
        edit.IsReported threshold
          (bodyEdits threshold (Statement.ofBody (some old)) (Statement.ofBody (some new))) := by
  intro hall
  have hnew := Sample.distinct_bodyWith "\x7b if (a) \x7b // b f();\n \x7d \x7d"
    "if (a) \x7b // b f();\n \x7d" "\x7b // b f();\n \x7d" "// b f();"
  have hhidden : ∃ versions ∈ [(Statement.ofNode Sample.guardedCall,
      Statement.ofNode Sample.guardedComment)], versions.1.text = versions.2.text := by
    refine ⟨_, List.mem_singleton_self _, ?_⟩
    rw [Statement.text_ofNode, Statement.text_ofNode, Sample.normalize_guarded.1,
      Sample.normalize_guarded.2.1]
  have hspanned : Sample.bodyOfCall.IsSpanned ∧ Sample.bodyOfComment.IsSpanned := by
    decide +kernel
  have hreported := hall Thresholds.default.update _ _ _ _ hspanned.1 hspanned.2
    Sample.madeWithin_bodyOfComment Sample.distinct_bodyOfCall hnew
  rw [BodyDiff.bodyEdits_of_lists (Sample.madeWithin_bodyOfComment.lists_eq_nothing
    Sample.distinct_bodyOfCall hnew hhidden .body), SingleEdit.IsReported] at hreported
  contradiction

end MethodHistory
