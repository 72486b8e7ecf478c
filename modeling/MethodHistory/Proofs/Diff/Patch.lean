import MethodHistory.Proofs.Diff.Comparisons
import Mathlib.Algebra.Order.Group.Multiset
import Mathlib.Tactic.Abel

/-!
This module contains the comparison of bodies without compound statements: the events turn the
texts of the one into those of the other.
-/

namespace MethodHistory

namespace Edit

def removed? (edit : Edit) : Option String :=
  if edit.kind = .statementDelete ∨ edit.kind = .statementUpdate then edit.before else none

def added? (edit : Edit) : Option String :=
  if edit.kind = .statementInsert ∨ edit.kind = .statementUpdate then edit.after else none

end Edit

/--
Edits that turn one list of texts into another one, but for the order, without a text that goes and
comes, and with no edits only for lists that agree.
-/
structure IsPatch (edits : List Edit) (olds news : List String) : Prop where
  removed_le : (edits.filterMap Edit.removed? : Multiset String) ≤ (olds : Multiset String)
  patched : (olds : Multiset String) - (edits.filterMap Edit.removed? : Multiset String)
    + (edits.filterMap Edit.added? : Multiset String) = (news : Multiset String)
  noParentChange : ∀ edit ∈ edits, edit.kind ≠ .statementParentChange
  disjoint : ∀ inserted ∈ edits, inserted.kind = .statementInsert →
    ∀ deleted ∈ edits, deleted.kind = .statementDelete → inserted.after ≠ deleted.before
  silent : edits = [] ↔ olds = news

theorem Findings.eq_nothing {found : Findings} (hedits : found.edits = [])
    (hdeleted : found.deleted = []) (hinserted : found.inserted = []) : found = .nothing := by
  cases found
  cases hedits
  cases hdeleted
  cases hinserted
  rfl

namespace BodyDiff

/-! The events of the strays -/

namespace Resolution

variable (resolution : Resolution)

theorem filterMap_edit_moves {f : Edit → Option String}
    (h : ∀ edit : Edit, edit.kind = .statementOrderingChange ∨ edit.kind = .statementParentChange →
      f edit = none)
    : (resolution.moves.map Move.edit).filterMap f = [] := by
  rw [List.filterMap_map, List.filterMap_eq_nil_iff]
  exact fun move hmove => h move.edit (kind_of_mem_moves hmove)

theorem filterMap_removed?_edits
    : resolution.edits.filterMap Edit.removed?
        =
      resolution.removed.map (·.head.text) := by
  have hmoves := @filterMap_edit_moves resolution Edit.removed? <| by
    rintro edit (hkind | hkind) <;> simp [Edit.removed?, hkind]
  rw [edits, List.filterMap_append, List.filterMap_append, hmoves, List.filterMap_map,
    List.filterMap_map]
  simp [Edit.removed?, Function.comp_def]

theorem filterMap_added?_edits
    : resolution.edits.filterMap Edit.added?
        =
      resolution.added.map (·.head.text) := by
  have hmoves := @filterMap_edit_moves resolution Edit.added? <| by
    rintro edit (hkind | hkind) <;> simp [Edit.added?, hkind]
  rw [edits, List.filterMap_append, List.filterMap_append, hmoves, List.filterMap_map,
    List.filterMap_map]
  simp [Edit.added?, Function.comp_def]

end Resolution

/-! The strays of leaves -/

theorem landings_of_no_nested {inserted : List Stray} (h : ∀ stray ∈ inserted, stray.nested = [])
    : landings inserted = inserted.map .ofStray := by
  have hnested : (inserted.flatMap fun stray =>
      stray.nested.map (⟨·, none⟩ : Fragment → Landing)) = [] := by
    rw [List.flatMap_eq_nil_iff]
    intro stray hstray
    rw [h stray hstray, List.map_nil]
  rw [landings, hnested, List.append_nil]
  rfl

section

variable {deleted inserted : List Stray} (hdeleted : ∀ stray ∈ deleted, stray.nested = [])
  (hinserted : ∀ stray ∈ inserted, stray.nested = [])

include hdeleted in
theorem pulled_eq_nil : (resolution deleted inserted).pulled = [] := by
  have hsources := (settles_resolution deleted inserted).sources_perm
  rw [List.flatMap_eq_nil_iff.2 hdeleted] at hsources
  exact List.map_eq_nil_iff.1 (List.append_eq_nil_iff.1 hsources.eq_nil).1

include hinserted in
theorem exists_stray_of_mem_landed {move : Stray × Landing}
    (h : move ∈ (resolution deleted inserted).landed)
    : ∃ stray ∈ inserted, move.2 = .ofStray stray := by
  have htargets := (settles_resolution deleted inserted).targets_perm
  have hmem := htargets.subset (List.mem_append_left _ (List.mem_map_of_mem h))
  rw [landings_of_no_nested hinserted] at hmem
  obtain ⟨stray, hstray, heq⟩ := List.mem_map.1 hmem
  exact ⟨stray, hstray, heq.symm⟩

include hdeleted hinserted in
theorem exists_kept_of_resolution
    : ∃ kept : List String,
        (deleted.map (·.head.text)).Perm
            (kept ++ (resolution deleted inserted).edits.filterMap Edit.removed?)
          ∧ (inserted.map (·.head.text)).Perm
            (kept ++ (resolution deleted inserted).edits.filterMap Edit.added?) := by
  have hsettles := settles_resolution deleted inserted
  have hlanded : ∀ landing ∈ (resolution deleted inserted).landed.map Prod.snd,
      landing.place.isSome := by
    rw [List.forall_mem_map]
    intro move hmove
    obtain ⟨stray, -, heq⟩ := exists_stray_of_mem_landed hinserted hmove
    rw [heq]
    rfl
  have holds := hsettles.deleted_perm.symm.map (·.head.text)
  have hnews := hsettles.inserted_perm.symm.map (·.head.text)
  rw [pulled_eq_nil hdeleted, List.map_nil, List.nil_append, List.filter_eq_self.2 hlanded] at hnews
  rw [List.map_append, List.map_map] at holds hnews
  rw [List.map_map] at hnews
  refine ⟨(resolution deleted inserted).landed.map (·.1.head.text), ?_, ?_⟩
  . rw [Resolution.filterMap_removed?_edits]
    exact holds
  . have htexts : (resolution deleted inserted).landed.map (·.1.head.text)
        = (resolution deleted inserted).landed.map (·.2.head.text) :=
      List.map_congr_left hsettles.landed_text
    rw [Resolution.filterMap_added?_edits, htexts]
    exact hnews

include hdeleted hinserted in
theorem kind_of_mem_moves_of_no_nested {place : Place}
    (hdeletedPlace : ∀ stray ∈ deleted, stray.place = place)
    (hinsertedPlace : ∀ stray ∈ inserted, stray.place = place) {move : Move}
    (h : move ∈ (resolution deleted inserted).moves) : move.kind = .statementOrderingChange := by
  rw [Resolution.moves, pulled_eq_nil hdeleted, List.map_nil, List.append_nil] at h
  obtain ⟨landed, hlanded, rfl⟩ := List.mem_map.1 h
  obtain ⟨stray, hstray, heq⟩ := exists_stray_of_mem_landed hinserted hlanded
  have hmem := (settles_resolution deleted inserted).deleted_perm.subset
    (List.mem_append_left _ (List.mem_map_of_mem hlanded))
  have hplace : landed.2.place = some landed.1.place := by
    rw [heq, hdeletedPlace _ hmem, ← hinsertedPlace stray hstray]
    rfl
  exact if_pos hplace

end

theorem perm_gather {α : Type} (aligned updated updates moved moves : List α)
    : (aligned ++ (updated ++ updates) ++ (moved ++ moves)).Perm
        (aligned ++ updated ++ moved ++ (updates ++ moves)) := by
  rw [← Multiset.coe_eq_coe]
  simp only [← Multiset.coe_add]
  abel

/-! The events of paired leaves -/

def updates (pair : Statement × Statement) : List Edit :=
  if pair.1.text ≠ pair.2.text then
    [⟨.statementUpdate, pair.2.kind, pair.1.text, pair.2.text⟩]
  else
    []

theorem exists_kept_of_updates (pairs : List (Statement × Statement))
    : ∃ kept : List String,
        (pairs.map (·.1.text)).Perm (kept ++ (pairs.flatMap updates).filterMap Edit.removed?)
          ∧ (pairs.map (·.2.text)).Perm
            (kept ++ (pairs.flatMap updates).filterMap Edit.added?) := by
  induction pairs with
  | nil => exact ⟨[], .nil, .nil⟩
  | cons pair pairs ih =>
    obtain ⟨kept, holds, hnews⟩ := ih
    rw [List.map_cons, List.map_cons, List.flatMap_cons, updates]
    split
    . exact ⟨kept, (holds.cons _).trans List.perm_middle.symm,
        (hnews.cons _).trans List.perm_middle.symm⟩
    next htext =>
      refine ⟨pair.1.text :: kept, holds.cons _, ?_⟩
      rw [not_not.1 htext]
      exact hnews.cons _

section

variable {threshold : Float} {olds news : List Statement}
  (holds : ∀ old ∈ olds, old.isCompound = false) (hnews : ∀ new ∈ news, new.isCompound = false)

include holds

theorem edits_lists_of_leaves
    : (lists threshold olds news .body).edits
        =
      (Account.ofSteps (steps (isPairable threshold) olds news)).paired.flatMap updates := by
  have hpairs : ∀ step ∈ steps (isPairable threshold) olds news,
      (finding threshold .body step).edits = (step.paired?.map updates).getD [] := by
    intro step hstep
    have habout := isAbout_of_mem_steps hstep
    cases step with
    | drop => rfl
    | add => rfl
    | pair old new =>
      rw [finding, pair_of_leaf (.inl (holds old habout.1))]
      change _ = updates (old, new)
      rw [updates]
      split <;> rfl
  rw [lists_eq, Account.ofSteps]
  revert hpairs
  generalize steps (isPairable threshold) olds news = found
  intro hpairs
  induction found with
  | nil => rfl
  | cons step found ih =>
    rw [List.forall_mem_cons] at hpairs
    change (finding threshold .body step).edits ++ (Findings.join (found.map _)).edits = _
    rw [hpairs.1, ih hpairs.2]
    cases step <;> rfl

theorem gathers_of_leaves
    : Gathers threshold (lists threshold olds news .body) [.statements olds news .body] := by
  have hgathers := gathers_lists threshold olds news .body
  rw [comparisons_eq] at hgathers
  have hinner : (steps (isPairable threshold) olds news).flatMap (stepComparisons threshold .body)
      = [] := by
    rw [List.flatMap_eq_nil_iff]
    intro step hstep
    have habout := isAbout_of_mem_steps hstep
    cases step with
    | drop => rfl
    | add => rfl
    | pair old new => exact comparisonsOfPair_of_leaf (.inl (holds old habout.1))
  rwa [hinner] at hgathers

theorem spec_of_mem_deleted {stray : Stray}
    (h : stray ∈ (lists threshold olds news .body).deleted)
    : stray.place = .body ∧ stray.nested = [] := by
  have hmem := (gathers_of_leaves holds).deleted.subset h
  rw [List.flatMap_singleton] at hmem
  obtain ⟨old, hold, rfl⟩ := List.mem_map.1 hmem
  obtain ⟨step, hstep, hdropped⟩ := List.mem_filterMap.1 hold
  have habout := isAbout_of_mem_steps hstep
  cases step with
  | drop =>
    cases hdropped
    exact ⟨rfl, Statement.nested_of_leaf (holds old habout)⟩
  | add => contradiction
  | pair => contradiction

include hnews in
theorem spec_of_mem_inserted {stray : Stray}
    (h : stray ∈ (lists threshold olds news .body).inserted)
    : stray.place = .body ∧ stray.nested = [] := by
  have hmem := (gathers_of_leaves holds).inserted.subset h
  rw [List.flatMap_singleton] at hmem
  obtain ⟨new, hnew, rfl⟩ := List.mem_map.1 hmem
  obtain ⟨step, hstep, hadded⟩ := List.mem_filterMap.1 hnew
  have habout := isAbout_of_mem_steps hstep
  cases step with
  | add =>
    cases hadded
    exact ⟨rfl, Statement.nested_of_leaf (hnews new habout)⟩
  | drop => contradiction
  | pair => contradiction

include hnews in
theorem exists_kept_of_leaves
    : ∃ kept : List String,
        (olds.map Statement.text).Perm
            (kept ++ (bodyEdits threshold olds news).filterMap Edit.removed?)
          ∧ (news.map Statement.text).Perm
            (kept ++ (bodyEdits threshold olds news).filterMap Edit.added?) := by
  have hgathers := @gathers_of_leaves threshold olds news holds
  obtain ⟨hcovers, haligned, -, -⟩ := areAccounted_lists threshold olds news
  obtain ⟨updated, holdUpdated, hnewUpdated⟩ := exists_kept_of_updates
    (Account.ofSteps (steps (isPairable threshold) olds news)).paired
  obtain ⟨moved, holdMoved, hnewMoved⟩ := exists_kept_of_resolution
    (fun _ h => (@spec_of_mem_deleted threshold olds news holds _ h).2)
    (fun _ h => (@spec_of_mem_inserted threshold olds news holds hnews _ h).2)
  have hdropped := hgathers.deleted.map (·.head.text)
  have hadded := hgathers.inserted.map (·.head.text)
  rw [List.flatMap_singleton, Comparison.deleted, List.map_map] at hdropped
  rw [List.flatMap_singleton, Comparison.inserted, List.map_map] at hadded
  have holdTexts := hcovers.olds_perm.symm.map Statement.text
  have hnewTexts := hcovers.news_perm.symm.map Statement.text
  rw [List.map_append, List.map_append, List.map_append, List.map_map, List.map_map]
    at holdTexts hnewTexts
  refine ⟨(alignedPairs olds news).map (·.1.text) ++ updated ++ moved, ?_, ?_⟩
  . rw [bodyEdits_eq_outcome, List.filterMap_append, edits_lists_of_leaves holds]
    apply holdTexts.trans
    apply ((holdUpdated.append_left _).append (hdropped.symm.trans holdMoved)).trans
    exact perm_gather _ _ _ _ _
  . have htexts : (alignedPairs olds news).map (·.1.text)
        = (alignedPairs olds news).map (·.2.text) := List.map_congr_left haligned
    rw [bodyEdits_eq_outcome, List.filterMap_append, edits_lists_of_leaves holds, htexts]
    apply hnewTexts.trans
    apply ((hnewUpdated.append_left _).append (hadded.symm.trans hnewMoved)).trans
    exact perm_gather _ _ _ _ _

include hnews in
theorem kind_of_mem_moves_of_leaves {move : Move}
    (h : move ∈ (outcome threshold olds news).moves) : move.kind = .statementOrderingChange :=
  kind_of_mem_moves_of_no_nested (fun _ h => (spec_of_mem_deleted holds h).2)
    (fun _ h => (spec_of_mem_inserted holds hnews h).2)
    (fun _ h => (spec_of_mem_deleted holds h).1) (fun _ h => (spec_of_mem_inserted holds hnews h).1)
    h

theorem texts_eq_of_no_edits (h : bodyEdits threshold olds news = [])
    : olds.map Statement.text = news.map Statement.text := by
  rw [bodyEdits, List.append_eq_nil_iff] at h
  obtain ⟨hdeleted, hinserted⟩ := eq_nil_of_resolve h.2
  have hnothing := Findings.eq_nothing h.1 hdeleted hinserted
  have hunchanged := (List.forall₂_and_left _ _).2 ⟨holds, unchanged_of_lists hnothing⟩
  rw [map_eq_map_iff_forall₂]
  apply hunchanged.imp
  rintro old new ⟨hleaf, htext | _⟩
  . exact htext
  . contradiction

end

end BodyDiff

theorem isPatch_bodyEdits (threshold : Float) {olds news : List Statement}
    (holds : ∀ old ∈ olds, old.isCompound = false) (hnews : ∀ new ∈ news, new.isCompound = false)
    : IsPatch (bodyEdits threshold olds news) (olds.map Statement.text)
        (news.map Statement.text) := by
  obtain ⟨kept, hremoved, hadded⟩ :=
    @BodyDiff.exists_kept_of_leaves threshold olds news holds hnews
  rw [← Multiset.coe_eq_coe, ← Multiset.coe_add] at hremoved hadded
  constructor
  . rw [hremoved]
    exact Multiset.le_add_left _ _
  . rw [hremoved, hadded, Multiset.add_sub_cancel_right]
  . intro edit hedit hkind
    rw [bodyEdits_eq_outcome, List.mem_append, BodyDiff.Resolution.mem_edits] at hedit
    rcases hedit with hedit | ⟨move, hmove, rfl⟩ | ⟨stray, -, rfl⟩ | ⟨landing, -, rfl⟩
    . have hinPlace := (BodyDiff.gathers_lists threshold olds news .body).edits edit hedit
      simp [Edit.IsInPlace, hkind] at hinPlace
    . have hmoved := BodyDiff.kind_of_mem_moves_of_leaves holds hnews hmove
      exact absurd (hmoved.symm.trans hkind) (by simp)
    . contradiction
    . contradiction
  . intro inserted hinserted hinsert deleted hdeleted hdelete
    obtain ⟨landing, hlanding, rfl⟩ := BodyDiff.exists_added_of_insert hinserted hinsert
    obtain ⟨stray, hstray, rfl⟩ := BodyDiff.exists_removed_of_delete hdeleted hdelete
    have htexts := (BodyDiff.settles_resolution _ _).removed_text stray hstray landing
      (List.mem_append_left _ hlanding)
    exact fun h => htexts (Option.some.inj h)
  . constructor
    . exact BodyDiff.texts_eq_of_no_edits holds
    . intro htexts
      exact BodyDiff.bodyEdits_of_lists (BodyDiff.lists_of_texts htexts)

namespace Sample

def calls : List Statement :=
  [call "f();", call "g();", call "f();"]

def otherCalls : List Statement :=
  [call "g();", call "h();", call "f();", call "g();"]

end Sample

theorem isPatch_of_calls
    : (∀ old ∈ Sample.calls, old.isCompound = false)
      ∧ (∀ new ∈ Sample.otherCalls, new.isCompound = false)
      ∧ IsPatch (bodyEdits Thresholds.default.update Sample.calls Sample.otherCalls)
          ["f();", "g();", "f();"] ["g();", "h();", "f();", "g();"] := by
  have holds : ∀ old ∈ Sample.calls, old.isCompound = false := by
    decide
  have hnews : ∀ new ∈ Sample.otherCalls, new.isCompound = false := by
    decide
  exact ⟨holds, hnews, isPatch_bodyEdits _ holds hnews⟩

end MethodHistory
