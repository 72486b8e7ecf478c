import MethodHistory.Diff.Body
import MethodHistory.Proofs.FirstFit
import Mathlib.Data.List.Flatten
import Mathlib.Data.List.Perm.Basic
import Mathlib.Data.List.Perm.Subperm

/-!
This module contains what becomes of the strays of two bodies: which of them have moved, with both
ends of each move, and which are deleted or inserted.
-/

namespace MethodHistory

theorem subperm_flatMap {α β : Type} {xs ys : List α} (h : xs.Subperm ys) (f : α → List β)
    : (xs.flatMap f).Subperm (ys.flatMap f) := by
  obtain ⟨zs, hperm, hsublist⟩ := h
  exact ⟨zs.flatMap f, hperm.flatMap_right f, hsublist.flatMap f⟩

theorem subperm_map {α β : Type} {xs ys : List α} (h : xs.Subperm ys) (f : α → β)
    : (xs.map f).Subperm (ys.map f) := by
  rw [List.map_eq_flatMap, List.map_eq_flatMap]
  exact subperm_flatMap h _

namespace BodyDiff

structure Move where
  kind : ChangeKind
  source : Fragment
  target : Fragment

def Move.edit (move : Move) : Edit :=
  ⟨move.kind, move.target.kind, move.source.text, move.target.text⟩

def Landing.ofStray (stray : Stray) : Landing :=
  ⟨stray.head, stray.place⟩

/--
The strays of two bodies by what becomes of them. Vanished strays land somewhere or are removed,
inserted ones are pulled out of a vanished one or are added, if nothing has landed on them. What
only came or went with a stray stays unused if no move starts or ends there.
-/
structure Resolution where
  landed : List (Stray × Landing)
  pulled : List (Landing × Fragment)
  removed : List Stray
  added : List Landing
  unusedSources : List Fragment
  unusedTargets : List Landing

namespace Resolution

def moves (resolution : Resolution) : List Move :=
  resolution.landed.map (fun (stray, landing) =>
      ⟨moveKind stray landing, stray.head, landing.head⟩)
    ++ resolution.pulled.map fun (landing, fragment) =>
      ⟨.statementParentChange, fragment, landing.head⟩

def edits (resolution : Resolution) : List Edit :=
  resolution.moves.map Move.edit
    ++ resolution.removed.map (fun stray =>
      ⟨.statementDelete, stray.head.kind, stray.head.text, none⟩)
    ++ resolution.added.map fun landing =>
      ⟨.statementInsert, landing.head.kind, none, landing.head.text⟩

/--
Each stray has one fate and each fragment that came or went with one is used once at most. The ends
of a move have the same text, and nothing is removed or added as long as something unused has its
text.
-/
structure Settles (resolution : Resolution) (deleted inserted : List Stray) : Prop where
  deleted_perm : (resolution.landed.map Prod.fst ++ resolution.removed).Perm deleted
  inserted_perm : ((resolution.landed.map Prod.snd).filter (·.place.isSome)
    ++ (resolution.pulled.map Prod.fst ++ resolution.added)).Perm (inserted.map .ofStray)
  sources_perm : (resolution.pulled.map Prod.snd ++ resolution.unusedSources).Perm
    (deleted.flatMap Stray.nested)
  targets_perm : (resolution.landed.map Prod.snd ++ (resolution.pulled.map Prod.fst
    ++ (resolution.added ++ resolution.unusedTargets))).Perm (landings inserted)
  landed_text : ∀ move ∈ resolution.landed, move.1.head.text = move.2.head.text
  pulled_text : ∀ move ∈ resolution.pulled, move.2.text = move.1.head.text
  removed_text : ∀ stray ∈ resolution.removed,
    ∀ landing ∈ resolution.added ++ resolution.unusedTargets, landing.head.text ≠ stray.head.text
  added_text : ∀ landing ∈ resolution.added,
    ∀ fragment ∈ resolution.unusedSources, fragment.text ≠ landing.head.text

theorem kind_of_mem_moves {resolution : Resolution} {move : Move} (h : move ∈ resolution.moves)
    : move.kind = .statementOrderingChange ∨ move.kind = .statementParentChange := by
  rcases List.mem_append.1 h with h | h
  . obtain ⟨⟨stray, landing⟩, -, rfl⟩ := List.mem_map.1 h
    dsimp only [moveKind]
    split
    . exact .inl rfl
    . exact .inr rfl
  . obtain ⟨_, -, rfl⟩ := List.mem_map.1 h
    exact .inr rfl

theorem mem_edits {resolution : Resolution} {edit : Edit}
    : edit ∈ resolution.edits
        ↔ (∃ move ∈ resolution.moves, edit = move.edit)
          ∨ (∃ stray ∈ resolution.removed,
            edit = ⟨.statementDelete, stray.head.kind, stray.head.text, none⟩)
          ∨ ∃ landing ∈ resolution.added,
            edit = ⟨.statementInsert, landing.head.kind, none, landing.head.text⟩ := by
  simp only [edits, List.mem_append, List.mem_map, or_assoc, eq_comm]

end Resolution

variable (deleted inserted : List Stray)

def vanished : List (Stray × Option Landing) × List Landing :=
  firstFit (fun stray landing => landing.head.text = stray.head.text) deleted (landings inserted)

def arrived : List (Landing × Option Fragment) × List Fragment :=
  firstFit (fun landing head => head.text = landing.head.text)
    ((vanished deleted inserted).2.filter (·.place.isSome)) (deleted.flatMap Stray.nested)

def resolution : Resolution where
  landed := FirstFit.joined (vanished deleted inserted).1
  pulled := FirstFit.joined (arrived deleted inserted).1
  removed := FirstFit.alone (vanished deleted inserted).1
  added := FirstFit.alone (arrived deleted inserted).1
  unusedSources := (arrived deleted inserted).2
  unusedTargets := (vanished deleted inserted).2.filter (!·.place.isSome)

theorem filter_landings
    : (landings inserted).filter (·.place.isSome) = inserted.map .ofStray := by
  have hnested : (inserted.flatMap fun stray =>
      stray.nested.map (⟨·, none⟩ : Fragment → Landing)).filter (·.place.isSome) = [] := by
    rw [List.filter_eq_nil_iff]
    intro landing hlanding
    obtain ⟨stray, -, hlanding⟩ := List.mem_flatMap.1 hlanding
    obtain ⟨fragment, -, rfl⟩ := List.mem_map.1 hlanding
    exact Bool.false_ne_true
  have hstrays : ∀ landing ∈ inserted.map Landing.ofStray, landing.place.isSome := by
    intro landing hlanding
    obtain ⟨stray, -, rfl⟩ := List.mem_map.1 hlanding
    rfl
  rw [landings, List.filter_append, hnested, List.append_nil]
  exact List.filter_eq_self.2 hstrays

theorem text_eq_of_mem_landed {move : Stray × Landing}
    (h : move ∈ (resolution deleted inserted).landed) : move.1.head.text = move.2.head.text := by
  have hfits := fits_of_mem_firstFit (FirstFit.mem_joined.1 h)
  exact (of_decide_eq_true hfits).symm

theorem text_eq_of_mem_pulled {move : Landing × Fragment}
    (h : move ∈ (resolution deleted inserted).pulled) : move.2.text = move.1.head.text := by
  have hfits := fits_of_mem_firstFit (FirstFit.mem_joined.1 h)
  exact of_decide_eq_true hfits

theorem resolve_eq_edits : resolve deleted inserted = (resolution deleted inserted).edits := by
  rw [resolve, Resolution.edits, Resolution.moves, List.map_append, List.map_map, List.map_map]
  dsimp only
  congr 1
  . congr 1
    . congr 1
      . apply FirstFit.filterMap_eq_map_joined
        . intro move hmove
          rw [Function.comp_apply, Move.edit, ← text_eq_of_mem_landed deleted inserted hmove]
        . intro stray
          rfl
      . apply FirstFit.filterMap_eq_map_joined
        . intro move hmove
          rw [Function.comp_apply, Move.edit, text_eq_of_mem_pulled deleted inserted hmove]
        . intro landing
          rfl
    . exact FirstFit.filterMap_eq_map_alone (fun _ _ => rfl) fun _ => rfl
  . exact FirstFit.filterMap_eq_map_alone (fun _ _ => rfl) fun _ => rfl

theorem settles_resolution : (resolution deleted inserted).Settles deleted inserted := by
  obtain ⟨hdeleted, hlandings⟩ := perm_joined_firstFit
    (fun (stray : Stray) (landing : Landing) => decide (landing.head.text = stray.head.text))
    deleted (landings inserted)
  obtain ⟨hpulled, hsources⟩ := perm_joined_firstFit
    (fun (landing : Landing) (head : Fragment) => decide (head.text = landing.head.text))
    ((vanished deleted inserted).2.filter (·.place.isSome)) (deleted.flatMap Stray.nested)
  have hfree := List.filter_append_perm (·.place.isSome) (vanished deleted inserted).2
  -- On a free landing nothing has landed, so it has the text of none of the removed strays.
  have hremoved : ∀ stray ∈ (resolution deleted inserted).removed,
      ∀ landing ∈ (vanished deleted inserted).2, landing.head.text ≠ stray.head.text := by
    intro stray hstray landing hlanding
    have hfits := not_fits_of_mem_firstFit (FirstFit.mem_alone.1 hstray) hlanding
    exact of_decide_eq_false hfits
  have hadded : ∀ landing ∈ (resolution deleted inserted).added,
      landing ∈ (vanished deleted inserted).2 := by
    intro landing hlanding
    have hmem := hpulled.subset (List.mem_append_right _ hlanding)
    exact (List.mem_filter.1 hmem).1
  constructor
  . exact hdeleted
  . have hfiltered := hlandings.filter (·.place.isSome)
    rw [List.filter_append, filter_landings] at hfiltered
    exact (hpulled.append_left _).trans hfiltered
  . exact hsources
  . rw [← List.append_assoc (List.map Prod.fst _)]
    exact (((hpulled.append_right _).trans hfree).append_left _).trans hlandings
  . exact fun _ => text_eq_of_mem_landed deleted inserted
  . exact fun _ => text_eq_of_mem_pulled deleted inserted
  . intro stray hstray landing hlanding
    apply hremoved stray hstray
    rcases List.mem_append.1 hlanding with hlanding | hlanding
    . exact hadded landing hlanding
    . exact (List.mem_filter.1 hlanding).1
  . intro landing hlanding fragment hfragment
    have hfits := not_fits_of_mem_firstFit (FirstFit.mem_alone.1 hlanding) hfragment
    exact of_decide_eq_false hfits

/-! The ends of the moves -/

theorem text_eq_of_mem_moves {move : Move} (h : move ∈ (resolution deleted inserted).moves)
    : move.source.text = move.target.text := by
  rcases List.mem_append.1 h with h | h
  . obtain ⟨landed, hlanded, rfl⟩ := List.mem_map.1 h
    exact text_eq_of_mem_landed deleted inserted hlanded
  . obtain ⟨pulled, hpulled, rfl⟩ := List.mem_map.1 h
    exact text_eq_of_mem_pulled deleted inserted hpulled

theorem subperm_sources
    : ((resolution deleted inserted).moves.map Move.source).Subperm
        (deleted.map Stray.head ++ deleted.flatMap Stray.nested) := by
  have hsettles := settles_resolution deleted inserted
  rw [Resolution.moves, List.map_append, List.map_map, List.map_map]
  apply List.Subperm.append
  . change ((resolution deleted inserted).landed.map (Stray.head ∘ Prod.fst)).Subperm _
    rw [← List.map_map]
    apply subperm_map
    exact (List.sublist_append_left _ _).subperm.trans hsettles.deleted_perm.subperm
  . exact (List.sublist_append_left _ _).subperm.trans hsettles.sources_perm.subperm

theorem map_head_landings
    : (landings inserted).map Landing.head
        =
      inserted.map Stray.head ++ inserted.flatMap Stray.nested := by
  rw [landings, List.map_append, List.map_map, List.map_flatMap]
  simp [Function.comp_def]

theorem subperm_targets
    : ((resolution deleted inserted).moves.map Move.target).Subperm
        (inserted.map Stray.head ++ inserted.flatMap Stray.nested) := by
  have htargets := (settles_resolution deleted inserted).targets_perm
  rw [← List.append_assoc] at htargets
  rw [Resolution.moves, List.map_append, List.map_map, List.map_map, ← map_head_landings]
  change ((resolution deleted inserted).landed.map (Landing.head ∘ Prod.snd)
    ++ (resolution deleted inserted).pulled.map (Landing.head ∘ Prod.fst)).Subperm _
  rw [← List.map_map, ← List.map_map, ← List.map_append]
  apply subperm_map
  exact (List.sublist_append_left _ _).subperm.trans htargets.subperm

/-! The outcome of a comparison -/

def outcome (threshold : Float) (olds news : List Statement) : Resolution :=
  let found := lists threshold olds news .body
  resolution found.deleted found.inserted

end BodyDiff

theorem bodyEdits_eq_outcome (threshold : Float) (olds news : List Statement)
    : bodyEdits threshold olds news
        =
      (BodyDiff.lists threshold olds news .body).edits
        ++ (BodyDiff.outcome threshold olds news).edits := by
  rw [bodyEdits, BodyDiff.resolve_eq_edits]
  rfl

end MethodHistory
