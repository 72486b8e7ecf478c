import MethodHistory.Proofs.Diff.Legible
import MethodHistory.Proofs.Diff.SingleEdit
import MethodHistory.Proofs.Segmentation

/-!
This module contains what the comparison of two statement lists looks at: the gaps of a segmentation
by the texts of the statements, one after another. No two statements in a gap have the same text, so
every pair is one of different statements.
-/

namespace MethodHistory

namespace Findings

theorem append_assoc (found more rest : Findings)
    : found ++ more ++ rest = found ++ (more ++ rest) := by
  change Findings.mk _ _ _ = Findings.mk _ _ _
  rw [Findings.mk.injEq]
  exact ⟨List.append_assoc _ _ _, List.append_assoc _ _ _, List.append_assoc _ _ _⟩

theorem join_append (findings more : List Findings)
    : join (findings ++ more) = join findings ++ join more := by
  induction findings with
  | nil => exact (nothing_append _).symm
  | cons found findings ih =>
    change found ++ join (findings ++ more) = found ++ join findings ++ join more
    rw [ih, append_assoc]

theorem join_map_flatMap {α β : Type} (xs : List α) (f : α → List β) (g : β → Findings)
    : join ((xs.flatMap f).map g) = join (xs.map fun x => join ((f x).map g)) := by
  induction xs with
  | nil => rfl
  | cons x xs ih =>
    rw [List.flatMap_cons, List.map_append, join_append, ih]
    rfl

end Findings

namespace BodyDiff

variable {olds news : List Statement}

def segmentFindings (threshold : Float) (place : Place) : Segment Statement → Findings
  | .run .. => .nothing
  | .gap olds news =>
    .join ((gapSteps (isPairable threshold) olds news).map (finding threshold place))

theorem lists_eq_segmentFindings (threshold : Float) (olds news : List Statement) (place : Place)
    : lists threshold olds news place
        =
      .join ((align Statement.text (fun _ => true) olds news).map
        (segmentFindings threshold place)) := by
  rw [lists_eq, steps, Findings.join_map_flatMap]
  congr 2
  funext segment
  cases segment <;> rfl

theorem text_ne_of_pair_mem_steps {isPairable : Statement → Statement → Bool} {old new : Statement}
    (h : .pair old new ∈ steps isPairable olds news) : old.text ≠ new.text := by
  obtain ⟨segment, hsegment, hpair⟩ := List.mem_flatMap.1 h
  cases segment with
  | run => contradiction
  | gap gapOlds gapNews =>
    obtain ⟨hold, hnew, -⟩ := isAbout_of_mem_gapSteps hpair
    exact key_ne_of_gap_mem_align hsegment hold hnew rfl

/--
A segmentation of two statement lists by the normal forms of their texts, whose gaps are the regions
that are compared. Statements with the same text are not paired, so a leaf that is paired is always
an update.
-/
structure ComparesGaps (threshold : Float) (place : Place) (segments : List (Segment Statement))
    (olds news : List Statement) : Prop where
  segmentation : IsSegmentation Statement.text segments olds news
  lists_eq : lists threshold olds news place
    = .join (segments.map (segmentFindings threshold place))
  text_ne : ∀ old new, .pair old new ∈ steps (isPairable threshold) olds news →
    old.text ≠ new.text
  update : ∀ old new, .pair old new ∈ steps (isPairable threshold) olds news →
    old.isCompound = false →
      pair threshold old new place = .edit .statementUpdate new.kind old.text new.text

theorem comparesGaps_align (threshold : Float) (place : Place) (olds news : List Statement)
    : ComparesGaps threshold place (align Statement.text (fun _ => true) olds news) olds news := by
  refine ⟨isSegmentation_align olds news, lists_eq_segmentFindings threshold olds news place,
    fun _ _ => text_ne_of_pair_mem_steps, ?_⟩
  intro old new hpair hleaf
  rw [pair_of_leaf (.inl hleaf), if_pos (text_ne_of_pair_mem_steps hpair)]

end BodyDiff
end MethodHistory
