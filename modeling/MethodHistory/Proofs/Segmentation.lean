import MethodHistory.Proofs.Alignment
import Mathlib.Data.List.Chain

/-!
This module contains how the segments of an alignment lie: runs and gaps alternate, as a run is
continued as far as the keys are equal, and no run is left inside a gap.
-/

namespace MethodHistory

variable {α κ : Type} [DecidableEq κ] {key : α → κ} {seed : κ → Bool} {olds news : List α}

namespace Segment

def isRun : Segment α → Bool
  | run .. => true
  | gap .. => false

end Segment

/--
Two sequences as runs and gaps in turn, none of them empty. The two sides of a run have equal keys
one by one, and no key of the old side of a gap is one of its new side.
-/
structure IsSegmentation (key : α → κ) (segments : List (Segment α)) (olds news : List α)
    : Prop where
  olds_eq : segments.flatMap Segment.olds = olds
  news_eq : segments.flatMap Segment.news = news
  ne_nil : ∀ segment ∈ segments, segment.olds ≠ [] ∨ segment.news ≠ []
  alternate : segments.IsChain fun segment next => segment.isRun ≠ next.isRun
  run_keys : ∀ runOlds runNews, .run runOlds runNews ∈ segments →
    List.Forall₂ (fun old new => key old = key new) runOlds runNews
  gap_keys : ∀ gapOlds gapNews, .gap gapOlds gapNews ∈ segments →
    ∀ old ∈ gapOlds, ∀ new ∈ gapNews, key old ≠ key new

/-! A run that is split off goes on no further -/

namespace Alignment

theorem reverse_take_sub {items : List α} {start : Nat} (h : start ≤ items.length) (n : Nat)
    : (items.take (start - n)).reverse = (items.take start).reverse.drop n := by
  rw [List.drop_reverse, List.take_take, List.length_take, Nat.min_eq_left h,
    Nat.min_eq_left (Nat.sub_le start n)]

theorem sharedFront_before_split (olds news : List α)
    : sharedFront key (olds.take (split key seed olds news).oldStart).reverse
        (news.take (split key seed olds news).newStart).reverse
        =
      0 := by
  have hwithin := @longestRun_within _ _ _ key seed olds news
  rw [split, extend]
  generalize longestRun key seed olds news = run at *
  obtain ⟨hold, hnew⟩ := hwithin
  dsimp only
  rw [reverse_take_sub (by omega), reverse_take_sub (by omega)]
  exact sharedFront_drop _ _

theorem drop_stop {start before : Nat} (h : before ≤ start) (items : List α) (size after : Nat)
    : items.drop (start - before + (before + size + after))
        =
      (items.drop (start + size)).drop after := by
  rw [List.drop_drop]
  congr 1
  omega

theorem sharedFront_behind_split (olds news : List α)
    : sharedFront key
        (olds.drop ((split key seed olds news).oldStart + (split key seed olds news).size))
        (news.drop ((split key seed olds news).newStart + (split key seed olds news).size))
        =
      0 := by
  rw [split, extend]
  generalize longestRun key seed olds news = run
  have hle := sharedFront_le key (olds.take run.oldStart).reverse (news.take run.newStart).reverse
  rw [List.length_reverse, List.length_reverse, List.length_take, List.length_take] at hle
  dsimp only
  rw [drop_stop (by omega), drop_stop (by omega)]
  exact sharedFront_drop _ _

end Alignment

/-! Runs and gaps -/

theorem run_ne_nil_of_mem_align {runOlds runNews : List α}
    (h : .run runOlds runNews ∈ align key seed olds news) : runOlds ≠ [] := by
  obtain ⟨part, part', ⟨hsize, hrun⟩ | ⟨-, -, hgap⟩⟩ := exists_of_mem_align h
  . cases hrun
    have hwithin := Alignment.split_within key seed part part'
    rw [Alignment.Within] at hwithin
    apply List.ne_nil_of_length_pos
    rw [List.length_take, List.length_drop]
    omega
  . cases hgap

theorem gap_ne_nil_of_mem_align {gapOlds gapNews : List α}
    (h : .gap gapOlds gapNews ∈ align key seed olds news) : gapOlds ≠ [] ∨ gapNews ≠ [] := by
  obtain ⟨part, part', ⟨-, hrun⟩ | ⟨-, hne, hgap⟩⟩ := exists_of_mem_align h
  . cases hrun
  . cases hgap
    exact hne

theorem key_ne_of_gap_mem_align {gapOlds gapNews : List α} {old new : α}
    (h : .gap gapOlds gapNews ∈ align key seed olds news) (hold : old ∈ gapOlds)
    (hnew : new ∈ gapNews) (hseed : seed (key new)) : key old ≠ key new := by
  obtain ⟨part, part', ⟨-, hrun⟩ | ⟨hsize, -, hgap⟩⟩ := exists_of_mem_align h
  . cases hrun
  . cases hgap
    exact Alignment.ne_of_size_split_eq_zero hsize hold hnew hseed

-- An element that starts no run can be left on both sides.
example : align id (fun c => c != 'a') ['x', 'a'] ['a', 'y'] = [.gap ['x', 'a'] ['a', 'y']] := by
  cbv

theorem sharedFront_ne_zero_of_head? {runOlds runNews : List α}
    (h : (align key seed olds news).head? = some (.run runOlds runNews))
    : Alignment.sharedFront key olds news ≠ 0 := by
  obtain ⟨rest, hsegments⟩ := List.head?_eq_some_iff.1 h
  have hmem : .run runOlds runNews ∈ align key seed olds news := List.mem_of_mem_head? h
  have hlength := Alignment.length_le_sharedFront (map_key_of_run_mem_align hmem)
    (rest.flatMap Segment.olds) (rest.flatMap Segment.news)
  have hpos := List.length_pos_of_ne_nil (run_ne_nil_of_mem_align hmem)
  have holds := @align_flatMap_olds _ _ _ key seed olds news
  have hnews := @align_flatMap_news _ _ _ key seed olds news
  rw [hsegments, List.flatMap_cons] at holds hnews
  rw [← holds, ← hnews]
  exact Nat.ne_of_gt (Nat.lt_of_lt_of_le hpos hlength)

theorem sharedFront_reverse_ne_zero_of_getLast? {runOlds runNews : List α}
    (h : (align key seed olds news).getLast? = some (.run runOlds runNews))
    : Alignment.sharedFront key olds.reverse news.reverse ≠ 0 := by
  obtain ⟨front, hsegments⟩ := List.getLast?_eq_some_iff.1 h
  have hmem : .run runOlds runNews ∈ align key seed olds news := List.mem_of_getLast? h
  have hkeys : runOlds.reverse.map key = runNews.reverse.map key := by
    rw [List.map_reverse, List.map_reverse, map_key_of_run_mem_align hmem]
  have hlength := Alignment.length_le_sharedFront hkeys
    (front.flatMap Segment.olds).reverse (front.flatMap Segment.news).reverse
  have hpos := List.length_pos_of_ne_nil (run_ne_nil_of_mem_align hmem)
  have holds := @align_flatMap_olds _ _ _ key seed olds news
  have hnews := @align_flatMap_news _ _ _ key seed olds news
  rw [hsegments, List.flatMap_append, List.flatMap_singleton] at holds hnews
  rw [List.length_reverse] at hlength
  rw [← holds, ← hnews, List.reverse_append, List.reverse_append]
  exact Nat.ne_of_gt (Nat.lt_of_lt_of_le hpos hlength)

theorem isChain_align (olds news : List α)
    : (align key seed olds news).IsChain fun segment next => segment.isRun ≠ next.isRun := by
  fun_induction align key seed olds news with
  | case1 => exact .nil
  | case2 => exact .singleton _
  | case3 olds news _ run ih₁ ih₂ =>
    -- A run next to the one that is split off would continue it.
    have hbefore := @Alignment.sharedFront_before_split _ _ _ key seed olds news
    have hbehind := @Alignment.sharedFront_behind_split _ _ _ key seed olds news
    rw [List.isChain_append, List.isChain_cons]
    refine ⟨ih₁, ⟨?_, ih₂⟩, ?_⟩
    . intro next hnext
      cases next with
      | run => exact absurd hbehind (sharedFront_ne_zero_of_head? hnext)
      | gap => exact Bool.noConfusion
    . rintro segment hsegment _ ⟨⟩
      cases segment with
      | run => exact absurd hbefore (sharedFront_reverse_ne_zero_of_getLast? hsegment)
      | gap => exact Bool.noConfusion

theorem isSegmentation_align (olds news : List α)
    : IsSegmentation key (align key (fun _ => true) olds news) olds news := by
  refine ⟨align_flatMap_olds olds news, align_flatMap_news olds news, ?_, isChain_align olds news,
    fun _ _ => forall₂_of_run_mem_align, ?_⟩
  . intro segment hsegment
    cases segment with
    | run => exact .inl (run_ne_nil_of_mem_align hsegment)
    | gap => exact gap_ne_nil_of_mem_align hsegment
  . intro gapOlds gapNews hgap old hold new hnew
    exact key_ne_of_gap_mem_align hgap hold hnew rfl

end MethodHistory
