import MethodHistory.Proofs.Alignment
import MethodHistory.Proofs.Text.Words
import MethodHistory.Similarity
import Mathlib.Algebra.Order.Field.Basic
import Mathlib.Algebra.Order.Field.Rat
import Mathlib.Data.Nat.Cast.Order.Field
import Mathlib.Tactic.NormNum

/-!
This module contains what the similarity of two texts tells: it is a proper ratio, which is 1 for
texts with the same normal form and for no others, and it credits what one text shares with the
other in one piece, as far as no character of the piece is popular.
-/

namespace MethodHistory

/-! What lies in runs -/

namespace Segment

variable {α : Type}

def shared : Segment α → List α
  | run olds _ => olds
  | gap _ _ => []

theorem sublist_flatMap_olds (segments : List (Segment α))
    : (segments.flatMap shared).Sublist (segments.flatMap olds) := by
  induction segments with
  | nil => exact List.nil_sublist []
  | cons segment segments ih =>
    rw [List.flatMap_cons, List.flatMap_cons]
    cases segment with
    | run olds news => exact (List.Sublist.refl olds).append ih
    | gap olds news => exact (List.nil_sublist olds).append ih

theorem foldr_runSize (segments : List (Segment α))
    : segments.foldr (fun segment total => segment.runSize + total) 0
        =
      (segments.flatMap shared).length := by
  induction segments with
  | nil => rfl
  | cons segment segments ih =>
    rw [List.foldr_cons, List.flatMap_cons, List.length_append, ih]
    cases segment <;> rfl

end Segment

section

variable {α κ : Type} [DecidableEq κ] {key : α → κ} {seed : κ → Bool}

omit [DecidableEq κ] in
theorem map_shared_sublist_news {segments : List (Segment α)}
    (h : ∀ olds news, .run olds news ∈ segments → olds.map key = news.map key)
    : ((segments.flatMap Segment.shared).map key).Sublist
      ((segments.flatMap Segment.news).map key) := by
  induction segments with
  | nil => exact List.nil_sublist []
  | cons segment segments ih =>
    have ih := ih fun olds news hrun => h olds news (List.mem_cons_of_mem _ hrun)
    rw [List.flatMap_cons, List.flatMap_cons, List.map_append, List.map_append]
    cases segment with
    | run olds news =>
      have hkeys : (Segment.run olds news).shared.map key = (Segment.run olds news).news.map key :=
        h olds news List.mem_cons_self
      rw [hkeys]
      exact (List.Sublist.refl _).append ih
    | gap olds news => exact (List.nil_sublist _).append ih

theorem shared_sublist (olds news : List α)
    : ((align key seed olds news).flatMap Segment.shared).Sublist olds
      ∧ (((align key seed olds news).flatMap Segment.shared).map key).Sublist (news.map key) := by
  have hold := Segment.sublist_flatMap_olds (align key seed olds news)
  have hnew := @map_shared_sublist_news _ _ key (align key seed olds news) fun _ _ hrun =>
    map_key_of_run_mem_align hrun
  rw [align_flatMap_olds] at hold
  rw [align_flatMap_news] at hnew
  exact ⟨hold, hnew⟩

theorem size_split_le_shared (olds news : List α)
    : (Alignment.split key seed olds news).size
        ≤
      ((align key seed olds news).flatMap Segment.shared).length := by
  have hwithin := Alignment.split_within key seed olds news
  rw [Alignment.Within] at hwithin
  by_cases hsize : (Alignment.split key seed olds news).size = 0
  . rw [hsize]
    exact Nat.zero_le _
  . rw [align, if_neg hsize, List.flatMap_append, List.flatMap_cons, List.length_append,
      List.length_append, Segment.shared, List.length_take, List.length_drop]
    omega

theorem length_shared_of_forall_not {olds news : List α} (h : ∀ b ∈ news, seed (key b) = false)
    : ((align key seed olds news).flatMap Segment.shared).length
        =
      Alignment.sharedFront key olds news := by
  have hgap {olds news : List α} (h : ∀ b ∈ news, seed (key b) = false)
      (hfront : Alignment.sharedFront key olds news = 0)
      : (align key seed olds news).flatMap Segment.shared = [] := by
    rw [align, Alignment.split_of_forall_not h, if_pos hfront]
    split <;> rfl
  by_cases hfront : Alignment.sharedFront key olds news = 0
  . rw [hgap h hfront, hfront, List.length_nil]
  . have hle := Alignment.sharedFront_le key olds news
    have hback : ∀ b ∈ news.drop (Alignment.sharedFront key olds news), seed (key b) = false :=
      fun b hb => h b (List.mem_of_mem_drop hb)
    rw [align, Alignment.split_of_forall_not h, if_neg hfront]
    dsimp only
    rw [List.take_zero, List.take_zero, align_nil, List.nil_append, List.flatMap_cons,
      Nat.zero_add, hgap hback (Alignment.sharedFront_drop olds news), List.append_nil,
      Segment.shared, List.drop_zero, List.length_take, Nat.min_eq_left hle.1]

end

namespace Similarity

variable {olds news : List Char}

theorem popular_eq_nil {cs : List Char} (h : cs.length < 200) : popular cs = [] := by
  rw [popular, if_neg (Nat.not_le_of_lt h)]

theorem mem_popular {cs : List Char} {c : Char}
    : c ∈ popular cs ↔ 200 ≤ cs.length ∧ cs.length / 100 + 1 < cs.count c := by
  rw [popular]
  split
  next hlong =>
    rw [List.mem_filter, List.mem_eraseDups, decide_eq_true_iff]
    constructor
    . exact fun h => ⟨hlong, h.2⟩
    . exact fun h => ⟨List.count_pos_iff.1 (Nat.zero_lt_of_lt h.2), h.2⟩
  next hshort => exact iff_of_false List.not_mem_nil fun h => hshort h.1

def shared (olds news : List Char) : List Char :=
  (align id (fun c => !(popular news).contains c) olds news).flatMap Segment.shared

theorem matched_eq (olds news : List Char) : matched olds news = (shared olds news).length := by
  rw [matched, shared, Segment.foldr_runSize]

theorem shared_sublist_both (olds news : List Char)
    : (shared olds news).Sublist olds ∧ (shared olds news).Sublist news := by
  have h := @shared_sublist _ _ _ id (fun c => !(popular news).contains c) olds news
  rwa [List.map_id, List.map_id] at h

theorem matched_le (olds news : List Char)
    : matched olds news ≤ olds.length ∧ matched olds news ≤ news.length := by
  rw [matched_eq]
  exact ⟨(shared_sublist_both olds news).1.length_le, (shared_sublist_both olds news).2.length_le⟩

theorem matched_of_front (h : olds <+: news ∨ news <+: olds)
    : matched olds news = min olds.length news.length := by
  have hfront : (olds.take (min olds.length news.length)).map id
      = (news.take (min olds.length news.length)).map id := by
    rw [List.map_id, List.map_id]
    rcases h with h | h
    . rw [Nat.min_eq_left h.length_le, List.take_length]
      exact List.prefix_iff_eq_take.1 h
    . rw [Nat.min_eq_right h.length_le, List.take_length]
      exact (List.prefix_iff_eq_take.1 h).symm
  have hle := matched_le olds news
  have hge := @size_split_le_shared _ _ _ id (fun c => !(popular news).contains c) olds news
  rw [Alignment.split_of_front hfront] at hge
  rw [matched_eq] at *
  exact Nat.le_antisymm (Nat.le_min.2 hle) hge

@[simp]
theorem matched_self (cs : List Char) : matched cs cs = cs.length := by
  rw [matched_of_front (.inl (List.prefix_refl cs)), Nat.min_self]

theorem length_le_matched {part : List Char} (hold : part <:+: olds) (hnew : part <:+: news)
    (hrare : ∀ c ∈ part, c ∉ popular news) : part.length ≤ matched olds news := by
  obtain ⟨front, back, hold⟩ := hold
  obtain ⟨front', back', hnew⟩ := hnew
  have hseed : ∀ k ∈ part.map id, (!(popular news).contains k) = true := by
    intro k hk
    rw [List.map_id] at hk
    rw [Bool.not_eq_true', List.contains_eq_mem, decide_eq_false_iff_not]
    exact hrare k hk
  have hlongest := Alignment.length_le_size_longestRun rfl hseed front back front' back'
  rw [← List.append_assoc, hold, ← List.append_assoc, hnew] at hlongest
  rw [matched_eq]
  exact Nat.le_trans hlongest
    (Nat.le_trans (Alignment.size_longestRun_le_split _ _ _) (size_split_le_shared _ _))

theorem matched_of_forall_popular (h : ∀ c ∈ news, c ∈ popular news)
    : matched olds news = Alignment.sharedFront id olds news := by
  rw [matched_eq, shared, length_shared_of_forall_not]
  intro c hc
  rw [Bool.not_eq_false', List.contains_iff_mem]
  exact h c hc

/-! The ratio -/

theorem eq_of_length_le_shared
    (h : olds.length + news.length ≤ 2 * (shared olds news).length) : olds = news := by
  obtain ⟨hold, hnew⟩ := shared_sublist_both olds news
  have hlen := hold.length_le
  have hlen' := hnew.length_le
  rw [← hold.eq_of_length (by omega), hnew.eq_of_length (by omega)]

theorem ratio_nonneg (olds news : List Char) : 0 ≤ ratio olds news := by
  rw [ratio]
  split
  next => exact zero_le_one
  next => exact div_nonneg (Nat.cast_nonneg _) (Nat.cast_nonneg _)

theorem ratio_le_one (olds news : List Char) : ratio olds news ≤ 1 := by
  rw [ratio]
  split
  next => exact le_refl 1
  next =>
    have hle := matched_le olds news
    apply div_le_one_of_le₀
    . exact Nat.cast_le.2 (by omega)
    . exact Nat.cast_nonneg _

theorem ratio_eq_one_iff : ratio olds news = 1 ↔ olds = news := by
  rw [ratio]
  split
  next hempty =>
    have hold : olds = [] := List.length_eq_zero_iff.1 (by omega)
    have hnew : news = [] := List.length_eq_zero_iff.1 (by omega)
    rw [hold, hnew]
    exact iff_of_true rfl rfl
  next hlength =>
    rw [div_eq_one_iff_eq (Nat.cast_ne_zero.2 hlength), Nat.cast_inj]
    constructor
    . intro h
      rw [matched_eq] at h
      exact eq_of_length_le_shared (Nat.le_of_eq h.symm)
    . rintro rfl
      rw [matched_self, Nat.two_mul]

theorem ratio_eq_zero (h : matched olds news = 0) (hnews : news ≠ []) : ratio olds news = 0 := by
  have hlength : olds.length + news.length ≠ 0 := by
    have hpos := List.length_pos_of_ne_nil hnews
    omega
  rw [ratio, if_neg hlength, h, Nat.mul_zero, Nat.cast_zero, zero_div]

theorem le_ratio {n : Nat} (h : n ≤ matched olds news)
    : (2 * n / (olds.length + news.length) : Rat) ≤ ratio olds news := by
  have hcast : (2 * n / (olds.length + news.length) : Rat)
      = (2 * n : Nat) / (olds.length + news.length : Nat) := by
    rw [Nat.cast_mul, Nat.cast_add, Nat.cast_ofNat]
  rw [hcast, ratio]
  split
  next hempty =>
    rw [hempty, Nat.cast_zero, div_zero]
    exact zero_le_one
  next =>
    apply div_le_div_of_nonneg_right
    . exact Nat.cast_le.2 (Nat.mul_le_mul_left 2 h)
    . exact Nat.cast_nonneg _

end Similarity

/-! The similarity of two texts -/

open Similarity Text

theorem similarity_of_ne_empty {x y : String} (hx : x ≠ "") (hy : y ≠ "")
    : similarity x y = ratio (normalize x).toList (normalize y).toList := by
  have hempty : ¬(x.isEmpty || y.isEmpty) = true := by
    rw [Bool.or_eq_true, String.isEmpty_iff, String.isEmpty_iff]
    exact not_or.2 ⟨hx, hy⟩
  rw [similarity, if_neg hempty]

/--
The similarity of two texts is the share that a common subsequence of their normal forms has in
them. It is 1 if and only if the normal forms are equal, also where characters are popular.
-/
theorem similarity_is_ratio {x y : String} (hx : x ≠ "") (hy : y ≠ "")
    : (∃ common : List Char,
        common.Sublist (normalize x).toList ∧ common.Sublist (normalize y).toList
          ∧ similarity x y
            = if normalize x = "" ∧ normalize y = "" then 1
              else (2 * common.length / ((normalize x).length + (normalize y).length) : Rat))
      ∧ 0 ≤ similarity x y ∧ similarity x y ≤ 1
      ∧ (similarity x y = 1 ↔ normalize x = normalize y) := by
  rw [similarity_of_ne_empty hx hy]
  refine ⟨?_, ratio_nonneg _ _, ratio_le_one _ _, ?_⟩
  . obtain ⟨hold, hnew⟩ := shared_sublist_both (normalize x).toList (normalize y).toList
    refine ⟨_, hold, hnew, ?_⟩
    have hempty : normalize x = "" ∧ normalize y = ""
        ↔ (normalize x).toList.length + (normalize y).toList.length = 0 := by
      rw [Nat.add_eq_zero_iff, String.length_toList, String.length_toList,
        String.length_eq_zero_iff, String.length_eq_zero_iff]
    rw [ratio, matched_eq, Nat.cast_mul, Nat.cast_add, Nat.cast_ofNat]
    simp only [hempty, String.length_toList]
  . rw [ratio_eq_one_iff, String.toList_inj]

namespace Similarity
namespace Sample

def uniform (n : Nat) : String :=
  .ofList (List.replicate n 'a')

def prepended (n : Nat) : String :=
  .ofList ('b' :: List.replicate n 'a')

variable {n : Nat}

theorem toList_normalize_uniform (h : n ≠ 0)
    : (normalize (uniform n)).toList = List.replicate n 'a' := by
  apply toList_normalize_of_isWord
  refine ⟨mt (List.replicate_eq_nil_iff _).1 h, ?_⟩
  intro c hc
  rw [List.eq_of_mem_replicate hc]
  rfl

theorem toList_normalize_prepended (n : Nat)
    : (normalize (prepended n)).toList = 'b' :: List.replicate n 'a' := by
  apply toList_normalize_of_isWord
  refine ⟨List.cons_ne_nil _ _, List.forall_mem_cons.2 ⟨rfl, ?_⟩⟩
  intro c hc
  rw [List.eq_of_mem_replicate hc]
  rfl

theorem uniform_ne_empty (h : n ≠ 0) : uniform n ≠ "" := by
  rw [uniform, Ne, String.ofList_eq_empty_iff, List.replicate_eq_nil_iff]
  exact h

theorem prepended_ne_empty (n : Nat) : prepended n ≠ "" := by
  rw [prepended, Ne, String.ofList_eq_empty_iff]
  exact List.cons_ne_nil _ _

theorem similarity_prepended (h : 200 ≤ n) : similarity (prepended n) (uniform n) = 0 := by
  obtain ⟨m, rfl⟩ : ∃ m, n = m + 1 := ⟨n - 1, by omega⟩
  have hpopular : ∀ c ∈ List.replicate (m + 1) 'a', c ∈ popular (List.replicate (m + 1) 'a') := by
    intro c hc
    rw [List.eq_of_mem_replicate hc, mem_popular, List.length_replicate, List.count_replicate_self]
    omega
  rw [similarity_of_ne_empty (prepended_ne_empty _) (uniform_ne_empty m.succ_ne_zero),
    toList_normalize_prepended, toList_normalize_uniform m.succ_ne_zero]
  apply ratio_eq_zero
  . rw [matched_of_forall_popular hpopular, List.replicate_succ, Alignment.sharedFront,
      if_neg (by decide)]
  . exact mt (List.replicate_eq_nil_iff _).1 m.succ_ne_zero

end Sample
end Similarity

theorem similarity_is_ratio_uniform
    : Sample.uniform 200 ≠ ""
      ∧ 0 ≤ similarity (Sample.uniform 200) (Sample.uniform 200)
      ∧ similarity (Sample.uniform 200) (Sample.uniform 200) ≤ 1
      ∧ similarity (Sample.uniform 200) (Sample.uniform 200) = 1 := by
  have hx := Sample.uniform_ne_empty (by decide : 200 ≠ 0)
  obtain ⟨-, hnonneg, hle, hone⟩ := similarity_is_ratio hx hx
  exact ⟨hx, hnonneg, hle, hone.2 rfl⟩

/--
The similarity of two texts is not below the share of a common piece of their normal forms, if the
second one is short or has no popular character in the piece, or if one is the front of the other.
-/
theorem similarity_credits_piece {x y : String} {part : List Char} (hx : x ≠ "") (hy : y ≠ "")
    (hold : part <:+: (normalize x).toList) (hnew : part <:+: (normalize y).toList)
    (h : (normalize y).length < 200 ∨ (∀ c ∈ part, c ∉ popular (normalize y).toList)
      ∨ (normalize x).toList <+: (normalize y).toList
      ∨ (normalize y).toList <+: (normalize x).toList)
    : (2 * part.length / ((normalize x).length + (normalize y).length) : Rat)
        ≤
      similarity x y := by
  have hle : part.length ≤ matched (normalize x).toList (normalize y).toList := by
    rcases h with hshort | hrare | hfront
    . apply length_le_matched hold hnew
      intro c _
      rw [← String.length_toList] at hshort
      rw [popular_eq_nil hshort]
      exact List.not_mem_nil
    . exact length_le_matched hold hnew hrare
    . rw [matched_of_front hfront]
      exact Nat.le_min.2 ⟨hold.length_le, hnew.length_le⟩
  have hratio := le_ratio hle
  rwa [String.length_toList, String.length_toList, ← similarity_of_ne_empty hx hy] at hratio

theorem similarity_credits_piece_uniform
    : Sample.uniform 200 ≠ "" ∧ Sample.uniform 201 ≠ ""
      ∧ (400 / 401 : Rat) ≤ similarity (Sample.uniform 200) (Sample.uniform 201) := by
  have hx := Sample.uniform_ne_empty (by decide : 200 ≠ 0)
  have hy := Sample.uniform_ne_empty (by decide : 201 ≠ 0)
  have hfront : (normalize (Sample.uniform 200)).toList
      <+: (normalize (Sample.uniform 201)).toList := by
    rw [Sample.toList_normalize_uniform (by decide), Sample.toList_normalize_uniform (by decide)]
    exact ⟨['a'], List.replicate_succ'.symm⟩
  have hle := similarity_credits_piece hx hy List.infix_rfl hfront.isInfix
    (.inr (.inr (.inl hfront)))
  rw [← String.length_toList, ← String.length_toList, Sample.toList_normalize_uniform (by decide),
    Sample.toList_normalize_uniform (by decide), List.length_replicate,
    List.length_replicate] at hle
  norm_num at hle
  exact ⟨hx, hy, hle⟩

theorem not_all_pieces_credited
    : ¬ ∀ (x y : String) (part : List Char), x ≠ "" → y ≠ "" →
        part <:+: (normalize x).toList → part <:+: (normalize y).toList →
        (2 * part.length / ((normalize x).length + (normalize y).length) : Rat)
          ≤ similarity x y := by
  intro hall
  have hold : (normalize (Sample.uniform 200)).toList
      <:+: (normalize (Sample.prepended 200)).toList := by
    rw [Sample.toList_normalize_prepended, Sample.toList_normalize_uniform (by decide)]
    exact (List.suffix_cons _ _).isInfix
  have hle := hall _ _ _ (Sample.prepended_ne_empty 200) (Sample.uniform_ne_empty (by decide)) hold
    List.infix_rfl
  rw [Sample.similarity_prepended (by decide), ← String.length_toList, ← String.length_toList,
    Sample.toList_normalize_prepended, Sample.toList_normalize_uniform (by decide),
    List.length_cons, List.length_replicate] at hle
  norm_num at hle

end MethodHistory
