import MethodHistory.Proofs.LongestRun
import Mathlib.Data.List.Forall2

/-!
This module contains the correctness of the alignment of two sequences: its segments make up both
sequences, and the two sides of a run have equal keys. A run that is split off is a longest one.
-/

namespace MethodHistory

theorem map_eq_map_iff_forall₂ {α β γ : Type} {f : α → γ} {g : β → γ} {xs : List α} {ys : List β}
    : xs.map f = ys.map g ↔ List.Forall₂ (fun x y => f x = g y) xs ys := by
  rw [← List.forall₂_eq_eq_eq, List.forall₂_map_left_iff, List.forall₂_map_right_iff]

namespace Segment

variable {α : Type}

def olds : Segment α → List α
  | run olds _ | gap olds _ => olds

def news : Segment α → List α
  | run _ news | gap _ news => news

theorem forall₂_flatMap {r : α → α → Prop} {segments : List (Segment α)}
    (h : ∀ segment ∈ segments, List.Forall₂ r segment.olds segment.news)
    : List.Forall₂ r (segments.flatMap olds) (segments.flatMap news) := by
  induction segments with
  | nil => exact .nil
  | cons segment segments ih =>
    rw [List.flatMap_cons, List.flatMap_cons]
    apply List.rel_append
    . exact h _ List.mem_cons_self
    . exact ih fun segment hsegment => h _ (List.mem_cons_of_mem _ hsegment)

end Segment

namespace Alignment

variable {α κ : Type} [DecidableEq κ] {key : α → κ} {seed : κ → Bool}

def Agrees (key : α → κ) (olds news : List α) (run : CommonRun) : Prop :=
  ((olds.drop run.oldStart).take run.size).map key
    = ((news.drop run.newStart).take run.size).map key

theorem agrees_longestRun (olds news : List α)
    : Agrees key olds news (longestRun key seed olds news) :=
  (le_seededFront_iff.1 (isLongest_longestRun olds news).fits).2.1

theorem map_key_sharedFront (olds news : List α)
    : (olds.take (sharedFront key olds news)).map key
        =
      (news.take (sharedFront key olds news)).map key := by
  rw [← seededFront_true]
  exact (le_seededFront_iff.1 (Nat.le_refl _)).2.1

theorem length_le_sharedFront {run run' : List α} (h : run.map key = run'.map key)
    (rest rest' : List α) : run.length ≤ sharedFront key (run ++ rest) (run' ++ rest') := by
  rw [← seededFront_true]
  exact length_le_seededFront h (fun _ _ => rfl) rest rest'

theorem take_drop_extended {items : List α} {start size before after : Nat}
    (hbefore : before ≤ start) (hstart : start ≤ items.length)
    : (items.drop (start - before)).take (before + size + after)
        =
      ((items.take start).reverse.take before).reverse ++ (items.drop start).take size
        ++ (items.drop (start + size)).take after := by
  have hlength : (items.take start).length = start := by
    rw [List.length_take]
    omega
  have hfront : ((items.take start).reverse.take before).reverse
      = (items.drop (start - before)).take before := by
    rw [List.take_reverse, List.reverse_reverse, hlength, List.drop_take]
    congr 1
    omega
  have hstop : start - before + before = start := by
    omega
  rw [hfront, Nat.add_assoc, List.take_add, List.drop_drop, hstop, List.take_add, List.drop_drop,
    List.append_assoc]

theorem agrees_extend {olds news : List α} {run : CommonRun} (hwithin : Within olds news run)
    (h : Agrees key olds news run) : Agrees key olds news (extend key olds news run) := by
  have hbefore := @map_key_sharedFront _ _ _ key (olds.take run.oldStart).reverse
    (news.take run.newStart).reverse
  have hafter := @map_key_sharedFront _ _ _ key (olds.drop (run.oldStart + run.size))
    (news.drop (run.newStart + run.size))
  have hle := sharedFront_le key (olds.take run.oldStart).reverse (news.take run.newStart).reverse
  obtain ⟨hold, hnew⟩ := hwithin
  rw [List.length_reverse, List.length_take, List.length_reverse, List.length_take] at hle
  -- The two added stretches agree as shared fronts, the one before the run read backwards.
  rw [Agrees, extend]
  dsimp only
  rw [take_drop_extended (by omega) (by omega), take_drop_extended (by omega) (by omega),
    List.map_append, List.map_append, List.map_append, List.map_append, List.map_reverse,
    List.map_reverse, hbefore, hafter, h]

theorem agrees_split (olds news : List α) : Agrees key olds news (split key seed olds news) := by
  apply agrees_extend
  . exact longestRun_within olds news
  . exact agrees_longestRun olds news

theorem size_longestRun_le_split (seed : κ → Bool) (olds news : List α)
    : (longestRun key seed olds news).size ≤ (split key seed olds news).size := by
  rw [split, extend]
  dsimp only
  omega

theorem ne_of_size_split_eq_zero {olds news : List α} {x y : α}
    (h : (split key seed olds news).size = 0) (hx : x ∈ olds) (hy : y ∈ news) (hseed : seed (key y))
    : key x ≠ key y := by
  intro hkey
  obtain ⟨front, back, rfl⟩ := List.append_of_mem hx
  obtain ⟨front', back', rfl⟩ := List.append_of_mem hy
  have hrun : [x].map key = [y].map key := congrArg (fun k => [k]) hkey
  have hseeds : ∀ k ∈ [x].map key, seed k := by
    rwa [hrun, List.map_singleton, List.forall_mem_singleton]
  have hlength := length_le_size_longestRun hrun hseeds front back front' back'
  have hle := Nat.le_trans hlength (size_longestRun_le_split _ _ _)
  rw [List.singleton_append, List.singleton_append, h] at hle
  contradiction

/-! If one sequence is the front of the other, they have a common run along all of it -/

section

variable {olds news : List α}

omit [DecidableEq κ] in
theorem map_key_take_drop {n k m : Nat} (hfront : (olds.take n).map key = (news.take n).map key)
    (hk : k + m ≤ n) : ((olds.drop k).take m).map key = ((news.drop k).take m).map key := by
  have hpart (items : List α) : ((items.take n).drop k).take m = (items.drop k).take m := by
    rw [List.drop_take, List.take_take, Nat.min_eq_left (by omega)]
  rw [← hpart olds, ← hpart news, List.map_take, List.map_drop, hfront, ← List.map_drop,
    ← List.map_take]

theorem le_seededFront_drop {n k m : Nat} (hfront : (olds.take n).map key = (news.take n).map key)
    (hn : n ≤ olds.length) (hk : k + m ≤ n) (hseed : ∀ x ∈ ((news.drop k).take m).map key, seed x)
    : m ≤ seededFront key seed (olds.drop k) (news.drop k) := by
  rw [le_seededFront_iff, List.length_drop]
  exact ⟨by omega, map_key_take_drop hfront hk, hseed⟩

theorem sharedFront_of_map_key_eq (h : olds.map key = news.map key)
    : sharedFront key olds news = olds.length := by
  have hle := length_le_sharedFront h [] []
  rw [List.append_nil, List.append_nil] at hle
  exact Nat.le_antisymm (sharedFront_le key olds news).1 hle

theorem longestRun_of_front
    (hfront : (olds.take (min olds.length news.length)).map key
      = (news.take (min olds.length news.length)).map key)
    : (longestRun key seed olds news).oldStart = (longestRun key seed olds news).newStart := by
  have hlongest := @isLongest_longestRun _ _ _ key seed olds news
  have hwithin := @longestRun_within _ _ _ key seed olds news
  generalize longestRun key seed olds news = run at *
  obtain ⟨-, hkeys, hseed⟩ := le_seededFront_iff.1 hlongest.fits
  rw [Within] at hwithin
  have hnew (hk : run.newStart + run.size ≤ min olds.length news.length)
      : run.oldStart ≤ run.newStart :=
    hlongest.old_le _ _ (le_seededFront_drop hfront (Nat.min_le_left _ _) hk hseed)
  have hold (hk : run.oldStart + run.size ≤ min olds.length news.length)
      : run.newStart ≤ run.oldStart := by
    apply hlongest.new_le
    apply le_seededFront_drop hfront (Nat.min_le_left _ _) hk
    rw [← map_key_take_drop hfront hk, hkeys]
    exact hseed
  rcases Nat.le_total olds.length news.length with hle | hle
  . have hle := hold (by omega)
    exact Nat.le_antisymm (hnew (by omega)) hle
  . have hle := hnew (by omega)
    exact Nat.le_antisymm hle (hold (by omega))

theorem split_of_front
    (hfront : (olds.take (min olds.length news.length)).map key
      = (news.take (min olds.length news.length)).map key)
    : split key seed olds news = ⟨0, 0, min olds.length news.length⟩ := by
  have hlevel := @longestRun_of_front _ _ _ key seed olds news hfront
  have hwithin := @longestRun_within _ _ _ key seed olds news
  rw [split, extend]
  generalize longestRun key seed olds news = run at *
  obtain ⟨start, _, size⟩ := run
  cases hlevel
  rw [Within] at hwithin
  dsimp only at *
  have hbefore : sharedFront key (olds.take start).reverse (news.take start).reverse = start := by
    rw [sharedFront_of_map_key_eq, List.length_reverse, List.length_take]
    . omega
    . have hkeys := @map_key_take_drop _ _ key _ _ _ 0 start hfront (by omega)
      rw [List.drop_zero, List.drop_zero] at hkeys
      rw [List.map_reverse, List.map_reverse, hkeys]
  have hafter : min olds.length news.length - (start + size)
      ≤ sharedFront key (olds.drop (start + size)) (news.drop (start + size)) := by
    rw [← seededFront_true]
    exact le_seededFront_drop hfront (Nat.min_le_left _ _) (by omega) (fun _ _ => rfl)
  have hle := sharedFront_le key (olds.drop (start + size)) (news.drop (start + size))
  rw [List.length_drop, List.length_drop] at hle
  rw [hbefore, CommonRun.mk.injEq]
  omega

end

/-! Without an element to start a run from, there is no run but the shared front -/

theorem seededFront_of_forall_not {olds news : List α} (h : ∀ b ∈ news, seed (key b) = false)
    : seededFront key seed olds news = 0 := by
  cases olds with
  | nil => rfl
  | cons a olds =>
    cases news with
    | nil => rfl
    | cons b news =>
      rw [seededFront, if_neg]
      rintro ⟨-, hseed⟩
      rw [h b List.mem_cons_self] at hseed
      contradiction

theorem split_of_forall_not {olds news : List α} (h : ∀ b ∈ news, seed (key b) = false)
    : split key seed olds news = ⟨0, 0, sharedFront key olds news⟩ := by
  have hlongest := @isLongest_longestRun _ _ _ key seed olds news
  rw [split, extend]
  generalize longestRun key seed olds news = run at *
  obtain ⟨oldStart, newStart, size⟩ := run
  have hsize : size = 0 := by
    have hfits := hlongest.fits
    rw [seededFront_of_forall_not fun b hb => h b (List.mem_of_mem_drop hb)] at hfits
    exact Nat.le_zero.1 hfits
  subst hsize
  have hold : oldStart = 0 := Nat.le_zero.1 (hlongest.old_le 0 0 (Nat.zero_le _))
  have hnew : newStart = 0 := Nat.le_zero.1 (hlongest.new_le 0 (Nat.zero_le _))
  subst hold hnew
  simp [sharedFront]

theorem sharedFront_drop (olds news : List α)
    : sharedFront key (olds.drop (sharedFront key olds news))
        (news.drop (sharedFront key olds news))
        =
      0 := by
  fun_induction sharedFront key olds news with
  | case1 a olds b news hkeys ih => rwa [List.drop_succ_cons, List.drop_succ_cons]
  | case2 a olds b news hkeys => rw [List.drop_zero, List.drop_zero, sharedFront, if_neg hkeys]
  | case3 olds news h =>
    rw [List.drop_zero, List.drop_zero, sharedFront]
    exact h

end Alignment

variable {α κ : Type} [DecidableEq κ] {key : α → κ} {seed : κ → Bool}

theorem take_append_drop_drop (items : List α) (start size : Nat)
    : items.take start ++ ((items.drop start).take size ++ items.drop (start + size)) = items := by
  rw [← List.drop_drop, List.take_append_drop, List.take_append_drop]

theorem align_flatMap_olds (olds news : List α)
    : (align key seed olds news).flatMap Segment.olds = olds := by
  fun_induction align key seed olds news with
  | case1 olds news _ hempty =>
    rw [Bool.and_eq_true, List.isEmpty_iff] at hempty
    rw [hempty.1, List.flatMap_nil]
  | case2 olds => rw [List.flatMap_singleton, Segment.olds]
  | case3 olds news _ run ih₁ ih₂ =>
    rw [List.flatMap_append, List.flatMap_cons, ih₁, ih₂]
    exact take_append_drop_drop olds run.oldStart run.size

theorem align_flatMap_news (olds news : List α)
    : (align key seed olds news).flatMap Segment.news = news := by
  fun_induction align key seed olds news with
  | case1 olds news _ hempty =>
    rw [Bool.and_eq_true, List.isEmpty_iff, List.isEmpty_iff] at hempty
    rw [hempty.2, List.flatMap_nil]
  | case2 olds => rw [List.flatMap_singleton, Segment.news]
  | case3 olds news _ run ih₁ ih₂ =>
    rw [List.flatMap_append, List.flatMap_cons, ih₁, ih₂]
    exact take_append_drop_drop news run.newStart run.size

theorem exists_of_mem_align {segment : Segment α} {olds news : List α}
    (h : segment ∈ align key seed olds news)
    : ∃ part part', let run := Alignment.split key seed part part'
      (run.size ≠ 0 ∧ segment = .run ((part.drop run.oldStart).take run.size)
          ((part'.drop run.newStart).take run.size))
        ∨ run.size = 0 ∧ (part ≠ [] ∨ part' ≠ []) ∧ segment = .gap part part' := by
  fun_induction align key seed olds news with
  | case1 => contradiction
  | case2 olds news hsize hempty =>
    rw [Bool.and_eq_true, List.isEmpty_iff, List.isEmpty_iff, Decidable.not_and_iff_or_not]
      at hempty
    exact ⟨olds, news, .inr ⟨hsize, hempty, List.mem_singleton.1 h⟩⟩
  | case3 olds news hsize _ ih₁ ih₂ =>
    rcases List.mem_append.1 h with h | h
    . exact ih₁ h
    . rcases List.mem_cons.1 h with h | h
      . exact ⟨olds, news, .inl ⟨hsize, h⟩⟩
      . exact ih₂ h

theorem map_key_of_run_mem_align {olds news runOlds runNews : List α}
    (h : .run runOlds runNews ∈ align key seed olds news)
    : runOlds.map key = runNews.map key := by
  obtain ⟨part, part', ⟨-, hrun⟩ | ⟨-, -, hgap⟩⟩ := exists_of_mem_align h
  . cases hrun
    exact Alignment.agrees_split part part'
  . cases hgap

theorem forall₂_of_run_mem_align {olds news runOlds runNews : List α}
    (h : .run runOlds runNews ∈ align key seed olds news)
    : List.Forall₂ (fun old new => key old = key new) runOlds runNews :=
  map_eq_map_iff_forall₂.1 (map_key_of_run_mem_align h)

theorem align_nil : align key seed ([] : List α) [] = [] := by
  rw [align]
  rfl

theorem align_of_map_key_eq {olds news : List α} (h : olds.map key = news.map key)
    : align key seed olds news = if olds = [] then [] else [.run olds news] := by
  have hlength : olds.length = news.length := by
    rw [← List.length_map key, h, List.length_map]
  have hsplit : Alignment.split key seed olds news = ⟨0, 0, olds.length⟩ := by
    have hfront : (olds.take (min olds.length news.length)).map key
        = (news.take (min olds.length news.length)).map key := by
      rw [List.map_take, h, List.map_take]
    rw [Alignment.split_of_front hfront, ← hlength, Nat.min_self]
  rw [align, hsplit]
  dsimp only
  split
  next hzero =>
    rw [hzero] at hlength
    rw [List.length_eq_zero_iff.1 hzero, List.length_eq_zero_iff.1 hlength.symm]
    rfl
  next hnonzero =>
    rw [if_neg (mt List.length_eq_zero_iff.2 hnonzero), List.take_zero, List.take_zero,
      Nat.zero_add, List.drop_zero, List.drop_zero, List.drop_length, List.take_length, hlength,
      List.drop_length, List.take_length, align_nil]
    rfl

theorem align_singleton (old new : α)
    : align key (fun _ => true) [old] [new]
        =
      if key old = key new then [.run [old] [new]] else [.gap [old] [new]] := by
  split
  next hkey =>
    have hkeys : [old].map key = [new].map key := by
      rw [List.map_singleton, List.map_singleton, hkey]
    rw [align_of_map_key_eq hkeys, if_neg (List.cons_ne_nil _ _)]
  next hkey =>
    have hsplit : Alignment.split key (fun _ => true) [old] [new] = ⟨0, 0, 0⟩ := by
      simp [Alignment.split, Alignment.longestRun, Alignment.longestRun.go, Alignment.runLengths,
        Alignment.firstMax, Alignment.extend, Alignment.sharedFront, hkey]
    rw [align, hsplit]
    rfl

theorem forall₂_of_align {r : α → α → Prop} {olds news : List α}
    (hkey : ∀ (old new : α), key old = key new → r old new)
    (hgap : ∀ (gapOlds gapNews : List α), .gap gapOlds gapNews ∈ align key seed olds news →
      List.Forall₂ r gapOlds gapNews)
    : List.Forall₂ r olds news := by
  have hsegments : ∀ segment ∈ align key seed olds news,
      List.Forall₂ r segment.olds segment.news := by
    intro segment hsegment
    cases segment with
    | run runOlds runNews => exact (forall₂_of_run_mem_align hsegment).imp hkey
    | gap gapOlds gapNews => exact hgap _ _ hsegment
  have h := Segment.forall₂_flatMap hsegments
  rwa [align_flatMap_olds, align_flatMap_news] at h

end MethodHistory
