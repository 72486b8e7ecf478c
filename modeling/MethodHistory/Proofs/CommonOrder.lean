import MethodHistory.Proofs.Alignment
import Mathlib.Data.List.Basic
import Mathlib.Data.List.Nodup

/-!
This module contains the alignment of two sequences with distinct keys whose common elements stand
in the same order: all of these are aligned, and the gaps are the stretches between them.
-/

namespace MethodHistory

variable {α β κ : Type} [DecidableEq κ] {key : α → κ}

namespace Alignment

/--
Two sequences as the alignment divides them: what stands in front of their longest common run, the
run and what stands behind it, on each side.
-/
structure Division (key : α → κ) (olds news front run back front' run' back' : List α) : Prop where
  olds_eq : olds = front ++ (run ++ back)
  news_eq : news = front' ++ (run' ++ back')
  ne_nil : run ≠ []
  keys_eq : run.map key = run'.map key
  longest : ∀ {front other back front' other' back' : List α},
    olds = front ++ (other ++ back) → news = front' ++ (other' ++ back') →
    other.map key = other'.map key → other.length ≤ run.length

theorem division_split {olds news : List α} (h : (split key (fun _ => true) olds news).size ≠ 0)
    : let run := split key (fun _ => true) olds news
      Division key olds news
        (olds.take run.oldStart) ((olds.drop run.oldStart).take run.size)
        (olds.drop (run.oldStart + run.size))
        (news.take run.newStart) ((news.drop run.newStart).take run.size)
        (news.drop (run.newStart + run.size)) := by
  intro run
  obtain ⟨hold, hnew⟩ : Within olds news run := split_within key _ olds news
  have hlength : ((olds.drop run.oldStart).take run.size).length = run.size := by
    rw [List.length_take, List.length_drop]
    omega
  constructor
  . exact (take_append_drop_drop olds run.oldStart run.size).symm
  . exact (take_append_drop_drop news run.newStart run.size).symm
  . apply List.ne_nil_of_length_pos
    rw [hlength]
    exact Nat.pos_of_ne_zero h
  . exact agrees_split olds news
  . intro front other back front' other' back' holds hnews hkeys
    rw [hlength]
    have hle := @length_le_size_longestRun _ _ _ _ (fun _ => true) _ _ hkeys
      (fun _ _ => rfl) front back front' back'
    rw [← holds, ← hnews] at hle
    exact Nat.le_trans hle (size_longestRun_le_split _ _ _)

end Alignment

/-! What is done about the gaps -/

def inGaps (key : α → κ) (f : List α → List α → List β) (olds news : List α) : List β :=
  (align key (fun _ => true) olds news).flatMap fun
    | .run .. => []
    | .gap olds news => f olds news

section

variable {f : List α → List α → List β} {olds news : List α}

theorem inGaps_cases (hf : f [] [] = []) (olds news : List α)
    : (∃ front run back front' run' back',
          Alignment.Division key olds news front run back front' run' back'
            ∧ inGaps key f olds news = inGaps key f front front' ++ inGaps key f back back')
        ∨ (∀ x ∈ olds, ∀ y ∈ news, key x ≠ key y) ∧ inGaps key f olds news = f olds news := by
  by_cases hsize : (Alignment.split key (fun _ => true) olds news).size = 0
  . right
    refine ⟨fun x hx y hy => Alignment.ne_of_size_split_eq_zero hsize hx hy rfl, ?_⟩
    rw [inGaps, align, if_pos hsize]
    split
    next hempty =>
      rw [Bool.and_eq_true, List.isEmpty_iff, List.isEmpty_iff] at hempty
      rw [hempty.1, hempty.2, hf]
      rfl
    next => rw [List.flatMap_singleton]
  . left
    refine ⟨_, _, _, _, _, _, Alignment.division_split hsize, ?_⟩
    rw [inGaps, align, if_neg hsize, List.flatMap_append, List.flatMap_cons]
    rfl

theorem inGaps_of_map_key_eq (h : olds.map key = news.map key) : inGaps key f olds news = [] := by
  rw [inGaps, align_of_map_key_eq h]
  split <;> rfl

end

/-! Common elements in the same order -/

theorem eq_of_nodup_append {ι : Type} {front run back front' back' : List ι}
    (hnodup : (front ++ (run ++ back)).Nodup) (hrun : run ≠ [])
    (h : front ++ (run ++ back) = front' ++ (run ++ back')) : front = front' ∧ back = back' := by
  cases run with
  | nil => contradiction
  | cons a run =>
    rw [h, List.cons_append, List.nodup_middle, List.nodup_cons, List.mem_append, not_or] at hnodup
    rw [List.cons_append, List.cons_append, eq_comm,
      List.append_cons_inj_of_notMem hnodup.1.1 hnodup.1.2] at h
    exact ⟨h.1.symm, (List.append_cancel_left h.2.2).symm⟩

structure InOrder (key : α → κ) (p : α → Bool) (olds news : List α) : Prop where
  common : ∀ x ∈ olds, ∀ y ∈ news, key x = key y → p x ∧ p y
  keys_eq : (olds.filter p).map key = (news.filter p).map key
  nodup : ((olds.filter p).map key).Nodup

def between (p : α → Bool) (f : List α → List α → List β) (olds news : List α) : List β :=
  ((olds.splitOnP p).zipWith f (news.splitOnP p)).flatten

section

variable {p : α → Bool} {f : List α → List α → List β}
  {olds news front run back front' run' back' : List α}

theorem length_splitOnP (xs : List α) : (xs.splitOnP p).length = (xs.filter p).length + 1 := by
  induction xs with
  | nil => rfl
  | cons x xs ih =>
    rw [List.splitOnP_cons_eq_if_modifyHead, List.filter_cons]
    split
    next => rw [List.length_cons, List.length_cons, ih]
    next => rw [List.length_modifyHead, ih]

theorem between_of_forall_not (hold : ∀ x ∈ olds, p x = false) (hnew : ∀ y ∈ news, p y = false)
    : between p f olds news = f olds news := by
  rw [between, List.splitOnP_eq_singleton hold, List.splitOnP_eq_singleton hnew,
    List.zipWith_cons_cons, List.zipWith_nil_left, List.flatten_singleton]

theorem between_append_cons {x y : α} (hx : p x) (hy : p y)
    (hlength : (front.filter p).length = (front'.filter p).length)
    : between p f (front ++ x :: back) (front' ++ y :: back')
        =
      between p f front front' ++ between p f back back' := by
  have hsplits : (front.splitOnP p).length = (front'.splitOnP p).length := by
    rw [length_splitOnP, length_splitOnP, hlength]
  rw [between, List.splitOnP_append_cons _ _ hx, List.splitOnP_append_cons _ _ hy,
    List.zipWith_append hsplits, List.flatten_append]
  rfl

theorem between_append (hf : f [] [] = []) (hrun : ∀ x ∈ run, p x) (hrun' : ∀ y ∈ run', p y)
    (hlength : run.length = run'.length)
    : between p f (run ++ back) (run' ++ back') = between p f back back' := by
  induction run generalizing run' with
  | nil =>
    rw [List.length_eq_zero_iff.1 hlength.symm]
    rfl
  | cons x run ih =>
    cases run' with
    | nil => cases hlength
    | cons y run' =>
      rw [List.forall_mem_cons] at hrun hrun'
      have hcons := @between_append_cons _ _ p f [] (run ++ back) [] (run' ++ back') x y hrun.1
        hrun'.1 rfl
      have hnil : between p f [] [] = [] := by
        rw [between_of_forall_not (by simp) (by simp), hf]
      rw [List.nil_append, List.nil_append, hnil, List.nil_append] at hcons
      rw [List.cons_append, List.cons_append, hcons, ih hrun.2 hrun'.2 (Nat.succ.inj hlength)]

theorem between_append_run (hf : f [] [] = []) (hne : run ≠ []) (hrun : ∀ x ∈ run, p x)
    (hrun' : ∀ y ∈ run', p y) (hlength : run.length = run'.length)
    (hfront : (front.filter p).length = (front'.filter p).length)
    : between p f (front ++ (run ++ back)) (front' ++ (run' ++ back'))
        =
      between p f front front' ++ between p f back back' := by
  cases run with
  | nil => contradiction
  | cons x run =>
    cases run' with
    | nil => cases hlength
    | cons y run' =>
      rw [List.forall_mem_cons] at hrun hrun'
      rw [List.cons_append, List.cons_append, between_append_cons hrun.1 hrun'.1 hfront,
        between_append hf hrun.2 hrun'.2 (Nat.succ.inj hlength)]

omit [DecidableEq κ] in
theorem InOrder.of_run (h : InOrder key p olds news)
    (hrun : ∀ x ∈ run, x ∈ olds) (hrun' : ∀ y ∈ run', y ∈ news) (hkeys : run.map key = run'.map key)
    : (∀ x ∈ run, p x) ∧ ∀ y ∈ run', p y := by
  constructor
  . intro x hx
    have hmem := List.mem_map_of_mem (f := key) hx
    rw [hkeys] at hmem
    obtain ⟨y, hy, hkey⟩ := List.mem_map.1 hmem
    exact (h.common x (hrun x hx) y (hrun' y hy) hkey.symm).1
  . intro y hy
    have hmem := List.mem_map_of_mem (f := key) hy
    rw [← hkeys] at hmem
    obtain ⟨x, hx, hkey⟩ := List.mem_map.1 hmem
    exact (h.common x (hrun x hx) y (hrun' y hy) hkey).2

theorem filter_append_append (hrun : ∀ x ∈ run, p x)
    : (front ++ (run ++ back)).filter p = front.filter p ++ (run ++ back.filter p) := by
  rw [List.filter_append, List.filter_append, List.filter_eq_self.2 hrun]

omit [DecidableEq κ] in
theorem InOrder.forall_mem_run
    (h : InOrder key p (front ++ (run ++ back)) (front' ++ (run' ++ back')))
    (hkeys : run.map key = run'.map key) : (∀ x ∈ run, p x) ∧ ∀ y ∈ run', p y := by
  apply h.of_run _ _ hkeys
  . intro x hx
    exact List.mem_append_right _ (List.mem_append_left _ hx)
  . intro y hy
    exact List.mem_append_right _ (List.mem_append_left _ hy)

omit [DecidableEq κ] in
theorem InOrder.divide (h : InOrder key p (front ++ (run ++ back)) (front' ++ (run' ++ back')))
    (hne : run ≠ []) (hkeys : run.map key = run'.map key)
    : InOrder key p front front' ∧ InOrder key p back back' := by
  obtain ⟨hrun, hrun'⟩ := h.forall_mem_run hkeys
  have heq := h.keys_eq
  have hnodup := h.nodup
  rw [filter_append_append hrun, List.map_append, List.map_append] at heq hnodup
  rw [filter_append_append hrun', List.map_append, List.map_append, ← hkeys] at heq
  obtain ⟨hfront, hback⟩ := eq_of_nodup_append hnodup (mt List.map_eq_nil_iff.1 hne) heq
  rw [List.nodup_append, List.nodup_append] at hnodup
  constructor
  . refine ⟨?_, hfront, hnodup.1⟩
    intro x hx y hy
    exact h.common x (List.mem_append_left _ hx) y (List.mem_append_left _ hy)
  . refine ⟨?_, hback, hnodup.2.1.2.1⟩
    intro x hx y hy
    exact h.common x (List.mem_append_right _ (List.mem_append_right _ hx)) y
      (List.mem_append_right _ (List.mem_append_right _ hy))

theorem inGaps_of_inOrder (hf : f [] [] = []) (h : InOrder key p olds news)
    : inGaps key f olds news = between p f olds news := by
  induction hlength : olds.length using Nat.strongRecOn generalizing olds news with
  | ind n ih =>
    rcases @inGaps_cases _ _ _ _ key f hf olds news with
      ⟨front, run, back, front', run', back', hdivision, hgaps⟩ | ⟨hne, hgaps⟩
    . obtain ⟨rfl, rfl, hrun, hkeys, -⟩ := hdivision
      obtain ⟨hfront, hback⟩ := h.divide hrun hkeys
      obtain ⟨hall, hall'⟩ := h.forall_mem_run hkeys
      have hpos := List.length_pos_of_ne_nil hrun
      have hlengths : run.length = run'.length := by
        rw [← List.length_map key, hkeys, List.length_map]
      have hfronts : (front.filter p).length = (front'.filter p).length := by
        rw [← List.length_map key, hfront.keys_eq, List.length_map]
      rw [List.length_append, List.length_append] at hlength
      rw [hgaps, ih _ (by omega) hfront rfl, ih _ (by omega) hback rfl,
        between_append_run hf hrun hall hall' hlengths hfronts]
    . have hnone : olds.filter p = [] := by
        rw [List.eq_nil_iff_forall_not_mem]
        intro x hx
        have hkey := List.mem_map_of_mem (f := key) hx
        rw [h.keys_eq] at hkey
        obtain ⟨y, hy, hkey⟩ := List.mem_map.1 hkey
        exact hne x (List.mem_filter.1 hx).1 y (List.mem_filter.1 hy).1 hkey.symm
      have hnone' : news.filter p = [] := by
        have heq := h.keys_eq
        rw [hnone] at heq
        exact List.map_eq_nil_iff.1 heq.symm
      rw [hgaps, between_of_forall_not]
      . simpa using List.filter_eq_nil_iff.1 hnone
      . simpa using List.filter_eq_nil_iff.1 hnone'

theorem filter_of_forall_not {xs : List α} (h : ∀ x ∈ xs, p x = false) : xs.filter p = [] := by
  rw [List.filter_eq_nil_iff]
  intro x hx
  simp [h x hx]

theorem filter_around {gap : List α} (hfront : ∀ x ∈ front, p x) (hback : ∀ x ∈ back, p x)
    (hgap : ∀ x ∈ gap, p x = false) : (front ++ (gap ++ back)).filter p = front ++ back := by
  rw [List.filter_append, List.filter_append, List.filter_eq_self.2 hfront,
    List.filter_eq_self.2 hback, filter_of_forall_not hgap, List.nil_append]

theorem mem_gap_of_not {gap : List α} {x : α} (hfront : ∀ x ∈ front, p x)
    (hback : ∀ x ∈ back, p x) (hx : x ∈ front ++ (gap ++ back)) (hp : ¬p x) : x ∈ gap := by
  rcases List.mem_append.1 hx with hx | hx
  . exact absurd (hfront x hx) hp
  . rcases List.mem_append.1 hx with hx | hx
    . exact hx
    . exact absurd (hback x hx) hp

theorem between_around {gap gap' : List α} (hf : f [] [] = [])
    (hfront : ∀ x ∈ front, p x) (hfront' : ∀ y ∈ front', p y)
    (hback : ∀ x ∈ back, p x) (hback' : ∀ y ∈ back', p y)
    (hgap : ∀ x ∈ gap, p x = false) (hgap' : ∀ y ∈ gap', p y = false)
    (hfronts : front.length = front'.length) (hbacks : back.length = back'.length)
    : between p f (front ++ (gap ++ back)) (front' ++ (gap' ++ back')) = f gap gap' := by
  rw [between_append hf hfront hfront' hfronts]
  cases back with
  | nil =>
    rw [List.length_eq_zero_iff.1 hbacks.symm, List.append_nil, List.append_nil,
      between_of_forall_not hgap hgap']
  | cons x back =>
    cases back' with
    | nil => cases hbacks
    | cons y back' =>
      rw [List.forall_mem_cons] at hback hback'
      have hrest := @between_append _ _ p f back [] back' [] hf hback.2 hback'.2
        (Nat.succ.inj hbacks)
      have hgaps : (gap.filter p).length = (gap'.filter p).length := by
        rw [filter_of_forall_not hgap, filter_of_forall_not hgap']
      rw [between_append_cons hback.1 hback'.1 hgaps, between_of_forall_not hgap hgap',
        ← List.append_nil back, ← List.append_nil back', hrest,
        between_of_forall_not (by simp) (by simp), hf, List.append_nil]

theorem inGaps_around {gap gap' : List α} (hf : f [] [] = [])
    (hold : ((front ++ (gap ++ back)).map key).Nodup)
    (hnew : ((front' ++ (gap' ++ back')).map key).Nodup)
    (hfront : front.map key = front'.map key) (hback : back.map key = back'.map key)
    (hgap : ∀ x ∈ gap, ∀ y ∈ gap', key x ≠ key y)
    : inGaps key f (front ++ (gap ++ back)) (front' ++ (gap' ++ back')) = f gap gap' := by
  let p (x : α) : Bool := key x ∈ front.map key ++ back.map key
  have hin {x : α} (h : key x ∈ front.map key ∨ key x ∈ back.map key) : p x :=
    decide_eq_true (List.mem_append.2 h)
  have hout {xs ys zs : List α} (h : ((xs ++ (ys ++ zs)).map key).Nodup)
      (hxs : xs.map key = front.map key) (hzs : zs.map key = back.map key)
      : ∀ y ∈ ys, p y = false := by
    intro y hy
    apply decide_eq_false
    rw [List.map_append, List.map_append, hxs, hzs, List.nodup_append, List.nodup_append] at h
    have hmem := List.mem_map_of_mem (f := key) hy
    intro hcommon
    rcases List.mem_append.1 hcommon with hx | hz
    . exact h.2.2 _ hx _ (List.mem_append_left _ hmem) rfl
    . exact h.2.1.2.2 _ hmem _ hz rfl
  have hgapNone := hout hold rfl rfl
  have hgapNone' := hout hnew hfront.symm hback.symm
  have hfrontAll (x) (hx : x ∈ front) : p x := hin (.inl (List.mem_map_of_mem hx))
  have hbackAll (x) (hx : x ∈ back) : p x := hin (.inr (List.mem_map_of_mem hx))
  have hfrontAll' (y) (hy : y ∈ front') : p y := hin (.inl (hfront ▸ List.mem_map_of_mem hy))
  have hbackAll' (y) (hy : y ∈ back') : p y := hin (.inr (hback ▸ List.mem_map_of_mem hy))
  have horder : InOrder key p (front ++ (gap ++ back)) (front' ++ (gap' ++ back')) := by
    have hfilter := filter_around hfrontAll hbackAll hgapNone
    have hfilter' := filter_around hfrontAll' hbackAll' hgapNone'
    refine ⟨?_, ?_, ?_⟩
    . intro x hx y hy hkey
      have hsame : p x = p y := by
        rw [Bool.eq_iff_iff, decide_eq_true_iff, decide_eq_true_iff, hkey]
      have hpx : p x := by
        by_contra hpx
        have hxgap := mem_gap_of_not hfrontAll hbackAll hx hpx
        rw [hsame] at hpx
        exact hgap x hxgap y (mem_gap_of_not hfrontAll' hbackAll' hy hpx) hkey
      exact ⟨hpx, hsame ▸ hpx⟩
    . rw [hfilter, hfilter', List.map_append, List.map_append, hfront, hback]
    . rw [hfilter]
      exact hold.sublist (((List.sublist_append_right gap back).append_left front).map key)
  rw [inGaps_of_inOrder hf horder]
  apply between_around hf hfrontAll hfrontAll' hbackAll hbackAll' hgapNone hgapNone'
  . rw [← List.length_map key, hfront, List.length_map]
  . rw [← List.length_map key, hback, List.length_map]

end

end MethodHistory
