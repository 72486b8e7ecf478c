import MethodHistory.Proofs.CommonOrder

/-!
This module contains the alignment of two sequences with distinct keys that differ in one element:
one that only one side has, or one that has moved. All other elements are aligned.
-/

namespace MethodHistory

variable {α β κ : Type} [DecidableEq κ] {key : α → κ}

/-! A single element -/

theorem not_mem_back_of_nodup {ι : Type} {front run back : List ι} {k : ι}
    (hnodup : (front ++ (run ++ back)).Nodup) (hfront : k ∈ front) : k ∉ back :=
  fun hback => (List.nodup_append.1 hnodup).2.2 k hfront k (List.mem_append_right _ hback) rfl

theorem erase_append_append {ι : Type} [DecidableEq ι] {front run back : List ι} {k : ι}
    (hnodup : (front ++ (run ++ back)).Nodup) (hk : k ∉ run)
    : (front ++ (run ++ back)).erase k = front.erase k ++ (run ++ back.erase k) := by
  by_cases hfront : k ∈ front
  . rw [List.erase_append_left _ hfront,
      List.erase_of_not_mem (not_mem_back_of_nodup hnodup hfront)]
  . rw [List.erase_append_right _ hfront, List.erase_append_right _ hk,
      List.erase_of_not_mem hfront]

theorem erase_append_of_mem {ι : Type} [DecidableEq ι] {front run back : List ι} {k : ι}
    (hnodup : (front ++ (run ++ back)).Nodup) (hk : k ∈ run)
    : (front ++ (run ++ back)).erase k = front ++ (run.erase k ++ back) := by
  have hfront : k ∉ front :=
    fun hfront => (List.nodup_append.1 hnodup).2.2 k hfront k (List.mem_append_left _ hk) rfl
  rw [List.erase_append_right _ hfront, List.erase_append_left _ hk]

theorem map_erase_append {front back : List α} {x : α}
    (hnodup : ((front ++ ([x] ++ back)).map key).Nodup)
    : ((front ++ ([x] ++ back)).map key).erase (key x) = (front ++ back).map key := by
  rw [List.map_append, List.singleton_append, List.map_cons, List.nodup_middle, List.nodup_cons,
    List.mem_append, not_or] at hnodup
  rw [List.map_append, List.singleton_append, List.map_cons, List.erase_append_right _ hnodup.1.1,
    List.erase_cons_head, List.map_append]

section

variable {f : List α → List α → List β} {olds news : List α} {x y : α}

theorem inGaps_dropped {front back : List α} (hf : f [] [] = [])
    (hold : ((front ++ ([x] ++ back)).map key).Nodup)
    (h : (front ++ back).map key = news.map key)
    : inGaps key f (front ++ ([x] ++ back)) news = f [x] [] := by
  have hnew : (news.map key).Nodup := by
    rw [← h]
    exact hold.sublist (((List.sublist_append_right [x] back).append_left front).map key)
  rw [List.map_append, eq_comm, List.map_eq_append_iff] at h
  obtain ⟨front', back', rfl, hfront, hback⟩ := h
  exact @inGaps_around _ _ _ _ key f front back front' back' [x] [] hf hold hnew hfront.symm
    hback.symm (by simp)

theorem inGaps_added {front' back' : List α} (hf : f [] [] = [])
    (hnew : ((front' ++ ([y] ++ back')).map key).Nodup)
    (h : olds.map key = (front' ++ back').map key)
    : inGaps key f olds (front' ++ ([y] ++ back')) = f [] [y] := by
  have hold : (olds.map key).Nodup := by
    rw [h]
    exact hnew.sublist (((List.sublist_append_right [y] back').append_left front').map key)
  rw [List.map_append, List.map_eq_append_iff] at h
  obtain ⟨front, back, rfl, hfront, hback⟩ := h
  exact @inGaps_around _ _ _ _ key f front back front' back' [] [y] hf hold hnew hfront
    hback (by simp)

theorem inGaps_of_erase_old (hf : f [] [] = []) (hnodup : (olds.map key).Nodup) (hx : x ∈ olds)
    (h : (olds.map key).erase (key x) = news.map key) : inGaps key f olds news = f [x] [] := by
  obtain ⟨front, back, rfl⟩ := List.append_of_mem hx
  rw [← List.singleton_append, map_erase_append hnodup] at h
  exact inGaps_dropped hf hnodup h

theorem inGaps_of_erase_new (hf : f [] [] = []) (hnodup : (news.map key).Nodup) (hy : y ∈ news)
    (h : olds.map key = (news.map key).erase (key y)) : inGaps key f olds news = f [] [y] := by
  obtain ⟨front', back', rfl⟩ := List.append_of_mem hy
  rw [← List.singleton_append, map_erase_append hnodup] at h
  exact inGaps_added hf hnodup h

structure Moved (key : α → κ) (x y : α) (olds news : List α) : Prop where
  mem_old : x ∈ olds
  mem_new : y ∈ news
  key_eq : key x = key y
  erase_eq : (olds.map key).erase (key x) = (news.map key).erase (key y)
  keys_ne : olds.map key ≠ news.map key

namespace Moved

variable {front run back front' run' back' rest rest' : List α}

theorem of_append (hold : ((front ++ ([x] ++ back)).map key).Nodup)
    (hnew : ((front' ++ ([y] ++ back')).map key).Nodup) (hkey : key x = key y)
    (hrest : (front ++ back).map key = (front' ++ back').map key)
    (hne : (front ++ ([x] ++ back)).map key ≠ (front' ++ ([y] ++ back')).map key)
    : Moved key x y (front ++ ([x] ++ back)) (front' ++ ([y] ++ back')) := by
  constructor
  . exact List.mem_append_right _ (List.mem_append_left _ (List.mem_singleton_self x))
  . exact List.mem_append_right _ (List.mem_append_left _ (List.mem_singleton_self y))
  . exact hkey
  . rw [map_erase_append hold, map_erase_append hnew, hrest]
  . exact hne

theorem append (h : Moved key x y olds news) (hrest : rest.map key = rest'.map key)
    : Moved key x y (olds ++ rest) (news ++ rest') := by
  constructor
  . exact List.mem_append_left _ h.mem_old
  . exact List.mem_append_left _ h.mem_new
  . exact h.key_eq
  . rw [List.map_append, List.map_append, List.erase_append_left _ (List.mem_map_of_mem h.mem_old),
      List.erase_append_left _ (List.mem_map_of_mem h.mem_new), h.erase_eq, hrest]
  . rw [List.map_append, List.map_append, hrest]
    exact fun heq => h.keys_ne (List.append_cancel_right heq)

theorem prepend (h : Moved key x y olds news) (hnodup : ((front ++ olds).map key).Nodup)
    (hfront : front.map key = front'.map key) : Moved key x y (front ++ olds) (front' ++ news) := by
  rw [List.map_append] at hnodup
  have hnot : key x ∉ front.map key :=
    fun hx => (List.nodup_append.1 hnodup).2.2 _ hx _ (List.mem_map_of_mem h.mem_old) rfl
  constructor
  . exact List.mem_append_right _ h.mem_old
  . exact List.mem_append_right _ h.mem_new
  . exact h.key_eq
  . rw [List.map_append, List.map_append, List.erase_append_right _ hnot, ← hfront, ← h.key_eq,
      List.erase_append_right _ hnot, h.erase_eq, h.key_eq]
  . rw [List.map_append, List.map_append, hfront]
    exact fun heq => h.keys_ne (List.append_cancel_left heq)

omit [DecidableEq κ] in
theorem exists_singleton {xs ys : List α} {shared : List κ} (hne : shared ≠ [])
    (hxs : xs.map key = shared) (hys : ys.map key = shared) (hle : xs.length ≤ 1)
    : ∃ x y, xs = [x] ∧ ys = [y] ∧ key x = key y := by
  subst hxs
  have hpos := List.length_pos_of_ne_nil (mt List.map_eq_nil_iff.2 hne)
  obtain ⟨x, rfl⟩ := List.length_eq_one_iff.1 (Nat.le_antisymm hle hpos)
  rw [List.map_singleton, List.map_eq_singleton_iff] at hys
  obtain ⟨y, rfl, hkey⟩ := hys
  exact ⟨x, y, rfl, rfl, hkey.symm⟩

theorem exists_of_length_le_one (hf : f [] [] = []) (hold : (olds.map key).Nodup)
    (hnew : (news.map key).Nodup)
    (hdivision : Alignment.Division key olds news front run back front' run' back')
    (hlength : run.length ≤ 1) (hrest : (front ++ back).map key = (front' ++ back').map key)
    (hne : olds.map key ≠ news.map key)
    : ∃ x y, Moved key x y olds news
        ∧ (inGaps key f front front' ++ inGaps key f back back' = f [x] [] ++ f [] [y]
          ∨ inGaps key f front front' ++ inGaps key f back back' = f [] [y] ++ f [x] []) := by
  obtain ⟨rfl, rfl, -, hkeys, hlongest⟩ := hdivision
  rw [List.map_append, List.map_append] at hrest
  have hfronts : front.map key ≠ front'.map key := by
    intro hfronts
    rw [hfronts, List.append_right_inj] at hrest
    apply hne
    simp [hfronts, hkeys, hrest]
  -- What stands in front of the run on one side only stands behind it on the other side. It is a
  -- common run as well, so it is no longer than the longest one.
  rcases List.append_eq_append_iff.1 hrest with ⟨shared, hfront, hback⟩ | ⟨shared, hfront, hback⟩
  . obtain ⟨first', stretch', rfl, hfirst, hstretch'⟩ := List.map_eq_append_iff.1 hfront
    obtain ⟨stretch, last, rfl, hstretch, hlast⟩ := List.map_eq_append_iff.1 hback
    rw [List.append_assoc first'] at hnew hne hlongest ⊢
    rw [← List.append_assoc front] at hold hne hlongest ⊢
    have hle := Nat.le_trans (hlongest rfl rfl (hstretch.trans hstretch'.symm)) hlength
    have hshared : shared ≠ [] := by
      rintro rfl
      rw [List.append_nil] at hfront
      exact hfronts hfront.symm
    obtain ⟨x, y, rfl, rfl, hkey⟩ := exists_singleton hshared hstretch hstretch' hle
    have hfrontNodup := hnew.sublist
      ((((List.nil_sublist (run' ++ back')).append_left [y]).append_left first').map key)
    have hbackNodup := hold.sublist ((List.sublist_append_right (front ++ run) _).map key)
    refine ⟨x, y, of_append hold hnew hkey (by simp [hfirst, hkeys, hlast]) hne, .inr ?_⟩
    congr 1
    . exact inGaps_added hf hfrontNodup (by simp [hfirst])
    . exact @inGaps_dropped _ _ _ _ key f back' x [] last hf hbackNodup hlast
  . obtain ⟨first, stretch, rfl, hfirst, hstretch⟩ := List.map_eq_append_iff.1 hfront
    obtain ⟨stretch', last', rfl, hstretch', hlast⟩ := List.map_eq_append_iff.1 hback
    rw [List.append_assoc first] at hold hne hlongest ⊢
    rw [← List.append_assoc front'] at hnew hne hlongest ⊢
    have hle := Nat.le_trans (hlongest rfl rfl (hstretch.trans hstretch'.symm)) hlength
    have hshared : shared ≠ [] := by
      rintro rfl
      rw [List.append_nil] at hfront
      exact hfronts hfront
    obtain ⟨x, y, rfl, rfl, hkey⟩ := exists_singleton hshared hstretch hstretch' hle
    have hfrontNodup := hold.sublist
      ((((List.nil_sublist (run ++ back)).append_left [x]).append_left first).map key)
    have hbackNodup := hnew.sublist ((List.sublist_append_right (front' ++ run') _).map key)
    refine ⟨x, y, of_append hold hnew hkey (by simp [hfirst, hkeys, hlast]) hne, .inl ?_⟩
    congr 1
    . exact inGaps_dropped hf hfrontNodup (by simp [hfirst])
    . exact @inGaps_added _ _ _ _ key f back y [] last' hf hbackNodup hlast.symm

theorem divide (hold : ((front ++ (run ++ back)).map key).Nodup)
    (hnew : ((front' ++ (run' ++ back')).map key).Nodup) (hrun : run ≠ [])
    (hkeys : run.map key = run'.map key) (hnot : key x ∉ run.map key)
    (h : Moved key x y (front ++ (run ++ back)) (front' ++ (run' ++ back')))
    : (Moved key x y front front' ∧ back.map key = back'.map key)
        ∨ (front.map key = front'.map key ∧ Moved key x y back back')
        ∨ (x ∈ front ∧ (front.map key).erase (key x) = front'.map key
          ∧ y ∈ back' ∧ back.map key = (back'.map key).erase (key y))
        ∨ (x ∈ back ∧ (back.map key).erase (key x) = back'.map key
          ∧ y ∈ front' ∧ front.map key = (front'.map key).erase (key y)) := by
  obtain ⟨hx, hy, hkey, herase, hne⟩ := h
  have hnot' : key y ∉ run'.map key := by rwa [← hkeys, ← hkey]
  have hxrun : x ∉ run := fun hmem => hnot (List.mem_map_of_mem hmem)
  have hyrun : y ∉ run' := fun hmem => hnot' (List.mem_map_of_mem hmem)
  rw [List.mem_append, List.mem_append, or_iff_right hxrun] at hx
  rw [List.mem_append, List.mem_append, or_iff_right hyrun] at hy
  rw [List.map_append, List.map_append] at hold hnew
  have herased := hold.erase (key x)
  rw [erase_append_append hold hnot] at herased
  rw [List.map_append, List.map_append, List.map_append, List.map_append,
    erase_append_append hold hnot, erase_append_append hnew hnot', ← hkeys] at herase
  obtain ⟨hfront, hback⟩ := eq_of_nodup_append herased (mt List.map_eq_nil_iff.1 hrun) herase
  have hbackNot (hx : x ∈ front) : key x ∉ back.map key :=
    not_mem_back_of_nodup hold (List.mem_map_of_mem hx)
  have hfrontNot (hx : x ∈ back) : key x ∉ front.map key :=
    fun hmem => not_mem_back_of_nodup hold hmem (List.mem_map_of_mem hx)
  have hbackNot' (hy : y ∈ front') : key y ∉ back'.map key :=
    not_mem_back_of_nodup hnew (List.mem_map_of_mem hy)
  have hfrontNot' (hy : y ∈ back') : key y ∉ front'.map key :=
    fun hmem => not_mem_back_of_nodup hnew hmem (List.mem_map_of_mem hy)
  rcases hx with hx | hx <;> rcases hy with hy | hy
  . rw [List.erase_of_not_mem (hbackNot hx), List.erase_of_not_mem (hbackNot' hy)] at hback
    refine .inl ⟨⟨hx, hy, hkey, hfront, ?_⟩, hback⟩
    intro heq
    apply hne
    simp [heq, hkeys, hback]
  . rw [List.erase_of_not_mem (hbackNot hx)] at hback
    rw [List.erase_of_not_mem (hfrontNot' hy)] at hfront
    exact .inr (.inr (.inl ⟨hx, hfront, hy, hback⟩))
  . rw [List.erase_of_not_mem (hbackNot' hy)] at hback
    rw [List.erase_of_not_mem (hfrontNot hx)] at hfront
    exact .inr (.inr (.inr ⟨hx, hback, hy, hfront⟩))
  . rw [List.erase_of_not_mem (hfrontNot hx), List.erase_of_not_mem (hfrontNot' hy)] at hfront
    refine .inr (.inl ⟨hfront, ⟨hx, hy, hkey, hback, ?_⟩⟩)
    intro heq
    apply hne
    simp [heq, hkeys, hfront]

theorem alone_of_mem_run (hold : ((front ++ (run ++ back)).map key).Nodup)
    (hnew : ((front' ++ (run' ++ back')).map key).Nodup)
    (hkeys : run.map key = run'.map key) (hmem : key x ∈ run.map key)
    (h : Moved key x y (front ++ (run ++ back)) (front' ++ (run' ++ back')))
    : run.length ≤ 1 ∧ (front ++ back).map key = (front' ++ back').map key := by
  have herase := h.erase_eq
  rw [List.map_append, List.map_append] at hold hnew
  rw [List.map_append, List.map_append, List.map_append, List.map_append, ← h.key_eq,
    erase_append_of_mem hold hmem, erase_append_of_mem hnew (hkeys ▸ hmem), ← hkeys] at herase
  by_cases hone : (run.map key).erase (key x) = []
  . constructor
    . have hpred := List.length_erase_of_mem hmem
      rw [hone, List.length_nil, List.length_map] at hpred
      omega
    . rwa [hone, List.nil_append, List.nil_append, ← List.map_append, ← List.map_append] at herase
  . have herased := hold.erase (key x)
    rw [erase_append_of_mem hold hmem] at herased
    obtain ⟨hfront, hback⟩ := eq_of_nodup_append herased hone herase
    apply absurd _ h.keys_ne
    simp [hfront, hkeys, hback]

end Moved

theorem inGaps_of_moved (hf : f [] [] = []) (hold : (olds.map key).Nodup)
    (hnew : (news.map key).Nodup) (h : Moved key x y olds news)
    : ∃ x y, Moved key x y olds news
        ∧ (inGaps key f olds news = f [x] [] ++ f [] [y]
          ∨ inGaps key f olds news = f [] [y] ++ f [x] []) := by
  induction hlength : olds.length using Nat.strongRecOn generalizing olds news with
  | ind n ih =>
    rcases @inGaps_cases _ _ _ _ key f hf olds news with
      ⟨front, run, back, front', run', back', hdivision, hgaps⟩ | ⟨hne, -⟩
    . rw [hgaps]
      obtain ⟨rfl, rfl, hrun, hkeys, -⟩ := id hdivision
      by_cases hmem : key x ∈ run.map key
      . obtain ⟨hle, hrest⟩ := h.alone_of_mem_run hold hnew hkeys hmem
        exact Moved.exists_of_length_le_one hf hold hnew hdivision hle hrest h.keys_ne
      . have hfront := hold.sublist ((List.sublist_append_left front _).map key)
        have hfront' := hnew.sublist ((List.sublist_append_left front' _).map key)
        have hrest := hold.sublist ((List.sublist_append_right front _).map key)
        have hback := hrest.sublist ((List.sublist_append_right run _).map key)
        have hrest' := hnew.sublist ((List.sublist_append_right front' _).map key)
        have hback' := hrest'.sublist ((List.sublist_append_right run' _).map key)
        have hpos := List.length_pos_of_ne_nil hrun
        rw [List.length_append, List.length_append] at hlength
        rcases h.divide hold hnew hrun hkeys hmem with
          ⟨hmoved, hbacks⟩ | ⟨hfronts, hmoved⟩ | ⟨hx, hfronts, hy, hbacks⟩
            | ⟨hx, hbacks, hy, hfronts⟩
        . obtain ⟨x, y, hmoved, hgaps⟩ := ih front.length (by omega) hfront hfront' hmoved rfl
          refine ⟨x, y, hmoved.append (by simp [hkeys, hbacks]), ?_⟩
          rwa [inGaps_of_map_key_eq hbacks, List.append_nil]
        . obtain ⟨x, y, hmoved, hgaps⟩ := ih back.length (by omega) hback hback' hmoved rfl
          refine ⟨x, y, (hmoved.prepend hrest hkeys).prepend hold hfronts, ?_⟩
          rwa [inGaps_of_map_key_eq hfronts, List.nil_append]
        . refine ⟨x, y, h, .inl ?_⟩
          rw [inGaps_of_erase_old hf hfront hx hfronts, inGaps_of_erase_new hf hback' hy hbacks]
        . refine ⟨x, y, h, .inr ?_⟩
          rw [inGaps_of_erase_new hf hfront' hy hfronts, inGaps_of_erase_old hf hback hx hbacks]
    . exact absurd h.key_eq (hne x h.mem_old y h.mem_new)

end

end MethodHistory
