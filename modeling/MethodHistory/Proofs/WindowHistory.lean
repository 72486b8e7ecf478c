import MethodHistory.Proofs.BlockHistory

/-!
This module contains the history of a file in a window of dates. Where commits with ever earlier
dates make up a line, the window between two of them is a block: it starts at the commit in front of
the lower one, if there is one.
-/

namespace MethodHistory

variable {α β : Type}

def neighbours (xs : List α) : List (α × α) :=
  xs.zip xs.tail

theorem neighbours_of_length_le_one {xs : List α} (h : xs.length ≤ 1) : neighbours xs = [] := by
  cases xs with
  | nil => rfl
  | cons x xs =>
    cases xs with
    | nil => rfl
    | cons y xs => simp at h

structure IsDated (commits : List Commit) : Prop extends IsLine commits where
  descending : commits.Pairwise fun newer older => older.date < newer.date

def IsDateAt (commits : List Commit) (place : Nat) (date : Instant) : Prop :=
  ∃ commit ∈ commits, commit.position = place ∧ commit.date = date

theorem isDateAt_position {commits : List Commit} {commit : Commit} (h : commit ∈ commits)
    : IsDateAt commits commit.position commit.date :=
  ⟨commit, h, rfl, rfl⟩

namespace IsDated

variable {commits : List Commit} {place place' : Nat} {date date' : Instant}

theorem date_lt_of_lt (h : IsDated commits) (hdate : IsDateAt commits place date)
    (hdate' : IsDateAt commits place' date') (hlt : place < place') : date' < date := by
  obtain ⟨newer, hnewer, rfl, rfl⟩ := hdate
  obtain ⟨older, holder, rfl, rfl⟩ := hdate'
  obtain ⟨i, hi, rfl⟩ := List.mem_iff_getElem.1 hnewer
  obtain ⟨j, hj, rfl⟩ := List.mem_iff_getElem.1 holder
  rw [h.position_eq i hi, h.position_eq j hj] at hlt
  exact List.pairwise_iff_getElem.1 h.descending i j hi hj hlt

theorem date_eq_of_eq (h : IsDated commits) (hdate : IsDateAt commits place date)
    (hdate' : IsDateAt commits place date') : date = date' := by
  obtain ⟨commit, hcommit, hplace, rfl⟩ := hdate
  obtain ⟨other, hother, hplace', rfl⟩ := hdate'
  rw [h.eq_of_position hcommit hother (hplace.trans hplace'.symm)]

theorem date_lt_iff (h : IsDated commits) (hdate : IsDateAt commits place date)
    (hdate' : IsDateAt commits place' date') : date < date' ↔ place' < place := by
  constructor
  . intro hlt
    change date.place < date'.place at hlt
    rcases Nat.lt_trichotomy place' place with hless | rfl | hgreater
    . exact hless
    . rw [h.date_eq_of_eq hdate hdate'] at hlt
      exact absurd hlt (Int.lt_irrefl _)
    . have hgt : date'.place < date.place := h.date_lt_of_lt hdate hdate' hgreater
      omega
  . exact h.date_lt_of_lt hdate' hdate

theorem date_le_iff (h : IsDated commits) (hdate : IsDateAt commits place date)
    (hdate' : IsDateAt commits place' date') : date ≤ date' ↔ place' ≤ place := by
  have hle : date ≤ date' ↔ ¬date' < date := Int.not_lt.symm
  rw [hle, h.date_lt_iff hdate' hdate, Nat.not_lt]

end IsDated

/--
Revisions at different commits of a list, each with the date of its commit.
-/
structure Records (commits : List Commit) (revisions : List Revision) : Prop where
  nodup : (revisions.map Revision.commit).Nodup
  exists_commit : ∀ revision ∈ revisions,
    ∃ commit ∈ commits, commit.id = revision.commit ∧ commit.date = revision.date

def olderThan (commits : List Commit) (commit : Commit) : Commit :=
  (commits[commit.position + 1]?).getD commit

theorem olderThan_mem {commits : List Commit} {commit : Commit} (h : commit ∈ commits)
    : olderThan commits commit ∈ commits := by
  rw [olderThan]
  cases hnext : commits[commit.position + 1]? with
  | none => exact h
  | some older => exact List.mem_of_getElem? hnext

def Range.window (commits : List Commit) (lower upper : Commit) : Range :=
  let selected := commits.filter fun commit => lower.date ≤ commit.date ∧ commit.date ≤ upper.date
  { lower := lower.id
    upper := upper.id
    commits := selected.map (·.id)
    dateMin := lower.date
    dateMax := upper.date
    mode := .date }

namespace FileHistory

theorem pairs_eq (history : FileHistory) : history.pairs = neighbours history.chronological := by
  rfl

theorem mem_of_best? {better : α → α → Bool} {xs : List α} {x : α} (h : best? better xs = some x)
    : x ∈ xs := by
  induction xs using List.reverseRecOn with
  | nil => cases h
  | append_singleton xs y ih =>
    rw [best?_append_singleton] at h
    cases hbest : best? better xs with
    | none =>
      rw [hbest] at h
      cases h
      simp
    | some z =>
      rw [hbest] at h ih
      dsimp only at h
      split at h
      next =>
        cases h
        simp
      next => exact List.mem_append_left _ (ih h)

theorem best?_map {better : α → α → Bool} {better' : β → β → Bool} {f : α → β} {xs : List α}
    (h : ∀ a ∈ xs, ∀ b ∈ xs, better a b = better' (f a) (f b))
    : best? better' (xs.map f) = (best? better xs).map f := by
  induction xs using List.reverseRecOn with
  | nil => rfl
  | append_singleton xs x ih =>
    have hxs : best? better' (xs.map f) = (best? better xs).map f := by
      apply ih
      intro a ha b hb
      exact h a (List.mem_append_left _ ha) b (List.mem_append_left _ hb)
    rw [List.map_append, List.map_singleton, best?_append_singleton, best?_append_singleton, hxs]
    cases hbest : best? better xs with
    | none => rfl
    | some y =>
      have hy : y ∈ xs ++ [x] := List.mem_append_left _ (mem_of_best? hbest)
      rw [Option.map_some]
      dsimp only
      rw [h x (List.mem_append_right _ List.mem_cons_self) y hy]
      split <;> rfl

section

variable {line : List (Nat × Revision)} {lower upper : Nat}

theorem length_upTo_le (hline : line.Pairwise (·.1 ≤ ·.1)) (lower upper : Nat)
    : (upTo line lower upper).length ≤ line.length := by
  have hfront : (inFront line lower).toList.length ≤ (line.filter fun x => lower ≤ x.1).length := by
    rw [inFront]
    cases line.filter fun x => lower ≤ x.1 <;> simp
  have hblock : (inBlock line lower upper).length ≤ (line.filter fun x => x.1 < lower).length := by
    rw [inBlock, List.length_reverse, List.length_map, ← List.countP_eq_length_filter,
      ← List.countP_eq_length_filter]
    apply List.countP_mono_left
    intro x _ hx
    rw [decide_eq_true_iff] at *
    exact hx.2
  have hsplit := congrArg List.length (filter_lt_append_filter_le hline lower)
  rw [List.length_append] at hsplit
  rw [upTo, List.length_append]
  omega

theorem upTo_succ (hline : line.Pairwise (·.1 < ·.1)) (hlast : ∀ x ∈ line, x.1 ≤ lower)
    (hupper : upper ≤ lower) : upTo line (lower + 1) upper = upTo line lower upper := by
  have hsorted : line.Pairwise (·.1 ≤ ·.1) := hline.imp Nat.le_of_lt
  have hfront : inFront line (lower + 1) = none := by
    have hnone : line.filter (fun x => lower + 1 ≤ x.1) = [] := by
      rw [List.filter_eq_nil_iff]
      intro x hx hbehind
      exact Nat.not_lt.2 (hlast x hx) (of_decide_eq_true hbehind)
    rw [inFront, hnone]
    rfl
  have hblock : (inBlock line (lower + 1) lower).length ≤ 1 := by
    rw [inBlock, List.length_reverse, List.length_map]
    have hplaces : ∀ x ∈ line.filter fun x => lower ≤ x.1 ∧ x.1 < lower + 1, x.1 = lower := by
      intro x hx
      have hplace := of_decide_eq_true (List.mem_filter.1 hx).2
      omega
    have hlt := hline.filter fun x => lower ≤ x.1 ∧ x.1 < lower + 1
    generalize line.filter _ = xs at *
    cases xs with
    | nil => exact Nat.zero_le _
    | cons x xs =>
      cases xs with
      | nil => exact Nat.le_refl _
      | cons y xs =>
        have hxy := List.rel_of_pairwise_cons hlt List.mem_cons_self
        rw [hplaces x (by simp), hplaces y (by simp)] at hxy
        exact absurd hxy (Nat.lt_irrefl _)
  have hlength : (upTo line (lower + 1) lower).length ≤ 1 := by
    rw [upTo, hfront]
    exact hblock
  have hgetLast : (upTo line (lower + 1) lower).getLast?.toList = upTo line (lower + 1) lower := by
    generalize upTo line (lower + 1) lower = xs at *
    cases xs with
    | nil => rfl
    | cons x xs =>
      cases xs with
      | nil => rfl
      | cons y xs => simp at hlength
  rw [upTo_append hsorted (Nat.le_succ lower) hupper, upTo.eq_def line lower upper,
    inFront_middle hsorted (Nat.le_succ lower), hgetLast]

theorem neighbours_upTo_of_inBlock (h : inBlock line lower upper = [])
    : neighbours (upTo line lower upper) = [] := by
  apply neighbours_of_length_le_one
  rw [upTo, h, List.append_nil]
  cases inFront line lower <;> simp

end

variable {commits : List Commit} {revisions : List Revision} {lower upper : Commit}

theorem pairs_ofBlock (h : IsLine commits) (hlower : lower ∈ commits) (path : String)
    (revisions : List Revision)
    : (ofBlock (positionIn commits) (.block commits lower upper) path revisions).pairs
        =
      neighbours (upTo (onLine commits revisions) lower.position upper.position) := by
  rw [pairs_eq, chronological_ofBlock h hlower]
  split
  next hnone => exact (neighbours_upTo_of_inBlock hnone).symm
  next => rfl

theorem map_withPlaces (h : IsLine commits) (hrecords : Records commits revisions)
    : (withPlaces commits revisions).map (·.2) = revisions := by
  rw [withPlaces, List.map_filterMap]
  have hfound : ∀ revision ∈ revisions, ((positionIn commits revision.commit).map fun place =>
      (place, revision)).map (·.2) = some revision := by
    intro revision hrevision
    obtain ⟨commit, hcommit, hid, -⟩ := hrecords.exists_commit revision hrevision
    rw [h.positionIn_eq_some.2 ⟨commit, hcommit, hid, rfl⟩]
    rfl
  rw [List.filterMap_congr hfound, List.filterMap_some]

theorem commits_withPlaces_sublist (commits : List Commit) (revisions : List Revision)
    : ((withPlaces commits revisions).map (·.2.commit)).Sublist
        (revisions.map Revision.commit) := by
  induction revisions with
  | nil => exact List.Sublist.slnil
  | cons revision revisions ih =>
    rw [withPlaces, List.filterMap_cons]
    cases positionIn commits revision.commit with
    | none => exact ih.cons _
    | some place => exact ih.cons_cons _

theorem pairwise_lt_onLine (h : IsLine commits) (hnodup : (revisions.map Revision.commit).Nodup)
    : (onLine commits revisions).Pairwise (·.1 < ·.1) := by
  have hids := hnodup.sublist (commits_withPlaces_sublist commits revisions)
  have hplaces : ((withPlaces commits revisions).map (·.1)).Nodup := by
    apply List.Nodup.map_on _ hids.of_map
    intro x hx y hy hxy
    apply List.inj_on_of_nodup_map hids hx hy
    obtain ⟨commit, hcommit, hid, hplace⟩ :=
      h.positionIn_eq_some.1 (position_of_mem_withPlaces hx)
    obtain ⟨other, hother, hid', hplace'⟩ :=
      h.positionIn_eq_some.1 (position_of_mem_withPlaces hy)
    have hsame := h.eq_of_position hcommit hother (hplace.trans (hxy.trans hplace'.symm))
    rw [← hid, ← hid', hsame]
  have hne : (onLine commits revisions).Pairwise (·.1 ≠ ·.1) := by
    rw [← List.pairwise_map]
    exact ((perm_byPlace _).map _).nodup_iff.2 hplaces
  exact ((pairwise_onLine commits revisions).and hne).imp fun h => Nat.lt_of_le_of_ne h.1 h.2

theorem isDateAt_of_mem_withPlaces (h : IsLine commits) (hrecords : Records commits revisions)
    {x : Nat × Revision} (hx : x ∈ withPlaces commits revisions)
    : IsDateAt commits x.1 x.2.date := by
  have hrevision : x.2 ∈ revisions := by
    rw [← map_withPlaces h hrecords]
    exact List.mem_map_of_mem hx
  obtain ⟨commit, hcommit, hid, hdate⟩ := hrecords.exists_commit x.2 hrevision
  obtain ⟨other, hother, hid', hplace⟩ := h.positionIn_eq_some.1 (position_of_mem_withPlaces hx)
  rw [h.eq_of_id hother hcommit (hid'.trans hid.symm)] at hplace
  exact ⟨commit, hcommit, hplace, hdate⟩

theorem filter_date (h : IsLine commits) (hrecords : Records commits revisions)
    {p : Instant → Bool} {q : Nat → Bool}
    (hpq : ∀ place date, IsDateAt commits place date → p date = q place)
    : revisions.filter (p ·.date)
        =
      ((withPlaces commits revisions).filter (q ·.1)).map (·.2) := by
  conv_lhs => rw [← map_withPlaces h hrecords, List.filter_map]
  congr 1
  apply List.filter_congr
  intro x hx
  exact hpq _ _ (isDateAt_of_mem_withPlaces h hrecords hx)

theorem mergeSort_window (h : IsDated commits) (hrecords : Records commits revisions)
    (hlower : lower ∈ commits) (hupper : upper ∈ commits)
    : (revisions.filter ((Range.window commits lower upper).covers ·.date)).mergeSort
          (fun a b => b.date ≤ a.date)
        =
      (inBlock (onLine commits revisions) (lower.position + 1) upper.position).reverse := by
  have hcovers : ∀ place date, IsDateAt commits place date →
      (Range.window commits lower upper).covers date
        = decide (upper.position ≤ place ∧ place < lower.position + 1) := by
    intro place date hdate
    change decide (lower.date ≤ date ∧ date ≤ upper.date) = _
    rw [decide_eq_decide, h.date_le_iff (isDateAt_position hlower) hdate,
      h.date_le_iff hdate (isDateAt_position hupper), Nat.lt_succ_iff, And.comm]
  rw [filter_date h.toIsLine hrecords hcovers, inBlock, List.reverse_reverse, onLine,
    ← byPlace_filter fun place => decide (upper.position ≤ place ∧ place < lower.position + 1),
    byPlace]
  symm
  apply List.map_mergeSort
  intro a ha b hb
  have hdate := isDateAt_of_mem_withPlaces h.toIsLine hrecords (List.mem_filter.1 ha).1
  have hdate' := isDateAt_of_mem_withPlaces h.toIsLine hrecords (List.mem_filter.1 hb).1
  rw [decide_eq_decide, h.date_le_iff hdate' hdate]

theorem best?_window (h : IsDated commits) (hrecords : Records commits revisions)
    (hlower : lower ∈ commits)
    : best? (fun a b => b.date < a.date) (revisions.filter (·.date < lower.date))
        =
      inFront (onLine commits revisions) (lower.position + 1) := by
  have hbefore : ∀ place date, IsDateAt commits place date →
      decide (date < lower.date) = decide (lower.position + 1 ≤ place) := by
    intro place date hdate
    rw [decide_eq_decide, h.date_lt_iff hdate (isDateAt_position hlower), Nat.succ_le_iff]
  rw [filter_date h.toIsLine hrecords hbefore, inFront, onLine,
    ← byPlace_filter fun place => decide (lower.position + 1 ≤ place), ← best?_eq_head?_byPlace]
  apply best?_map
  intro a ha b hb
  have hdate := isDateAt_of_mem_withPlaces h.toIsLine hrecords (List.mem_filter.1 ha).1
  have hdate' := isDateAt_of_mem_withPlaces h.toIsLine hrecords (List.mem_filter.1 hb).1
  rw [decide_eq_decide, h.date_lt_iff hdate' hdate]

theorem pairs_ofWindow (h : IsDated commits) (hrecords : Records commits revisions)
    (hlower : lower ∈ commits) (hupper : upper ∈ commits) (path : String)
    : (ofWindow (.window commits lower upper) path revisions).pairs
        =
      neighbours (upTo (onLine commits revisions) (lower.position + 1) upper.position) := by
  have hrevisions := mergeSort_window h hrecords hlower hupper
  have hboundary := best?_window h hrecords hlower
  have hnone : (revisions.filter ((Range.window commits lower upper).covers ·.date)).isEmpty
      ↔ inBlock (onLine commits revisions) (lower.position + 1) upper.position = [] := by
    rw [← List.reverse_eq_nil_iff, ← hrevisions, List.isEmpty_iff, ← List.length_eq_zero_iff,
      ← List.length_eq_zero_iff, List.length_mergeSort]
  rw [pairs_eq, ofWindow]
  split
  next hnothing =>
    rcases hnothing with hshort | hempty
    . rw [neighbours_of_length_le_one (Nat.le_trans (length_upTo_le (pairwise_onLine ..) ..) _)]
      . rfl
      . rw [onLine, (perm_byPlace _).length_eq, ← List.length_map (·.2),
          map_withPlaces h.toIsLine hrecords]
        exact hshort
    . exact (neighbours_upTo_of_inBlock (hnone.1 hempty)).symm
  next =>
    have hwindow : (Range.window commits lower upper).dateMin = lower.date := rfl
    rw [chronological, hrevisions, List.reverse_reverse, hwindow, hboundary, upTo]

theorem ofWindow_of_isEmpty (hrecords : Records commits revisions)
    (h : (Range.window commits lower upper).isEmpty) (path : String)
    : ofWindow (.window commits lower upper) path revisions = .nothing path := by
  rw [ofWindow, if_pos]
  right
  rw [List.isEmpty_iff, List.filter_eq_nil_iff]
  intro revision hrevision hcovers
  obtain ⟨commit, hcommit, -, hdate⟩ := hrecords.exists_commit revision hrevision
  have hselected : commit.id ∈ (Range.window commits lower upper).minedCommits := by
    apply List.mem_map_of_mem
    rw [List.mem_filter, hdate]
    exact ⟨hcommit, hcovers⟩
  rw [List.isEmpty_iff.1 h] at hselected
  contradiction

theorem pairs_ofWindow_eq_pairs_ofBlock (h : IsDated commits) (hrecords : Records commits revisions)
    (hlower : lower ∈ commits) (hupper : upper ∈ commits) (path : String)
    : (ofWindow (.window commits lower upper) path revisions).pairs
        =
      (ofBlock (positionIn commits) (.block commits (olderThan commits lower) upper) path
        revisions).pairs := by
  rw [pairs_ofWindow h hrecords hlower hupper, pairs_ofBlock h.toIsLine (olderThan_mem hlower)]
  cases hnext : commits[lower.position + 1]? with
  | some older => rw [olderThan, hnext, Option.getD_some, h.position_of_getElem? hnext]
  | none =>
    -- All places lie at or in front of the one of the oldest commit.
    have hlast {commit : Commit} (hcommit : commit ∈ commits)
        : commit.position ≤ lower.position := by
      obtain ⟨i, hi, rfl⟩ := List.mem_iff_getElem.1 hcommit
      rw [h.position_eq i hi]
      rw [List.getElem?_eq_none_iff] at hnext
      omega
    have hsorted := pairwise_lt_onLine h.toIsLine hrecords.nodup
    rw [olderThan, hnext, Option.getD_none, upTo_succ hsorted _ (hlast hupper)]
    intro x hx
    obtain ⟨commit, hcommit, -, hplace⟩ := h.positionIn_eq_some.1
      (position_of_mem_withPlaces ((perm_byPlace _).mem_iff.1 hx))
    exact hplace ▸ hlast hcommit

end FileHistory
end MethodHistory
