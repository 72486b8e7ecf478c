import MethodHistory.Proofs.CommonOrder

/-!
This module contains the alignment of two sequences that correspond place by place, where an element
whose key is not that of its counterpart shares its key with no element of the other sequence. All
runs are level, so every gap consists of counterparts.
-/

namespace MethodHistory

variable {α κ : Type} [DecidableEq κ] {key : α → κ}

/-! Counterparts -/

/--
Pairs in which an element whose key is not that of its counterpart shares its key with none of the
other side.
-/
def IsLevel (key : α → κ) (pairs : List (α × α)) : Prop :=
  ∀ pair ∈ pairs, key pair.1 ≠ key pair.2 →
    (∀ other ∈ pairs, key pair.1 ≠ key other.2) ∧ ∀ other ∈ pairs, key other.1 ≠ key pair.2

variable {pairs : List (α × α)}

omit [DecidableEq κ] in
theorem IsLevel.of_subset {part : List (α × α)} (h : IsLevel key pairs) (hpart : part ⊆ pairs)
    : IsLevel key part := by
  intro pair hpair hne
  obtain ⟨hold, hnew⟩ := h pair (hpart hpair) hne
  exact ⟨fun other hother => hold other (hpart hother),
    fun other hother => hnew other (hpart hother)⟩

theorem IsLevel.eq_of_eq {pair other : α × α} (h : IsLevel key pairs) (hpair : pair ∈ pairs)
    (hother : other ∈ pairs) (hkey : key pair.1 = key other.2)
    : key pair.1 = key pair.2 ∧ key other.1 = key other.2 := by
  constructor
  . by_contra hne
    exact (h pair hpair hne).1 other hother hkey
  . by_contra hne
    exact (h other hother hne).2 pair hpair hkey

namespace Alignment

theorem le_seededFront_of_counterparts {i n : Nat} (hi : i + n ≤ pairs.length)
    (hkeys : ∀ pair ∈ (pairs.drop i).take n, key pair.1 = key pair.2)
    : n
        ≤
      seededFront key (fun _ => true) ((pairs.map Prod.fst).drop i) ((pairs.map Prod.snd).drop i)
    := by
  rw [le_seededFront_iff, List.length_drop, List.length_map]
  refine ⟨by omega, ?_, fun _ _ => rfl⟩
  rw [← List.map_drop, ← List.map_drop, ← List.map_take, ← List.map_take, List.map_map,
    List.map_map]
  exact List.map_congr_left hkeys

theorem le_seededFront_of_isLevel (h : IsLevel key pairs) {i j n : Nat}
    (hi : i + n ≤ pairs.length) (hj : j + n ≤ pairs.length)
    (hkeys : (((pairs.map Prod.fst).drop i).take n).map key
      = (((pairs.map Prod.snd).drop j).take n).map key)
    : n ≤ seededFront key (fun _ => true) ((pairs.map Prod.fst).drop i)
        ((pairs.map Prod.snd).drop i)
      ∧ n ≤ seededFront key (fun _ => true) ((pairs.map Prod.fst).drop j)
        ((pairs.map Prod.snd).drop j) := by
  have hmem : ∀ {k : Nat} {pair : α × α}, pair ∈ (pairs.drop k).take n → pair ∈ pairs := by
    intro k pair hpair
    exact List.mem_of_mem_drop (List.mem_of_mem_take hpair)
  rw [← List.map_drop, ← List.map_drop, ← List.map_take, ← List.map_take, List.map_map,
    List.map_map] at hkeys
  constructor
  . apply le_seededFront_of_counterparts hi
    intro pair hpair
    have hkey := List.mem_map_of_mem (f := key ∘ Prod.fst) hpair
    rw [hkeys] at hkey
    obtain ⟨other, hother, heq⟩ := List.mem_map.1 hkey
    exact (h.eq_of_eq (hmem hpair) (hmem hother) heq.symm).1
  . apply le_seededFront_of_counterparts hj
    intro pair hpair
    have hkey := List.mem_map_of_mem (f := key ∘ Prod.snd) hpair
    rw [← hkeys] at hkey
    obtain ⟨other, hother, heq⟩ := List.mem_map.1 hkey
    exact (h.eq_of_eq (hmem hother) (hmem hpair) heq).2

theorem level_longestRun (h : IsLevel key pairs)
    : (longestRun key (fun _ => true) (pairs.map Prod.fst) (pairs.map Prod.snd)).oldStart
        =
      (longestRun key (fun _ => true) (pairs.map Prod.fst) (pairs.map Prod.snd)).newStart := by
  have hlongest := @isLongest_longestRun _ _ _ key (fun _ => true) (pairs.map Prod.fst)
    (pairs.map Prod.snd)
  have hwithin := @longestRun_within _ _ _ key (fun _ => true) (pairs.map Prod.fst)
    (pairs.map Prod.snd)
  generalize longestRun key _ _ _ = run at *
  rw [Within, List.length_map, List.length_map] at hwithin
  obtain ⟨-, hkeys, -⟩ := le_seededFront_iff.1 hlongest.fits
  obtain ⟨hold, hnew⟩ := le_seededFront_of_isLevel h hwithin.1 hwithin.2 hkeys
  exact Nat.le_antisymm (hlongest.old_le _ _ hnew) (hlongest.new_le _ hold)

theorem level_split (h : IsLevel key pairs)
    : (split key (fun _ => true) (pairs.map Prod.fst) (pairs.map Prod.snd)).oldStart
        =
      (split key (fun _ => true) (pairs.map Prod.fst) (pairs.map Prod.snd)).newStart := by
  rw [split, extend]
  dsimp only
  rw [level_longestRun h]

end Alignment

theorem exists_of_gap_mem_align (h : IsLevel key pairs) {olds news : List α}
    (hgap : .gap olds news ∈ align key (fun _ => true) (pairs.map Prod.fst) (pairs.map Prod.snd))
    : ∃ part, part ⊆ pairs ∧ olds = part.map Prod.fst ∧ news = part.map Prod.snd
      ∧ ∀ pair ∈ part, key pair.1 ≠ key pair.2 := by
  induction hlength : pairs.length using Nat.strongRecOn generalizing pairs with
  | ind n ih =>
    have hlevel := Alignment.level_split h
    have hwithin := Alignment.split_within key (fun _ => true) (pairs.map Prod.fst)
      (pairs.map Prod.snd)
    rw [Alignment.Within, List.length_map] at hwithin
    rw [align] at hgap
    split at hgap
    next hzero =>
      split at hgap
      next => contradiction
      next =>
        cases List.mem_singleton.1 hgap
        refine ⟨pairs, List.Subset.refl _, rfl, rfl, ?_⟩
        intro pair hpair
        exact Alignment.ne_of_size_split_eq_zero hzero (List.mem_map_of_mem hpair)
          (List.mem_map_of_mem hpair) rfl
    next hpos =>
      dsimp only at hgap
      rw [← hlevel, ← List.map_take, ← List.map_take] at hgap
      rcases List.mem_append.1 hgap with hgap | hgap
      . obtain ⟨part, hpart, hgaps⟩ := ih _ (by rw [List.length_take]; omega)
          (h.of_subset (List.take_subset _ _)) hgap rfl
        exact ⟨part, List.Subset.trans hpart (List.take_subset _ _), hgaps⟩
      . have hback := (List.mem_cons.1 hgap).resolve_left (by simp)
        rw [← List.map_drop, ← List.map_drop] at hback
        obtain ⟨part, hpart, hgaps⟩ := ih _ (by rw [List.length_drop]; omega)
          (h.of_subset (List.drop_subset _ _)) hback rfl
        exact ⟨part, List.Subset.trans hpart (List.drop_subset _ _), hgaps⟩

end MethodHistory
