import MethodHistory.Alignment

/-!
This module contains what the longest common run of two sequences is: no run is longer, and of those
that are as long none starts in front of it. The fronts that two sequences share, with elements of
some keys only, are the measure of all runs.
-/

namespace MethodHistory
namespace Alignment

variable {α κ : Type} [DecidableEq κ] {key : α → κ} {seed : κ → Bool}

def seededFront (key : α → κ) (seed : κ → Bool) : List α → List α → Nat
  | a :: as, b :: bs => if key a = key b ∧ seed (key b) then seededFront key seed as bs + 1 else 0
  | _, _ => 0

@[simp]
theorem seededFront_nil (olds : List α) : seededFront key seed olds [] = 0 := by
  cases olds <;> rfl

theorem seededFront_true (olds news : List α)
    : seededFront key (fun _ => true) olds news = sharedFront key olds news := by
  fun_induction sharedFront key olds news with
  | case1 a olds b news hkeys ih => rw [seededFront, if_pos ⟨hkeys, rfl⟩, ih]
  | case2 a olds b news hkeys => rw [seededFront, if_neg (mt And.left hkeys)]
  | case3 olds news h =>
    cases olds with
    | nil => rfl
    | cons a olds =>
      cases news with
      | nil => rfl
      | cons b news => exact absurd rfl (h a olds b news rfl)

theorem le_seededFront_iff {olds news : List α} {n : Nat}
    : n ≤ seededFront key seed olds news
        ↔
      n ≤ olds.length ∧ (olds.take n).map key = (news.take n).map key
        ∧ ∀ k ∈ (news.take n).map key, seed k := by
  induction n generalizing olds news with
  | zero => simp
  | succ n ih =>
    cases olds with
    | nil => simp [seededFront]
    | cons a olds =>
      cases news with
      | nil => simp
      | cons b news =>
        rw [seededFront, List.take_succ_cons, List.take_succ_cons, List.map_cons, List.map_cons,
          List.cons.injEq, List.forall_mem_cons, List.length_cons, Nat.succ_le_succ_iff]
        split
        next hkeys =>
          rw [Nat.succ_le_succ_iff, ih]
          simp [hkeys]
        next hkeys =>
          refine iff_of_false (Nat.not_succ_le_zero n) ?_
          rintro ⟨-, ⟨hkey, -⟩, hseed, -⟩
          exact hkeys ⟨hkey, hseed⟩

theorem length_le_seededFront {run run' : List α} (h : run.map key = run'.map key)
    (hseed : ∀ k ∈ run.map key, seed k) (rest rest' : List α)
    : run.length ≤ seededFront key seed (run ++ rest) (run' ++ rest') := by
  have hlength : run'.length = run.length := by
    rw [← List.length_map key, ← h, List.length_map]
  have htake : (run' ++ rest').take run.length = run' := by
    rw [← hlength, List.take_left]
  rw [le_seededFront_iff, htake, List.take_left, List.length_append, ← h]
  exact ⟨Nat.le_add_right _ _, rfl, hseed⟩

/-! The lengths of runs are found row by row -/

theorem getElem?_runLengths (a : α) (news : List α) (below : List Nat) (i : Nat)
    : (runLengths key seed a news below)[i]?
        =
      news[i]?.map fun b =>
        if key a = key b ∧ seed (key b) then (below[i + 1]?).getD 0 + 1 else 0 := by
  induction news generalizing below i with
  | nil => rfl
  | cons b news ih =>
    rw [runLengths]
    cases i with
    | zero =>
      rw [List.getElem?_cons_zero, List.getElem?_cons_zero, List.headD_eq_head?_getD,
        List.head?_eq_getElem?, List.getElem?_tail]
      rfl
    | succ i => rw [List.getElem?_cons_succ, List.getElem?_cons_succ, ih, List.getElem?_tail]

theorem getElem?_go (olds news : List α) (j : Nat)
    : (longestRun.go key seed news olds).2[j]?
        =
      news[j]?.map fun _ => seededFront key seed olds (news.drop j) := by
  induction olds generalizing j with
  | nil =>
    rw [longestRun.go, List.getElem?_map]
    rfl
  | cons a olds ih =>
    have hrow : (longestRun.go key seed news (a :: olds)).2
        = runLengths key seed a news (longestRun.go key seed news olds).2 := by
      rw [longestRun.go]
      dsimp only
      split
      next => rfl
      next => split <;> rfl
    rw [hrow, getElem?_runLengths]
    cases hj : news[j]? with
    | none => rfl
    | some b =>
      obtain ⟨hlt, rfl⟩ := List.getElem?_eq_some_iff.1 hj
      rw [Option.map_some, Option.map_some, Option.some_inj, List.drop_eq_getElem_cons hlt,
        seededFront, ih]
      split
      next =>
        cases hnext : news[j + 1]? with
        | some c => rfl
        | none =>
          rw [List.drop_eq_nil_of_le (List.getElem?_eq_none_iff.1 hnext), seededFront_nil]
          rfl
      next => rfl

/-! The first of the greatest numbers -/

theorem le_firstMax {ns : List Nat} {i n : Nat} (h : ns[i]? = some n) : n ≤ (firstMax ns).2 := by
  induction ns generalizing i with
  | nil => cases h
  | cons m ns ih =>
    rw [firstMax]
    dsimp only
    cases i with
    | zero =>
      cases h
      split
      next => exact Nat.le_refl _
      next hlt => exact Nat.le_of_not_le hlt
    | succ i =>
      have hle := ih h
      split
      next hmax => exact Nat.le_trans hle hmax
      next => exact hle

theorem place_firstMax_le {ns : List Nat} {i n : Nat} (h : ns[i]? = some n)
    (hn : (firstMax ns).2 ≤ n) : (firstMax ns).1 ≤ i := by
  induction ns generalizing i with
  | nil => cases h
  | cons m ns ih =>
    rw [firstMax] at hn ⊢
    dsimp only at hn ⊢
    split
    next => exact Nat.zero_le i
    next hlt =>
      rw [if_neg hlt] at hn
      cases i with
      | zero =>
        cases h
        exact absurd hn hlt
      | succ i => exact Nat.succ_le_succ (ih h hn)

/-! The longest run -/

section

def fronts (key : α → κ) (seed : κ → Bool) (a : α) (olds news : List α) : List Nat :=
  (longestRun.go key seed news (a :: olds)).2

variable {a : α} {olds news : List α} {j : Nat}

theorem longestRun_cons (a : α) (olds news : List α)
    : longestRun key seed (a :: olds) news
        =
      if (firstMax (fronts key seed a olds news)).2 = 0
          ∧ (longestRun key seed olds news).size = 0 then
        ⟨0, 0, 0⟩
      else if (longestRun key seed olds news).size
          ≤ (firstMax (fronts key seed a olds news)).2 then
        ⟨0, (firstMax (fronts key seed a olds news)).1, (firstMax (fronts key seed a olds news)).2⟩
      else
        { longestRun key seed olds news with
          oldStart := (longestRun key seed olds news).oldStart + 1 } := by
  have hfronts : fronts key seed a olds news = runLengths key seed a news
      (longestRun.go key seed news olds).2 := by
    rw [fronts, longestRun.go]
    dsimp only
    split
    next => rfl
    next => split <;> rfl
  rw [hfronts, longestRun, longestRun, longestRun.go]
  dsimp only
  split
  next => rfl
  next => split <;> rfl

theorem getElem?_fronts (hj : j < news.length)
    : (fronts key seed a olds news)[j]?
        =
      some (seededFront key seed (a :: olds) (news.drop j)) := by
  rw [fronts, getElem?_go, List.getElem?_eq_getElem hj]
  rfl

theorem seededFront_le_fronts
    : seededFront key seed (a :: olds) (news.drop j)
        ≤
      (firstMax (fronts key seed a olds news)).2 := by
  rcases Nat.lt_or_ge j news.length with hlt | hge
  . exact le_firstMax (getElem?_fronts hlt)
  . rw [List.drop_eq_nil_of_le hge, seededFront_nil]
    exact Nat.zero_le _

theorem place_fronts_le (hpos : (firstMax (fronts key seed a olds news)).2 ≠ 0)
    (h : (firstMax (fronts key seed a olds news)).2
      ≤ seededFront key seed (a :: olds) (news.drop j))
    : (firstMax (fronts key seed a olds news)).1 ≤ j := by
  rcases Nat.lt_or_ge j news.length with hlt | hge
  . exact place_firstMax_le (getElem?_fronts hlt) h
  . rw [List.drop_eq_nil_of_le hge, seededFront_nil] at h
    exact absurd (Nat.le_zero.1 h) hpos

theorem firstMax_fronts_le
    : (firstMax (fronts key seed a olds news)).2
        ≤
      seededFront key seed (a :: olds)
        (news.drop (firstMax (fronts key seed a olds news)).1) := by
  by_cases hzero : (firstMax (fronts key seed a olds news)).2 = 0
  . rw [hzero]
    exact Nat.zero_le _
  . have hplace := getElem?_firstMax hzero
    rw [fronts, getElem?_go, Option.map_eq_some_iff] at hplace
    obtain ⟨_, -, hfront⟩ := hplace
    exact Nat.le_of_eq hfront.symm

end

/--
Whether a run is one of elements with `seed` keys, no other one is longer, and none that is as long
starts in front of it: first in the old sequence, then in the new one.
-/
structure IsLongest (key : α → κ) (seed : κ → Bool) (olds news : List α) (run : CommonRun)
    : Prop where
  fits : run.size ≤ seededFront key seed (olds.drop run.oldStart) (news.drop run.newStart)
  size_le : ∀ i j, seededFront key seed (olds.drop i) (news.drop j) ≤ run.size
  old_le : ∀ i j, run.size ≤ seededFront key seed (olds.drop i) (news.drop j) → run.oldStart ≤ i
  new_le : ∀ j, run.size ≤ seededFront key seed (olds.drop run.oldStart) (news.drop j) →
    run.newStart ≤ j

theorem isLongest_longestRun (olds news : List α)
    : IsLongest key seed olds news (longestRun key seed olds news) := by
  induction olds with
  | nil =>
    refine ⟨Nat.zero_le _, ?_, fun _ _ _ => Nat.zero_le _, fun _ _ => Nat.zero_le _⟩
    intro i j
    rw [List.drop_nil]
    exact Nat.le_refl 0
  | cons a olds ih =>
    have hfirst (j : Nat) := @seededFront_le_fronts _ _ _ key seed a olds news j
    rw [longestRun_cons]
    split
    next hnone =>
      refine ⟨Nat.zero_le _, ?_, fun _ _ _ => Nat.zero_le _, fun _ _ => Nat.zero_le _⟩
      intro i j
      cases i with
      | zero => exact Nat.le_trans (hfirst j) (Nat.le_of_eq hnone.1)
      | succ i => exact Nat.le_trans (ih.size_le i j) (Nat.le_of_eq hnone.2)
    next hsome =>
      split
      next hlonger =>
        refine ⟨firstMax_fronts_le, ?_, fun _ _ _ => Nat.zero_le _, ?_⟩
        . intro i j
          cases i with
          | zero => exact hfirst j
          | succ i => exact Nat.le_trans (ih.size_le i j) hlonger
        . intro j hj
          exact place_fronts_le (by omega) hj
      next hshorter =>
        refine ⟨ih.fits, ?_, ?_, ih.new_le⟩
        . intro i j
          cases i with
          | zero => exact Nat.le_trans (hfirst j) (Nat.le_of_not_le hshorter)
          | succ i => exact ih.size_le i j
        . intro i j hj
          cases i with
          | zero => exact absurd (Nat.le_trans hj (hfirst j)) hshorter
          | succ i => exact Nat.succ_le_succ (ih.old_le i j hj)

theorem longestRun_within (olds news : List α)
    : Within olds news (longestRun key seed olds news) :=
  (longestRun.go_bounds key seed news olds).1

theorem length_le_size_longestRun {run run' : List α} (h : run.map key = run'.map key)
    (hseed : ∀ k ∈ run.map key, seed k) (front rest front' rest' : List α)
    : run.length
        ≤
      (longestRun key seed (front ++ (run ++ rest)) (front' ++ (run' ++ rest'))).size := by
  have hle := (@isLongest_longestRun _ _ _ key seed (front ++ (run ++ rest))
    (front' ++ (run' ++ rest'))).size_le front.length front'.length
  rw [List.drop_left, List.drop_left] at hle
  exact Nat.le_trans (length_le_seededFront h hseed rest rest') hle

end Alignment
end MethodHistory
