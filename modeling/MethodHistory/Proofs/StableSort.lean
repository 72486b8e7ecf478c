import MethodHistory.Range
import Mathlib.Data.List.Basic
import Mathlib.Data.List.Induction

/-!
This module contains the sorting of elements that carry a place: elements with one place keep their
order, so that sorting and selecting by places commute.
-/

namespace MethodHistory

variable {α : Type}

def byPlace (xs : List (Nat × α)) : List (Nat × α) :=
  xs.mergeSort fun a b => a.1 ≤ b.1

theorem perm_byPlace (xs : List (Nat × α)) : (byPlace xs).Perm xs := by
  apply List.mergeSort_perm

theorem byPlace_eq_nil_iff {xs : List (Nat × α)} : byPlace xs = [] ↔ xs = [] := by
  rw [← List.length_eq_zero_iff, (perm_byPlace xs).length_eq, List.length_eq_zero_iff]

theorem byPlace_trans (a b c : Nat × α) (hab : decide (a.1 ≤ b.1)) (hbc : decide (b.1 ≤ c.1))
    : decide (a.1 ≤ c.1) := by
  rw [decide_eq_true_iff] at *
  exact Nat.le_trans hab hbc

theorem byPlace_total (a b : Nat × α) : decide (a.1 ≤ b.1) || decide (b.1 ≤ a.1) := by
  simpa using Nat.le_total a.1 b.1

theorem pairwise_byPlace (xs : List (Nat × α)) : (byPlace xs).Pairwise (·.1 ≤ ·.1) :=
  (List.pairwise_mergeSort byPlace_trans byPlace_total xs).imp of_decide_eq_true

theorem pairwise_of_places_eq {xs : List (Nat × α)} {place : Nat} (h : ∀ x ∈ xs, x.1 = place)
    : xs.Pairwise fun a b => decide (a.1 ≤ b.1) := by
  rw [List.pairwise_iff_forall_sublist]
  intro a b hsublist
  rw [h a (hsublist.subset (by simp)), h b (hsublist.subset (by simp))]
  exact decide_eq_true (Nat.le_refl _)

theorem filter_mergeSort {le : α → α → Bool} (htrans : ∀ a b c, le a b → le b c → le a c)
    (htotal : ∀ a b, le a b || le b a) {p : α → Bool} {xs : List α}
    (h : (xs.filter p).Pairwise fun a b => le a b)
    : (xs.mergeSort le).filter p = xs.filter p := by
  have hsublist := List.sublist_mergeSort htrans htotal h List.filter_sublist
  have hfiltered := hsublist.filter p
  rw [List.filter_filter] at hfiltered
  simp only [Bool.and_self] at hfiltered
  -- A part of the list that has the same length is all of it.
  apply (hfiltered.eq_of_length _).symm
  exact ((List.mergeSort_perm xs le).filter _).length_eq.symm

theorem filter_byPlace (xs : List (Nat × α)) (place : Nat)
    : (byPlace xs).filter (·.1 = place) = xs.filter (·.1 = place) := by
  apply filter_mergeSort byPlace_trans byPlace_total
  apply @pairwise_of_places_eq _ _ place
  intro x hx
  simpa using (List.mem_filter.1 hx).2

theorem eq_of_filter_eq {xs ys : List (Nat × α)} (hxs : xs.Pairwise (·.1 ≤ ·.1))
    (hys : ys.Pairwise (·.1 ≤ ·.1))
    (h : ∀ place, xs.filter (·.1 = place) = ys.filter (·.1 = place)) : xs = ys := by
  induction xs generalizing ys with
  | nil =>
    cases ys with
    | nil => rfl
    | cons y ys => simpa using h y.1
  | cons x xs ih =>
    cases ys with
    | nil => simpa using h x.1
    | cons y ys =>
      rw [List.pairwise_cons] at hxs hys
      have hx : x ∈ (y :: ys).filter (·.1 = x.1) := by
        rw [← h]
        simp
      have hy : y ∈ (x :: xs).filter (·.1 = y.1) := by
        rw [h]
        simp
      -- Each head lies somewhere in the other list, behind the head of that list.
      have hplace : x.1 = y.1 := by
        apply Nat.le_antisymm
        . rcases List.mem_cons.1 (List.mem_filter.1 hy).1 with rfl | hy
          . exact Nat.le_refl _
          . exact hxs.1 y hy
        . rcases List.mem_cons.1 (List.mem_filter.1 hx).1 with rfl | hx
          . exact Nat.le_refl _
          . exact hys.1 x hx
      have hheads := h x.1
      rw [List.filter_cons_of_pos (by simp), List.filter_cons_of_pos (by simp [hplace])] at hheads
      obtain ⟨rfl, -⟩ := List.cons.inj hheads
      congr 1
      apply ih hxs.2 hys.2
      intro place
      have hboth := h place
      rw [List.filter_cons, List.filter_cons] at hboth
      split at hboth
      . exact (List.cons.inj hboth).2
      . exact hboth

theorem byPlace_filter (p : Nat → Bool) (xs : List (Nat × α))
    : byPlace (xs.filter (p ·.1)) = (byPlace xs).filter (p ·.1) := by
  apply eq_of_filter_eq (pairwise_byPlace _) ((pairwise_byPlace xs).filter _)
  intro place
  rw [filter_byPlace, List.filter_comm, ← filter_byPlace, List.filter_comm]

theorem filter_append_filter_not {p : α → Bool} {xs : List α}
    (h : xs.Pairwise fun x y => p y → p x) : xs.filter p ++ xs.filter (!p ·) = xs := by
  induction xs with
  | nil => rfl
  | cons x xs ih =>
    rw [List.pairwise_cons] at h
    cases hx : p x with
    | true =>
      rw [List.filter_cons_of_pos hx, List.filter_cons_of_neg (by simp [hx]), List.cons_append,
        ih h.2]
    | false =>
      have hnone : ∀ y ∈ x :: xs, p y = false := by
        intro y hy
        rcases List.mem_cons.1 hy with rfl | hy
        . exact hx
        . by_contra htrue
          simp [h.1 y hy (by simpa using htrue)] at hx
      rw [List.filter_eq_nil_iff.2, List.filter_eq_self.2, List.nil_append]
      . intro y hy
        rw [hnone y hy]
        rfl
      . intro y hy
        rw [hnone y hy]
        exact Bool.false_ne_true

theorem filter_lt_append_filter_le {xs : List (Nat × α)} (h : xs.Pairwise (·.1 ≤ ·.1)) (place : Nat)
    : xs.filter (·.1 < place) ++ xs.filter (place ≤ ·.1) = xs := by
  have hnot : (fun x : Nat × α => decide (place ≤ x.1)) = fun x => !decide (x.1 < place) := by
    funext x
    rw [← decide_not, decide_eq_decide, Nat.not_lt]
  rw [hnot]
  apply filter_append_filter_not
  apply h.imp
  intro x y hle hlt
  rw [decide_eq_true_iff] at *
  exact Nat.lt_of_le_of_lt hle hlt

structure IsFirst (x : Nat × α) (xs : List (Nat × α)) : Prop where
  le : ∀ y ∈ xs, x.1 ≤ y.1
  head?_eq : (xs.filter (·.1 = x.1)).head? = some x

theorem IsFirst.eq {x y : Nat × α} {xs : List (Nat × α)} (hx : IsFirst x xs) (hy : IsFirst y xs)
    : x = y := by
  have hxmem := (List.mem_filter.1 (List.mem_of_head? hx.head?_eq)).1
  have hymem := (List.mem_filter.1 (List.mem_of_head? hy.head?_eq)).1
  have hplace : x.1 = y.1 := Nat.le_antisymm (hx.le y hymem) (hy.le x hxmem)
  have h := hx.head?_eq
  rw [hplace, hy.head?_eq, Option.some_inj] at h
  exact h.symm

theorem isFirst_of_byPlace {x : Nat × α} {xs : List (Nat × α)} (h : (byPlace xs).head? = some x)
    : IsFirst x xs := by
  obtain ⟨rest, hrest⟩ := List.head?_eq_some_iff.1 h
  have hsorted := pairwise_byPlace xs
  rw [hrest] at hsorted
  constructor
  . intro y hy
    rw [← (perm_byPlace xs).mem_iff, hrest] at hy
    rcases List.mem_cons.1 hy with rfl | hy
    . exact Nat.le_refl _
    . exact List.rel_of_pairwise_cons hsorted hy
  . rw [← filter_byPlace, hrest, List.filter_cons_of_pos (by simp), List.head?_cons]

namespace FileHistory

theorem best?_append_singleton (better : α → α → Bool) (xs : List α) (x : α)
    : best? better (xs ++ [x])
        =
      match best? better xs with
      | none => some x
      | some y => if better x y then some x else some y := by
  rw [best?, List.foldl_append, best?, List.foldl_cons, List.foldl_nil]
  generalize List.foldl _ none xs = best
  cases best <;> rfl

theorem best?_of_pairwise {better : α → α → Bool} {xs : List α}
    (h : xs.Pairwise fun x y => better y x = false) : best? better xs = xs.head? := by
  induction xs using List.reverseRecOn with
  | nil => rfl
  | append_singleton xs x ih =>
    rw [List.pairwise_append] at h
    rw [best?_append_singleton, ih h.1, List.head?_append]
    cases hhead : xs.head? with
    | none => rfl
    | some y =>
      have hbetter := h.2.2 y (List.mem_of_head? hhead) x List.mem_cons_self
      dsimp only
      rw [hbetter]
      rfl

theorem best?_spec (key : α → Int) (xs : List α)
    : match best? (fun a b => key a < key b) xs with
      | none => xs = []
      | some x => (∀ y ∈ xs, key x ≤ key y) ∧ (xs.filter (key · = key x)).head? = some x := by
  induction xs using List.reverseRecOn with
  | nil => rfl
  | append_singleton xs x ih =>
    rw [best?_append_singleton]
    cases hbest : best? (fun a b => key a < key b) xs with
    | none =>
      rw [hbest] at ih
      dsimp only at ih ⊢
      rw [ih]
      constructor <;> simp
    | some y =>
      rw [hbest] at ih
      dsimp only at ih ⊢
      by_cases hlt : key x < key y
      . rw [if_pos (decide_eq_true hlt)]
        constructor
        . intro z hz
          rcases List.mem_append.1 hz with hz | hz
          . exact Int.le_of_lt (Int.lt_of_lt_of_le hlt (ih.1 z hz))
          . exact Int.le_of_eq (by rw [List.mem_singleton.1 hz])
        . have hnone : xs.filter (key · = key x) = [] := by
            rw [List.filter_eq_nil_iff]
            intro z hz
            have := ih.1 z hz
            rw [decide_eq_true_iff]
            omega
          rw [List.filter_append, hnone, List.nil_append, List.filter_cons_of_pos (by simp)]
          rfl
      . rw [if_neg (by simpa using hlt)]
        constructor
        . intro z hz
          rcases List.mem_append.1 hz with hz | hz
          . exact ih.1 z hz
          . rw [List.mem_singleton.1 hz]
            exact Int.not_lt.1 hlt
        . rw [List.filter_append, List.head?_append, ih.2]
          rfl

theorem best?_lt_spec (xs : List (Nat × α))
    : match best? (fun a b => a.1 < b.1) xs with
      | none => xs = []
      | some x => IsFirst x xs := by
  have hspec := best?_spec (fun x : Nat × α => (x.1 : Int)) xs
  simp only [Int.ofNat_lt, Int.ofNat_le, Int.natCast_inj] at hspec
  generalize best? _ xs = best at *
  cases best with
  | none => exact hspec
  | some x => exact ⟨hspec.1, hspec.2⟩

theorem best?_eq_head?_byPlace (xs : List (Nat × α))
    : best? (fun a b => a.1 < b.1) xs = (byPlace xs).head? := by
  have hspec := best?_lt_spec xs
  cases hbest : best? (fun a b : Nat × α => a.1 < b.1) xs with
  | none =>
    rw [hbest] at hspec
    rw [byPlace_eq_nil_iff.2 hspec, List.head?_nil]
  | some x =>
    rw [hbest] at hspec
    cases hhead : (byPlace xs).head? with
    | none =>
      have hx := List.mem_of_head? hspec.head?_eq
      rw [byPlace_eq_nil_iff.1 (List.head?_eq_none_iff.1 hhead)] at hx
      contradiction
    | some y => rw [hspec.eq (isFirst_of_byPlace hhead)]

end FileHistory
end MethodHistory
