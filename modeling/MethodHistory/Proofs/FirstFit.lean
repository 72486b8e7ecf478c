import MethodHistory.FirstFit
import Mathlib.Data.List.Forall2

/-!
This module contains what a pairing by first fit does to its lists: it keeps the first one in order,
joins only what fits, and divides the second one into partners and free elements. Who stays alone
fits none of the free elements.
-/

namespace MethodHistory

variable {α β γ : Type} {fits : α → β → Bool}

theorem firstFit_nil (free : List β) : firstFit fits [] free = ([], free) := by
  rfl

theorem firstFit_cons_of_fits {x : α} {y : β} (h : fits x y) (xs : List α) (free : List β)
    : firstFit fits (x :: xs) (y :: free)
        =
      ((x, some y) :: (firstFit fits xs free).1, (firstFit fits xs free).2) := by
  rw [firstFit, List.find?_cons_of_pos h]
  dsimp only
  rw [List.eraseP_cons_of_pos h]

theorem map_fst_firstFit (xs : List α) (free : List β)
    : (firstFit fits xs free).1.map Prod.fst = xs := by
  fun_induction firstFit fits xs free with
  | case1 => rfl
  | case2 x xs free y hfind rest ih => rw [List.map_cons, ih]
  | case3 x xs free hfind rest ih => rw [List.map_cons, ih]

theorem eq_nil_of_firstFit {xs : List α} {free : List β} (h : (firstFit fits xs free).1 = [])
    : xs = [] := by
  rw [← @map_fst_firstFit _ _ fits xs free, h, List.map_nil]

theorem fits_of_mem_firstFit {xs : List α} {free : List β} {x : α} {y : β}
    (h : (x, some y) ∈ (firstFit fits xs free).1) : fits x y := by
  fun_induction firstFit fits xs free with
  | case1 => contradiction
  | case2 z xs free w hfind rest ih =>
    rcases List.mem_cons.1 h with h | h
    . cases h
      exact List.find?_some hfind
    . exact ih h
  | case3 z xs free hfind rest ih =>
    rcases List.mem_cons.1 h with h | h
    . cases h
    . exact ih h

theorem perm_cons_eraseP {p : β → Bool} {ys : List β} {y : β} (h : ys.find? p = some y)
    : (y :: ys.eraseP p).Perm ys := by
  obtain ⟨hy, front, back, rfl, hfront⟩ := List.find?_eq_some_iff_append.1 h
  have hskip : ∀ x ∈ front, ¬ p x := by
    intro x hx
    simpa using hfront x hx
  rw [List.eraseP_append_right _ hskip, List.eraseP_cons_of_pos hy]
  exact List.perm_middle.symm

theorem perm_firstFit (xs : List α) (free : List β)
    : ((firstFit fits xs free).1.filterMap Prod.snd ++ (firstFit fits xs free).2).Perm free := by
  fun_induction firstFit fits xs free with
  | case1 => exact List.Perm.refl _
  | case2 x xs free y hfind rest ih =>
    rw [List.filterMap_cons]
    exact (ih.cons y).trans (perm_cons_eraseP hfind)
  | case3 x xs free hfind rest ih =>
    rw [List.filterMap_cons]
    exact ih

theorem exists_perm_of_firstFit {r : α → β → Prop} {xs : List α} {free : List β}
    (hfree : (firstFit fits xs free).2 = [])
    (h : ∀ found ∈ (firstFit fits xs free).1, ∃ x y, found = (x, some y) ∧ r x y)
    : ∃ partners : List β, partners.Perm free ∧ List.Forall₂ r xs partners := by
  have hperm := @perm_firstFit _ _ fits xs free
  have hxs := @map_fst_firstFit _ _ fits xs free
  rw [hfree, List.append_nil] at hperm
  refine ⟨_, hperm, ?_⟩
  revert hxs h
  generalize (firstFit fits xs free).1 = found
  intro h hxs
  rw [← hxs]
  clear hfree hperm hxs
  induction found with
  | nil => exact .nil
  | cons first found ih =>
    obtain ⟨x, y, rfl, hr⟩ := h first List.mem_cons_self
    rw [List.map_cons, List.filterMap_cons]
    exact .cons hr (ih fun next hnext => h next (List.mem_cons_of_mem _ hnext))

theorem not_fits_of_mem_firstFit {xs : List α} {free : List β} {x : α} {y : β}
    (hx : (x, none) ∈ (firstFit fits xs free).1) (hy : y ∈ (firstFit fits xs free).2)
    : fits x y = false := by
  fun_induction firstFit fits xs free with
  | case1 => contradiction
  | case2 z xs free w hfind rest ih =>
    exact ih ((List.mem_cons.1 hx).resolve_left (by simp)) hy
  | case3 z xs free hfind rest ih =>
    rcases List.mem_cons.1 hx with hx | hx
    . cases hx
      rw [Bool.eq_false_iff]
      exact List.find?_eq_none.1 hfind y (mem_free_of_mem_firstFit hy)
    . exact ih hx hy

/-! Those that have a partner, and those that have none -/

namespace FirstFit

def joined (found : List (α × Option β)) : List (α × β) :=
  found.filterMap fun (x, partner) => partner.map (x, ·)

def alone (found : List (α × Option β)) : List α :=
  found.filterMap fun (x, partner) => if partner.isNone then some x else none

variable {found : List (α × Option β)} {x : α} {y : β}

theorem mem_joined : (x, y) ∈ joined found ↔ (x, some y) ∈ found := by
  simp [joined]

theorem mem_alone : x ∈ alone found ↔ (x, none) ∈ found := by
  simp [alone]

theorem map_snd_joined (found : List (α × Option β))
    : (joined found).map Prod.snd = found.filterMap Prod.snd := by
  rw [joined, List.map_filterMap]
  congr 1
  funext ⟨x, partner⟩
  cases partner <;> rfl

theorem perm_joined_alone (found : List (α × Option β))
    : ((joined found).map Prod.fst ++ alone found).Perm (found.map Prod.fst) := by
  induction found with
  | nil => exact .nil
  | cons first found ih =>
    obtain ⟨x, partner⟩ := first
    cases partner with
    | none => exact List.perm_middle.trans (ih.cons x)
    | some y => exact ih.cons x

theorem sublist_joined (found : List (α × Option β))
    : ((joined found).map Prod.fst).Sublist (found.map Prod.fst) := by
  induction found with
  | nil => exact .slnil
  | cons first found ih =>
    obtain ⟨x, partner⟩ := first
    cases partner with
    | none => exact ih.cons x
    | some y => exact ih.cons_cons x

theorem filterMap_eq_map_joined {f : α × Option β → Option γ} {g : α × β → γ}
    (hsome : ∀ pair ∈ joined found, f (pair.1, some pair.2) = some (g pair))
    (hnone : ∀ x, f (x, none) = none) : found.filterMap f = (joined found).map g := by
  induction found with
  | nil => rfl
  | cons first found ih =>
    obtain ⟨x, partner⟩ := first
    cases partner with
    | none =>
      rw [List.filterMap_cons_none (hnone x)]
      exact ih hsome
    | some y =>
      have hsome' : ∀ pair ∈ (x, y) :: joined found, f (pair.1, some pair.2) = some (g pair) :=
      hsome
      rw [List.forall_mem_cons] at hsome'
      rw [List.filterMap_cons_some hsome'.1, ih hsome'.2]
      rfl

theorem filterMap_eq_map_alone {f : α × Option β → Option γ} {g : α → γ}
    (hsome : ∀ x y, f (x, some y) = none) (hnone : ∀ x, f (x, none) = some (g x))
    : found.filterMap f = (alone found).map g := by
  rw [alone, List.map_filterMap]
  congr 1
  funext ⟨x, partner⟩
  cases partner with
  | none => exact hnone x
  | some y => exact hsome x y

end FirstFit

theorem perm_joined_firstFit (fits : α → β → Bool) (xs : List α) (free : List β)
    : ((FirstFit.joined (firstFit fits xs free).1).map Prod.fst
        ++ FirstFit.alone (firstFit fits xs free).1).Perm xs
      ∧ ((FirstFit.joined (firstFit fits xs free).1).map Prod.snd
        ++ (firstFit fits xs free).2).Perm free := by
  have hxs := FirstFit.perm_joined_alone (firstFit fits xs free).1
  rw [map_fst_firstFit] at hxs
  rw [FirstFit.map_snd_joined]
  exact ⟨hxs, perm_firstFit xs free⟩

end MethodHistory
