import Mathlib.Data.List.Induction
import Mathlib.Data.List.Nodup

/-!
This module contains the first elements of a sequence: those whose key no element in front of them
has.
-/

namespace MethodHistory

variable {α β : Type} [DecidableEq β] {key : α → β}

theorem find?_key_eq_some_iff {xs : List α} {x : α} {k : β} (h : (xs.map key).Nodup)
    : xs.find? (key · = k) = some x ↔ x ∈ xs ∧ key x = k := by
  constructor
  . intro hfind
    exact ⟨List.mem_of_find?_eq_some hfind, by simpa using List.find?_some hfind⟩
  . rintro ⟨hx, hkey⟩
    have hsome : (xs.find? (key · = k)).isSome := by
      rw [List.find?_isSome]
      exact ⟨x, hx, decide_eq_true hkey⟩
    obtain ⟨y, hy⟩ := Option.isSome_iff_exists.1 hsome
    have hykey : key y = k := by simpa using List.find?_some hy
    rw [hy, List.inj_on_of_nodup_map h (List.mem_of_find?_eq_some hy) hx (hykey.trans hkey.symm)]

theorem eraseDupsBy_loop_cons (r : α → α → Bool) (x : α) (xs kept : List α)
    : List.eraseDupsBy.loop r (x :: xs) kept
        =
      List.eraseDupsBy.loop r xs (if kept.any (r x) then kept else x :: kept) := by
  rw [List.eraseDupsBy.loop]
  cases kept.any (r x) with
  | true => rfl
  | false => rfl

theorem eraseDupsBy_append_singleton (r : α → α → Bool) (xs : List α) (x : α)
    : (xs ++ [x]).eraseDupsBy r
        =
      if (xs.eraseDupsBy r).any (r x) then xs.eraseDupsBy r else xs.eraseDupsBy r ++ [x] := by
  suffices ∀ kept : List α, List.eraseDupsBy.loop r (xs ++ [x]) kept
      = if (List.eraseDupsBy.loop r xs kept).any (r x) then List.eraseDupsBy.loop r xs kept
        else List.eraseDupsBy.loop r xs kept ++ [x] from this []
  induction xs with
  | nil =>
    intro kept
    rw [List.nil_append, eraseDupsBy_loop_cons, List.eraseDupsBy.loop, List.eraseDupsBy.loop,
      List.any_reverse]
    split
    . rfl
    . rw [List.reverse_cons]
  | cons y ys ih =>
    intro kept
    rw [List.cons_append, eraseDupsBy_loop_cons, eraseDupsBy_loop_cons]
    apply ih

def firsts (key : α → β) (xs : List α) : List α :=
  xs.eraseDupsBy fun x y => key x = key y

theorem firsts_append_singleton (key : α → β) (xs : List α) (x : α)
    : firsts key (xs ++ [x])
        =
      if key x ∈ (firsts key xs).map key then firsts key xs else firsts key xs ++ [x] := by
  have hany : (firsts key xs).any (fun y => key x = key y) ↔ key x ∈ (firsts key xs).map key := by
    rw [List.any_eq_true, List.mem_map]
    simp only [decide_eq_true_eq, @eq_comm _ (key x)]
  rw [firsts, eraseDupsBy_append_singleton]
  exact if_congr hany rfl rfl

theorem mem_map_firsts {xs : List α} {k : β} : k ∈ (firsts key xs).map key ↔ k ∈ xs.map key := by
  induction xs using List.reverseRecOn with
  | nil => rfl
  | append_singleton xs x ih =>
    rw [firsts_append_singleton]
    split
    next h =>
      rw [ih, List.map_append, List.mem_append, List.map_singleton, List.mem_singleton]
      constructor
      . exact .inl
      . rintro (hk | rfl)
        . exact hk
        . exact ih.1 h
    next =>
      simp only [List.map_append, List.mem_append, ih]

theorem firsts_sublist (key : α → β) (xs : List α) : (firsts key xs).Sublist xs := by
  induction xs using List.reverseRecOn with
  | nil => exact List.nil_sublist []
  | append_singleton xs x ih =>
    rw [firsts_append_singleton]
    split
    . exact ih.trans (List.sublist_append_left xs [x])
    . exact ih.append (List.Sublist.refl [x])

theorem nodup_map_firsts (key : α → β) (xs : List α) : ((firsts key xs).map key).Nodup := by
  induction xs using List.reverseRecOn with
  | nil => exact List.nodup_nil
  | append_singleton xs x ih =>
    rw [firsts_append_singleton]
    split
    next => exact ih
    next h =>
      rw [List.map_append, List.map_singleton, ← List.concat_eq_append]
      exact ih.concat h

theorem firsts_congr {γ : Type} [DecidableEq γ] {key' : α → γ} {xs : List α}
    (h : ∀ x ∈ xs, ∀ y ∈ xs, key x = key y ↔ key' x = key' y)
    : firsts key xs = firsts key' xs := by
  induction xs using List.reverseRecOn with
  | nil => rfl
  | append_singleton xs x ih =>
    have hxs : firsts key xs = firsts key' xs := by
      apply ih
      intro y hy z hz
      exact h y (List.mem_append_left _ hy) z (List.mem_append_left _ hz)
    have hknown : key x ∈ (firsts key xs).map key ↔ key' x ∈ (firsts key' xs).map key' := by
      rw [mem_map_firsts, mem_map_firsts, List.mem_map, List.mem_map]
      refine exists_congr fun y => and_congr_right fun hy => ?_
      exact h y (List.mem_append_left _ hy) x (List.mem_append_right _ (List.mem_singleton_self x))
    rw [firsts_append_singleton, firsts_append_singleton, hxs]
    rw [hxs] at hknown
    exact if_congr hknown rfl rfl

end MethodHistory
