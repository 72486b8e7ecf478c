/-!
This module contains the pairing of two lists in which each element of the first list takes the
first element of the second one that fits and is still free.
-/

namespace MethodHistory

variable {α β : Type}

def firstFit (fits : α → β → Bool) : List α → List β → List (α × Option β) × List β
  | [], free => ([], free)
  | x :: xs, free =>
    match free.find? (fits x) with
    | some y =>
      let rest := firstFit fits xs (free.eraseP (fits x))
      ((x, some y) :: rest.1, rest.2)
    | none =>
      let rest := firstFit fits xs free
      ((x, none) :: rest.1, rest.2)

theorem mem_of_mem_firstFit {fits : α → β → Bool} {xs : List α} {free : List β} {x : α} {y : β}
    (h : (x, some y) ∈ (firstFit fits xs free).1) : y ∈ free := by
  induction xs generalizing free with
  | nil => simp [firstFit] at h
  | cons z zs ih =>
    rw [firstFit] at h
    split at h
    . rename_i w hw
      rcases List.mem_cons.1 h with h | h
      . cases h
        exact List.mem_of_find?_eq_some hw
      . exact List.mem_of_mem_eraseP (ih h)
    . rcases List.mem_cons.1 h with h | h
      . cases h
      . exact ih h

theorem mem_free_of_mem_firstFit {fits : α → β → Bool} {xs : List α} {free : List β} {y : β}
    (h : y ∈ (firstFit fits xs free).2) : y ∈ free := by
  induction xs generalizing free with
  | nil => exact h
  | cons z zs ih =>
    rw [firstFit] at h
    split at h
    . exact List.mem_of_mem_eraseP (ih h)
    . exact ih h

end MethodHistory
