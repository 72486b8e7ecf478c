/-!
This module contains keyed lists: one entry per key, at the place where the key occurs first, with
the value that was given last.
-/

namespace MethodHistory
namespace Table

variable {α κ : Type} [DecidableEq κ]

/--
Puts an entry in the place of the one with its key, or at the end.
-/
def put (key : α → κ) (x : α) : List α → List α
  | [] => [x]
  | y :: ys => if key y = key x then x :: ys else y :: put key x ys

def latest (key : α → κ) (xs : List α) : List α :=
  xs.foldl (fun table x => put key x table) []

def get? (key : α → κ) (k : κ) (table : List α) : Option α :=
  table.find? fun x => key x = k

theorem mem_of_mem_put {key : α → κ} {x y : α} {ys : List α} (h : y ∈ put key x ys)
    : y = x ∨ y ∈ ys := by
  induction ys with
  | nil => simpa [put] using h
  | cons z zs ih =>
    rw [put] at h
    split at h
    . rcases List.mem_cons.1 h with h | h
      . exact .inl h
      . exact .inr (List.mem_cons_of_mem _ h)
    . rcases List.mem_cons.1 h with h | h
      . exact .inr (h ▸ List.mem_cons_self)
      . exact (ih h).imp_right (List.mem_cons_of_mem _)

theorem mem_of_mem_latest {key : α → κ} {xs : List α} {y : α} (h : y ∈ latest key xs)
    : y ∈ xs := by
  suffices ∀ (xs table : List α), y ∈ xs.foldl (fun table x => put key x table) table →
      y ∈ table ∨ y ∈ xs by
    simpa using this xs [] h
  intro xs
  induction xs with
  | nil => intro table h; exact .inl h
  | cons x xs ih =>
    intro table h
    rcases ih _ h with h | h
    . rcases mem_of_mem_put h with h | h
      . exact .inr (h ▸ List.mem_cons_self)
      . exact .inl h
    . exact .inr (List.mem_cons_of_mem _ h)

theorem latest_cons_of_notMem {key : α → κ} {x : α} {xs : List α} (h : ∀ y ∈ xs, key x ≠ key y)
    : latest key (x :: xs) = x :: latest key xs := by
  suffices ∀ table : List α, xs.foldl (fun table y => put key y table) (x :: table)
      = x :: xs.foldl (fun table y => put key y table) table from this []
  induction xs with
  | nil => exact fun _ => rfl
  | cons y ys ih =>
    rw [List.forall_mem_cons] at h
    intro table
    rw [List.foldl_cons, put, if_neg h.1, ih h.2, List.foldl_cons]

theorem latest_of_nodup {key : α → κ} {xs : List α} (h : (xs.map key).Nodup)
    : latest key xs = xs := by
  induction xs with
  | nil => rfl
  | cons x xs ih =>
    rw [List.map_cons, List.nodup_cons] at h
    have hne : ∀ y ∈ xs, key x ≠ key y := by
      intro y hy hkey
      exact h.1 (hkey ▸ List.mem_map_of_mem hy)
    rw [latest_cons_of_notMem hne, ih h.2]

end Table
end MethodHistory
