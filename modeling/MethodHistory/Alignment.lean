/-!
This module contains the alignment of two sequences. The longest common run splits both sequences;
what lies before it and what lies after it are aligned in the same way. Of several longest runs the
one that starts earliest in the old sequence is taken, and of these the one that starts earliest in
the new sequence.
-/

namespace MethodHistory

/--
A stretch of two sequences: a run of elements with equal keys, or a gap between two runs.
-/
inductive Segment (α : Type) where
  | run (olds news : List α)
  | gap (olds news : List α)

structure CommonRun where
  oldStart : Nat
  newStart : Nat
  size : Nat

namespace Alignment

variable {α κ : Type} [DecidableEq κ]

/--
The lengths of the common runs that start at `a` and at each element of the new sequence, from the
lengths `below` for the rest of the old sequence. A run consists of elements with a `seed` key.
-/
def runLengths (key : α → κ) (seed : κ → Bool) (a : α) : List α → List Nat → List Nat
  | [], _ => []
  | b :: bs, below =>
    let size := if key a = key b ∧ seed (key b) then below.tail.headD 0 + 1 else 0
    size :: runLengths key seed a bs below.tail

def firstMax : List Nat → Nat × Nat
  | [] => (0, 0)
  | n :: ns =>
    let (place, greatest) := firstMax ns
    if greatest ≤ n then (0, n) else (place + 1, greatest)

def longestRun (key : α → κ) (seed : κ → Bool) (olds news : List α) : CommonRun :=
  (go olds).1
where
  go (olds : List α) : CommonRun × List Nat :=
    match olds with
    | [] => (⟨0, 0, 0⟩, news.map fun _ => 0)
    | a :: olds =>
      let (best, below) := go olds
      let row := runLengths key seed a news below
      let (place, size) := firstMax row
      if size = 0 ∧ best.size = 0 then
        (⟨0, 0, 0⟩, row)
      else if best.size ≤ size then
        (⟨0, place, size⟩, row)
      else
        ({ best with oldStart := best.oldStart + 1 }, row)

def sharedFront (key : α → κ) : List α → List α → Nat
  | a :: as, b :: bs => if key a = key b then sharedFront key as bs + 1 else 0
  | _, _ => 0

def extend (key : α → κ) (olds news : List α) (run : CommonRun) : CommonRun :=
  let before := sharedFront key (olds.take run.oldStart).reverse (news.take run.newStart).reverse
  let after := sharedFront key (olds.drop (run.oldStart + run.size))
    (news.drop (run.newStart + run.size))
  ⟨run.oldStart - before, run.newStart - before, before + run.size + after⟩

def split (key : α → κ) (seed : κ → Bool) (olds news : List α) : CommonRun :=
  extend key olds news (longestRun key seed olds news)

def Within (olds news : List α) (run : CommonRun) : Prop :=
  run.oldStart + run.size ≤ olds.length ∧ run.newStart + run.size ≤ news.length

theorem runLengths_bounds {key : α → κ} {seed : κ → Bool} {a : α} {news : List α} {limit : Nat}
    {below : List Nat}
    (h : ∀ (i n : Nat), below[i]? = some n → n + i ≤ news.length ∧ n ≤ limit)
    (i n : Nat) (hn : (runLengths key seed a news below)[i]? = some n)
    : n + i ≤ news.length ∧ n ≤ limit + 1 := by
  induction news generalizing below i with
  | nil => simp [runLengths] at hn
  | cons b bs ih =>
    have htail : ∀ (i n : Nat), below.tail[i]? = some n → n + i ≤ bs.length ∧ n ≤ limit := by
      intro i n hin
      rw [List.getElem?_tail] at hin
      have := h _ _ hin
      simp only [List.length_cons] at this
      omega
    cases i with
    | succ i =>
      rw [runLengths, List.getElem?_cons_succ] at hn
      have := ih htail i hn
      simp only [List.length_cons]
      omega
    | zero =>
      rw [runLengths, List.getElem?_cons_zero, Option.some_inj] at hn
      have hhead : below.tail.headD 0 ≤ bs.length ∧ below.tail.headD 0 ≤ limit := by
        rw [List.headD_eq_head?_getD, List.head?_eq_getElem?]
        cases hc : below.tail[0]? with
        | none => simp
        | some m => simpa using htail 0 m hc
      simp only [List.length_cons]
      split at hn <;> omega

theorem getElem?_firstMax {ns : List Nat} (h : (firstMax ns).2 ≠ 0)
    : ns[(firstMax ns).1]? = some (firstMax ns).2 := by
  induction ns with
  | nil => simp [firstMax] at h
  | cons n ns ih =>
    simp only [firstMax] at h ⊢
    split at h <;> rename_i hle
    . simp [hle]
    . simp only [hle, if_false, List.getElem?_cons_succ]
      exact ih h

theorem longestRun.go_bounds (key : α → κ) (seed : κ → Bool) (news olds : List α)
    : Within olds news (go key seed news olds).1
      ∧ ∀ (i n : Nat), (go key seed news olds).2[i]? = some n →
        n + i ≤ news.length ∧ n ≤ olds.length := by
  induction olds with
  | nil =>
    refine ⟨by simp [go, Within], ?_⟩
    intro i n h
    have hi := (List.getElem?_eq_some_iff.1 h).1
    simp only [go, List.length_map] at hi
    simp only [go, List.getElem?_map, Option.map_eq_some_iff] at h
    obtain ⟨_, _, rfl⟩ := h
    simp only [List.length_nil, Nat.le_refl, and_true]
    omega
  | cons a olds ih =>
    obtain ⟨hbest, hbelow⟩ := ih
    have hrow := @runLengths_bounds _ _ _ key seed a _ _ _ hbelow
    have hmax := @getElem?_firstMax (runLengths key seed a news (go key seed news olds).2)
    rw [go]
    dsimp only
    refine ⟨?_, ?_⟩
    . split
      . simp [Within]
      . split
        . rename_i hnz hle
          have := hrow _ _ (hmax (by omega))
          simp only [Within, List.length_cons]
          omega
        . simp only [Within, List.length_cons] at hbest ⊢
          omega
    . intro i n h
      simp only [List.length_cons]
      apply hrow
      split at h
      . exact h
      . split at h <;> exact h

theorem sharedFront_le (key : α → κ) (olds news : List α)
    : sharedFront key olds news ≤ olds.length ∧ sharedFront key olds news ≤ news.length := by
  fun_induction sharedFront key olds news <;> simp_all

theorem split_within (key : α → κ) (seed : κ → Bool) (olds news : List α)
    : Within olds news (split key seed olds news) := by
  obtain ⟨h₁, h₂⟩ := (longestRun.go_bounds key seed news olds).1
  rw [split, longestRun]
  generalize (longestRun.go key seed news olds).1 = run at *
  have hb := sharedFront_le key (olds.take run.oldStart).reverse (news.take run.newStart).reverse
  have ha := sharedFront_le key (olds.drop (run.oldStart + run.size))
    (news.drop (run.newStart + run.size))
  simp only [List.length_reverse, List.length_take, List.length_drop] at hb ha
  simp only [Within, extend]
  omega

end Alignment

variable {α κ : Type} [DecidableEq κ]

/--
The runs and the gaps of two sequences from the front to the back. Only elements with a `seed` key
are looked for when a run is chosen; it is then extended over all elements with equal keys.
-/
def align (key : α → κ) (seed : κ → Bool) (olds news : List α) : List (Segment α) :=
  if (Alignment.split key seed olds news).size = 0 then
    if olds.isEmpty && news.isEmpty then [] else [.gap olds news]
  else
    let run := Alignment.split key seed olds news
    align key seed (olds.take run.oldStart) (news.take run.newStart)
      ++ .run ((olds.drop run.oldStart).take run.size) ((news.drop run.newStart).take run.size)
      :: align key seed (olds.drop (run.oldStart + run.size)) (news.drop (run.newStart + run.size))
termination_by olds.length + news.length
decreasing_by
  all_goals
    have h := Alignment.split_within key seed olds news
    simp only [Alignment.Within] at h
    simp only [List.length_take, List.length_drop]
    omega

def Segment.runSize : Segment α → Nat
  | .run olds _ => olds.length
  | .gap _ _ => 0

end MethodHistory
