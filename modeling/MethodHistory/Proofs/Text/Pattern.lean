import MethodHistory.Text.Pattern
import Mathlib.Data.List.Basic

/-!
This module contains what a text is made of that matches a pattern, piece by piece, and when there
is a match at all. A run of which the shortest lengths are tried first is as short as the rest of
the pattern permits.
-/

namespace MethodHistory
namespace Text

variable {part cs rest : List Char} {captured : List (List Char)} {pieces : Pattern}
variable {holds : Char → Bool} {preference : Preference}

theorem after?_eq_some_iff : after? part cs = some rest ↔ cs = part ++ rest := by
  rw [after?]
  split
  next h =>
    obtain ⟨rest', rfl⟩ := List.isPrefixOf_iff_prefix.1 h
    rw [List.drop_left, Option.some.injEq, List.append_cancel_left_eq]
  next h =>
    rw [List.isPrefixOf_iff_prefix] at h
    constructor
    . intro hnone
      contradiction
    . rintro rfl
      exact absurd (List.prefix_append _ _) h

/-! Runs -/

def IsRun (holds : Char → Bool) (run : List Char) : Prop :=
  run ≠ [] ∧ ∀ c ∈ run, holds c

theorem mem_runs_iff {run : List Char}
    : (run, rest) ∈ runs holds cs ↔ IsRun holds run ∧ cs = run ++ rest := by
  induction cs generalizing run with
  | nil =>
    rw [runs]
    constructor
    . intro h
      contradiction
    . rintro ⟨hrun, hnil⟩
      exact absurd (List.append_eq_nil_iff.1 hnil.symm).1 hrun.1
  | cons c cs ih =>
    rw [runs]
    split
    next hc =>
      rw [List.mem_cons, List.mem_map]
      constructor
      . rintro (h | ⟨⟨run', rest'⟩, hmem, h⟩)
        . obtain ⟨rfl, rfl⟩ := Prod.mk.inj h
          exact ⟨⟨List.cons_ne_nil _ _, List.forall_mem_singleton.2 hc⟩, rfl⟩
        . obtain ⟨rfl, rfl⟩ := Prod.mk.inj h
          obtain ⟨hrun, rfl⟩ := ih.1 hmem
          exact ⟨⟨List.cons_ne_nil _ _, List.forall_mem_cons.2 ⟨hc, hrun.2⟩⟩, rfl⟩
      . rintro ⟨⟨hne, hholds⟩, heq⟩
        cases run with
        | nil => contradiction
        | cons d run =>
          rw [List.cons_append] at heq
          obtain ⟨rfl, rfl⟩ := List.cons.inj heq
          by_cases hrun : run = []
          . left
            rw [hrun, List.nil_append]
          . right
            have hrest : IsRun holds run := ⟨hrun, (List.forall_mem_cons.1 hholds).2⟩
            exact ⟨(run, rest), ih.2 ⟨hrest, rfl⟩, rfl⟩
    next hc =>
      constructor
      . intro h
        contradiction
      . rintro ⟨⟨hne, hholds⟩, heq⟩
        cases run with
        | nil => contradiction
        | cons d run =>
          obtain ⟨rfl, rfl⟩ := List.cons.inj heq
          exact absurd (List.forall_mem_cons.1 hholds).1 hc

theorem pairwise_runs (holds : Char → Bool) (cs : List Char)
    : (runs holds cs).Pairwise fun one other => one.1.length < other.1.length := by
  induction cs with
  | nil => exact List.Pairwise.nil
  | cons c cs ih =>
    rw [runs]
    split
    next =>
      rw [List.pairwise_cons, List.pairwise_map]
      refine ⟨?_, ih.imp fun h => Nat.succ_lt_succ h⟩
      intro other hother
      obtain ⟨⟨run, rest⟩, hmem, rfl⟩ := List.mem_map.1 hother
      have hne := (mem_runs_iff.1 hmem).1.1
      exact Nat.succ_lt_succ (List.length_pos_of_ne_nil hne)
    next => exact List.Pairwise.nil

theorem mem_order {α : Type} {a : α} {as : List α} : a ∈ preference.order as ↔ a ∈ as := by
  cases preference with
  | longest => exact List.mem_reverse
  | shortest => exact Iff.rfl

/-! Matches, piece by piece -/

namespace Pattern

theorem captured?_exactly_eq_some_iff
    : captured? (.exactly part :: pieces) cs = some captured
        ↔
      ∃ rest, cs = part ++ rest ∧ captured? pieces rest = some captured := by
  rw [captured?_exactly, Option.bind_eq_some_iff]
  simp only [after?_eq_some_iff]

theorem captured?_perhaps_eq_some (h : captured? (.perhaps part :: pieces) cs = some captured)
    : ∃ rest, (cs = part ++ rest ∨ cs = rest) ∧ captured? pieces rest = some captured := by
  rw [captured?_perhaps, Option.or_eq_some_iff, Option.bind_eq_some_iff] at h
  rcases h with ⟨rest, hrest, hcaptured⟩ | ⟨-, hcaptured⟩
  . exact ⟨rest, .inl (after?_eq_some_iff.1 hrest), hcaptured⟩
  . exact ⟨cs, .inr rfl, hcaptured⟩

theorem captured?_run_eq_some (h : captured? (.run holds preference :: pieces) cs = some captured)
    : ∃ run rest others, IsRun holds run ∧ cs = run ++ rest ∧ captured = run :: others
        ∧ captured? pieces rest = some others := by
  rw [captured?_run] at h
  obtain ⟨⟨run, rest⟩, hmem, hcaptured⟩ := List.exists_of_findSome?_eq_some h
  obtain ⟨others, hothers, rfl⟩ := Option.map_eq_some_iff.1 hcaptured
  obtain ⟨hrun, hcs⟩ := mem_runs_iff.1 (mem_order.1 hmem)
  exact ⟨run, rest, others, hrun, hcs, rfl, hothers⟩

theorem captured?_ending_eq_some (h : captured? (.ending :: pieces) cs = some captured)
    : (cs = [] ∨ cs = ['\n']) ∧ captured? pieces cs = some captured := by
  rw [captured?_ending] at h
  split at h
  next hend => exact ⟨hend, h⟩
  next => contradiction

theorem captured?_shorter_eq_none {run shorter : List Char} {others : List (List Char)}
    (h : captured? (.run holds .shortest :: pieces) cs = some (run :: others))
    (hshorter : IsRun holds shorter) (hcs : cs = shorter ++ rest)
    (hlength : shorter.length < run.length) : captured? pieces rest = none := by
  rw [captured?_run, Preference.order, List.findSome?_eq_some_iff] at h
  obtain ⟨before, ⟨run', rest'⟩, behind, hruns, hrun, hbefore⟩ := h
  obtain ⟨others', -, hothers⟩ := Option.map_eq_some_iff.1 hrun
  obtain ⟨rfl, rfl⟩ := List.cons.inj hothers
  have hmem : (shorter, rest) ∈ before ++ (run', rest') :: behind :=
    hruns ▸ mem_runs_iff.2 ⟨hshorter, hcs⟩
  have hpairwise := hruns ▸ pairwise_runs holds cs
  rw [List.pairwise_append, List.pairwise_cons] at hpairwise
  rcases List.mem_append.1 hmem with hfront | hback
  . exact Option.map_eq_none_iff.1 (hbefore _ hfront)
  . rcases List.mem_cons.1 hback with heq | hback
    . rw [Prod.mk.injEq] at heq
      rw [heq.1] at hlength
      exact absurd hlength (Nat.lt_irrefl _)
    . have := hpairwise.2.1.1 _ hback
      exact absurd hlength (Nat.lt_asymm this)

theorem isSome_captured?_exactly (part : List Char) (h : (captured? pieces rest).isSome)
    : (captured? (.exactly part :: pieces) (part ++ rest)).isSome := by
  obtain ⟨captured, hcaptured⟩ := Option.isSome_iff_exists.1 h
  exact Option.isSome_of_eq_some (captured?_exactly_eq_some_iff.2 ⟨rest, rfl, hcaptured⟩)

theorem isSome_captured?_perhaps (h : (captured? pieces rest).isSome)
    (hcs : cs = part ++ rest ∨ cs = rest)
    : (captured? (.perhaps part :: pieces) cs).isSome := by
  rw [captured?_perhaps, Option.isSome_or, Bool.or_eq_true]
  rcases hcs with hcs | rfl
  . left
    rw [after?_eq_some_iff.2 hcs]
    exact h
  . right
    exact h

theorem isSome_captured?_run {run : List Char} (h : (captured? pieces rest).isSome)
    (hrun : IsRun holds run)
    : (captured? (.run holds preference :: pieces) (run ++ rest)).isSome := by
  rw [captured?_run, List.findSome?_isSome_iff]
  refine ⟨(run, rest), mem_order.2 (mem_runs_iff.2 ⟨hrun, rfl⟩), ?_⟩
  rw [Option.isSome_map]
  exact h

theorem isSome_captured?_ending (h : (captured? pieces []).isSome)
    : (captured? (.ending :: pieces) []).isSome := by
  rw [captured?_ending, if_pos (.inl rfl)]
  exact h

end Pattern
end Text
end MethodHistory
