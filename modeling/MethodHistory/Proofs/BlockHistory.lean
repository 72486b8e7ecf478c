import MethodHistory.Proofs.StableSort
import Mathlib.Data.List.Nodup

/-!
This module contains the history of a file in a block of commits on a line: the revisions are those
at the places of the block, the oldest one first, and the boundary is the newest one in front of it.
-/

namespace MethodHistory

theorem commitIn_eq_some_of_nodup {commits : List Commit} {id : String} {commit : Commit}
    (h : (commits.map Commit.id).Nodup)
    : commitIn commits id = some commit ↔ commit ∈ commits ∧ commit.id = id := by
  rw [commitIn]
  constructor
  . intro hfind
    have hid := List.find?_some hfind
    exact ⟨List.mem_reverse.1 (List.mem_of_find?_eq_some hfind), of_decide_eq_true hid⟩
  . rintro ⟨hcommit, rfl⟩
    cases hfind : commits.reverse.find? (·.id = commit.id) with
    | none =>
      have hnone := List.find?_eq_none.1 hfind commit (List.mem_reverse.2 hcommit)
      simp at hnone
    | some found =>
      have hfound := List.mem_reverse.1 (List.mem_of_find?_eq_some hfind)
      have hid := List.find?_some hfind
      rw [List.inj_on_of_nodup_map h hfound hcommit (of_decide_eq_true hid)]

/--
Commits with ids of their own, each at its place in the list.
-/
structure IsLine (commits : List Commit) : Prop where
  nodup : (commits.map Commit.id).Nodup
  position_eq : ∀ (i : Nat) (h : i < commits.length), commits[i].position = i

namespace IsLine

variable {commits : List Commit} {lower upper commit other : Commit} {id : String}

theorem getElem?_position (h : IsLine commits) (hcommit : commit ∈ commits)
    : commits[commit.position]? = some commit := by
  obtain ⟨i, hi, rfl⟩ := List.mem_iff_getElem.1 hcommit
  rw [h.position_eq i hi, List.getElem?_eq_getElem hi]

theorem position_of_getElem? (h : IsLine commits) {i : Nat} (hi : commits[i]? = some commit)
    : commit.position = i := by
  obtain ⟨hlt, rfl⟩ := List.getElem?_eq_some_iff.1 hi
  exact h.position_eq i hlt

theorem eq_of_position (h : IsLine commits) (hcommit : commit ∈ commits) (hother : other ∈ commits)
    (hposition : commit.position = other.position) : commit = other := by
  have heq := h.getElem?_position hcommit
  rw [hposition, h.getElem?_position hother, Option.some_inj] at heq
  exact heq.symm

theorem eq_of_id (h : IsLine commits) (hcommit : commit ∈ commits) (hother : other ∈ commits)
    (hid : commit.id = other.id) : commit = other :=
  List.inj_on_of_nodup_map h.nodup hcommit hother hid

theorem commitIn_eq_some (h : IsLine commits)
    : commitIn commits id = some commit ↔ commit ∈ commits ∧ commit.id = id :=
  commitIn_eq_some_of_nodup h.nodup

theorem positionIn_eq_some (h : IsLine commits) {place : Nat}
    : positionIn commits id = some place
        ↔
      ∃ commit ∈ commits, commit.id = id ∧ commit.position = place := by
  rw [positionIn, Option.map_eq_some_iff]
  constructor
  . rintro ⟨commit, hcommit, hplace⟩
    rw [h.commitIn_eq_some] at hcommit
    exact ⟨commit, hcommit.1, hcommit.2, hplace⟩
  . rintro ⟨commit, hcommit, hid, hplace⟩
    exact ⟨commit, h.commitIn_eq_some.2 ⟨hcommit, hid⟩, hplace⟩

theorem mem_drop_take (h : IsLine commits) {start size : Nat}
    : commit ∈ (commits.drop start).take size
        ↔
      commit ∈ commits ∧ start ≤ commit.position ∧ commit.position < start + size := by
  rw [List.mem_iff_getElem?]
  constructor
  . rintro ⟨i, hi⟩
    rw [List.getElem?_take] at hi
    split at hi
    next hlt =>
      rw [List.getElem?_drop] at hi
      rw [h.position_of_getElem? hi]
      exact ⟨List.mem_of_getElem? hi, by omega, by omega⟩
    next => contradiction
  . rintro ⟨hcommit, hle, hlt⟩
    refine ⟨commit.position - start, ?_⟩
    rw [List.getElem?_take, if_pos (by omega), List.getElem?_drop, Nat.add_sub_cancel' hle]
    exact h.getElem?_position hcommit

theorem mem_minedCommits_block (h : IsLine commits) (hlower : lower ∈ commits)
    : id ∈ (Range.block commits lower upper).minedCommits
        ↔
      ∃ commit ∈ commits, commit.id = id
        ∧ upper.position ≤ commit.position ∧ commit.position < lower.position := by
  rw [Range.minedCommits, Range.block]
  dsimp only
  rw [List.mem_filter, List.mem_map]
  split
  next hlt =>
    constructor
    . rintro ⟨⟨_, hnone, _⟩, _⟩
      contradiction
    . rintro ⟨commit, _, _, _, _⟩
      omega
  next hle =>
    constructor
    . rintro ⟨⟨commit, hcommit, rfl⟩, hne⟩
      rw [h.mem_drop_take] at hcommit
      obtain ⟨hcommit, hupper, hlast⟩ := hcommit
      have hne : commit.position ≠ lower.position := by
        intro hposition
        rw [h.eq_of_position hcommit hlower hposition] at hne
        simp at hne
      exact ⟨commit, hcommit, rfl, hupper, by omega⟩
    . rintro ⟨commit, hcommit, rfl, hupper, hlower'⟩
      refine ⟨⟨commit, h.mem_drop_take.2 ⟨hcommit, hupper, by omega⟩, rfl⟩, ?_⟩
      have hid : commit.id ≠ lower.id := by
        intro hid
        rw [h.eq_of_id hcommit hlower hid] at hlower'
        exact Nat.lt_irrefl _ hlower'
      simpa using hid

end IsLine

namespace FileHistory

def withPlaces (commits : List Commit) (revisions : List Revision) : List (Nat × Revision) :=
  revisions.filterMap fun revision =>
    (positionIn commits revision.commit).map fun place => (place, revision)

def onLine (commits : List Commit) (revisions : List Revision) : List (Nat × Revision) :=
  byPlace (withPlaces commits revisions)

def inBlock (line : List (Nat × Revision)) (lower upper : Nat) : List Revision :=
  ((line.filter fun x => upper ≤ x.1 ∧ x.1 < lower).map (·.2)).reverse

def inFront (line : List (Nat × Revision)) (lower : Nat) : Option Revision :=
  (line.filter fun x => lower ≤ x.1).head?.map (·.2)

/--
The revisions in a block behind the one in front of them, the oldest one first. A block without
revisions has no history.
-/
def upTo (line : List (Nat × Revision)) (lower upper : Nat) : List Revision :=
  (inFront line lower).toList ++ inBlock line lower upper

variable {commits : List Commit} {lower upper : Commit}

theorem pairwise_onLine (commits : List Commit) (revisions : List Revision)
    : (onLine commits revisions).Pairwise (·.1 ≤ ·.1) := by
  apply pairwise_byPlace

theorem position_of_mem_withPlaces {revisions : List Revision} {place : Nat} {revision : Revision}
    (h : (place, revision) ∈ withPlaces commits revisions)
    : positionIn commits revision.commit = some place := by
  obtain ⟨other, _, hother⟩ := List.mem_filterMap.1 h
  obtain ⟨found, hfound, heq⟩ := Option.map_eq_some_iff.1 hother
  cases heq
  exact hfound

theorem contains_minedCommits (h : IsLine commits) (hlower : lower ∈ commits)
    {revisions : List Revision} {x : Nat × Revision} (hx : x ∈ withPlaces commits revisions)
    : (Range.block commits lower upper).minedCommits.contains x.2.commit
        =
      decide (upper.position ≤ x.1 ∧ x.1 < lower.position) := by
  obtain ⟨commit, hcommit, hid, hplace⟩ :=
    h.positionIn_eq_some.1 (position_of_mem_withPlaces hx)
  rw [List.contains_eq_mem, decide_eq_decide, h.mem_minedCommits_block hlower]
  constructor
  . rintro ⟨other, hother, hid', hupper, hlast⟩
    rw [h.eq_of_id hother hcommit (hid'.trans hid.symm)] at hupper hlast
    rw [← hplace]
    exact ⟨hupper, hlast⟩
  . intro hplaces
    rw [← hplace] at hplaces
    exact ⟨commit, hcommit, hid, hplaces⟩

theorem ofBlock_block (h : IsLine commits) (hlower : lower ∈ commits) (path : String)
    (revisions : List Revision)
    : ofBlock (positionIn commits) (.block commits lower upper) path revisions
        =
      if inBlock (onLine commits revisions) lower.position upper.position = [] then .nothing path
      else
        { path
          revisions := (inBlock (onLine commits revisions) lower.position upper.position).reverse
          boundary := inFront (onLine commits revisions) lower.position } := by
  have hinside : (withPlaces commits revisions).filter (fun x =>
      (Range.block commits lower upper).minedCommits.contains x.2.commit)
      = (withPlaces commits revisions).filter fun x =>
        upper.position ≤ x.1 ∧ x.1 < lower.position := by
    apply List.filter_congr
    intro x hx
    exact contains_minedCommits h hlower hx
  have hbefore : ((withPlaces commits revisions).filter (fun x =>
      !(Range.block commits lower upper).minedCommits.contains x.2.commit)).filter (fun x =>
        ((Range.block commits lower upper).lower.bind (positionIn commits)).any (· ≤ x.1))
      = (withPlaces commits revisions).filter fun x => lower.position ≤ x.1 := by
    have hposition : positionIn commits lower.id = some lower.position :=
      h.positionIn_eq_some.2 ⟨lower, hlower, rfl, rfl⟩
    have hlowest : (Range.block commits lower upper).lower.bind (positionIn commits)
        = some lower.position := hposition
    rw [List.filter_filter]
    apply List.filter_congr
    intro x hx
    rw [contains_minedCommits h hlower hx, hlowest, Option.any_some, ← decide_not,
      ← Bool.decide_and, decide_eq_decide]
    omega
  have hsorted : inBlock (onLine commits revisions) lower.position upper.position
      = ((byPlace ((withPlaces commits revisions).filter fun x =>
        upper.position ≤ x.1 ∧ x.1 < lower.position)).map (·.2)).reverse := by
    rw [inBlock, onLine, ← byPlace_filter fun place =>
      decide (upper.position ≤ place ∧ place < lower.position)]
  have hboundary : inFront (onLine commits revisions) lower.position
      = (best? (fun a b => a.1 < b.1) ((withPlaces commits revisions).filter fun x =>
        lower.position ≤ x.1)).map (·.2) := by
    rw [inFront, onLine, ← byPlace_filter fun place => decide (lower.position ≤ place),
      best?_eq_head?_byPlace]
  rw [hsorted, hboundary, ← hbefore, ← hinside, ofBlock]
  dsimp only
  rw [List.partition_eq_filter_filter]
  change (if ((withPlaces commits revisions).filter _).isEmpty then _ else _) = _
  simp only [List.reverse_eq_nil_iff, List.map_eq_nil_iff, byPlace_eq_nil_iff, List.isEmpty_iff,
    List.reverse_reverse]
  rfl

theorem chronological_ofBlock (h : IsLine commits) (hlower : lower ∈ commits) (path : String)
    (revisions : List Revision)
    : (ofBlock (positionIn commits) (.block commits lower upper) path revisions).chronological
        =
      if inBlock (onLine commits revisions) lower.position upper.position = [] then []
      else upTo (onLine commits revisions) lower.position upper.position := by
  rw [ofBlock_block h hlower]
  split
  next => rfl
  next => rw [chronological, List.reverse_reverse, upTo]

theorem boundary_ofBlock (h : IsLine commits) (hlower : lower ∈ commits) (path : String)
    (revisions : List Revision)
    : (ofBlock (positionIn commits) (.block commits lower upper) path revisions).boundary
        =
      if inBlock (onLine commits revisions) lower.position upper.position = [] then none
      else inFront (onLine commits revisions) lower.position := by
  rw [ofBlock_block h hlower]
  split <;> rfl

theorem ofBlock_of_isEmpty {position : String → Option Nat} {range : Range} (h : range.isEmpty)
    (path : String) (revisions : List Revision)
    : ofBlock position range path revisions = .nothing path := by
  have hnone : range.minedCommits = [] := List.isEmpty_iff.1 h
  rw [ofBlock, hnone]
  dsimp only
  rw [List.partition_eq_filter_filter]
  have hinside (placed : List (Nat × Revision))
      : placed.filter (fun x => ([] : List String).contains x.2.commit) = [] := by
    rw [List.filter_eq_nil_iff]
    intro x _
    simp
  dsimp only
  rw [hinside]
  rfl

/-! Two blocks that meet at a place -/

section

variable {line : List (Nat × Revision)} {lower middle upper : Nat}

theorem filter_append_filter (hline : line.Pairwise (·.1 ≤ ·.1)) (hlower : middle ≤ lower)
    (hupper : upper ≤ middle)
    : line.filter (fun x => upper ≤ x.1 ∧ x.1 < lower)
        =
      line.filter (fun x => upper ≤ x.1 ∧ x.1 < middle)
        ++ line.filter (fun x => middle ≤ x.1 ∧ x.1 < lower) := by
  rw [← filter_lt_append_filter_le (hline.filter _) middle, List.filter_filter, List.filter_filter]
  congr 2
  . funext x
    rw [← Bool.decide_and, decide_eq_decide]
    omega
  . funext x
    rw [← Bool.decide_and, decide_eq_decide]
    omega

theorem inBlock_append (hline : line.Pairwise (·.1 ≤ ·.1)) (hlower : middle ≤ lower)
    (hupper : upper ≤ middle)
    : inBlock line lower upper = inBlock line lower middle ++ inBlock line middle upper := by
  rw [inBlock, filter_append_filter hline hlower hupper, List.map_append, List.reverse_append,
    inBlock, inBlock]

theorem upTo_append (hline : line.Pairwise (·.1 ≤ ·.1)) (hlower : middle ≤ lower)
    (hupper : upper ≤ middle)
    : upTo line lower upper = upTo line lower middle ++ inBlock line middle upper := by
  rw [upTo, inBlock_append hline hlower hupper, ← List.append_assoc, upTo]

theorem inFront_middle (hline : line.Pairwise (·.1 ≤ ·.1)) (hlower : middle ≤ lower)
    : inFront line middle = (upTo line lower middle).getLast? := by
  have hsplit : line.filter (fun x => middle ≤ x.1)
      = line.filter (fun x => middle ≤ x.1 ∧ x.1 < lower) ++ line.filter fun x => lower ≤ x.1 := by
    rw [← filter_lt_append_filter_le (hline.filter _) lower, List.filter_filter,
      List.filter_filter]
    congr 2
    . funext x
      rw [← Bool.decide_and, decide_eq_decide]
      omega
    . funext x
      rw [← Bool.decide_and, decide_eq_decide]
      omega
  have htoList (front : Option Revision) : front.toList.getLast? = front := by
    cases front <;> rfl
  rw [inFront, hsplit, List.head?_append, Option.map_or, upTo, List.getLast?_append, htoList,
    inBlock, List.getLast?_reverse, List.head?_map, inFront]

end

end FileHistory
end MethodHistory
