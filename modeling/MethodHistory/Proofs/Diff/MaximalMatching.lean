import Mathlib.Algebra.Order.Ring.Unbundled.Rat
import MethodHistory.Proofs.Diff.Matching

/-!
This module contains what the matching of the methods of two versions is: a partial bijection of
methods of the same type, of which those with another name are similar, and which leaves no two
methods that could still be matched.
-/

namespace MethodHistory

/-! Signatures -/

theorem takeWhile_append_cons {α : Type} [DecidableEq α] {x : α} {front : List α} (back : List α)
    (h : x ∉ front)
    : (front ++ x :: back).takeWhile (· ≠ x) = front := by
  rw [List.takeWhile_append_of_pos, List.takeWhile_cons_of_neg (by simp), List.append_nil]
  intro y hy
  rw [decide_eq_true_iff]
  rintro rfl
  exact h hy

namespace Method

/--
Whether the names of a method and its type are without the marks around them in a signature.
-/
structure IsNamed (method : Method) : Prop where
  dot_notMem_name : '.' ∉ method.name.toList
  parenthesis_notMem_name : '(' ∉ method.name.toList
  parenthesis_notMem_owner : '(' ∉ method.owner.toList

instance (method : Method) : Decidable method.IsNamed :=
  decidable_of_iff ('.' ∉ method.name.toList ∧ '(' ∉ method.name.toList
    ∧ '(' ∉ method.owner.toList)
    ⟨fun h => ⟨h.1, h.2.1, h.2.2⟩, fun h => ⟨h.1, h.2, h.3⟩⟩

variable {old new : Method}

theorem toList_signature (method : Method)
    : method.signature.toList
        =
      (method.owner.toList ++ '.' :: method.name.toList)
        ++ '(' :: ((", ".intercalate method.parameterTypes).toList ++ [')']) := by
  simp [signature, String.toList_append]

theorem owner_and_name_of_signature (hold : old.IsNamed) (hnew : new.IsNamed)
    (h : old.signature = new.signature) : new.owner = old.owner ∧ new.name = old.name := by
  have hfront : ∀ {method : Method}, method.IsNamed →
      method.signature.toList.takeWhile (· ≠ '(')
        = method.owner.toList ++ '.' :: method.name.toList := by
    intro method hmethod
    rw [toList_signature]
    apply takeWhile_append_cons
    simp [hmethod.parenthesis_notMem_name, hmethod.parenthesis_notMem_owner]
  have hback : ∀ {method : Method}, method.IsNamed →
      (method.owner.toList ++ '.' :: method.name.toList).reverse.takeWhile (· ≠ '.')
        = method.name.toList.reverse := by
    intro method hmethod
    rw [List.reverse_append, List.reverse_cons, List.append_assoc, List.singleton_append]
    apply takeWhile_append_cons
    rw [List.mem_reverse]
    exact hmethod.dot_notMem_name
  have hqualified : new.owner.toList ++ '.' :: new.name.toList
      = old.owner.toList ++ '.' :: old.name.toList := by
    rw [← hfront hnew, ← hfront hold, h]
  have hname : new.name.toList = old.name.toList := by
    rw [← List.reverse_inj, ← hback hnew, ← hback hold, hqualified]
  rw [hname] at hqualified
  exact ⟨String.toList_inj.1 (List.append_cancel_right hqualified), String.toList_inj.1 hname⟩

structure IsRenaming (threshold : Float) (old new : Method) : Prop where
  owner_eq : new.owner = old.owner
  name_ne : new.name ≠ old.name
  isConstructor_eq : new.isConstructor = old.isConstructor
  parameterTypes_eq : new.parameterTypes = old.parameterTypes
  similarity_pos : 0 < similarity old.source new.source
  reaches : Similarity.reaches threshold (similarity old.source new.source) = true

theorem isRenaming_iff {threshold : Float}
    : old.IsRenaming threshold new
        ↔
      Matching.canRename old new = true
        ∧ (Similarity.reaches threshold (similarity old.source new.source) = true
          ∧ 0 < similarity old.source new.source) := by
  rw [Matching.canRename]
  simp only [Bool.and_eq_true, decide_eq_true_iff]
  constructor
  . intro h
    exact ⟨⟨⟨⟨h.owner_eq, h.name_ne⟩, h.isConstructor_eq⟩, h.parameterTypes_eq⟩, h.reaches,
      h.similarity_pos⟩
  . rintro ⟨⟨⟨⟨howner, hname⟩, hconstructor⟩, htypes⟩, hreaches, hpos⟩
    exact ⟨howner, hname, hconstructor, htypes, hpos, hreaches⟩

inductive IsCounterpart (threshold : Float) (old new : Method) : Prop where
  | ofSignature (h : old.signature = new.signature)
  | ofName (howner : new.owner = old.owner) (hname : new.name = old.name)
  | ofRenaming (h : old.IsRenaming threshold new)

theorem IsCounterpart.owner_eq {threshold : Float} (h : old.IsCounterpart threshold new)
    (hold : old.IsNamed) (hnew : new.IsNamed) : new.owner = old.owner := by
  cases h with
  | ofSignature h => exact (owner_and_name_of_signature hold hnew h).1
  | ofName howner => exact howner
  | ofRenaming h => exact h.owner_eq

theorem IsCounterpart.isRenaming {threshold : Float} (h : old.IsCounterpart threshold new)
    (hold : old.IsNamed) (hnew : new.IsNamed) (hname : new.name ≠ old.name)
    : old.IsRenaming threshold new := by
  cases h with
  | ofSignature h => exact absurd (owner_and_name_of_signature hold hnew h).2 hname
  | ofName _ h => exact absurd h hname
  | ofRenaming h => exact h

end Method

namespace Matching

variable {threshold : Float} {olds news : List Placed} {matching rest : List MethodMatch}
  {old new : Placed} {found : MethodMatch}

/-! Free methods -/

theorem mem_freeOlds
    : old ∈ freeOlds matching olds ↔ old ∈ olds ∧ ∀ found ∈ matching, found.old ≠ old.place := by
  simp [freeOlds]

theorem mem_freeNews
    : new ∈ freeNews matching news ↔ new ∈ news ∧ ∀ found ∈ matching, found.new ≠ new.place := by
  simp [freeNews]

theorem mem_freeOlds_append
    : old ∈ freeOlds (matching ++ rest) olds
        ↔
      old ∈ freeOlds matching olds ∧ ∀ found ∈ rest, found.old ≠ old.place := by
  rw [mem_freeOlds, mem_freeOlds, List.forall_mem_append, and_assoc]

theorem mem_freeNews_append
    : new ∈ freeNews (matching ++ rest) news
        ↔
      new ∈ freeNews matching news ∧ ∀ found ∈ rest, found.new ≠ new.place := by
  rw [mem_freeNews, mem_freeNews, List.forall_mem_append, and_assoc]

structure Joins (threshold : Float) (olds news : List Placed) (matching : List MethodMatch)
    : Prop where
  nodup_new : (matching.map (·.new)).Nodup
  nodup_old : (matching.map (·.old)).Nodup
  exists_of_mem : ∀ found ∈ matching, ∃ old ∈ olds, ∃ new ∈ news,
    found = ⟨new.place, old.place⟩ ∧ old.method.IsCounterpart threshold new.method

namespace Joins

theorem nil : Joins threshold olds news [] where
  nodup_new := List.nodup_nil
  nodup_old := List.nodup_nil
  exists_of_mem := by simp

theorem single (hold : old ∈ olds) (hnew : new ∈ news)
    (h : old.method.IsCounterpart threshold new.method)
    : Joins threshold olds news [⟨new.place, old.place⟩] where
  nodup_new := List.nodup_singleton _
  nodup_old := List.nodup_singleton _
  exists_of_mem := by
    intro found hfound
    exact ⟨old, hold, new, hnew, List.mem_singleton.1 hfound, h⟩

theorem append (h : Joins threshold olds news matching)
    (hrest : Joins threshold (freeOlds matching olds) (freeNews matching news) rest)
    : Joins threshold olds news (matching ++ rest) where
  nodup_new := by
    rw [List.map_append, List.nodup_append]
    refine ⟨h.nodup_new, hrest.nodup_new, ?_⟩
    rintro _ hplace _ hotherplace heq
    obtain ⟨one, hone, rfl⟩ := List.mem_map.1 hplace
    obtain ⟨other, hother, rfl⟩ := List.mem_map.1 hotherplace
    obtain ⟨_, -, new, hnew, rfl, -⟩ := hrest.exists_of_mem other hother
    exact (mem_freeNews.1 hnew).2 one hone heq
  nodup_old := by
    rw [List.map_append, List.nodup_append]
    refine ⟨h.nodup_old, hrest.nodup_old, ?_⟩
    rintro _ hplace _ hotherplace heq
    obtain ⟨one, hone, rfl⟩ := List.mem_map.1 hplace
    obtain ⟨other, hother, rfl⟩ := List.mem_map.1 hotherplace
    obtain ⟨old, hold, _, -, rfl, -⟩ := hrest.exists_of_mem other hother
    exact (mem_freeOlds.1 hold).2 one hone heq
  exists_of_mem := by
    intro found hfound
    rcases List.mem_append.1 hfound with hfound | hfound
    . exact h.exists_of_mem found hfound
    . obtain ⟨old, hold, new, hnew, heq, hcounterpart⟩ := hrest.exists_of_mem found hfound
      exact ⟨old, (mem_freeOlds.1 hold).1, new, (mem_freeNews.1 hnew).1, heq, hcounterpart⟩

end Joins

/-! Matching by signature -/

theorem joins_takeSignature (h : Joins threshold olds news matching)
    (hnew : new ∈ freeNews matching news)
    : Joins threshold olds news (takeSignature olds matching new) := by
  rw [takeSignature]
  split
  next old hlast =>
    split
    next hfree =>
      have hold := List.mem_filter.1 (List.mem_of_getLast? hlast)
      have hfree : old ∈ freeOlds matching olds := List.mem_filter.2 ⟨hold.1, hfree⟩
      exact h.append (.single hfree hnew (.ofSignature (of_decide_eq_true hold.2)))
    next => exact h
  next => exact h

theorem joins_foldl_takeSignature {queue : List Placed} (h : Joins threshold olds news matching)
    (hqueue : ∀ new ∈ queue, new ∈ freeNews matching news) (hnodup : (queue.map (·.place)).Nodup)
    : Joins threshold olds news (queue.foldl (takeSignature olds) matching) := by
  induction queue generalizing matching with
  | nil => exact h
  | cons new queue ih =>
    rw [List.map_cons, List.nodup_cons] at hnodup
    apply ih (joins_takeSignature h (hqueue new List.mem_cons_self)) _ hnodup.2
    -- What is taken has the place of the first one, which no later one has.
    obtain ⟨rest, hrest, htaken⟩ := @takeSignature_eq_append olds matching new
    intro other hother
    rw [hrest, mem_freeNews_append]
    refine ⟨hqueue other (List.mem_cons_of_mem _ hother), ?_⟩
    intro found hfound hplace
    obtain ⟨_, -, -, rfl⟩ := htaken found hfound
    apply hnodup.1
    rw [show new.place = other.place from hplace]
    exact List.mem_map_of_mem hother

theorem joins_bySignature (threshold : Float) (hnews : (news.map (·.place)).Nodup)
    : Joins threshold olds news (bySignature olds news) := by
  rw [bySignature_eq]
  apply joins_foldl_takeSignature .nil _ hnews
  intro new hnew
  exact mem_freeNews.2 ⟨hnew, by simp⟩

/-! Matching by a sole name -/

theorem sameName_iff
    : sameName new old
        ↔
      new.method.owner = old.method.owner ∧ new.method.name = old.method.name := by
  simp [sameName]

theorem sameName_self (new : Placed) : sameName new new := by
  exact sameName_iff.2 ⟨rfl, rfl⟩

structure AreSole (matching : List MethodMatch) (olds news : List Placed) (old new : Placed)
    : Prop where
  old_eq : (freeOlds matching olds).filter (sameName new) = [old]
  new_eq : (freeNews matching news).filter (sameName new) = [new]

namespace AreSole

variable {other : Placed}

theorem old_mem (h : AreSole matching olds news old new)
    : old ∈ freeOlds matching olds ∧ sameName new old := by
  rw [← List.mem_filter, h.old_eq]
  exact List.mem_singleton_self old

theorem new_mem (h : AreSole matching olds news old new) : new ∈ freeNews matching news := by
  have hmem : new ∈ (freeNews matching news).filter (sameName new) := by
    rw [h.new_eq]
    exact List.mem_singleton_self new
  exact (List.mem_filter.1 hmem).1

theorem eq_of_old (h : AreSole matching olds news old new)
    (hother : AreSole matching olds news old other) : other = new := by
  have hsame := sameName_iff.1 h.old_mem.2
  have hothersame := sameName_iff.1 hother.old_mem.2
  have hmem : other ∈ (freeNews matching news).filter (sameName new) :=
    List.mem_filter.2 ⟨hother.new_mem,
      sameName_iff.2 ⟨hsame.1.trans hothersame.1.symm, hsame.2.trans hothersame.2.symm⟩⟩
  rw [h.new_eq] at hmem
  exact List.mem_singleton.1 hmem

end AreSole

def soleName? (matching : List MethodMatch) (olds news : List Placed) (new : Placed)
    : Option MethodMatch :=
  match (freeNews matching news).filter (sameName new),
    (freeOlds matching olds).filter (sameName new) with
  | [_], [old] => some ⟨new.place, old.place⟩
  | _, _ => none

theorem bySoleName_eq (matching : List MethodMatch) (olds news : List Placed)
    : bySoleName matching olds news
        =
      (freeNews matching news).filterMap (soleName? matching olds news) := by
  rfl

theorem soleName?_eq_some (hnew : new ∈ freeNews matching news)
    : soleName? matching olds news new = some found
        ↔
      ∃ old, AreSole matching olds news old new ∧ found = ⟨new.place, old.place⟩ := by
  constructor
  . intro h
    rw [soleName?] at h
    split at h
    next sole old hnews holds =>
      refine ⟨old, ⟨holds, ?_⟩, (Option.some.inj h).symm⟩
      have hmem : new ∈ (freeNews matching news).filter (sameName new) :=
        List.mem_filter.2 ⟨hnew, sameName_self new⟩
      rw [hnews] at hmem ⊢
      rw [List.mem_singleton.1 hmem]
    next => contradiction
  . rintro ⟨old, h, rfl⟩
    rw [soleName?, h.old_eq, h.new_eq]

theorem mem_bySoleName
    : found ∈ bySoleName matching olds news
        ↔
      ∃ old new, AreSole matching olds news old new ∧ found = ⟨new.place, old.place⟩ := by
  rw [bySoleName_eq, List.mem_filterMap]
  constructor
  . rintro ⟨new, hnew, h⟩
    obtain ⟨old, hsole⟩ := (soleName?_eq_some hnew).1 h
    exact ⟨old, new, hsole⟩
  . rintro ⟨old, new, hsole, rfl⟩
    exact ⟨new, hsole.new_mem, (soleName?_eq_some hsole.new_mem).2 ⟨old, hsole, rfl⟩⟩

theorem pairwise_bySoleName (holds : (olds.map (·.place)).Nodup)
    (hnews : (news.map (·.place)).Nodup)
    : (bySoleName matching olds news).Pairwise
      fun found other => found.new ≠ other.new ∧ found.old ≠ other.old := by
  have hfree : (freeNews matching news).Pairwise fun new other => new.place ≠ other.place :=
    List.pairwise_map.1 (hnews.sublist (List.filter_sublist.map _))
  rw [bySoleName_eq, List.pairwise_filterMap]
  apply hfree.imp_of_mem
  intro new other hnew hother hplace _ hfound _ hotherfound
  obtain ⟨old, hsole, rfl⟩ := (soleName?_eq_some hnew).1 hfound
  obtain ⟨otherold, hothersole, rfl⟩ := (soleName?_eq_some hother).1 hotherfound
  refine ⟨hplace, ?_⟩
  intro holdplace
  have hmem := (mem_freeOlds.1 hsole.old_mem.1).1
  have hothermem := (mem_freeOlds.1 hothersole.old_mem.1).1
  have heq : old = otherold := List.inj_on_of_nodup_map holds hmem hothermem holdplace
  rw [← heq] at hothersole
  exact hplace (congrArg Placed.place (hsole.eq_of_old hothersole)).symm

theorem joins_bySoleName (threshold : Float) (holds : (olds.map (·.place)).Nodup)
    (hnews : (news.map (·.place)).Nodup)
    : Joins threshold (freeOlds matching olds) (freeNews matching news)
      (bySoleName matching olds news) where
  nodup_new := List.pairwise_map.2 ((pairwise_bySoleName holds hnews).imp And.left)
  nodup_old := List.pairwise_map.2 ((pairwise_bySoleName holds hnews).imp And.right)
  exists_of_mem := by
    intro found hfound
    obtain ⟨old, new, hsole, rfl⟩ := mem_bySoleName.1 hfound
    have hsame := sameName_iff.1 hsole.old_mem.2
    exact ⟨old, hsole.old_mem.1, new, hsole.new_mem, rfl, .ofName hsame.1 hsame.2⟩

/-! Matching by similar bodies -/

def better (threshold : Float) (old : Method) (best : Option Placed × Rat) (new : Placed)
    : Option Placed × Rat :=
  let s := similarity old.source new.method.source
  if Similarity.reaches threshold s && best.2 < s then (some new, s) else best

theorem mostSimilar_eq (threshold : Float) (old : Method) (news : List Placed)
    : mostSimilar threshold old news
        =
      ((news.filter fun new => canRename old new.method).foldl (better threshold old)
        (none, 0)).1 := by
  rfl

def IsSimilar (threshold : Float) (old : Method) (new : Placed) : Prop :=
  Similarity.reaches threshold (similarity old.source new.method.source) = true
    ∧ 0 < similarity old.source new.method.source

inductive IsBest (threshold : Float) (old : Method) (seen : List Placed)
    : Option Placed × Rat → Prop where
  | none (h : ∀ new ∈ seen, ¬IsSimilar threshold old new) : IsBest threshold old seen (none, 0)
  | some {new : Placed} (hmem : new ∈ seen) (h : IsSimilar threshold old new)
      : IsBest threshold old seen (some new, similarity old.source new.method.source)

theorem isBest_nil (threshold : Float) (old : Method) : IsBest threshold old [] (none, 0) := by
  exact .none (List.forall_mem_nil _)

variable {method : Method} {seen : List Placed} {best : Option Placed × Rat}

theorem isBest_better (h : IsBest threshold method seen best) (new : Placed)
    : IsBest threshold method (seen ++ [new]) (better threshold method best new) := by
  rw [better]
  split
  next hbetter =>
    rw [Bool.and_eq_true, decide_eq_true_iff] at hbetter
    have hpos : 0 ≤ best.2 := by
      cases h with
      | none => exact le_refl (0 : Rat)
      | some _ h => exact h.2.le
    exact .some (List.mem_append_right _ (List.mem_singleton_self new))
      ⟨hbetter.1, hpos.trans_lt hbetter.2⟩
  next hworse =>
    cases h with
    | none h =>
      apply IsBest.none
      intro other hother
      rcases List.mem_append.1 hother with hother | hother
      . exact h other hother
      . rw [List.mem_singleton.1 hother]
        intro hsimilar
        apply hworse
        rw [Bool.and_eq_true, decide_eq_true_iff]
        exact hsimilar
    | some hmem h => exact .some (List.mem_append_left _ hmem) h

theorem isBest_foldl (h : IsBest threshold method seen best) (candidates : List Placed)
    : IsBest threshold method (seen ++ candidates)
      (candidates.foldl (better threshold method) best) := by
  induction candidates generalizing seen best with
  | nil =>
    rw [List.append_nil]
    exact h
  | cons new candidates ih =>
    rw [List.foldl_cons, List.append_cons]
    exact ih (isBest_better h new)

theorem isBest_mostSimilar (threshold : Float) (old : Method) (news : List Placed)
    : ∃ s, IsBest threshold old (news.filter fun new => canRename old new.method)
      (mostSimilar threshold old news, s) := by
  have hbest := isBest_foldl (isBest_nil threshold old)
    (news.filter fun new => canRename old new.method)
  rw [List.nil_append] at hbest
  rw [mostSimilar_eq]
  exact ⟨_, hbest⟩

theorem mostSimilar_eq_some {old : Method} (h : mostSimilar threshold old news = some new)
    : new ∈ news ∧ old.IsRenaming threshold new.method := by
  obtain ⟨s, hbest⟩ := isBest_mostSimilar threshold old news
  rw [h] at hbest
  cases hbest with
  | some hmem hsimilar =>
    have hmem := List.mem_filter.1 hmem
    exact ⟨hmem.1, Method.isRenaming_iff.2 ⟨hmem.2, hsimilar⟩⟩

theorem mostSimilar_eq_none {old : Method} (h : mostSimilar threshold old news = none)
    : ∀ new ∈ news, ¬old.IsRenaming threshold new.method := by
  obtain ⟨s, hbest⟩ := isBest_mostSimilar threshold old news
  rw [h] at hbest
  cases hbest with
  | none hnone =>
    intro new hnew hrenaming
    have hrenaming := Method.isRenaming_iff.1 hrenaming
    exact hnone new (List.mem_filter.2 ⟨hnew, hrenaming.1⟩) hrenaming.2

def takeSimilar (threshold : Float) (news : List Placed) (matching : List MethodMatch)
    (old : Placed) : List MethodMatch :=
  match mostSimilar threshold old.method (freeNews matching news) with
  | some new => matching ++ [⟨new.place, old.place⟩]
  | none => matching

theorem byBody_eq (threshold : Float) (matching : List MethodMatch) (olds news : List Placed)
    : byBody threshold matching olds news
        =
      (freeOlds matching olds).foldl (takeSimilar threshold news) matching := by
  rfl

theorem takeSimilar_cases (threshold : Float) (news : List Placed) (matching : List MethodMatch)
    (old : Placed)
    : (∃ new ∈ freeNews matching news, old.method.IsRenaming threshold new.method
        ∧ takeSimilar threshold news matching old = matching ++ [⟨new.place, old.place⟩])
      ∨ (takeSimilar threshold news matching old = matching
        ∧ ∀ new ∈ freeNews matching news, ¬old.method.IsRenaming threshold new.method) := by
  rw [takeSimilar]
  split
  next new hsome =>
    have hnew := mostSimilar_eq_some hsome
    exact .inl ⟨new, hnew.1, hnew.2, rfl⟩
  next hnone => exact .inr ⟨rfl, mostSimilar_eq_none hnone⟩

theorem joins_foldl_takeSimilar {queue : List Placed} (h : Joins threshold olds news matching)
    (hqueue : ∀ old ∈ queue, old ∈ freeOlds matching olds) (hnodup : (queue.map (·.place)).Nodup)
    : Joins threshold olds news (queue.foldl (takeSimilar threshold news) matching) := by
  induction queue generalizing matching with
  | nil => exact h
  | cons old queue ih =>
    rw [List.map_cons, List.nodup_cons] at hnodup
    have hold := hqueue old List.mem_cons_self
    have hothers : ∀ other ∈ queue, other ∈ freeOlds matching olds := by
      intro other hother
      exact hqueue other (List.mem_cons_of_mem _ hother)
    rw [List.foldl_cons]
    rcases takeSimilar_cases threshold news matching old with
      ⟨new, hnew, hrenaming, heq⟩ | ⟨heq, -⟩
    . rw [heq]
      apply ih (h.append (.single hold hnew (.ofRenaming hrenaming))) _ hnodup.2
      intro other hother
      rw [mem_freeOlds_append]
      refine ⟨hothers other hother, ?_⟩
      rw [List.forall_mem_singleton]
      intro hplace
      apply hnodup.1
      rw [show old.place = other.place from hplace]
      exact List.mem_map_of_mem hother
    . rw [heq]
      exact ih h hothers hnodup.2

theorem joins_byBody (h : Joins threshold olds news matching) (holds : (olds.map (·.place)).Nodup)
    : Joins threshold olds news (byBody threshold matching olds news) := by
  rw [byBody_eq]
  exact joins_foldl_takeSimilar h (fun _ => id) (holds.sublist (List.filter_sublist.map _))

theorem subset_foldl_takeSimilar (queue : List Placed)
    : matching ⊆ queue.foldl (takeSimilar threshold news) matching := by
  induction queue generalizing matching with
  | nil => exact List.Subset.refl _
  | cons old queue ih =>
    apply List.Subset.trans _ ih
    rcases takeSimilar_cases threshold news matching old with ⟨new, -, -, heq⟩ | ⟨heq, -⟩
    . rw [heq]
      exact List.subset_append_left ..
    . rw [heq]
      exact List.Subset.refl _

theorem not_isRenaming_of_mem_queue {queue : List Placed} (hold : old ∈ queue)
    (hfree : ∀ found ∈ queue.foldl (takeSimilar threshold news) matching, found.old ≠ old.place)
    (hnew : new ∈ freeNews (queue.foldl (takeSimilar threshold news) matching) news)
    : ¬old.method.IsRenaming threshold new.method := by
  induction queue generalizing matching with
  | nil => contradiction
  | cons first queue ih =>
    rw [List.foldl_cons] at hfree hnew
    rcases List.mem_cons.1 hold with rfl | hold
    . rcases takeSimilar_cases threshold news matching old with
        ⟨taken, -, -, heq⟩ | ⟨heq, hnone⟩
      . have htaken : (⟨taken.place, old.place⟩ : MethodMatch)
            ∈ takeSimilar threshold news matching old := by
          rw [heq]
          exact List.mem_append_right _ (List.mem_singleton_self _)
        exact absurd rfl (hfree _ (subset_foldl_takeSimilar queue htaken))
      . rw [heq, mem_freeNews] at hnew
        apply hnone new (mem_freeNews.2 ⟨hnew.1, _⟩)
        intro found hfound
        exact hnew.2 found (subset_foldl_takeSimilar queue hfound)
    . exact ih hold hfree hnew

/-! The whole matching -/

section

variable {olds news : List Method}

theorem joins_methodMatching (threshold : Float) (olds news : List Method)
    : Joins threshold (Placed.all olds) (Placed.all news) (methodMatching threshold olds news) := by
  have holds := Placed.nodup_place_all olds
  have hnews := Placed.nodup_place_all news
  exact joins_byBody
    ((joins_bySignature threshold hnews).append (joins_bySoleName threshold holds hnews)) holds

theorem mem_methodMatching_of_sole (threshold : Float)
    (h : AreSole (bySignature (Placed.all olds) (Placed.all news)) (Placed.all olds)
      (Placed.all news) old new)
    : ⟨new.place, old.place⟩ ∈ methodMatching threshold olds news := by
  rw [methodMatching, byBody_eq]
  apply subset_foldl_takeSimilar
  exact List.mem_append_right _ (mem_bySoleName.2 ⟨old, new, h, rfl⟩)

theorem not_isRenaming_of_free
    (hold : old ∈ freeOlds (methodMatching threshold olds news) (Placed.all olds))
    (hnew : new ∈ freeNews (methodMatching threshold olds news) (Placed.all news))
    : ¬old.method.IsRenaming threshold new.method := by
  rw [methodMatching, byBody_eq] at hold hnew
  have hfree := mem_freeOlds.1 hold
  apply not_isRenaming_of_mem_queue (mem_freeOlds.2 ⟨hfree.1, _⟩) hfree.2 hnew
  intro found hfound
  exact hfree.2 found (subset_foldl_takeSimilar _ hfound)

end

end Matching

def Placed.isIn (owner name : String) (x : Placed) : Bool :=
  x.method.owner = owner ∧ x.method.name = name

namespace Matching

structure IsMaximal (threshold : Float) (olds news : List Method) (matching : List MethodMatch)
    : Prop where
  nodup_new : (matching.map (·.new)).Nodup
  nodup_old : (matching.map (·.old)).Nodup
  exists_of_mem : ∀ found ∈ matching, ∃ old new, olds[found.old]? = some old
    ∧ news[found.new]? = some new ∧ new.owner = old.owner
    ∧ (new.name ≠ old.name → old.IsRenaming threshold new)
  mem_of_signature : ∀ (signature : String) (old new : Placed), old.IsSole signature olds →
    new.IsSole signature news → ⟨new.place, old.place⟩ ∈ matching
  mem_of_name : ∀ (owner name : String) (old new : Placed),
    (freeOlds (bySignature (Placed.all olds) (Placed.all news)) (Placed.all olds)).filter
      (·.isIn owner name) = [old] →
    (freeNews (bySignature (Placed.all olds) (Placed.all news)) (Placed.all news)).filter
      (·.isIn owner name) = [new] →
    ⟨new.place, old.place⟩ ∈ matching
  not_isRenaming : ∀ old ∈ freeOlds matching (Placed.all olds),
    ∀ new ∈ freeNews matching (Placed.all news), ¬old.method.IsRenaming threshold new.method

theorem areSole_of_isIn {owner name : String}
    (hold : (freeOlds matching olds).filter (·.isIn owner name) = [old])
    (hnew : (freeNews matching news).filter (·.isIn owner name) = [new])
    : AreSole matching olds news old new := by
  have hmem : new ∈ (freeNews matching news).filter (·.isIn owner name) := by
    rw [hnew]
    exact List.mem_singleton_self new
  have hin := of_decide_eq_true (List.mem_filter.1 hmem).2
  have hsame : ∀ x, sameName new x = x.isIn owner name := by
    intro x
    rw [Bool.eq_iff_iff, sameName_iff, Placed.isIn, decide_eq_true_iff, hin.1, hin.2, eq_comm,
      @eq_comm _ name]
  exact ⟨by rw [List.filter_congr fun x _ => hsame x, hold],
    by rw [List.filter_congr fun x _ => hsame x, hnew]⟩

end Matching

theorem isMaximal_methodMatching (threshold : Float) {olds news : List Method}
    (holds : ∀ old ∈ olds, old.IsNamed) (hnews : ∀ new ∈ news, new.IsNamed)
    : Matching.IsMaximal threshold olds news (methodMatching threshold olds news) where
  nodup_new := (Matching.joins_methodMatching threshold olds news).nodup_new
  nodup_old := (Matching.joins_methodMatching threshold olds news).nodup_old
  exists_of_mem := by
    intro found hfound
    obtain ⟨old, hold, new, hnew, rfl, hcounterpart⟩ :=
      (Matching.joins_methodMatching threshold olds news).exists_of_mem found hfound
    have hold := Placed.mem_all.1 hold
    have hnew := Placed.mem_all.1 hnew
    have holdnamed := holds old.method (List.mem_of_getElem? hold)
    have hnewnamed := hnews new.method (List.mem_of_getElem? hnew)
    exact ⟨old.method, new.method, hold, hnew, hcounterpart.owner_eq holdnamed hnewnamed,
      hcounterpart.isRenaming holdnamed hnewnamed⟩
  mem_of_signature := by
    intro signature old new hold hnew
    exact List.mem_of_find?_eq_some (Matching.find?_methodMatching threshold hold hnew)
  mem_of_name := by
    intro owner name old new hold hnew
    exact Matching.mem_methodMatching_of_sole threshold (Matching.areSole_of_isIn hold hnew)
  not_isRenaming := by
    intro old hold new hnew
    exact Matching.not_isRenaming_of_free hold hnew

namespace Sample

def calling (name callee : String) : Method :=
  .ofNode "A" .package none (methodOf " " name callee).2

end Sample

/-! A method with another body, and one with another name -/

theorem isMaximal_of_renamed
    : Matching.IsMaximal 0.5 [Sample.calling "f" "a", Sample.calling "g" "b"]
      [Sample.calling "g" "c", Sample.calling "h" "a"]
      (methodMatching 0.5 [Sample.calling "f" "a", Sample.calling "g" "b"]
        [Sample.calling "g" "c", Sample.calling "h" "a"]) := by
  apply isMaximal_methodMatching
  . decide +kernel
  . decide +kernel

end MethodHistory
