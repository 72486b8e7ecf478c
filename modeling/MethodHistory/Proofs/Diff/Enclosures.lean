import MethodHistory.Proofs.Diff.Comparisons
import Mathlib.Data.List.Forall2

/-!
This module contains what lies inside of what in a body, and where the strays of two bodies come
from: each one takes itself and all that is inside it out of its body, and no two take the same.
-/

namespace MethodHistory

structure Enclosure where
  head : Fragment
  inner : List Fragment

namespace Enclosure

def around (head : Fragment) (inside : List Enclosure) : List Enclosure :=
  ⟨head, inside.map Enclosure.head⟩ :: inside

def IsClosed (enclosures : List Enclosure) : Prop :=
  ∀ enclosure ∈ enclosures, enclosure.inner ⊆ enclosures.map head

theorem IsClosed.append {enclosures others : List Enclosure} (h : IsClosed enclosures)
    (hothers : IsClosed others) : IsClosed (enclosures ++ others) := by
  rw [IsClosed, List.forall_mem_append, List.map_append]
  constructor
  . exact fun enclosure hmem => List.subset_append_of_subset_left _ (h enclosure hmem)
  . exact fun enclosure hmem => List.subset_append_of_subset_right _ (hothers enclosure hmem)

theorem IsClosed.flatMap {α : Type} {xs : List α} {f : α → List Enclosure}
    (h : ∀ x ∈ xs, IsClosed (f x)) : IsClosed (xs.flatMap f) := by
  induction xs with
  | nil => exact List.forall_mem_nil _
  | cons x xs ih =>
    rw [List.forall_mem_cons] at h
    exact h.1.append (ih h.2)

theorem IsClosed.around {head : Fragment} {inside : List Enclosure} (h : IsClosed inside)
    : IsClosed (around head inside) := by
  rw [IsClosed, Enclosure.around, List.forall_mem_cons]
  constructor
  . exact List.subset_cons_self _ _
  . exact fun enclosure hmem => List.subset_cons_of_subset _ (h enclosure hmem)

end Enclosure

/--
Handlers and groups come and go, unlike the other clauses of a statement of one kind.
-/
def Clause.isPart {σ : Type} (clause : Clause σ) : Bool :=
  ["catch_clause", "finally_clause", "switch_block_statement_group", "switch_rule"].contains
    clause.head.kind

namespace Statement

def enclosures : Statement → List Enclosure
  | leaf head => Enclosure.around head []
  | compound head _ _ clauses alternative =>
    Enclosure.around head
      ((clauses.attach.flatMap fun ⟨clause, _hc⟩ =>
        let inside := clause.body.attach.flatMap fun ⟨statement, _hs⟩ => enclosures statement
        if clause.isPart then Enclosure.around clause.head inside else inside)
      ++ match alternative with
        | none => []
        | some clause => clause.body.attach.flatMap fun ⟨statement, _hs⟩ => enclosures statement)
termination_by statement => statement
decreasing_by
  . exact Nat.lt_trans (List.sizeOf_lt_of_mem _hs) (sizeOf_body_lt_of_mem _hc)
  . exact Nat.lt_trans (List.sizeOf_lt_of_mem _hs) (sizeOf_body_lt_of_alternative rfl)

end Statement

def enclosures (body : List Statement) : List Enclosure :=
  body.flatMap Statement.enclosures

def pieces (body : List Statement) : List Fragment :=
  (enclosures body).map Enclosure.head

def Clause.enclosures (clause : Clause Statement) : List Enclosure :=
  if clause.isPart then Enclosure.around clause.head (MethodHistory.enclosures clause.body)
  else MethodHistory.enclosures clause.body

namespace Statement

theorem enclosures_compound (head : Fragment) (condition header : String)
    (clauses : List (Clause Statement)) (alternative : Option (Clause Statement))
    : (compound head condition header clauses alternative).enclosures
        =
      Enclosure.around head (clauses.flatMap Clause.enclosures
        ++ (alternative.map fun clause => MethodHistory.enclosures clause.body).getD []) := by
  rw [enclosures.eq_def]
  dsimp only
  congr 2
  . rw [← BodyDiff.flatMap_attach _ Clause.enclosures]
    congr 1
    funext ⟨clause, _⟩
    rw [Clause.enclosures, MethodHistory.enclosures,
      ← BodyDiff.flatMap_attach clause.body Statement.enclosures]
  . cases alternative with
    | none => rfl
    | some clause => exact BodyDiff.flatMap_attach _ _

theorem enclosures_of_leaf {statement : Statement} (h : statement.isCompound = false)
    : statement.enclosures = Enclosure.around statement.head [] := by
  cases statement with
  | leaf => rw [enclosures.eq_def]; rfl
  | compound => cases h

end Statement

theorem Clause.subperm_enclosures (clause : Clause Statement)
    : (MethodHistory.enclosures clause.body).Subperm clause.enclosures := by
  rw [Clause.enclosures]
  split
  . exact (List.sublist_cons_self _ _).subperm
  . exact List.Subperm.refl _

/-! What comes or goes with a stray -/

def Stray.IsRootOf (stray : Stray) (group : List Enclosure) : Prop :=
  ∃ inside, group = Enclosure.around stray.head inside
    ∧ stray.nested.Sublist (inside.map Enclosure.head) ∧ Enclosure.IsClosed inside

namespace Stray.IsRootOf

variable {stray : Stray} {group : List Enclosure}

theorem isClosed (h : stray.IsRootOf group) : Enclosure.IsClosed group := by
  obtain ⟨inside, rfl, -, hclosed⟩ := h
  exact hclosed.around

theorem sublist (h : stray.IsRootOf group)
    : (stray.head :: stray.nested).Sublist (group.map Enclosure.head) := by
  obtain ⟨inside, rfl, hsublist, -⟩ := h
  exact hsublist.cons_cons _

end Stray.IsRootOf

theorem spec_enclosures_of_forall {body : List Statement} {place : Place}
    (h : ∀ statement ∈ body, (Stray.ofStatement place statement).IsRootOf statement.enclosures)
    : (Statement.fragments body).Sublist (pieces body)
        ∧ Enclosure.IsClosed (enclosures body) := by
  constructor
  . rw [Statement.fragments, pieces, enclosures, List.map_flatMap]
    exact List.Sublist.flatMap_right _ fun statement hmem => (h statement hmem).sublist
  . exact Enclosure.IsClosed.flatMap fun statement hmem => (h statement hmem).isClosed

theorem Clause.spec_enclosures_of {clause : Clause Statement}
    (h : (Statement.fragments clause.body).Sublist (pieces clause.body)
      ∧ Enclosure.IsClosed (MethodHistory.enclosures clause.body))
    : (Statement.fragments clause.body).Sublist (clause.enclosures.map Enclosure.head)
        ∧ Enclosure.IsClosed clause.enclosures := by
  rw [Clause.enclosures]
  split
  . exact ⟨h.1.cons _, h.2.around⟩
  . exact h

theorem isRootOf_ofStatement (place : Place) (statement : Statement)
    : (Stray.ofStatement place statement).IsRootOf statement.enclosures := by
  match statement with
  | .leaf head =>
    refine ⟨[], Statement.enclosures_of_leaf rfl, ?_, List.forall_mem_nil _⟩
    rw [Stray.ofStatement, Statement.nested_of_leaf rfl]
    exact .slnil
  | .compound head condition header clauses alternative =>
    have hclauses : ∀ clause ∈ clauses,
        (Statement.fragments clause.body).Sublist (clause.enclosures.map Enclosure.head)
          ∧ Enclosure.IsClosed clause.enclosures := by
      intro clause hclause
      apply Clause.spec_enclosures_of
      exact spec_enclosures_of_forall fun child hchild => isRootOf_ofStatement place child
    have halternative : ∀ clause ∈ alternative,
        (Statement.fragments clause.body).Sublist (pieces clause.body)
          ∧ Enclosure.IsClosed (enclosures clause.body) := by
      intro clause hclause
      exact spec_enclosures_of_forall fun child hchild => isRootOf_ofStatement place child
    refine ⟨_, Statement.enclosures_compound _ _ _ _ _, ?_, ?_⟩
    . rw [Stray.ofStatement, Statement.nested_compound, List.map_append, List.map_flatMap]
      apply List.Sublist.append
      . exact List.Sublist.flatMap_right _ fun clause hclause => (hclauses clause hclause).1
      . cases alternative with
        | none => exact .slnil
        | some clause => exact (halternative clause rfl).1
    . apply Enclosure.IsClosed.append
      . exact Enclosure.IsClosed.flatMap fun clause hclause => (hclauses clause hclause).2
      . cases alternative with
        | none => exact List.forall_mem_nil _
        | some clause => exact (halternative clause rfl).2
termination_by statement
decreasing_by
  . exact Nat.lt_trans (List.sizeOf_lt_of_mem hchild) (Statement.sizeOf_body_lt_of_mem hclause)
  . exact Nat.lt_trans (List.sizeOf_lt_of_mem hchild)
      (Statement.sizeOf_body_lt_of_alternative hclause)

theorem isRootOf_ofClause (place : Place) {clause : Clause Statement} (h : clause.isPart)
    : (Stray.ofClause place clause).IsRootOf clause.enclosures := by
  obtain ⟨hsublist, hclosed⟩ := @spec_enclosures_of_forall clause.body place
    fun statement _ => isRootOf_ofStatement place statement
  refine ⟨enclosures clause.body, if_pos h, ?_, hclosed⟩
  rw [Stray.ofClause, Clause.nested]
  split
  . exact hsublist
  . exact List.nil_sublist _

def Come (strays : List Stray) (enclosures : List Enclosure) : Prop :=
  ∃ groups : List (List Enclosure), List.Forall₂ Stray.IsRootOf strays groups
    ∧ groups.flatten.Subperm enclosures

namespace Come

variable {strays others : List Stray} {enclosures more : List Enclosure}

theorem nil (enclosures : List Enclosure) : Come [] enclosures :=
  ⟨[], .nil, List.nil_subperm⟩

theorem singleton {stray : Stray} (h : stray.IsRootOf enclosures) : Come [stray] enclosures := by
  refine ⟨[enclosures], .cons h .nil, ?_⟩
  rw [List.flatten_singleton]

theorem append (h : Come strays enclosures) (hmore : Come others more)
    : Come (strays ++ others) (enclosures ++ more) := by
  obtain ⟨groups, hroots, hgroups⟩ := h
  obtain ⟨groups', hroots', hgroups'⟩ := hmore
  refine ⟨groups ++ groups', List.rel_append hroots hroots', ?_⟩
  rw [List.flatten_append]
  exact List.Subperm.append hgroups hgroups'

theorem mono (h : Come strays enclosures) (hmore : enclosures.Subperm more) : Come strays more := by
  obtain ⟨groups, hroots, hgroups⟩ := h
  exact ⟨groups, hroots, hgroups.trans hmore⟩

theorem subperm (h : Come strays enclosures)
    : (strays.map Stray.head ++ strays.flatMap Stray.nested).Subperm
        (enclosures.map Enclosure.head) := by
  obtain ⟨groups, hroots, hgroups⟩ := h
  refine List.Subperm.trans ?_ (subperm_map hgroups Enclosure.head)
  have hsublist : (strays.flatMap fun stray => stray.head :: stray.nested).Sublist
      (groups.flatten.map Enclosure.head) := by
    clear hgroups
    induction hroots with
    | nil => exact .slnil
    | cons hroot _ ih =>
      rw [List.flatMap_cons, List.flatten_cons, List.map_append]
      exact hroot.sublist.append ih
  exact (List.map_append_flatMap_perm _ _ _).subperm.trans hsublist.subperm

end Come

/-! The clauses that come and go -/

def Layout.lead : Layout → Option String
  | block => some "block"
  | conditional => some "then"
  | guarded => some "try"
  | selection => none
  | bodied => some "body"

def AreLaidOut : Option String → List (Clause Statement) → Prop
  | none, clauses => ∀ clause ∈ clauses, clause.isPart
  | some role, clauses => ∃ first rest, clauses = first :: rest ∧ first.role = role
      ∧ ∀ clause ∈ rest, clause.isPart ∧ role ≠ clause.role

def Statement.IsLaidOut : Statement → Prop
  | leaf _ => True
  | compound head _ _ clauses _ => AreLaidOut ((Layout.ofKind? head.kind).bind Layout.lead) clauses

namespace BodyDiff

theorem clauseSteps_cons {old new : Clause Statement} {olds news : List (Clause Statement)}
    (hrole : old.role = new.role) (h : ∀ clause ∈ olds, old.role ≠ clause.role)
    : clauseSteps (old :: olds) (new :: news) = .pair old new :: clauseSteps olds news := by
  have hfits : hasRole new old := decide_eq_true hrole
  rw [clauseSteps_eq, Table.latest_cons_of_notMem h, firstFit_cons_of_fits hfits, clauseSteps_eq]
  rfl

theorem isPart_of_mem_clauseSteps {lead : Option String} {olds news : List (Clause Statement)}
    (holds : AreLaidOut lead olds) (hnews : AreLaidOut lead news)
    : (∀ old, .drop old ∈ clauseSteps olds news → old.isPart)
        ∧ ∀ new, .add new ∈ clauseSteps olds news → new.isPart := by
  cases lead with
  | none =>
    constructor
    . exact fun old hstep => holds old (isAbout_of_mem_clauseSteps hstep)
    . exact fun new hstep => hnews new (isAbout_of_mem_clauseSteps hstep)
  | some role =>
    obtain ⟨old, olds, rfl, hold, holds⟩ := holds
    obtain ⟨new, news, rfl, hnew, hnews⟩ := hnews
    have hfresh : ∀ clause ∈ olds, old.role ≠ clause.role := by
      rw [hold]
      exact fun clause hclause => (holds clause hclause).2
    rw [clauseSteps_cons (hold.trans hnew.symm) hfresh]
    constructor
    . intro clause hstep
      have hstep := (List.mem_cons.1 hstep).resolve_left (by simp)
      exact (holds clause (isAbout_of_mem_clauseSteps hstep)).1
    . intro clause hstep
      have hstep := (List.mem_cons.1 hstep).resolve_left (by simp)
      exact (hnews clause (isAbout_of_mem_clauseSteps hstep)).1

end BodyDiff

namespace Node

variable {node : Node} {clause : Clause Node}

theorem isPart_of_handler? (h : node.handler? = some clause)
    : clause.isPart ∧ "try" ≠ clause.role := by
  rw [handler?] at h
  split at h
  next hkind =>
    cases h
    refine ⟨by simp [Clause.isPart, Clause.ofNode, Fragment.ofNode, hkind], ?_⟩
    intro hrole
    have hlength := congrArg String.length hrole
    rw [Clause.ofNode, String.length_append] at hlength
    have hlonger : "try".length < "catch:".length := by decide
    omega
  next =>
    split at h
    next hkind =>
      cases h
      exact ⟨by simp [Clause.isPart, Clause.ofNode, Fragment.ofNode, hkind],
        by simp [Clause.ofNode]⟩
    next => contradiction

theorem isPart_of_group? (h : node.group? = some clause) : clause.isPart := by
  rw [group?] at h
  split at h
  next hkind =>
    cases h
    rw [List.contains_iff_mem] at hkind
    rw [Clause.isPart, List.contains_iff_mem]
    exact List.mem_cons_of_mem _ (List.mem_cons_of_mem _ hkind)
  next => contradiction

end Node

theorem Statement.isLaidOut_ofNode (node : Node) : (Statement.ofNode node).IsLaidOut := by
  cases hlayout : Layout.ofKind? node.kind with
  | none =>
    rw [Statement.ofNode_leaf hlayout]
    trivial
  | some layout =>
    rw [Statement.ofNode_compound hlayout]
    change AreLaidOut ((Layout.ofKind? node.kind).bind Layout.lead) _
    rw [hlayout, Option.bind_some]
    cases layout with
    | block => exact ⟨_, [], rfl, rfl, List.forall_mem_nil _⟩
    | conditional => exact ⟨_, [], rfl, rfl, List.forall_mem_nil _⟩
    | bodied => exact ⟨_, [], rfl, rfl, List.forall_mem_nil _⟩
    | guarded =>
      refine ⟨_, _, rfl, rfl, ?_⟩
      intro clause hclause
      obtain ⟨part, hpart, rfl⟩ := List.mem_map.1 hclause
      obtain ⟨child, -, hpart⟩ := List.mem_filterMap.1 hpart
      exact Node.isPart_of_handler? hpart
    | selection =>
      intro clause hclause
      obtain ⟨part, hpart, rfl⟩ := List.mem_map.1 hclause
      rw [Node.parts] at hpart
      split at hpart
      next =>
        obtain ⟨child, -, hpart⟩ := List.mem_filterMap.1 hpart
        exact Node.isPart_of_group? hpart
      next => contradiction

theorem Statement.isLaidOut_of_inside {body : Option Node} {statement : Statement}
    (h : Inside (Statement.ofBody body) statement) : statement.IsLaidOut := by
  obtain ⟨node, -, rfl⟩ := Statement.exists_isStatementOf h
  exact Statement.isLaidOut_ofNode node

/-! The elements of two lists that the steps are about -/

namespace Step

variable {α : Type}

def olds : Step α → List α
  | drop old | pair old _ => [old]
  | add _ => []

def news : Step α → List α
  | add new | pair _ new => [new]
  | drop _ => []

theorem perm_flatMap_olds (steps : List (Step α))
    : (steps.flatMap olds).Perm
        ((Account.ofSteps steps).paired.map Prod.fst ++ (Account.ofSteps steps).dropped) := by
  induction steps with
  | nil => exact .nil
  | cons step steps ih =>
    cases step with
    | drop old => exact (ih.cons old).trans List.perm_middle.symm
    | add new => exact ih
    | pair old new => exact ih.cons old

theorem perm_flatMap_news (steps : List (Step α))
    : (steps.flatMap news).Perm
        ((Account.ofSteps steps).paired.map Prod.snd ++ (Account.ofSteps steps).added) := by
  induction steps with
  | nil => exact .nil
  | cons step steps ih =>
    cases step with
    | drop old => exact ih
    | add new => exact (ih.cons new).trans List.perm_middle.symm
    | pair old new => exact ih.cons new

end Step

namespace BodyDiff

theorem subperm_put {α κ : Type} [DecidableEq κ] (key : α → κ) (x : α) (table : List α)
    : (Table.put key x table).Subperm (x :: table) := by
  induction table with
  | nil => exact List.Subperm.refl _
  | cons y ys ih =>
    rw [Table.put]
    split
    . exact ((List.sublist_cons_self y ys).cons_cons x).subperm
    . exact ((List.subperm_cons y).2 ih).trans (List.Perm.swap x y ys).subperm

theorem subperm_latest {α κ : Type} [DecidableEq κ] (key : α → κ) (xs : List α)
    : (Table.latest key xs).Subperm xs := by
  suffices ∀ table : List α,
      (xs.foldl (fun table x => Table.put key x table) table).Subperm (xs ++ table) by
    have hnil := this []
    rwa [List.append_nil] at hnil
  induction xs with
  | nil => exact List.Subperm.refl
  | cons x xs ih =>
    intro table
    rw [List.foldl_cons]
    apply (ih _).trans
    apply ((List.subperm_append_left xs).2 (subperm_put key x table)).trans
    exact List.perm_middle.subperm

theorem subperm_steps (threshold : Float) (olds news : List Statement)
    : ((steps (isPairable threshold) olds news).flatMap Step.olds).Subperm olds
        ∧ ((steps (isPairable threshold) olds news).flatMap Step.news).Subperm news := by
  have hcovers := (areAccounted_lists threshold olds news).covers
  have holds := hcovers.olds_perm
  have hnews := hcovers.news_perm
  rw [List.map_append, List.append_assoc] at holds hnews
  constructor
  . apply (Step.perm_flatMap_olds _).subperm.trans
    exact (List.sublist_append_right _ _).subperm.trans holds.subperm
  . apply (Step.perm_flatMap_news _).subperm.trans
    exact (List.sublist_append_right _ _).subperm.trans hnews.subperm

theorem subperm_clauseSteps (olds news : List (Clause Statement))
    : ((clauseSteps olds news).flatMap Step.olds).Subperm olds
        ∧ ((clauseSteps olds news).flatMap Step.news).Subperm news := by
  have hcovers := covers_clauseSteps olds news
  constructor
  . apply (Step.perm_flatMap_olds _).subperm.trans
    exact hcovers.olds_perm.subperm.trans (subperm_latest _ _)
  . exact ((Step.perm_flatMap_news _).trans hcovers.news_perm).subperm

end BodyDiff

/-! The strays that the comparison finds -/

namespace Findings

structure ComeFrom (found : Findings) (olds news : List Enclosure) : Prop where
  deleted : Come found.deleted olds
  inserted : Come found.inserted news

namespace ComeFrom

variable {found more : Findings} {olds news : List Enclosure}

theorem of_no_strays (hdeleted : found.deleted = []) (hinserted : found.inserted = [])
    (olds news : List Enclosure) : found.ComeFrom olds news := by
  constructor
  . rw [hdeleted]
    exact .nil _
  . rw [hinserted]
    exact .nil _

theorem append {olds' news' : List Enclosure} (h : found.ComeFrom olds news)
    (hmore : more.ComeFrom olds' news')
    : (found ++ more).ComeFrom (olds ++ olds') (news ++ news') :=
  ⟨h.deleted.append hmore.deleted, h.inserted.append hmore.inserted⟩

theorem mono {olds' news' : List Enclosure} (h : found.ComeFrom olds news)
    (holds : olds.Subperm olds') (hnews : news.Subperm news') : found.ComeFrom olds' news' :=
  ⟨h.deleted.mono holds, h.inserted.mono hnews⟩

theorem join {α : Type} {steps : List (Step α)} {finding : Step α → Findings} {olds news : List α}
    {enclosures : α → List Enclosure}
    (holds : (steps.flatMap Step.olds).Subperm olds)
    (hnews : (steps.flatMap Step.news).Subperm news)
    (h : ∀ step ∈ steps, (finding step).ComeFrom (step.olds.flatMap enclosures)
      (step.news.flatMap enclosures))
    : (Findings.join (steps.map finding)).ComeFrom (olds.flatMap enclosures)
        (news.flatMap enclosures) := by
  refine mono ?_ (subperm_flatMap holds enclosures) (subperm_flatMap hnews enclosures)
  clear holds hnews
  induction steps with
  | nil => exact of_no_strays rfl rfl _ _
  | cons step steps ih =>
    rw [List.forall_mem_cons] at h
    rw [List.flatMap_cons, List.flatMap_cons, List.flatMap_append, List.flatMap_append]
    exact h.1.append (ih h.2)

end ComeFrom
end Findings

namespace BodyDiff

variable {threshold : Float} {place : Place}

theorem comeFrom_alternativeFinding {old new : Option (Clause Statement)}
    (h : ∀ oldClause ∈ old, ∀ newClause ∈ new, ∀ place,
      (lists threshold oldClause.body newClause.body place).ComeFrom (enclosures oldClause.body)
        (enclosures newClause.body))
    : (alternativeFinding threshold place old new).ComeFrom
        ((old.map fun clause => enclosures clause.body).getD [])
        ((new.map fun clause => enclosures clause.body).getD []) := by
  cases old with
  | none => cases new <;> exact .of_no_strays rfl rfl _ _
  | some old =>
    cases new with
    | none => exact .of_no_strays rfl rfl _ _
    | some new => exact h old rfl new rfl _

theorem comeFrom_pair_leaf {old new : Statement}
    (hleaf : old.isCompound = false ∨ new.isCompound = false)
    : (pair threshold old new place).ComeFrom old.enclosures new.enclosures := by
  rw [pair_of_leaf hleaf]
  split <;> exact .of_no_strays rfl rfl _ _

theorem comeFrom_clauseFindings {lead : Option String} {olds news : List (Clause Statement)}
    (holds : AreLaidOut lead olds) (hnews : AreLaidOut lead news)
    (h : ∀ old ∈ olds, ∀ new ∈ news, ∀ place,
      (lists threshold old.body new.body place).ComeFrom (enclosures old.body)
        (enclosures new.body))
    : (Findings.join ((clauseSteps olds news).map (clauseFinding threshold place))).ComeFrom
        (olds.flatMap Clause.enclosures) (news.flatMap Clause.enclosures) := by
  obtain ⟨hdropped, hadded⟩ := isPart_of_mem_clauseSteps holds hnews
  obtain ⟨holdSteps, hnewSteps⟩ := subperm_clauseSteps olds news
  apply Findings.ComeFrom.join holdSteps hnewSteps
  intro step hstep
  have habout := isAbout_of_mem_clauseSteps hstep
  cases step with
  | drop old =>
    refine ⟨?_, .nil _⟩
    rw [Step.olds, List.flatMap_singleton]
    exact .singleton (isRootOf_ofClause place (hdropped old hstep))
  | add new =>
    refine ⟨.nil _, ?_⟩
    rw [Step.news, List.flatMap_singleton]
    exact .singleton (isRootOf_ofClause place (hadded new hstep))
  | pair old new =>
    obtain ⟨hold, hnew, -⟩ := habout
    rw [Step.olds, Step.news, List.flatMap_singleton, List.flatMap_singleton]
    exact (h old hold new hnew _).mono old.subperm_enclosures new.subperm_enclosures

variable {oldBody newBody : List Statement}

mutual

theorem comeFrom_lists {olds news : List Statement} {place : Place}
    (holdBody : ∀ statement, Inside oldBody statement → statement.IsLaidOut)
    (hnewBody : ∀ statement, Inside newBody statement → statement.IsLaidOut)
    (holds : ∀ statement ∈ olds, Inside oldBody statement)
    (hnews : ∀ statement ∈ news, Inside newBody statement)
    : (lists threshold olds news place).ComeFrom (enclosures olds) (enclosures news) := by
  obtain ⟨holdSteps, hnewSteps⟩ := subperm_steps threshold olds news
  rw [lists_eq]
  apply Findings.ComeFrom.join holdSteps hnewSteps
  intro step hstep
  have habout := isAbout_of_mem_steps hstep
  cases step with
  | drop old =>
    refine ⟨?_, .nil _⟩
    rw [Step.olds, List.flatMap_singleton]
    exact .singleton (isRootOf_ofStatement place old)
  | add new =>
    refine ⟨.nil _, ?_⟩
    rw [Step.news, List.flatMap_singleton]
    exact .singleton (isRootOf_ofStatement place new)
  | pair old new =>
    obtain ⟨hold, hnew, hpairable⟩ := habout
    rw [Step.olds, Step.news, List.flatMap_singleton, List.flatMap_singleton]
    exact comeFrom_pair holdBody hnewBody (holds old hold) (hnews new hnew) hpairable
termination_by sizeOf olds
decreasing_by exact List.sizeOf_lt_of_mem hold

theorem comeFrom_pair {old new : Statement} {place : Place}
    (holdBody : ∀ statement, Inside oldBody statement → statement.IsLaidOut)
    (hnewBody : ∀ statement, Inside newBody statement → statement.IsLaidOut)
    (hold : Inside oldBody old) (hnew : Inside newBody new)
    (hpairable : isPairable threshold old new)
    : (pair threshold old new place).ComeFrom old.enclosures new.enclosures := by
  match old, new with
  | .leaf _, _ => exact comeFrom_pair_leaf (.inl rfl)
  | _, .leaf _ => exact comeFrom_pair_leaf (.inr rfl)
  | .compound oldHead oldCondition oldHeader oldClauses oldAlternative,
      .compound newHead newCondition newHeader newClauses newAlternative =>
    rw [isPairable, Bool.and_eq_true] at hpairable
    have hkind : oldHead.kind = newHead.kind := of_decide_eq_true hpairable.1
    have holdClauses := holdBody _ hold
    have hnewClauses := hnewBody _ hnew
    rw [Statement.IsLaidOut] at holdClauses hnewClauses
    rw [hkind] at holdClauses
    have hclauses := @comeFrom_clauseFindings threshold (place.within newHead) _ _ _ holdClauses
      hnewClauses fun oldClause holdClause newClause hnewClause place =>
        comeFrom_lists holdBody hnewBody
          (fun statement hstatement => .clause hold holdClause hstatement)
          (fun statement hstatement => .clause hnew hnewClause hstatement)
    have halternative := @comeFrom_alternativeFinding threshold (place.within newHead)
      oldAlternative newAlternative fun oldClause holdClause newClause hnewClause place =>
        comeFrom_lists holdBody hnewBody
          (fun statement hstatement => .alternative hold holdClause hstatement)
          (fun statement hstatement => .alternative hnew hnewClause hstatement)
    rw [pair_compound, Statement.enclosures_compound, Statement.enclosures_compound]
    have hheading := @gathers_heading threshold newHead.kind oldCondition oldHeader newCondition
      newHeader
    have hparts := ((Findings.ComeFrom.of_no_strays hheading.deleted.eq_nil
      hheading.inserted.eq_nil [] []).append hclauses).append halternative
    exact hparts.mono (List.sublist_cons_self _ _).subperm (List.sublist_cons_self _ _).subperm
termination_by sizeOf old
decreasing_by
  . exact Statement.sizeOf_body_lt_of_mem holdClause
  . exact Statement.sizeOf_body_lt_of_alternative holdClause

end

end BodyDiff

theorem comeFrom_bodies (threshold : Float) (old new : Option Node)
    : (BodyDiff.lists threshold (Statement.ofBody old) (Statement.ofBody new) .body).ComeFrom
        (enclosures (Statement.ofBody old)) (enclosures (Statement.ofBody new)) :=
  BodyDiff.comeFrom_lists (fun _ => Statement.isLaidOut_of_inside)
    (fun _ => Statement.isLaidOut_of_inside) (fun _ => .here) (fun _ => .here)

end MethodHistory
