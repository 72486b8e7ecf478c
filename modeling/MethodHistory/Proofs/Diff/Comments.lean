import MethodHistory.Proofs.Diff.FoundMoves
import MethodHistory.Proofs.LevelAlignment

/-!
This module contains what is reported of edited comments: nothing if each statement around them is
compared by its parts and meets its counterpart.
-/

namespace MethodHistory

namespace Statement

inductive Parallel : Statement → Statement → Prop where
  | leaf {old new : Fragment} : Parallel (.leaf old) (.leaf new)
  | compound {oldHead newHead : Fragment} {oldCondition oldHeader newCondition newHeader : String}
      {oldClauses newClauses : List (Clause Statement)}
      {oldAlternative newAlternative : Option (Clause Statement)}
      (hkind : oldHead.kind = newHead.kind)
      (hclauses : List.Forall₂ (fun old new : Clause Statement =>
        List.Forall₂ Parallel old.body new.body) oldClauses newClauses)
      (halternative : Option.Rel (fun old new : Clause Statement =>
        List.Forall₂ Parallel old.body new.body) oldAlternative newAlternative)
      : Parallel (.compound oldHead oldCondition oldHeader oldClauses oldAlternative)
          (.compound newHead newCondition newHeader newClauses newAlternative)

inductive AgreesOutside : Statement → Statement → Prop where
  | mk {oldHead newHead : Fragment} {condition header : String}
      {oldClauses newClauses : List (Clause Statement)}
      {oldAlternative newAlternative : Option (Clause Statement)}
      (hroles : oldClauses.map Clause.role = newClauses.map Clause.role)
      (hnodup : (oldClauses.map Clause.role).Nodup)
      : AgreesOutside (.compound oldHead condition header oldClauses oldAlternative)
          (.compound newHead condition header newClauses newAlternative)

inductive InnerLists : Statement → Statement → List Statement → List Statement → Prop where
  | clause {oldHead newHead : Fragment} {oldCondition oldHeader newCondition newHeader : String}
      {oldClauses newClauses : List (Clause Statement)}
      {oldAlternative newAlternative : Option (Clause Statement)} {old new : Clause Statement}
      (h : (old, new) ∈ oldClauses.zip newClauses)
      : InnerLists (.compound oldHead oldCondition oldHeader oldClauses oldAlternative)
          (.compound newHead newCondition newHeader newClauses newAlternative) old.body new.body
  | alternative {oldHead newHead : Fragment}
      {oldCondition oldHeader newCondition newHeader : String}
      {oldClauses newClauses : List (Clause Statement)} {old new : Clause Statement}
      : InnerLists (.compound oldHead oldCondition oldHeader oldClauses (some old))
          (.compound newHead newCondition newHeader newClauses (some new)) old.body new.body

theorem Parallel.innerLists {old new : Statement} {olds news : List Statement}
    (h : old.Parallel new) (hinner : InnerLists old new olds news)
    : List.Forall₂ Parallel olds news := by
  cases h with
  | leaf => contradiction
  | compound _ hclauses halternative =>
    cases hinner with
    | clause hclause => exact (List.forall₂_iff_zip.1 hclauses).2 hclause
    | alternative =>
      cases halternative with
      | some h => exact h

end Statement

/--
Lists in which every statement whose text changes is compared by its parts and has its texts to
itself, and such lists in its parts.
-/
inductive AreHeld : List Statement → List Statement → Prop where
  | mk {olds news : List Statement}
      (hagrees : ∀ pair ∈ olds.zip news, pair.1.text ≠ pair.2.text → pair.1.AgreesOutside pair.2)
      (hold : ∀ pair ∈ olds.zip news, pair.1.text ≠ pair.2.text →
        pair.1.text ∉ news.map Statement.text)
      (hnew : ∀ pair ∈ olds.zip news, pair.1.text ≠ pair.2.text →
        pair.2.text ∉ olds.map Statement.text)
      (hinner : ∀ pair ∈ olds.zip news, pair.1.text ≠ pair.2.text → ∀ innerOlds innerNews,
        pair.1.InnerLists pair.2 innerOlds innerNews → AreHeld innerOlds innerNews)
      : AreHeld olds news

namespace AreHeld

theorem text_eq_of_mem_zip {olds news : List Statement}
    (h : olds.map Statement.text = news.map Statement.text)
    : ∀ pair ∈ olds.zip news, pair.1.text = pair.2.text := by
  rw [map_eq_map_iff_forall₂] at h
  intro pair hpair
  exact (List.forall₂_iff_zip.1 h).2 hpair

theorem of_texts {olds news : List Statement}
    (h : olds.map Statement.text = news.map Statement.text) : AreHeld olds news := by
  have htexts := text_eq_of_mem_zip h
  constructor
  . intro pair hpair htext
    exact absurd (htexts pair hpair) htext
  . intro pair hpair htext
    exact absurd (htexts pair hpair) htext
  . intro pair hpair htext
    exact absurd (htexts pair hpair) htext
  . intro pair hpair htext
    exact absurd (htexts pair hpair) htext

theorem around {front back front' back' : List Statement} {old new : Statement}
    (hfront : front.map Statement.text = front'.map Statement.text)
    (hback : back.map Statement.text = back'.map Statement.text) (hagrees : old.AgreesOutside new)
    (hold : old.text ∉ (front' ++ new :: back').map Statement.text)
    (hnew : new.text ∉ (front ++ old :: back).map Statement.text)
    (hinner : ∀ olds news, old.InnerLists new olds news → AreHeld olds news)
    : AreHeld (front ++ old :: back) (front' ++ new :: back') := by
  have hlength : front.length = front'.length := by
    rw [← List.length_map Statement.text, hfront, List.length_map]
  have hchanged : ∀ pair ∈ (front ++ old :: back).zip (front' ++ new :: back'),
      pair.1.text ≠ pair.2.text → pair = (old, new) := by
    intro pair hpair htext
    rw [List.zip_append hlength, List.zip_cons_cons, List.mem_append, List.mem_cons] at hpair
    rcases hpair with hpair | rfl | hpair
    . exact absurd (text_eq_of_mem_zip hfront pair hpair) htext
    . rfl
    . exact absurd (text_eq_of_mem_zip hback pair hpair) htext
  constructor
  . intro pair hpair htext
    rw [hchanged pair hpair htext]
    exact hagrees
  . intro pair hpair htext
    rw [hchanged pair hpair htext]
    exact hold
  . intro pair hpair htext
    rw [hchanged pair hpair htext]
    exact hnew
  . intro pair hpair htext
    rw [hchanged pair hpair htext]
    exact hinner

end AreHeld

namespace BodyDiff

variable {threshold : Float}

/-! The steps for lists of counterparts -/

theorem pairUp_counterparts {isPairable : Statement → Statement → Bool}
    {pairs : List (Statement × Statement)} (h : ∀ pair ∈ pairs, isPairable pair.1 pair.2)
    : pairUp isPairable (pairs.map Prod.fst) (pairs.map Prod.snd)
        =
      ([], pairs.map fun pair => (some pair.1, pair.2)) := by
  induction pairs with
  | nil => rfl
  | cons pair pairs ih =>
    rw [List.forall_mem_cons] at h
    have hspan : (pair.2 :: pairs.map Prod.snd).span (!isPairable pair.1 ·)
        = ([], pair.2 :: pairs.map Prod.snd) := by
      rw [List.span_eq_takeWhile_dropWhile, List.takeWhile_cons_of_neg (by simp [h.1]),
        List.dropWhile_cons_of_neg (by simp [h.1])]
    rw [List.map_cons, List.map_cons, pairUp, hspan]
    dsimp only
    rw [ih h.2]
    rfl

theorem exists_of_mem_steps_of_level {isPairable : Statement → Statement → Bool}
    {pairs : List (Statement × Statement)} (hlevel : IsLevel Statement.text pairs)
    (hpairable : ∀ pair ∈ pairs, pair.1.text ≠ pair.2.text → isPairable pair.1 pair.2)
    {step : Step Statement}
    (hstep : step ∈ steps isPairable (pairs.map Prod.fst) (pairs.map Prod.snd))
    : ∃ pair ∈ pairs, pair.1.text ≠ pair.2.text ∧ step = .pair pair.1 pair.2 := by
  obtain ⟨segment, hsegment, hstep⟩ := List.mem_flatMap.1 hstep
  cases segment with
  | run => contradiction
  | gap olds news =>
    obtain ⟨part, hpart, rfl, rfl, hne⟩ := exists_of_gap_mem_align hlevel hsegment
    have hparts : ∀ pair ∈ part, isPairable pair.1 pair.2 := by
      intro pair hpair
      exact hpairable pair (hpart hpair) (hne pair hpair)
    dsimp only at hstep
    rw [gapSteps, pairUp_counterparts hparts] at hstep
    dsimp only at hstep
    rw [List.map_nil, List.nil_append, List.map_map] at hstep
    obtain ⟨pair, hpair, rfl⟩ := List.mem_map.1 hstep
    exact ⟨pair, hpart hpair, hne pair hpair, rfl⟩

theorem isLevel_of_areHeld {olds news : List Statement} (h : AreHeld olds news)
    : IsLevel Statement.text (olds.zip news) := by
  cases h with
  | mk _ hold hnew =>
    intro pair hpair htext
    constructor
    . intro other hother heq
      apply hold pair hpair htext
      rw [heq]
      exact List.mem_map_of_mem (List.of_mem_zip hother).2
    . intro other hother heq
      apply hnew pair hpair htext
      rw [← heq]
      exact List.mem_map_of_mem (List.of_mem_zip hother).1

variable {old new : Statement} {olds news : List Statement} {place : Place}

theorem isPairable_of_agreesOutside (h : old.AgreesOutside new) (hparallel : old.Parallel new)
    : isPairable threshold old new := by
  cases h with
  | mk =>
    cases hparallel with
    | compound hkind =>
      rw [isPairable, Bool.and_eq_true]
      exact ⟨decide_eq_true hkind, rfl⟩

theorem pair_of_agreesOutside (h : old.AgreesOutside new) (hparallel : old.Parallel new)
    (hinner : ∀ olds news, old.InnerLists new olds news → ∀ place,
      lists threshold olds news place = .nothing)
    : pair threshold old new place = .nothing := by
  cases h with
  | mk hroles hnodup =>
    cases hparallel with
    | compound _ _ halternative =>
      rw [pair_compound, heading_self, Findings.nothing_append, Findings.append_eq_nothing,
        Findings.join_eq_nothing, clauseSteps_of_roles hnodup hroles,
        ← List.map_uncurry_zip_eq_zipWith, List.map_map]
      constructor
      . intro found hfound
        obtain ⟨⟨old, new⟩, hmem, rfl⟩ := List.mem_map.1 hfound
        exact hinner _ _ (.clause hmem) _
      . cases halternative with
        | none => rfl
        | some => exact hinner _ _ .alternative _

theorem lists_of_areHeld (h : AreHeld olds news)
    (hparallel : List.Forall₂ Statement.Parallel olds news) (place : Place)
    : lists threshold olds news place = .nothing := by
  induction h generalizing place with
  | @mk olds news hagrees hold hnew hinner ih =>
    have hzip := List.forall₂_iff_zip.1 hparallel
    have hsteps := @exists_of_mem_steps_of_level (isPairable threshold) _
      (isLevel_of_areHeld (.mk hagrees hold hnew hinner)) <| by
        intro pair hpair htext
        exact isPairable_of_agreesOutside (hagrees pair hpair htext) (hzip.2 hpair)
    rw [List.map_fst_zip (Nat.le_of_eq hzip.1), List.map_snd_zip (Nat.le_of_eq hzip.1.symm)]
      at hsteps
    rw [lists_eq, Findings.join_eq_nothing]
    intro found hfound
    obtain ⟨step, hstep, rfl⟩ := List.mem_map.1 hfound
    obtain ⟨pair, hpair, htext, rfl⟩ := hsteps hstep
    apply pair_of_agreesOutside (hagrees pair hpair htext) (hzip.2 hpair)
    intro innerOlds innerNews hinnerLists place
    exact ih pair hpair htext innerOlds innerNews hinnerLists
      ((hzip.2 hpair).innerLists hinnerLists) place

end BodyDiff

/-! Edited comments -/

namespace Node

def ownsComments (node : Node) : Bool :=
  node.isBlock || ["switch_block", "switch_block_statement_group"].contains node.kind

def code (node : Node) : List Node :=
  if node.ownsComments then node.children.filter (!·.isComment) else node.children

/--
Trees that differ only in comments of blocks, and in the texts of the nodes around these.
-/
inductive Recommented : Node → Node → Prop where
  | same {old new : Node} (h : old.Reformatted new) : Recommented old new
  | edited {old new : Node} (hkind : old.kind = new.kind) (hfield : old.field = new.field)
      (hnamed : old.named = new.named) (hparts : old.ownsComments ∨ old.children ≠ [])
      (hcode : List.Forall₂ Recommented old.code new.code) : Recommented old new

namespace Recommented

variable {old new : Node}

theorem kind_eq (h : old.Recommented new) : old.kind = new.kind := by
  cases h with
  | same h =>
    cases h with
    | mk hkind => exact hkind
  | edited hkind => exact hkind

theorem field_eq (h : old.Recommented new) : old.field = new.field := by
  cases h with
  | same h =>
    cases h with
    | mk _ hfield => exact hfield
  | edited _ hfield => exact hfield

theorem named_eq (h : old.Recommented new) : old.named = new.named := by
  cases h with
  | same h =>
    cases h with
    | mk _ _ hnamed => exact hnamed
  | edited _ _ hnamed => exact hnamed

theorem isComment_eq (h : old.Recommented new) : old.isComment = new.isComment := by
  rw [isComment, isComment, h.kind_eq]

theorem ownsComments_eq (h : old.Recommented new) : old.ownsComments = new.ownsComments := by
  rw [ownsComments, ownsComments, isBlock, isBlock, h.kind_eq]

theorem forall₂_code (h : old.Recommented new)
    : List.Forall₂ Recommented old.code new.code := by
  cases h with
  | same hsame =>
    have howns := ownsComments_eq (.same hsame)
    cases hsame with
    | mk _ _ _ _ _ hchildren =>
      have hchildren := hchildren.imp fun _ _ => Recommented.same
      rw [code, code, howns]
      split
      next =>
        apply forall₂_filter hchildren
        intro _ _ hchild
        rw [hchild.isComment_eq]
      next => exact hchildren
  | edited _ _ _ _ hcode => exact hcode

theorem forall₂_children (h : old.Recommented new) (howns : old.ownsComments = false)
    : List.Forall₂ Recommented old.children new.children := by
  have hcode := h.forall₂_code
  rw [code, code, ← h.ownsComments_eq, howns] at hcode
  exact hcode

theorem filter_children_eq {p : Node → Bool} (hp : ∀ node, node.isComment → p node = false)
    (node : Node) : node.children.filter p = node.code.filter p := by
  rw [code]
  split
  next =>
    rw [List.filter_filter]
    apply List.filter_congr
    intro child _
    cases hcomment : child.isComment with
    | true => rw [hp child hcomment, Bool.false_and]
    | false => simp
  next => rfl

theorem forall₂_filter_children (h : old.Recommented new) {p : Node → Bool}
    (hp : ∀ node, node.isComment → p node = false)
    (heq : ∀ child child', Recommented child child' → p child = p child')
    : List.Forall₂ Recommented (old.children.filter p) (new.children.filter p) := by
  rw [filter_children_eq hp, filter_children_eq hp]
  exact forall₂_filter h.forall₂_code heq

theorem forall₂_statements (h : old.Recommented new)
    : List.Forall₂ Recommented old.statements new.statements := by
  rw [statements, statements, isBlock, isBlock, h.kind_eq]
  split
  next =>
    rw [namedChildren, namedChildren, List.filter_filter, List.filter_filter]
    apply h.forall₂_filter_children
    . intro node hcomment
      rw [hcomment]
      rfl
    . intro _ _ hchild
      rw [hchild.isComment_eq, hchild.named_eq]
  next => exact .cons h .nil

theorem forall₂_statementsOf {old new : Option Node} (h : Option.Rel Recommented old new)
    : List.Forall₂ Recommented (statementsOf old) (statementsOf new) := by
  cases h with
  | none => exact .nil
  | some h => exact h.forall₂_statements

theorem rel_child? (h : old.Recommented new) (howns : old.ownsComments = false) (field : String)
    : Option.Rel Recommented (old.child? field) (new.child? field) := by
  apply rel_find? (h.forall₂_children howns)
  intro _ _ hchild
  rw [hchild.field_eq]

/-! The parts of compound statements -/

def Parts (old new : Clause Node) : Prop :=
  List.Forall₂ Recommented old.body new.body

theorem eq_block_or_ownsComments {node : Node} {layout : Layout}
    (h : Layout.ofKind? node.kind = some layout)
    : layout = .block ∨ node.ownsComments = false := by
  cases howns : node.ownsComments with
  | false => exact .inr rfl
  | true =>
    have hall : ∀ kind ∈ ["block", "constructor_body", "switch_block",
        "switch_block_statement_group"],
        Layout.ofKind? kind = some .block ∨ Layout.ofKind? kind = none := by
      simp only [List.forall_mem_cons]
      exact ⟨.inl rfl, .inr rfl, .inr rfl, .inr rfl, List.forall_mem_nil _⟩
    rw [ownsComments, isBlock, Bool.or_eq_true, List.contains_iff_mem, List.contains_iff_mem]
      at howns
    rcases hall node.kind (List.mem_append.2 howns) with hblock | hnone
    . exact .inl (Option.some.inj (h.symm.trans hblock))
    . rw [h] at hnone
      contradiction

theorem ownsComments_eq_false {node : Node}
    (h : node.kind ∈ ["if_statement", "catch_clause", "finally_clause"])
    : node.ownsComments = false := by
  have hall : ∀ kind ∈ ["if_statement", "catch_clause", "finally_clause"],
      (["block", "constructor_body"].contains kind
        || ["switch_block", "switch_block_statement_group"].contains kind) = false := by
    decide
  exact hall node.kind h

theorem part (h : old.Recommented new) (howns : old.ownsComments = false) (role field : String)
    : Parts (old.part role field) (new.part role field) := by
  exact forall₂_statementsOf (h.rel_child? howns field)

theorem forall₂_namedChildren (h : old.Recommented new) (howns : old.ownsComments = false)
    : List.Forall₂ Recommented old.namedChildren new.namedChildren := by
  exact forall₂_filter (h.forall₂_children howns) fun _ _ hchild => hchild.named_eq

theorem rel_handler? (h : old.Recommented new)
    : Option.Rel Parts old.handler? new.handler? := by
  rw [handler?, handler?, ← h.kind_eq]
  split
  next hkind =>
    have howns := ownsComments_eq_false (by simp [hkind] : old.kind ∈ _)
    exact .some (forall₂_statementsOf (h.rel_child? howns "body"))
  next =>
    split
    next hkind =>
      have howns := ownsComments_eq_false (by simp [hkind] : old.kind ∈ _)
      apply Option.Rel.some
      apply forall₂_statementsOf
      apply rel_find? (h.forall₂_namedChildren howns)
      intro _ _ hchild
      rw [hchild.kind_eq]
    next => exact .none

theorem rel_group? (h : old.Recommented new) : Option.Rel Parts old.group? new.group? := by
  rw [group?, group?, ← h.kind_eq]
  split
  next =>
    apply Option.Rel.some
    change List.Forall₂ Recommented (old.namedChildren.filter _) (new.namedChildren.filter _)
    rw [namedChildren, namedChildren, List.filter_filter, List.filter_filter]
    apply h.forall₂_filter_children
    . intro node hcomment
      rw [hcomment]
      simp
    . intro _ _ hchild
      rw [isLabel, isLabel, hchild.isComment_eq, hchild.named_eq, hchild.kind_eq]
  next => exact .none

theorem group?_of_isComment {node : Node} (h : node.isComment) : node.group? = none := by
  have hall : ∀ kind ∈ ["line_comment", "block_comment", "comment"],
      ¬["switch_block_statement_group", "switch_rule"].contains kind := by
    decide
  rw [group?, if_neg (hall node.kind (List.contains_iff_mem.1 h))]

theorem forall₂_filterMap_group? (h : old.Recommented new)
    : List.Forall₂ Parts (old.namedChildren.filterMap group?)
        (new.namedChildren.filterMap group?) := by
  have hcode : ∀ node : Node, node.namedChildren.filterMap group?
      = (node.children.filter fun child => child.named && !child.isComment).filterMap group? := by
    intro node
    rw [namedChildren, List.filterMap_filter, List.filterMap_filter]
    congr 1
    funext child
    cases hcomment : child.isComment with
    | true => simp [group?_of_isComment hcomment]
    | false => simp
  rw [hcode, hcode]
  refine List.rel_filterMap (fun _ _ hchild => rel_group? hchild) ?_
  apply h.forall₂_filter_children
  . intro node hcomment
    rw [hcomment]
    simp
  . intro _ _ hchild
    rw [hchild.isComment_eq, hchild.named_eq]

theorem forall₂_parts (h : old.Recommented new) {layout : Layout}
    (hlayout : Layout.ofKind? old.kind = some layout)
    : List.Forall₂ Parts (old.parts layout) (new.parts layout) := by
  have howns := eq_block_or_ownsComments hlayout
  cases layout with
  | block => exact .cons h.forall₂_statements .nil
  | conditional => exact .cons (h.part (howns.resolve_left (by simp)) _ _) .nil
  | guarded =>
    have howns := howns.resolve_left (by simp)
    apply List.Forall₂.cons (h.part howns _ _)
    exact List.rel_filterMap (fun _ _ hchild => rel_handler? hchild)
      (h.forall₂_namedChildren howns)
  | selection =>
    have hbody := h.rel_child? (howns.resolve_left (by simp)) "body"
    rw [parts, parts]
    revert hbody
    generalize old.child? "body" = oldBody
    generalize new.child? "body" = newBody
    intro hbody
    cases hbody with
    | none => exact .nil
    | some hbody => exact hbody.forall₂_filterMap_group?
  | bodied => exact .cons (h.part (howns.resolve_left (by simp)) _ _) .nil

theorem rel_alternative? (h : old.Recommented new)
    : Option.Rel Parts old.alternative? new.alternative? := by
  rw [alternative?, alternative?, ← h.kind_eq]
  split
  next hkind =>
    have howns := ownsComments_eq_false (by simp [hkind] : old.kind ∈ _)
    have hpart := h.rel_child? howns "alternative"
    revert hpart
    generalize old.child? "alternative" = oldPart
    generalize new.child? "alternative" = newPart
    intro hpart
    cases hpart with
    | none => exact .none
    | some hpart => exact .some hpart.forall₂_statements
  next => exact .none

end Recommented
end Node

theorem rel_map_of_mem {α β γ δ : Type} {r : α → β → Prop} {s : γ → δ → Prop} {old : Option α}
    {new : Option β} {f : α → γ} {g : β → δ} (h : Option.Rel r old new)
    (hfg : ∀ x, old = some x → ∀ y, r x y → s (f x) (g y))
    : Option.Rel s (old.map f) (new.map g) := by
  cases h with
  | none => exact .none
  | some h => exact .some (hfg _ rfl _ h)

theorem Statement.parallel_ofNode {old new : Node} (h : old.Recommented new)
    : (ofNode old).Parallel (ofNode new) := by
  cases hlayout : Layout.ofKind? old.kind with
  | none =>
    rw [ofNode_leaf hlayout, ofNode_leaf (h.kind_eq ▸ hlayout)]
    exact .leaf
  | some layout =>
    rw [ofNode_compound hlayout, ofNode_compound (h.kind_eq ▸ hlayout)]
    apply Parallel.compound h.kind_eq
    . rw [List.forall₂_map_left_iff, List.forall₂_map_right_iff]
      apply forall₂_imp_of_mem (h.forall₂_parts hlayout)
      intro part hpart part' _ hparts
      dsimp only
      rw [List.forall₂_map_left_iff, List.forall₂_map_right_iff]
      apply forall₂_imp_of_mem hparts
      intro child hchild child' _ hrecommented
      exact parallel_ofNode hrecommented
    . apply rel_map_of_mem h.rel_alternative?
      intro part hpart part' hparts
      dsimp only
      rw [List.forall₂_map_left_iff, List.forall₂_map_right_iff]
      apply forall₂_imp_of_mem hparts
      intro child hchild child' _ hrecommented
      exact parallel_ofNode hrecommented
termination_by sizeOf old
decreasing_by
  . exact Node.sizeOf_lt_of_mem_parts hlayout hpart hchild
  . exact Node.sizeOf_lt_of_alternative? hpart hchild

theorem Statement.parallel_ofBody {old new : Option Node}
    (h : Option.Rel Node.Recommented old new)
    : List.Forall₂ Parallel (ofBody old) (ofBody new) := by
  rw [ofBody, ofBody, List.forall₂_map_left_iff, List.forall₂_map_right_iff]
  exact (Node.Recommented.forall₂_statementsOf h).imp fun _ _ => parallel_ofNode

/--
Nothing is reported of edited comments between statements if each statement whose text changes is
compared by its parts and has its texts to itself.
-/
theorem bodyEdits_of_recommented (threshold : Float) {old new : Option Node}
    (h : Option.Rel Node.Recommented old new)
    (hheld : AreHeld (Statement.ofBody old) (Statement.ofBody new))
    : bodyEdits threshold (Statement.ofBody old) (Statement.ofBody new) = [] := by
  apply BodyDiff.bodyEdits_of_lists
  exact BodyDiff.lists_of_areHeld hheld (Statement.parallel_ofBody h) _

/-! Bodies with a comment, and without it -/

namespace Sample

def remark (start : Nat) : Node :=
  spanned "block_comment" "" start "/*c*/" []

def bodyOf (text : String) (inner : List Node) : Node :=
  spanned "block" "body" 0 text inner

def branching (branch : String) (start : Nat) (inner : List Node) : Node :=
  conditionalAt ("if (a) " ++ branch) start [spanned "block" "consequence" (start + 7) branch inner]

def remarkedFrom (start : Nat) : Node :=
  branching "\x7b /*c*/ f(); \x7d" start [remark (start + 9), callAt "f();" (start + 15)]

def plainFrom (start : Nat) : Node :=
  branching "\x7b f(); \x7d" start [callAt "f();" (start + 9)]

def remarkedWithin : Node :=
  branching "\x7b if (a) \x7b /*c*/ f(); \x7d f(); \x7d" 7 [remarkedFrom 16, callAt "f();" 38]

def plainWithin : Node :=
  branching "\x7b if (a) \x7b f(); \x7d f(); \x7d" 7 [plainFrom 16, callAt "f();" 32]

def remarkedBody : Node :=
  bodyOf "\x7b f(); if (a) \x7b if (a) \x7b /*c*/ f(); \x7d f(); \x7d f(); \x7d"
    [callAt "f();" 2, remarkedWithin, callAt "f();" 45]

def plainBody : Node :=
  bodyOf "\x7b f(); if (a) \x7b if (a) \x7b f(); \x7d f(); \x7d f(); \x7d"
    [callAt "f();" 2, plainWithin, callAt "f();" 39]

-- The texts are variables here, as it takes long to tell those of two versions apart.
section

variable {kind field text text' : String} {start start' : Nat} {inner inner' : List Node}

theorem recommented_spanned (kind field text : String) (start start' : Nat)
    : (spanned kind field start text []).Recommented (spanned kind field start' text []) :=
  .same (.mk rfl rfl rfl rfl (fun _ => rfl) .nil)

theorem recommented_owner (howns : (spanned kind "" 0 "" []).ownsComments = true)
    (h : List.Forall₂ Node.Recommented (inner.filter (!·.isComment))
      (inner'.filter (!·.isComment)))
    : (spanned kind field start text inner).Recommented
        (spanned kind field start' text' inner') := by
  have hcode : ∀ (start : Nat) (text : String) (inner : List Node),
      (spanned kind field start text inner).code = inner.filter (!·.isComment) := by
    intro start text inner
    exact if_pos howns
  refine .edited rfl rfl rfl (.inl howns) ?_
  rw [hcode, hcode]
  exact h

theorem recommented_parent (howns : (spanned kind "" 0 "" []).ownsComments = false)
    (hne : inner ≠ []) (h : List.Forall₂ Node.Recommented inner inner')
    : (spanned kind field start text inner).Recommented
        (spanned kind field start' text' inner') := by
  have hcode : ∀ (start : Nat) (text : String) (inner : List Node),
      (spanned kind field start text inner).code = inner := by
    intro start text inner
    exact if_neg (Bool.eq_false_iff.1 howns)
  refine .edited rfl rfl rfl (.inr hne) ?_
  rw [hcode, hcode]
  exact h

end

section

variable {start start' : Nat} {branch branch' : String} {inner inner' : List Node}

theorem recommented_branching
    (h : List.Forall₂ Node.Recommented (inner.filter (!·.isComment))
      (inner'.filter (!·.isComment)))
    : (branching branch start inner).Recommented (branching branch' start' inner') := by
  refine recommented_parent rfl (List.cons_ne_nil _ _) (.cons ?_ (.cons ?_ .nil))
  . exact recommented_spanned _ _ _ _ _
  . exact recommented_owner rfl h

theorem ofNode_branching (branch : String) (start : Nat) (inner : List Node)
    : Statement.ofNode (branching branch start inner)
        =
      .compound (.ofNode (branching branch start inner)) (Text.normalize "(a)")
        ((branching branch start inner).header .conditional)
        [⟨"then", .ofNode (spanned "block" "consequence" (start + 7) branch inner),
          (bodyOf branch inner).statements.map Statement.ofNode⟩]
        none := by
  have hkind : Layout.ofKind? (branching branch start inner).kind = some .conditional := by
    rfl
  have hcondition : (branching branch start inner).normalChildText "condition"
      = Text.normalize (Text.Utf8.toText "(a)".toUTF8) := by
    rfl
  have htext : Text.Utf8.toText "(a)".toUTF8 = "(a)" := by
    decide +kernel
  rw [Statement.ofNode_compound hkind, hcondition, htext]
  rfl

theorem agreesOutside_branching
    (hheader : (branching branch start inner).header .conditional
      = (branching branch' start' inner').header .conditional)
    : (Statement.ofNode (branching branch start inner)).AgreesOutside
        (Statement.ofNode (branching branch' start' inner')) := by
  rw [ofNode_branching, ofNode_branching, hheader]
  exact .mk rfl (List.nodup_singleton _)

theorem eq_of_innerLists_branching {olds news : List Statement}
    (h : (Statement.ofNode (branching branch start inner)).InnerLists
      (Statement.ofNode (branching branch' start' inner')) olds news)
    : olds = (bodyOf branch inner).statements.map Statement.ofNode
        ∧ news = (bodyOf branch' inner').statements.map Statement.ofNode := by
  rw [ofNode_branching, ofNode_branching] at h
  cases h with
  | clause hclause =>
    cases List.mem_singleton.1 hclause
    exact ⟨rfl, rfl⟩

end

theorem text_branching (branch : String) (start : Nat) (inner : List Node)
    : (Statement.ofNode (branching branch start inner)).text
        =
      Text.normalize (Text.Utf8.toText ("if (a) " ++ branch).toUTF8) :=
  Statement.text_ofNode _

theorem text_remarkedFrom (start : Nat)
    : (Statement.ofNode (remarkedFrom start)).text = "if (a) \x7b /*c*/ f(); \x7d" := by
  rw [remarkedFrom, text_branching]
  decide +kernel

theorem text_plainFrom (start : Nat)
    : (Statement.ofNode (plainFrom start)).text = "if (a) \x7b f(); \x7d" := by
  rw [plainFrom, text_branching]
  decide +kernel

theorem headers_within
    : (remarkedFrom 16).header .conditional = (plainFrom 16).header .conditional
      ∧ remarkedWithin.header .conditional = plainWithin.header .conditional := by
  decide +kernel

theorem text_remarkedWithin
    : (Statement.ofNode remarkedWithin).text
        =
      "if (a) \x7b if (a) \x7b /*c*/ f(); \x7d f(); \x7d" := by
  rw [remarkedWithin, text_branching]
  decide +kernel

theorem text_plainWithin
    : (Statement.ofNode plainWithin).text = "if (a) \x7b if (a) \x7b f(); \x7d f(); \x7d" := by
  rw [plainWithin, text_branching]
  decide +kernel

theorem areHeld_inner
    : AreHeld [Statement.ofNode (remarkedFrom 16), Statement.ofNode (callAt "f();" 38)]
        [Statement.ofNode (plainFrom 16), Statement.ofNode (callAt "f();" 32)] := by
  apply @AreHeld.around [] [_] [] [_] _ _ rfl
  . rw [List.map_singleton, List.map_singleton, text_callAt, text_callAt]
  . exact agreesOutside_branching headers_within.1
  . simp [text_remarkedFrom, text_plainFrom, text_callAt]
  . simp [text_remarkedFrom, text_plainFrom, text_callAt]
  . intro olds news hinner
    obtain ⟨rfl, rfl⟩ := eq_of_innerLists_branching hinner
    apply AreHeld.of_texts
    change [Statement.text _] = [Statement.text _]
    rw [text_callAt, text_callAt]

theorem areHeld_bodies
    : AreHeld (Statement.ofBody (some remarkedBody)) (Statement.ofBody (some plainBody)) := by
  apply @AreHeld.around [Statement.ofNode (callAt "f();" 2)] [Statement.ofNode (callAt "f();" 45)]
    [Statement.ofNode (callAt "f();" 2)] [Statement.ofNode (callAt "f();" 39)]
    (Statement.ofNode remarkedWithin) (Statement.ofNode plainWithin) rfl
  . rw [List.map_singleton, List.map_singleton, text_callAt, text_callAt]
  . exact agreesOutside_branching headers_within.2
  . simp [text_remarkedWithin, text_plainWithin, text_callAt]
  . simp [text_remarkedWithin, text_plainWithin, text_callAt]
  . intro olds news hinner
    obtain ⟨rfl, rfl⟩ := eq_of_innerLists_branching hinner
    exact areHeld_inner

theorem recommented_bodies
    : Option.Rel Node.Recommented (some remarkedBody) (some plainBody) := by
  have hinner : (remarkedFrom 16).Recommented (plainFrom 16) :=
    recommented_branching (.cons (recommented_spanned _ _ _ _ _) .nil)
  apply Option.Rel.some
  refine recommented_owner rfl (.cons ?_ (.cons ?_ (.cons ?_ .nil)))
  . exact recommented_spanned _ _ _ _ _
  . exact recommented_branching (.cons hinner (.cons (recommented_spanned _ _ _ _ _) .nil))
  . exact recommented_spanned _ _ _ _ _

end Sample

theorem bodyEdits_of_inner_remark
    : Option.Rel Node.Recommented (some Sample.remarkedBody) (some Sample.plainBody)
      ∧ AreHeld (Statement.ofBody (some Sample.remarkedBody))
        (Statement.ofBody (some Sample.plainBody))
      ∧ bodyEdits Thresholds.default.update (Statement.ofBody (some Sample.remarkedBody))
        (Statement.ofBody (some Sample.plainBody)) = [] :=
  ⟨Sample.recommented_bodies, Sample.areHeld_bodies,
    bodyEdits_of_recommented _ Sample.recommented_bodies Sample.areHeld_bodies⟩

/-! Edited comments that are reported -/

namespace BodyDiff

variable {threshold : Float}

theorem lists_of_bodyEdits_eq_nil {olds news : List Statement}
    (h : bodyEdits threshold olds news = []) : lists threshold olds news .body = .nothing := by
  rw [bodyEdits, List.append_eq_nil_iff] at h
  obtain ⟨hdeleted, hinserted⟩ := eq_nil_of_resolve h.2
  exact Findings.eq_nothing h.1 hdeleted hinserted

theorem align_of_taken {α κ : Type} [DecidableEq κ] {key : α → κ} {old next new new' : α}
    (hold : key old ≠ key next) (hnew : key new = key next) (hnew' : key new' = key next)
    : align key (fun _ => true) [old, next] [new, new']
        =
      [.gap [old] [], .run [next] [new], .gap [] [new']] := by
  have hsplit : Alignment.split key (fun _ => true) [old, next] [new, new'] = ⟨1, 0, 1⟩ := by
    simp [Alignment.split, Alignment.longestRun, Alignment.longestRun.go, Alignment.runLengths,
      Alignment.firstMax, Alignment.extend, Alignment.sharedFront, hold, hnew, hnew']
  have hfront : align key (fun _ => true) [old] [] = [.gap [old] []] := by
    rw [align]
    rfl
  have hback : align key (fun _ => true) [] [new'] = [.gap [] [new']] := by
    rw [align]
    rfl
  rw [align, hsplit]
  dsimp only
  rw [if_neg Nat.one_ne_zero]
  change align key _ [old] [] ++ .run [next] [new] :: align key _ [] [new'] = _
  rw [hfront, hback]
  rfl

theorem bodyEdits_ne_nil_of_taken {old next new new' : Statement} (hold : old.text ≠ next.text)
    (hnew : new.text = next.text) (hnew' : new'.text = next.text)
    : bodyEdits threshold [old, next] [new, new'] ≠ [] := by
  intro hedits
  have hdrop : .drop old ∈ steps (isPairable threshold) [old, next] [new, new'] := by
    rw [steps, align_of_taken hold hnew hnew']
    exact List.mem_cons_self
  obtain ⟨_, _, hpair, _⟩ := exists_pair_of_lists (lists_of_bodyEdits_eq_nil hedits) hdrop
  contradiction

theorem bodyEdits_ne_nil_of_leaves {old new : Statement} (hold : old.isCompound = false)
    (htext : old.text ≠ new.text) : bodyEdits threshold [old] [new] ≠ [] := by
  intro hedits
  cases unchanged_of_bodyEdits_eq_nil _ hedits with
  | cons hunchanged =>
    cases hunchanged with
    | text h => exact htext h
    | compound => contradiction

theorem bodyEdits_ne_nil_of_repeated_role {oldHead newHead : Fragment}
    {oldCondition oldHeader newCondition newHeader : String} {first second : Clause Statement}
    {clauses : List (Clause Statement)} {oldAlternative newAlternative : Option (Clause Statement)}
    (htext : oldHead.text ≠ newHead.text) (hrole : first.role = second.role)
    (hclauses : clauses.length = 2)
    : bodyEdits threshold
        [.compound oldHead oldCondition oldHeader [first, second] oldAlternative]
        [.compound newHead newCondition newHeader clauses newAlternative]
        ≠
      [] := by
  intro hedits
  cases unchanged_of_bodyEdits_eq_nil _ hedits with
  | cons hunchanged =>
    cases hunchanged with
    | text h => exact htext h
    | @compound _ _ _ _ _ _ counted _ _ _ hcounted hroles =>
      have hlatest : Table.latest Clause.role [first, second] = [second] := by
        simp [Table.latest, Table.put, hrole]
      have hlength := congrArg List.length hroles
      rw [List.length_map, List.length_map, hcounted.length_eq, hlatest, hclauses,
        List.length_singleton] at hlength
      contradiction

end BodyDiff

namespace Sample

def handed (branch : String) (inner : List Node) : Node :=
  spanned "expression_statement" "" 2 ("run(() -> " ++ branch ++ ");")
    [spanned "method_invocation" "" 2 ("run(() -> " ++ branch ++ ")")
      [spanned "argument_list" "arguments" 5 ("(() -> " ++ branch ++ ")")
        [spanned "lambda_expression" "" 6 ("() -> " ++ branch)
          [spanned "block" "body" 12 branch inner]]]]

def twiceLabelled (branch : String) (second : Nat) (inner : List Node) : Node :=
  selectionAt ("switch (a) \x7b case 1: " ++ branch ++ " case 1: g(); \x7d")
    ("\x7b case 1: " ++ branch ++ " case 1: g(); \x7d") 2
    [groupAt ("case 1: " ++ branch) "case 1" 15 (spanned "block" "" 23 branch inner),
      groupAt "case 1: g();" "case 1" second (callAt "g();" (second + 8))]

/-! The two versions of a body, with the comment and without it -/

def handedBodies : Node × Node :=
  (bodyOf "\x7b run(() -> \x7b /*c*/ f(); \x7d); \x7d"
    [handed "\x7b /*c*/ f(); \x7d" [remark 14, callAt "f();" 20]],
  bodyOf "\x7b run(() -> \x7b f(); \x7d); \x7d" [handed "\x7b f(); \x7d" [callAt "f();" 14]])

def labelledBodies : Node × Node :=
  (bodyOf "\x7b switch (a) \x7b case 1: \x7b /*c*/ f(); \x7d case 1: g(); \x7d \x7d"
    [twiceLabelled "\x7b /*c*/ f(); \x7d" 38 [remark 25, callAt "f();" 31]],
  bodyOf "\x7b switch (a) \x7b case 1: \x7b f(); \x7d case 1: g(); \x7d \x7d"
    [twiceLabelled "\x7b f(); \x7d" 32 [callAt "f();" 25]])

def repeatedBodies : Node × Node :=
  (bodyOf "\x7b if (a) \x7b /*c*/ f(); \x7d if (a) \x7b f(); \x7d \x7d"
    [remarkedFrom 2, plainFrom 24],
  bodyOf "\x7b if (a) \x7b f(); \x7d if (a) \x7b f(); \x7d \x7d" [plainFrom 2, plainFrom 18])

theorem recommented_handedBodies : handedBodies.1.Recommented handedBodies.2 := by
  refine recommented_owner rfl (.cons ?_ .nil)
  refine recommented_parent rfl (List.cons_ne_nil _ _) (.cons ?_ .nil)
  refine recommented_parent rfl (List.cons_ne_nil _ _) (.cons ?_ .nil)
  refine recommented_parent rfl (List.cons_ne_nil _ _) (.cons ?_ .nil)
  refine recommented_parent rfl (List.cons_ne_nil _ _) (.cons ?_ .nil)
  exact recommented_owner rfl (.cons (recommented_spanned _ _ _ _ _) .nil)

theorem recommented_labelledBodies : labelledBodies.1.Recommented labelledBodies.2 := by
  refine recommented_owner rfl (.cons ?_ .nil)
  refine recommented_parent rfl (List.cons_ne_nil _ _) (.cons ?_ (.cons ?_ .nil))
  . exact recommented_spanned _ _ _ _ _
  . refine recommented_owner rfl (.cons ?_ (.cons ?_ .nil))
    . refine recommented_owner rfl (.cons (recommented_spanned _ _ _ _ _) (.cons ?_ .nil))
      exact recommented_owner rfl (.cons (recommented_spanned _ _ _ _ _) .nil)
    . exact recommented_owner rfl
        (.cons (recommented_spanned _ _ _ _ _) (.cons (recommented_spanned _ _ _ _ _) .nil))

theorem recommented_repeatedBodies : repeatedBodies.1.Recommented repeatedBodies.2 := by
  refine recommented_owner rfl (.cons ?_ (.cons ?_ .nil))
  . exact recommented_branching (.cons (recommented_spanned _ _ _ _ _) .nil)
  . exact recommented_branching (.cons (recommented_spanned _ _ _ _ _) .nil)

theorem edits_of_handedBodies
    : bodyEdits Thresholds.default.update (Statement.ofBody (some handedBodies.1))
        (Statement.ofBody (some handedBodies.2)) ≠ [] := by
  change bodyEdits _ [Statement.ofNode _] [Statement.ofNode _] ≠ _
  apply BodyDiff.bodyEdits_ne_nil_of_leaves
  . rw [Statement.ofNode_leaf rfl]
    rfl
  . rw [Statement.text_ofNode, Statement.text_ofNode]
    decide +kernel

theorem edits_of_labelledBodies
    : bodyEdits Thresholds.default.update (Statement.ofBody (some labelledBodies.1))
        (Statement.ofBody (some labelledBodies.2)) ≠ [] := by
  have hkind : ∀ (branch : String) (second : Nat) (inner : List Node),
      Layout.ofKind? (twiceLabelled branch second inner).kind = some .selection := by
    intro branch second inner
    rfl
  change bodyEdits _ [Statement.ofNode (twiceLabelled _ _ _)]
    [Statement.ofNode (twiceLabelled _ _ _)] ≠ _
  rw [Statement.ofNode_compound (hkind _ _ _), Statement.ofNode_compound (hkind _ _ _)]
  apply BodyDiff.bodyEdits_ne_nil_of_repeated_role
  . change Text.normalize (Node.text _) ≠ Text.normalize (Node.text _)
    decide +kernel
  . rfl
  . rfl

theorem edits_of_repeatedBodies
    : bodyEdits Thresholds.default.update (Statement.ofBody (some repeatedBodies.1))
        (Statement.ofBody (some repeatedBodies.2)) ≠ [] := by
  apply BodyDiff.bodyEdits_ne_nil_of_taken
  . rw [text_remarkedFrom, text_plainFrom]
    decide
  . rw [text_plainFrom, text_plainFrom]
  . rw [text_plainFrom, text_plainFrom]

end Sample

/--
Two versions of a body that differ in comments alone, of which something is reported.
-/
structure ReportsComments (threshold : Float) (bodies : Node × Node) : Prop where
  isSpanned_old : bodies.1.IsSpanned
  isSpanned_new : bodies.2.IsSpanned
  recommented : bodies.1.Recommented bodies.2
  bodyEdits_ne_nil : bodyEdits threshold (Statement.ofBody (some bodies.1))
    (Statement.ofBody (some bodies.2)) ≠ []

/--
Without these conditions, this is not so: what is compared by its text is reported with its
comments, and so is a statement whose counterpart is taken, by a group with the same label or by an
equal statement.
-/
theorem edited_comments_are_reported
    : ReportsComments Thresholds.default.update Sample.handedBodies
      ∧ ReportsComments Thresholds.default.update Sample.labelledBodies
      ∧ ReportsComments Thresholds.default.update Sample.repeatedBodies := by
  refine ⟨?_, ?_, ?_⟩
  . exact ⟨by decide +kernel, by decide +kernel, Sample.recommented_handedBodies,
      Sample.edits_of_handedBodies⟩
  . exact ⟨by decide +kernel, by decide +kernel, Sample.recommented_labelledBodies,
      Sample.edits_of_labelledBodies⟩
  . exact ⟨by decide +kernel, by decide +kernel, Sample.recommented_repeatedBodies,
      Sample.edits_of_repeatedBodies⟩

end MethodHistory
