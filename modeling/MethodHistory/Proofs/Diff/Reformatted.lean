import MethodHistory.Diff.File
import MethodHistory.Proofs.Diff.Alike
import MethodHistory.Proofs.Text.Words

/-!
This module contains the syntax trees of one source in two layouts: they declare the same types and
fields, and the same methods but for the layout of their statements.
-/

namespace MethodHistory

section

variable {α β γ δ : Type} {r : α → β → Prop} {s : γ → δ → Prop} {as : List α} {bs : List β}

theorem forall₂_imp_of_mem {r' : α → β → Prop} (h : List.Forall₂ r as bs)
    (himp : ∀ a ∈ as, ∀ b ∈ bs, r a b → r' a b) : List.Forall₂ r' as bs := by
  induction h with
  | nil => exact .nil
  | cons hab _ ih =>
    apply List.Forall₂.cons
    . exact himp _ List.mem_cons_self _ List.mem_cons_self hab
    . apply ih
      intro a ha b hb
      exact himp a (List.mem_cons_of_mem _ ha) b (List.mem_cons_of_mem _ hb)

theorem forall₂_flatMap {f : α → List γ} {g : β → List δ} (h : List.Forall₂ r as bs)
    (hfg : ∀ a ∈ as, ∀ b, r a b → List.Forall₂ s (f a) (g b))
    : List.Forall₂ s (as.flatMap f) (bs.flatMap g) := by
  induction h with
  | nil => exact .nil
  | cons hab _ ih =>
    rw [List.flatMap_cons, List.flatMap_cons]
    apply List.rel_append
    . exact hfg _ List.mem_cons_self _ hab
    . exact ih fun a ha => hfg a (List.mem_cons_of_mem _ ha)

theorem forall₂_zip {cs : List γ} {ds : List δ} (h : List.Forall₂ r as bs)
    (h' : List.Forall₂ s cs ds)
    : List.Forall₂ (fun x y => r x.1 y.1 ∧ s x.2 y.2) (as.zip cs) (bs.zip ds) := by
  induction h generalizing cs ds with
  | nil => exact .nil
  | cons hab _ ih =>
    cases h' with
    | nil => exact .nil
    | cons hcd h' => exact .cons ⟨hab, hcd⟩ (ih h')

theorem map_eq_of_forall₂ {f : α → γ} {g : β → γ} (h : List.Forall₂ r as bs)
    (hfg : ∀ a b, r a b → f a = g b) : as.map f = bs.map g := by
  rw [map_eq_map_iff_forall₂]
  exact h.imp hfg

theorem forall₂_filter {p : α → Bool} {q : β → Bool} (h : List.Forall₂ r as bs)
    (hpq : ∀ a b, r a b → p a = q b) : List.Forall₂ r (as.filter p) (bs.filter q) := by
  apply List.rel_filter _ h
  intro a b hab
  dsimp only
  rw [hpq a b hab]

theorem rel_find? {p : α → Bool} {q : β → Bool} (h : List.Forall₂ r as bs)
    (hpq : ∀ a b, r a b → p a = q b) : Option.Rel r (as.find? p) (bs.find? q) := by
  induction h with
  | nil => exact .none
  | @cons a b as bs hab _ ih =>
    rw [List.find?_cons, List.find?_cons, hpq a b hab]
    cases q b with
    | true => exact .some hab
    | false => exact ih

end

namespace Node

/--
A tree in two layouts: the same nodes with texts that have the same words. Names are the same
letter by letter.
-/
inductive Reformatted : Node → Node → Prop
  | mk {old new : Node} (hkind : old.kind = new.kind) (hfield : old.field = new.field)
      (hnamed : old.named = new.named) (htext : Text.normalize old.text = Text.normalize new.text)
      (hname : old.field = "name" → old.text = new.text)
      (hchildren : List.Forall₂ Reformatted old.children new.children) : Reformatted old new

def isParameter (node : Node) : Bool :=
  ["formal_parameter", "spread_parameter"].contains node.kind

/--
Whether comments and the parts of parameters start without blanks, and the parts that are no
comments end without them. A grammar leaves the blanks around its tokens out.
-/
inductive IsFlush : Node → Prop
  | mk {node : Node} (hcomment : node.isComment → Text.IsFlushLeft node.text.toList)
      (hparts : node.isParameter → ∀ child ∈ node.children, Text.IsFlushLeft child.text.toList
        ∧ (child.field ≠ "" → Text.IsFlushRight child.text.toList))
      (hchildren : ∀ child ∈ node.children, IsFlush child) : IsFlush node

theorem IsFlush.isFlushLeft {node : Node} (h : node.IsFlush) (hcomment : node.isComment)
    : Text.IsFlushLeft node.text.toList := by
  cases h with
  | mk h => exact h hcomment

theorem IsFlush.parts {node child : Node} (h : node.IsFlush) (hparameter : node.isParameter)
    (hchild : child ∈ node.children)
    : Text.IsFlushLeft child.text.toList
        ∧ (child.field ≠ "" → Text.IsFlushRight child.text.toList) := by
  cases h with
  | mk _ h => exact h hparameter child hchild

structure Corresponds (old new : Node) : Prop where
  reformatted : old.Reformatted new
  old_isFlush : old.IsFlush
  new_isFlush : new.IsFlush

namespace Corresponds

variable {old new : Node}

theorem kind_eq (h : Corresponds old new) : old.kind = new.kind := by
  cases h.reformatted
  assumption

theorem field_eq (h : Corresponds old new) : old.field = new.field := by
  cases h.reformatted
  assumption

theorem named_eq (h : Corresponds old new) : old.named = new.named := by
  cases h.reformatted
  assumption

theorem normalize_text (h : Corresponds old new)
    : Text.normalize old.text = Text.normalize new.text := by
  cases h.reformatted
  assumption

theorem text_eq (h : Corresponds old new) (hname : old.field = "name") : old.text = new.text := by
  cases h.reformatted with
  | mk _ _ _ _ h => exact h hname

theorem isComment_eq (h : Corresponds old new) : old.isComment = new.isComment := by
  rw [isComment, h.kind_eq, isComment]

theorem children (h : Corresponds old new)
    : List.Forall₂ Corresponds old.children new.children := by
  cases h.reformatted with
  | mk _ _ _ _ _ hchildren =>
    apply forall₂_imp_of_mem hchildren
    intro child hchild child' hchild' hreformatted
    cases h.old_isFlush with
    | mk _ _ hold =>
      cases h.new_isFlush with
      | mk _ _ hnew => exact ⟨hreformatted, hold child hchild, hnew child' hchild'⟩

theorem namedChildren (h : Corresponds old new)
    : List.Forall₂ Corresponds old.namedChildren new.namedChildren :=
  forall₂_filter h.children fun _ _ hchild => hchild.named_eq

theorem child? (h : Corresponds old new) (field : String)
    : Option.Rel Corresponds (old.child? field) (new.child? field) := by
  apply rel_find? h.children
  intro child child' hchild
  rw [hchild.field_eq]

theorem normalize_childText (h : Corresponds old new) (field : String)
    : Text.normalize (old.childText field) = Text.normalize (new.childText field) := by
  have hchild := h.child? field
  rw [childText, childText]
  generalize old.child? field = child at *
  generalize new.child? field = child' at *
  cases hchild with
  | none => rfl
  | some hchild => exact hchild.normalize_text

theorem childText_name (h : Corresponds old new) : old.childText "name" = new.childText "name" := by
  have hchild := h.child? "name"
  have hfield : ∀ child, old.child? "name" = some child → child.field = "name" := by
    intro child hfound
    have hfield := List.find?_some hfound
    exact of_decide_eq_true hfield
  rw [childText, childText]
  generalize old.child? "name" = child at *
  generalize new.child? "name" = child' at *
  cases hchild with
  | none => rfl
  | @some child child' hchild => exact hchild.text_eq (hfield child rfl)

end Corresponds

/-! Types -/

def typesAt (outer : String) (child : Node) : List TypeDeclaration :=
  if child.isTypeDeclaration then
    let name := child.childText "name"
    let name := if outer.isEmpty then name else outer ++ "." ++ name
    ⟨name, child.kind, child.child? "body"⟩ ::
      match child.child? "body" with
      | some body => types.go name body
      | none => []
  else if child.isContainer then
    types.go outer child
  else
    []

theorem types_go_eq (outer : String) (node : Node)
    : types.go outer node = node.namedChildren.flatMap (typesAt outer) := by
  rw [types.go]
  conv_rhs => rw [← List.attach_map_subtype_val node.namedChildren, List.flatMap_map]
  congr 1
  funext ⟨child, hchild⟩
  rw [typesAt]
  dsimp only
  split
  next =>
    congr 1
    split
    next hbody => rw [hbody]
    next hbody => rw [hbody]
  next => rfl

end Node

structure TypeDeclaration.Corresponds (old new : TypeDeclaration) : Prop where
  name_eq : old.name = new.name
  kind_eq : old.kind = new.kind
  body : Option.Rel Node.Corresponds old.body new.body

namespace Node.Corresponds

theorem types_go {old new : Node} (h : Corresponds old new) (outer : String)
    : List.Forall₂ TypeDeclaration.Corresponds (types.go outer old) (types.go outer new) := by
  rw [types_go_eq, types_go_eq]
  apply forall₂_flatMap h.namedChildren
  intro child hchild child' h
  rw [typesAt, typesAt, isTypeDeclaration, isTypeDeclaration, isContainer, isContainer, h.kind_eq,
    h.childText_name]
  split
  next =>
    have hbody := h.child? "body"
    have hnested : ∀ outer body body', child.child? "body" = some body → body.Corresponds body' →
        List.Forall₂ TypeDeclaration.Corresponds (types.go outer body) (types.go outer body') := by
      intro outer body body' hfound hbody
      exact hbody.types_go outer
    refine .cons ⟨rfl, rfl, hbody⟩ ?_
    generalize child.child? "body" = body at *
    generalize child'.child? "body" = body' at *
    cases hbody with
    | none => exact .nil
    | some hbody => exact hnested _ _ _ rfl hbody
  next =>
    split
    next => exact h.types_go outer
    next => exact .nil
termination_by sizeOf old
decreasing_by
  . exact sizeOf_lt_of_mem_namedChildren hchild
  . exact Nat.lt_trans (sizeOf_lt_of_child? hfound) (sizeOf_lt_of_mem_namedChildren hchild)

variable {old new : Node}

theorem types (h : Corresponds old new)
    : List.Forall₂ TypeDeclaration.Corresponds old.types new.types :=
  h.types_go ""

end Node.Corresponds

/-! Members -/

def SiblingsCorrespond (old new : Option Node × Node) : Prop :=
  Option.Rel Node.Corresponds old.1 new.1 ∧ Node.Corresponds old.2 new.2

theorem Node.Corresponds.siblings {old new : Node} (h : Corresponds old new)
    : List.Forall₂ SiblingsCorrespond old.siblings new.siblings := by
  apply forall₂_zip _ h.namedChildren
  apply List.Forall₂.cons .none
  rw [List.forall₂_map_left_iff, List.forall₂_map_right_iff]
  exact h.namedChildren.imp fun _ _ hchild => .some hchild

theorem TypeDeclaration.Corresponds.members {old new : TypeDeclaration} (h : Corresponds old new)
    : List.Forall₂ SiblingsCorrespond old.members new.members := by
  have hbody := h.body
  rw [TypeDeclaration.members, TypeDeclaration.members]
  generalize old.body = body at *
  generalize new.body = body' at *
  cases hbody with
  | none => exact .nil
  | some hbody =>
    apply forall₂_flatMap hbody.siblings
    rintro ⟨previous, member⟩ - ⟨previous', member'⟩ hsiblings
    have hmember : member.Corresponds member' := hsiblings.2
    dsimp only
    rw [hmember.kind_eq]
    split
    next => exact hmember.siblings
    next => exact .cons hsiblings .nil

theorem Node.Corresponds.map_fieldKey {old new : Node} (h : Corresponds old new)
    : old.fields.map FileDiff.fieldKey = new.fields.map FileDiff.fieldKey := by
  have hfields : List.Forall₂ (fun one other : FieldDeclaration =>
      FileDiff.fieldKey one = FileDiff.fieldKey other) old.fields new.fields := by
    rw [fields, fields]
    apply forall₂_flatMap h.types
    intro type _ type' htype
    apply forall₂_flatMap htype.members
    rintro ⟨_, member⟩ - ⟨_, member'⟩ hsiblings
    have hmember : member.Corresponds member' := hsiblings.2
    dsimp only
    rw [hmember.kind_eq]
    split
    next =>
      rw [List.forall₂_map_left_iff, List.forall₂_map_right_iff]
      apply (forall₂_filter hmember.namedChildren _).imp
      . intro declarator declarator' hdeclarator
        rw [FileDiff.fieldKey, FileDiff.fieldKey, htype.name_eq, hdeclarator.childText_name]
      . intro declarator declarator' hdeclarator
        rw [hdeclarator.kind_eq]
    next => exact .nil
  exact map_eq_of_forall₂ hfields fun _ _ hkey => hkey

/-! Methods -/

namespace Node.Corresponds

variable {old new : Node}

theorem words_text (h : Corresponds old new)
    : Text.words old.text.toList = Text.words new.text.toList :=
  Text.normalize_eq_iff.1 h.normalize_text

theorem accessOfNode (h : Corresponds old new) (default : Access)
    : Access.ofNode old default = Access.ofNode new default := by
  have hmodifiers : (old.children.filter (·.kind = "modifiers")).map
      (fun modifiers => Access.ofModifiers? modifiers.text)
      = (new.children.filter (·.kind = "modifiers")).map
        fun modifiers => Access.ofModifiers? modifiers.text := by
    apply map_eq_of_forall₂ (forall₂_filter h.children _)
    . intro modifiers modifiers' h
      rw [Access.ofModifiers?, h.words_text, Access.ofModifiers?]
    . intro child child' hchild
      rw [hchild.kind_eq]
  have hfound := congrArg (List.findSome? id) hmodifiers
  rw [List.findSome?_map, List.findSome?_map] at hfound
  exact congrArg (Option.getD · default) hfound

theorem texts_statements (h : Corresponds old new)
    : old.statements.map (fun node => Text.normalize node.text)
        =
      new.statements.map fun node => Text.normalize node.text := by
  rw [statements, statements, isBlock, isBlock, h.kind_eq]
  split
  next =>
    apply map_eq_of_forall₂ (forall₂_filter h.namedChildren _)
    . intro _ _ hchild
      exact hchild.normalize_text
    . intro _ _ hchild
      rw [hchild.isComment_eq]
  next => rw [List.map_singleton, List.map_singleton, h.normalize_text]

end Node.Corresponds

theorem Statement.text_ofNode (node : Node)
    : (Statement.ofNode node).text = Text.normalize node.text := by
  rw [ofNode]
  split <;> rfl

theorem Statement.kind_ofNode (node : Node) : (Statement.ofNode node).kind = node.kind := by
  rw [ofNode]
  split <;> rfl

theorem Statement.ofNode_leaf {node : Node} (h : Layout.ofKind? node.kind = none)
    : ofNode node = .leaf (.ofNode node) := by
  rw [ofNode]
  split
  next => rfl
  next layout hlayout =>
    rw [hlayout] at h
    contradiction

theorem Statement.ofNode_compound {node : Node} {layout : Layout}
    (h : Layout.ofKind? node.kind = some layout)
    : ofNode node
        =
      .compound (.ofNode node) (node.normalChildText "condition") (node.header layout)
        ((node.parts layout).map fun part => ⟨part.role, part.head, part.body.map ofNode⟩)
        (node.alternative?.map fun part => ⟨part.role, part.head, part.body.map ofNode⟩) := by
  rw [ofNode]
  split
  next hlayout =>
    rw [hlayout] at h
    contradiction
  next other hlayout =>
    obtain rfl := Option.some.inj (hlayout.symm.trans h)
    congr 1
    . simp
    . split
      next hnone =>
        rw [hnone]
        rfl
      next hsome =>
        rw [hsome]
        simp

theorem Statement.map_text_ofBody (body : Option Node)
    : (ofBody body).map text
        =
      (Node.statementsOf body).map fun node => Text.normalize node.text := by
  rw [ofBody, List.map_map]
  congr 1
  funext node
  exact text_ofNode node

theorem Statement.map_text_ofBody_congr {old new : Option Node}
    (h : Option.Rel Node.Corresponds old new)
    : (ofBody old).map text = (ofBody new).map text := by
  rw [map_text_ofBody, map_text_ofBody]
  cases h with
  | none => rfl
  | some h => exact h.texts_statements

theorem Method.normalize_docOf {old new : Option Node} (h : Option.Rel Node.Corresponds old new)
    : Text.normalize ((docOf old).getD "") = Text.normalize ((docOf new).getD "") := by
  cases h with
  | none => rfl
  | @some old new h =>
    rw [docOf, docOf, Option.filter_some, Option.filter_some, h.isComment_eq]
    split
    next hcomment =>
      have hstarts : old.text.startsWith "/**" = new.text.startsWith "/**" := by
        have hpart : "/**".toList.all (!Text.isBlank ·) := by
          decide
        have hold := h.old_isFlush.isFlushLeft (h.isComment_eq.trans hcomment)
        have hnew := h.new_isFlush.isFlushLeft hcomment
        rw [Bool.eq_iff_iff, String.startsWith_string_iff, String.startsWith_string_iff,
          Text.isPrefix_iff_of_isFlushLeft hold hpart, Text.isPrefix_iff_of_isFlushLeft hnew hpart,
          h.words_text]
      rw [Option.bind_some, Option.bind_some, hstarts]
      split
      next => exact h.normalize_text
      next => rfl
    next => rfl

/-! Parameters -/

namespace Node

theorem IsFlush.childText {node : Node} (h : node.IsFlush) (hparameter : node.isParameter)
    {field : String} (hfield : field ≠ "")
    : Text.IsFlushLeft (node.childText field).toList
        ∧ Text.IsFlushRight (node.childText field).toList := by
  rw [Node.childText]
  cases hfound : node.child? field with
  | none =>
    constructor
    all_goals
      intro c hc
      cases hc
  | some child =>
    have hchild := h.parts hparameter (List.mem_of_find?_eq_some hfound)
    have hname := List.find?_some hfound
    rw [decide_eq_true_iff] at hname
    exact ⟨hchild.1, hchild.2 (hname ▸ hfield)⟩

namespace Corresponds

variable {old new : Node}

theorem isParameter_eq (h : Corresponds old new) : old.isParameter = new.isParameter := by
  rw [isParameter, h.kind_eq, isParameter]

theorem normalize_type_dimensions (h : Corresponds old new) (hnew : new.isParameter)
    : Text.normalize (old.childText "type" ++ old.childText "dimensions")
        =
      Text.normalize (new.childText "type" ++ new.childText "dimensions") := by
  have htype : "type" ≠ "" := by
    decide
  have hdimensions : "dimensions" ≠ "" := by
    decide
  have hold := h.isParameter_eq.trans hnew
  rw [Text.normalize_eq_iff, String.toList_append, String.toList_append]
  apply Text.words_append_congr
  . exact (h.old_isFlush.childText hold htype).2
  . exact (h.new_isFlush.childText hnew htype).2
  . exact (h.old_isFlush.childText hold hdimensions).1
  . exact (h.new_isFlush.childText hnew hdimensions).1
  . exact Text.normalize_eq_iff.1 (h.normalize_childText "type")
  . exact Text.normalize_eq_iff.1 (h.normalize_childText "dimensions")

theorem isEmpty_text (h : Corresponds old new) (hold : Text.IsFlushLeft old.text.toList)
    (hnew : Text.IsFlushLeft new.text.toList) : old.text.isEmpty = new.text.isEmpty := by
  rw [Bool.eq_iff_iff, String.isEmpty_iff, String.isEmpty_iff, ← String.toList_eq_nil_iff,
    ← String.toList_eq_nil_iff, Text.eq_nil_iff_of_isFlushLeft hold,
    Text.eq_nil_iff_of_isFlushLeft hnew, h.words_text]

theorem normalize_spreadType (h : Corresponds old new) (hnew : new.isParameter) {p : Node → Bool}
    (hp : ∀ child child', Corresponds child child' → p child = p child')
    : Text.normalize ((((old.namedChildren.filter p).map text).find? (!·.isEmpty)).getD "")
        =
      Text.normalize ((((new.namedChildren.filter p).map text).find? (!·.isEmpty)).getD "") := by
  have hold := h.isParameter_eq.trans hnew
  have hchildren : List.Forall₂ (fun child child' => Corresponds child child'
      ∧ child.text.isEmpty = child'.text.isEmpty)
      (old.namedChildren.filter p) (new.namedChildren.filter p) := by
    apply forall₂_imp_of_mem (forall₂_filter h.namedChildren hp)
    intro child hchild child' hchild' hcorresponds
    have hmem := (List.mem_filter.1 (List.mem_filter.1 hchild).1).1
    have hmem' := (List.mem_filter.1 (List.mem_filter.1 hchild').1).1
    exact ⟨hcorresponds, hcorresponds.isEmpty_text (h.old_isFlush.parts hold hmem).1
      (h.new_isFlush.parts hnew hmem').1⟩
  rw [List.find?_map, List.find?_map]
  have hfound := rel_find? hchildren (p := fun child => !child.text.isEmpty)
    (q := fun child => !child.text.isEmpty) fun _ _ hchild => by rw [hchild.2]
  change Text.normalize (((List.find? (fun child => !child.text.isEmpty) _).map text).getD "")
    = Text.normalize (((List.find? (fun child => !child.text.isEmpty) _).map text).getD "")
  generalize List.find? _ (old.namedChildren.filter p) = found at *
  generalize List.find? _ (new.namedChildren.filter p) = found' at *
  cases hfound with
  | none => rfl
  | some hfound => exact hfound.1.normalize_text

theorem childText_declarator (h : Corresponds old new)
    : ((old.namedChildren.filter (·.kind = "variable_declarator")).getLast?.map fun declarator =>
        declarator.childText "name")
        =
      (new.namedChildren.filter (·.kind = "variable_declarator")).getLast?.map fun declarator =>
        declarator.childText "name" := by
  rw [← List.getLast?_map, ← List.getLast?_map]
  congr 1
  apply map_eq_of_forall₂ (forall₂_filter h.namedChildren _)
  . intro _ _ hchild
    exact hchild.childText_name
  . intro _ _ hchild
    rw [hchild.kind_eq]

end Corresponds
end Node

theorem Parameter.ofNode?_congr {old new : Node} (h : old.Corresponds new)
    : ofNode? old = ofNode? new := by
  rw [ofNode?, ofNode?, h.kind_eq]
  split
  next hkind =>
    have hparameter : new.isParameter := by
      rw [Node.isParameter, hkind]
      decide
    rw [h.normalize_type_dimensions hparameter, h.childText_name]
  next =>
    split
    next hkind =>
      have hparameter : new.isParameter := by
        rw [Node.isParameter, hkind]
        decide
      dsimp only
      rw [List.partition_eq_filter_filter, List.partition_eq_filter_filter]
      dsimp only
      rw [List.filter_filter, List.filter_filter, h.normalize_spreadType hparameter,
        h.childText_declarator]
      intro child child' hchild
      simp [hchild.kind_eq]
    next => rfl

namespace Method

variable {old new : Node} {previous previous' : Option Node}

theorem parameters_ofNode (h : old.Corresponds new) (owner : String) (default : Access)
    (previous previous' : Option Node)
    : (ofNode owner default previous old).parameters
        =
      (ofNode owner default previous' new).parameters := by
  have hlist := h.child? "parameters"
  rw [ofNode, ofNode]
  dsimp only
  generalize old.child? "parameters" = list at *
  generalize new.child? "parameters" = list' at *
  cases hlist with
  | none => rfl
  | @some list list' hlist =>
    have hparameters := congrArg (List.filterMap id)
      (map_eq_of_forall₂ hlist.namedChildren fun _ _ h => Parameter.ofNode?_congr h)
    rw [List.filterMap_map, List.filterMap_map] at hparameters
    exact hparameters

theorem signature_ofNode (h : old.Corresponds new) (owner : String) (default : Access)
    (previous previous' : Option Node)
    : (ofNode owner default previous old).signature
        =
      (ofNode owner default previous' new).signature := by
  have hname : (ofNode owner default previous old).name
      = (ofNode owner default previous' new).name := h.childText_name
  have howner : (ofNode owner default previous old).owner
      = (ofNode owner default previous' new).owner := rfl
  rw [signature, signature, parameterTypes, parameterTypes, hname, howner,
    parameters_ofNode h owner default previous previous']

theorem alike_ofNode (h : old.Corresponds new) (hprevious : Option.Rel Node.Corresponds previous
    previous') {owner : String} {default : Access}
    (hnodup : ((ofNode owner default previous' new).parameters.map Parameter.name).Nodup)
    : (ofNode owner default previous old).Alike (ofNode owner default previous' new) where
  name_eq := h.childText_name
  access_eq := h.accessOfNode default
  returnType_eq := by
    have hreturned : old.normalChildText "type" = new.normalChildText "type" :=
      h.normalize_childText "type"
    rw [ofNode, ofNode]
    dsimp only
    rw [hreturned, h.kind_eq]
  parameters_eq := parameters_ofNode h owner default previous previous'
  nodup := hnodup
  doc_eq := normalize_docOf hprevious
  texts_eq := Statement.map_text_ofBody_congr (h.child? "body")

end Method

structure Method.Corresponds (old new : Method) : Prop where
  signature_eq : old.signature = new.signature
  alike : (new.parameters.map Parameter.name).Nodup → old.Alike new

theorem Node.Corresponds.methods {old new : Node} (h : Corresponds old new)
    : List.Forall₂ Method.Corresponds old.methods new.methods := by
  rw [Node.methods, Node.methods]
  apply forall₂_flatMap h.types
  intro type _ type' htype
  rw [htype.kind_eq, htype.name_eq]
  dsimp only
  generalize (if type'.kind = "interface_declaration" then Access.everywhere else .package)
    = default
  apply List.rel_filterMap _ htype.members
  rintro ⟨previous, member⟩ ⟨previous', member'⟩ hsiblings
  have hmember : member.Corresponds member' := hsiblings.2
  dsimp only
  rw [hmember.kind_eq]
  split
  next =>
    apply Option.Rel.some
    constructor
    . exact Method.signature_ofNode hmember type'.name default previous previous'
    . intro hnodup
      exact Method.alike_ofNode hmember hsiblings.1 hnodup
  next => exact .none

end MethodHistory
