import MethodHistory.Syntax.Node

/-!
This module contains statements as the comparison of bodies sees them: a leaf is its text, a
compound statement is its head and the statement lists of its clauses. Comments between statements
are left out, and so are the braces around a body.
-/

namespace MethodHistory

structure Fragment where
  kind : String
  source : String
  text : String
  start : Nat

namespace Fragment

def ofNode (node : Node) : Fragment :=
  { kind := node.kind
    source := node.text
    text := Text.normalize node.text
    start := node.start }

def missing : Fragment :=
  ⟨"", "", "", 0⟩

end Fragment

structure Clause (σ : Type) where
  role : String
  head : Fragment
  body : List σ

def Clause.ofNode {σ : Type} (role : String) (node : Option Node) (body : List σ) : Clause σ :=
  ⟨role, (node.map Fragment.ofNode).getD .missing, body⟩

inductive Layout where
  | block
  | conditional
  | guarded
  | selection
  | bodied

namespace Layout

def ofKind? (kind : String) : Option Layout :=
  if kind = "block" then some block
  else if kind = "if_statement" then some conditional
  else if ["try_statement", "try_with_resources_statement"].contains kind then some guarded
  else if kind = "switch_expression" then some selection
  else if ["while_statement", "do_statement", "for_statement", "enhanced_for_statement",
      "synchronized_statement"].contains kind then some bodied
  else none

/--
The field of the part that the header stands in front of. A block has no header.
-/
def anchor : Layout → Option String
  | block => none
  | conditional => some "consequence"
  | guarded | selection | bodied => some "body"

end Layout

namespace Node

def isBlock (node : Node) : Bool :=
  ["block", "constructor_body"].contains node.kind

def statements (node : Node) : List Node :=
  if node.isBlock then node.namedChildren.filter (!·.isComment) else [node]

def statementsOf (part : Option Node) : List Node :=
  (part.map statements).getD []

def header (node : Node) (layout : Layout) : String :=
  match layout.anchor.bind node.child? with
  | some body => Text.normalize (Text.Utf8.toText (node.bytes.extract 0 (body.start - node.start)))
  | none => ""

def normalChildText (node : Node) (field : String) : String :=
  Text.normalize (node.childText field)

def part (node : Node) (role field : String) : Clause Node :=
  .ofNode role (node.child? field) (statementsOf (node.child? field))

def handler? (node : Node) : Option (Clause Node) :=
  if node.kind = "catch_clause" then
    let caught := node.namedChildren.find? (·.kind = "catch_formal_parameter")
    some <| .ofNode ("catch:" ++ Text.normalize ((caught.map text).getD "")) node
      (statementsOf (node.child? "body"))
  else if node.kind = "finally_clause" then
    some <| .ofNode "finally" node (statementsOf (node.namedChildren.find? (·.kind = "block")))
  else
    none

def isLabel (node : Node) : Bool :=
  node.kind = "switch_label"

def group? (node : Node) : Option (Clause Node) :=
  if ["switch_block_statement_group", "switch_rule"].contains node.kind then
    let labels := (node.namedChildren.filter isLabel).map fun label => Text.normalize label.text
    some <| .ofNode ("case:" ++ " ".intercalate labels) node
      (node.namedChildren.filter fun child => !child.isLabel && !child.isComment)
  else
    none

def parts (node : Node) (layout : Layout) : List (Clause Node) :=
  match layout with
  | .block => [.ofNode "block" node node.statements]
  | .conditional => [node.part "then" "consequence"]
  | .guarded => node.part "try" "body" :: node.namedChildren.filterMap handler?
  | .selection =>
    match node.child? "body" with
    | some body => body.namedChildren.filterMap group?
    | none => []
  | .bodied => [node.part "body" "body"]

def alternative? (node : Node) : Option (Clause Node) :=
  if node.kind = "if_statement" then
    (node.child? "alternative").map fun (part : Node) => .ofNode "else" (some part) part.statements
  else
    none

theorem sizeOf_le_of_mem_statements {child node : Node} (h : child ∈ node.statements)
    : sizeOf child ≤ sizeOf node := by
  rw [statements] at h
  split at h
  . exact Nat.le_of_lt (sizeOf_lt_of_mem_namedChildren (List.mem_filter.1 h).1)
  . exact Nat.le_of_eq (congrArg sizeOf (List.mem_singleton.1 h))

theorem sizeOf_le_of_mem_statementsOf {child node : Node} {part : Option Node}
    (h : child ∈ statementsOf part) (hpart : ∀ p, part = some p → sizeOf p ≤ sizeOf node)
    : sizeOf child ≤ sizeOf node := by
  cases part with
  | none => simp [statementsOf] at h
  | some p => exact Nat.le_trans (sizeOf_le_of_mem_statements h) (hpart p rfl)

theorem sizeOf_lt_of_mem_part {child node : Node} {role field : String}
    (h : child ∈ (node.part role field).body) : sizeOf child < sizeOf node := by
  rw [part, Clause.ofNode] at h
  cases hc : node.child? field with
  | none => simp [hc, statementsOf] at h
  | some p =>
    rw [hc] at h
    exact Nat.lt_of_le_of_lt (sizeOf_le_of_mem_statements h) (sizeOf_lt_of_child? hc)

theorem sizeOf_le_of_handler? {child node : Node} {clause : Clause Node}
    (hc : node.handler? = some clause) (h : child ∈ clause.body) : sizeOf child ≤ sizeOf node := by
  rw [handler?] at hc
  split at hc
  . cases hc
    exact sizeOf_le_of_mem_statementsOf h fun p hp => Nat.le_of_lt (sizeOf_lt_of_child? hp)
  . split at hc
    . cases hc
      exact sizeOf_le_of_mem_statementsOf h fun p hp =>
        Nat.le_of_lt (sizeOf_lt_of_mem_namedChildren (List.mem_of_find?_eq_some hp))
    . cases hc

theorem sizeOf_lt_of_group? {child node : Node} {clause : Clause Node}
    (hc : node.group? = some clause) (h : child ∈ clause.body) : sizeOf child < sizeOf node := by
  rw [group?] at hc
  split at hc
  . cases hc
    exact sizeOf_lt_of_mem_namedChildren (List.mem_filter.1 h).1
  . cases hc

theorem sizeOf_lt_of_mem_parts {child node : Node} {layout : Layout} {clause : Clause Node}
    (hl : Layout.ofKind? node.kind = some layout) (hc : clause ∈ node.parts layout)
    (h : child ∈ clause.body) : sizeOf child < sizeOf node := by
  cases layout with
  | block =>
    rw [List.mem_singleton.1 hc] at h
    have hb : node.kind = "block" := by
      rw [Layout.ofKind?] at hl
      split at hl
      . assumption
      . repeat' split at hl
        all_goals cases hl
    have : node.isBlock = true := by simp [isBlock, hb]
    rw [Clause.ofNode, statements, if_pos this] at h
    exact sizeOf_lt_of_mem_namedChildren (List.mem_filter.1 h).1
  | conditional =>
    rw [List.mem_singleton.1 hc] at h
    exact sizeOf_lt_of_mem_part h
  | guarded =>
    rcases List.mem_cons.1 hc with rfl | hc
    . exact sizeOf_lt_of_mem_part h
    . obtain ⟨p, hp, hc⟩ := List.mem_filterMap.1 hc
      exact Nat.lt_of_le_of_lt (sizeOf_le_of_handler? hc h) (sizeOf_lt_of_mem_namedChildren hp)
  | selection =>
    rw [parts] at hc
    split at hc
    . rename_i body hbody
      obtain ⟨p, hp, hc⟩ := List.mem_filterMap.1 hc
      exact Nat.lt_trans (sizeOf_lt_of_group? hc h)
        (Nat.lt_trans (sizeOf_lt_of_mem_namedChildren hp) (sizeOf_lt_of_child? hbody))
    . cases hc
  | bodied =>
    rw [List.mem_singleton.1 hc] at h
    exact sizeOf_lt_of_mem_part h

theorem sizeOf_lt_of_alternative? {child node : Node} {clause : Clause Node}
    (hc : node.alternative? = some clause) (h : child ∈ clause.body)
    : sizeOf child < sizeOf node := by
  rw [alternative?] at hc
  split at hc
  . obtain ⟨p, hp, rfl⟩ := Option.map_eq_some_iff.1 hc
    exact Nat.lt_of_le_of_lt (sizeOf_le_of_mem_statements h) (sizeOf_lt_of_child? hp)
  . cases hc

end Node

/--
A leaf, or a compound statement with its condition, the text in front of its body, its clauses and,
for a conditional, its alternative.
-/
inductive Statement where
  | leaf (head : Fragment)
  | compound (head : Fragment) (condition header : String) (clauses : List (Clause Statement))
      (alternative : Option (Clause Statement))

namespace Statement

def ofNode (node : Node) : Statement :=
  match _hl : Layout.ofKind? node.kind with
  | none => .leaf (.ofNode node)
  | some layout =>
    .compound (.ofNode node) (node.normalChildText "condition") (node.header layout)
      ((node.parts layout).attach.map fun ⟨part, _⟩ =>
        ⟨part.role, part.head, part.body.attach.map fun ⟨child, _⟩ => ofNode child⟩)
      (match _ha : node.alternative? with
        | none => none
        | some part =>
          some ⟨part.role, part.head, part.body.attach.map fun ⟨child, _⟩ => ofNode child⟩)
termination_by node
decreasing_by
  . exact Node.sizeOf_lt_of_mem_parts _hl ‹_› ‹_›
  . exact Node.sizeOf_lt_of_alternative? _ha ‹_›

def ofBody (body : Option Node) : List Statement :=
  (Node.statementsOf body).map ofNode

def head : Statement → Fragment
  | leaf head => head
  | compound head .. => head

def kind (statement : Statement) : String :=
  statement.head.kind

def text (statement : Statement) : String :=
  statement.head.text

def isCompound : Statement → Bool
  | leaf _ => false
  | compound .. => true

theorem sizeOf_body_lt (clause : Clause Statement) : sizeOf clause.body < sizeOf clause := by
  cases clause
  simp only [Clause.mk.sizeOf_spec]
  omega

theorem sizeOf_lt_of_mem_clause {statement : Statement} {clause : Clause Statement}
    (h : statement ∈ clause.body) : sizeOf statement < sizeOf clause :=
  Nat.lt_trans (List.sizeOf_lt_of_mem h) (sizeOf_body_lt clause)

section

variable {head : Fragment} {condition header : String} {clauses : List (Clause Statement)}
  {alternative : Option (Clause Statement)} {clause : Clause Statement}

theorem sizeOf_body_lt_of_mem (h : clause ∈ clauses)
    : sizeOf clause.body < sizeOf (compound head condition header clauses alternative) := by
  have := List.sizeOf_lt_of_mem h
  have := sizeOf_body_lt clause
  simp only [compound.sizeOf_spec]
  omega

theorem sizeOf_body_lt_of_alternative (h : clause ∈ alternative)
    : sizeOf clause.body < sizeOf (compound head condition header clauses alternative) := by
  have := sizeOf_body_lt clause
  cases h
  simp only [compound.sizeOf_spec, Option.some.sizeOf_spec]
  omega

end

def nested : Statement → List Fragment
  | leaf _ => []
  | compound _ _ _ clauses alternative =>
    (clauses.attach.flatMap fun ⟨clause, _hc⟩ =>
      clause.body.attach.flatMap fun ⟨statement, _hs⟩ => statement.head :: nested statement)
    ++ match alternative with
      | none => []
      | some clause =>
        clause.body.attach.flatMap fun ⟨statement, _hs⟩ => statement.head :: nested statement
termination_by statement => statement
decreasing_by
  . have := List.sizeOf_lt_of_mem _hc
    have := sizeOf_lt_of_mem_clause _hs
    simp only [compound.sizeOf_spec]
    omega
  . have := sizeOf_lt_of_mem_clause _hs
    simp only [compound.sizeOf_spec, Option.some.sizeOf_spec]
    omega

end Statement

/--
The fragments that come and go with a clause: those inside a handler. The statements of a group of a
selection are not followed.
-/
def Clause.nested (clause : Clause Statement) : List Fragment :=
  if ["catch_clause", "finally_clause"].contains clause.head.kind then
    clause.body.flatMap fun statement => statement.head :: statement.nested
  else
    []

end MethodHistory
