import MethodHistory.Text.Utf8
import MethodHistory.Text.Words

/-!
This module contains syntax trees as a parser hands them over: an outline of byte offsets, and the
nodes that it cuts out of a source.
-/

namespace MethodHistory

/--
A syntax tree in terms of byte offsets. The field is the name under which the parent knows the node,
empty if there is none; nodes that are not named are tokens of the grammar.
-/
structure Outline where
  kind : String
  start : Nat
  stop : Nat
  field : String
  named : Bool
  children : List Outline
  deriving Inhabited

structure Node where
  kind : String
  start : Nat
  bytes : ByteArray
  field : String
  named : Bool
  children : List Node

namespace Node

theorem sizeOf_lt_of_mem_children {child node : Node} (h : child ∈ node.children)
    : sizeOf child < sizeOf node := by
  have := List.sizeOf_lt_of_mem h
  cases node
  simp only [mk.sizeOf_spec] at *
  omega

def ofOutline (source : ByteArray) (outline : Outline) : Node :=
  { kind := outline.kind
    start := outline.start
    bytes := source.extract outline.start outline.stop
    field := outline.field
    named := outline.named
    children := outline.children.attach.map fun ⟨child, _⟩ => ofOutline source child }
termination_by outline
decreasing_by
  rename_i h
  have := List.sizeOf_lt_of_mem h
  cases outline
  simp only [Outline.mk.sizeOf_spec] at *
  omega

def text (node : Node) : String :=
  Text.Utf8.toText node.bytes

def stop (node : Node) : Nat :=
  node.start + node.bytes.size

def namedChildren (node : Node) : List Node :=
  node.children.filter (·.named)

def child? (node : Node) (field : String) : Option Node :=
  node.children.find? (·.field = field)

theorem sizeOf_lt_of_mem_namedChildren {child node : Node} (h : child ∈ node.namedChildren)
    : sizeOf child < sizeOf node :=
  sizeOf_lt_of_mem_children (List.mem_filter.1 h).1

theorem sizeOf_lt_of_child? {child node : Node} {field : String}
    (h : node.child? field = some child) : sizeOf child < sizeOf node :=
  sizeOf_lt_of_mem_children (List.mem_of_find?_eq_some h)

def childText (node : Node) (field : String) : String :=
  ((node.child? field).map text).getD ""

def isComment (node : Node) : Bool :=
  ["line_comment", "block_comment", "comment"].contains node.kind

end Node

/--
A source with the syntax tree of its grammar. Where the grammar finds errors, the tree may be
incomplete.
-/
structure Document where
  source : ByteArray
  hasError : Bool
  root : Node

def Document.lineAt (document : Document) (offset : Nat) : Nat :=
  1 + (document.source.extract 0 offset).toList.count 0x0A

end MethodHistory
