import MonkeySource.Program.Basic

set_option autoImplicit false

/-!
# Traversal

Visits every node of a tree, each before its children and the children in order.
-/

namespace MonkeySource

/-- What is noted of a node on a visit. The depth counts from the node where the walk began. -/
structure Visit where
  depth : Nat
  label : String
  tokenLiteral : String
  text : String
  childCount : Nat
  deriving DecidableEq, Repr

namespace Node

def visit (node : Node) (depth : Nat) : Visit :=
  ⟨depth, node.label, node.tokenLiteral, node.text, node.children.length⟩

/-- The visits below a node that is met at a depth, its own first. -/
def walkFrom (depth : Nat) (node : Node) : List Visit :=
  node.visit depth :: node.children.attach.flatMap fun ⟨child, _⟩ => child.walkFrom (depth + 1)
termination_by node.height
decreasing_by exact height_lt_of_mem_children ‹_›

def walk (node : Node) : List Visit := node.walkFrom 0

theorem walkFrom_eq (depth : Nat) (node : Node) :
    node.walkFrom depth = node.visit depth :: node.children.flatMap (walkFrom (depth + 1)) := by
  rw [walkFrom]
  simp [List.flatMap_subtype, List.unattach_attach]

end Node

end MonkeySource
