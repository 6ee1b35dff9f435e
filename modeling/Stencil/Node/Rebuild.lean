import Stencil.Node

/-!
# Rebuilding trees

`rebuild` walks a tree and puts something in the place of slots and inclusions. What is put there
is not walked again. Adjacent texts are joined at every level of the result.
-/

set_option autoImplicit false

namespace Stencil

/-- What to put in the place of slots and inclusions. -/
structure Filling where
  /-- In the place of a slot, from its name, its body, and its body rebuilt. -/
  slot : Text → List Node → List Node → List Node
  /-- In the place of an inclusion. -/
  inclusion : Text → List Node

/-- Nodes with adjacent texts joined. -/
def merged (nodes : List Node) : List Node := pushNodes [] nodes

mutual

/-- What stands in the place of a node. -/
def rebuildNode (filling : Filling) : Node → List Node
  | .text content => [.text content]
  | .value key escape => [.value key escape]
  | .block kind key body otherwise =>
    [.block kind key (merged (rebuildAll filling body)) (rebuildBody filling otherwise)]
  | .slot name body => filling.slot name body (merged (rebuildAll filling body))
  | .inclusion name => filling.inclusion name
  | .call name arguments body => [.call name arguments (rebuildBody filling body)]

/-- What stands in the places of nodes, one after the other. -/
def rebuildAll (filling : Filling) : List Node → List Node
  | [] => []
  | node :: rest => rebuildNode filling node ++ rebuildAll filling rest

/-- A body that may be absent, rebuilt. -/
def rebuildBody (filling : Filling) : Option (List Node) → Option (List Node)
  | none => none
  | some body => some (merged (rebuildAll filling body))

end

/-- The tree with slots and inclusions replaced. -/
def rebuild (filling : Filling) (nodes : List Node) : List Node :=
  merged (rebuildAll filling nodes)

end Stencil
