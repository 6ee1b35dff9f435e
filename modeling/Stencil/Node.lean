import Stencil.Tag

/-!
# The directive tree

A parsed template is a list of nodes. `pushNode` adds a node to the end of a list and joins a text
to a text that stands there, so that lists built with it have no two texts side by side.
-/

set_option autoImplicit false

namespace Stencil

/-- A node of the directive tree. -/
inductive Node where
  /-- Literal text. -/
  | text (content : Text)
  /-- The value of a key, escaped or as it is. -/
  | value (key : Text) (escape : Bool)
  /-- A block over a key, with what stands after its `:key` tag if it has one. -/
  | block (kind : BlockKind) (key : Text) (body : List Node) (otherwise : Option (List Node))
  /-- A named region that other templates can fill. -/
  | slot (name : Text) (body : List Node)
  /-- The place of another template. -/
  | inclusion (name : Text)
  /-- A macro call, with the body to fall back to if it was closed. -/
  | call (name : Text) (arguments : List Argument) (body : Option (List Node))

instance : Inhabited Node := ⟨.text []⟩

/-- The nodes with one more at the end; a text joins a text that stands there. -/
def pushNode : List Node → Node → List Node
  | [], node => [node]
  | [.text before], .text content => [.text (before ++ content)]
  | [last], node => [last, node]
  | first :: second :: rest, node => first :: pushNode (second :: rest) node

/-- The nodes with others pushed onto their end, one by one. -/
def pushNodes (nodes more : List Node) : List Node := more.foldl pushNode nodes

@[simp]
theorem pushNodes_nil (nodes : List Node) : pushNodes nodes [] = nodes := rfl

@[simp]
theorem pushNodes_cons (nodes more : List Node) (node : Node) :
    pushNodes nodes (node :: more) = pushNodes (pushNode nodes node) more := rfl

theorem pushNodes_append (nodes first second : List Node) :
    pushNodes nodes (first ++ second) = pushNodes (pushNodes nodes first) second :=
  List.foldl_append

end Stencil
