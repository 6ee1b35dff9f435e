import Stencil.Node
import Stencil.Text

/-!
# Documents

A parsed template: its directive tree, and the parent it names if it names one.
-/

set_option autoImplicit false

namespace Stencil

/-- A parsed template. -/
structure Document where
  /-- The parent named by a leading `^name` tag, and where that tag stands. -/
  parent : Option (Located Text)
  nodes : List Node

/-- The name of the parent, if the document has one. -/
def Document.parentName (document : Document) : Option Text := document.parent.map (·.item)

end Stencil
