import Stencil.Document.Nesting

/-!
# Templates

A template is a source text, under a name or not. The tree that remains when its parents and
inclusions are resolved is kept in a cell; copies of a template share the cell. The cells that
hold a tree are kept apart from the templates, in `Caches`, and a cell is filled at most once.
-/

set_option autoImplicit false

namespace Stencil

/-- A template. -/
structure Template where
  name : Option Text
  source : Text
  /-- The cell of its resolved tree. -/
  cell : Nat
deriving DecidableEq, Repr

namespace Template

/-- The template under another name. Source and cell stay. -/
def rename (template : Template) (name : Text) : Template := { template with name := some name }

/-- The document of the source. -/
def document (template : Template) : Document := Document.parse template.source

/-- The name of the parent, if the template has one. -/
def parentName (template : Template) : Option Text := template.document.parentName

end Template

/-- The trees of the cells that hold one. -/
abbrev Caches := List (Nat × List Node)

namespace Caches

/-- The tree that a cell holds. -/
def tree? (caches : Caches) (cell : Nat) : Option (List Node) :=
  (caches.find? fun entry => entry.1 == cell).map (·.2)

/-- The caches with a tree in a cell, if it held none. -/
def fill (caches : Caches) (cell : Nat) (tree : List Node) : Caches :=
  match caches.tree? cell with
  | some _ => caches
  | none => (cell, tree) :: caches

end Caches

end Stencil
