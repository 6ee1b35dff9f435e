import Stencil.Entries
import Stencil.Node.Rebuild
import Stencil.Resolution

/-!
# Inclusions

An inclusion is replaced by the tree of the template it names. What is put there may include other
templates, so passes are made until no inclusion is left. Templates that are missing, and those
that name a parent, stand for nothing.
-/

set_option autoImplicit false

namespace Stencil

mutual

/-- The names included by a node, in order. -/
def inclusionNamesOf : Node → List Text
  | .inclusion name => [name]
  | .block _ _ body otherwise => inclusionNames body ++ inclusionNamesIn otherwise
  | .slot _ body => inclusionNames body
  | .call _ _ body => inclusionNamesIn body
  | _ => []

/-- The names included by a tree, in order. -/
def inclusionNames : List Node → List Text
  | [] => []
  | node :: rest => inclusionNamesOf node ++ inclusionNames rest

/-- The names included by a body that may be absent. -/
def inclusionNamesIn : Option (List Node) → List Text
  | none => []
  | some body => inclusionNames body

end

/-- The texts without repetitions, each at its first place. -/
def distinct : List Text → List Text
  | [] => []
  | t :: rest => t :: (distinct rest).filter (· ≠ t)

/-- What stands for an included template. -/
def includedBody : Option Document → List Node
  | none => []
  | some document => if document.parent.isSome then [] else document.nodes

/-- Puts fetched trees in the place of inclusions. -/
def inlining (bodies : Entries (List Node)) : Filling where
  slot name _ rebuilt := [.slot name rebuilt]
  inclusion name := (lookup? name bodies).getD []

/-- Fetches the trees for names, one search after another. In a directory a name whose search panics
leaves what was found before it kept, where the search for all of them at once keeps none. -/
def fetchBodies {m : Type → Type} [Monad m] (fetch : Text → m (Option Document)) :
    List Text → m (Entries (List Node))
  | [] => return []
  | name :: rest => do
    let document ← fetch name
    let bodies ← fetchBodies fetch rest
    return (name, includedBody document) :: bodies

/-- Replaces the inclusions of a tree, in at most `passes` more passes of `limit`. -/
def inlineInclusions {m : Type → Type} [Monad m] (fetch : Text → m (Option Document))
    (limit : Nat) : Nat → List Node → m (Except RenderError (List Node))
  | passes, nodes => do
    let names := distinct (inclusionNames nodes)
    if names.isEmpty then return .ok nodes
    else match passes with
      | 0 => return .error (.recursionLimit .inclusions limit)
      | passes + 1 =>
        let bodies ← fetchBodies fetch names
        inlineInclusions fetch limit passes (rebuild (inlining bodies) nodes)

/-- The tree with its inclusions resolved. -/
def resolveInclusions {m : Type → Type} [Monad m] (fetch : Text → m (Option Document))
    (limit : Nat) (nodes : List Node) : m (Except RenderError (List Node)) :=
  inlineInclusions fetch limit limit nodes

end Stencil
