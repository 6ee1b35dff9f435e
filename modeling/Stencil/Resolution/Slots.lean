import Stencil.Entries
import Stencil.Node.Rebuild
import Stencil.Resolution

/-!
# Parents and slots

A template that names a parent is shown as its parent, and the slots of the template fill the
slots of the same name in the parent. The chain of parents is followed to its end. On the way the
outermost slots of each document are recorded, and the first body recorded for a name is the one
that counts. Then the slots of the last document are replaced by what was recorded for them, pass
after pass, until no slot is left.

A body that is recorded never contains the slot it fills: slots of the same name inside it are
replaced by their contents.
-/

set_option autoImplicit false

namespace Stencil

/-- Slot bodies by name. -/
abbrev Overrides := Entries (List Node)

/-! ## Recording slots -/

mutual

/-- The slots of a node that are inside no other slot, in order. -/
def outermostSlotsOf : Node → List (Text × List Node)
  | .slot name body => [(name, body)]
  | .block _ _ body otherwise => outermostSlots body ++ outermostSlotsIn otherwise
  | .call _ _ body => outermostSlotsIn body
  | _ => []

/-- The slots of a tree that are inside no other slot, in order. -/
def outermostSlots : List Node → List (Text × List Node)
  | [] => []
  | node :: rest => outermostSlotsOf node ++ outermostSlots rest

/-- The outermost slots of a body that may be absent. -/
def outermostSlotsIn : Option (List Node) → List (Text × List Node)
  | none => []
  | some body => outermostSlots body

end

/-- Puts the contents of slots of one name in their place. -/
def unnesting (name : Text) : Filling where
  slot inner _ rebuilt := if inner = name then rebuilt else [.slot inner rebuilt]
  inclusion other := [.inclusion other]

/-- A slot body without slots of the same name. -/
def unnest (name : Text) (body : List Node) : List Node := rebuild (unnesting name) body

/-- The overrides with a slot recorded, unless its name is there already. -/
def recordSlot (overrides : Overrides) (slot : Text × List Node) : Overrides :=
  match lookup? slot.1 overrides with
  | some _ => overrides
  | none => overrides ++ [(slot.1, unnest slot.1 slot.2)]

/-- The overrides with the outermost slots of a tree recorded. -/
def recordSlots (overrides : Overrides) (nodes : List Node) : Overrides :=
  (outermostSlots nodes).foldl recordSlot overrides

/-! ## Filling slots -/

/-- Puts what was recorded for a slot in its place, or the slot's own body. -/
def filling (overrides : Overrides) : Filling where
  slot name body _ := (lookup? name overrides).getD body
  inclusion name := [.inclusion name]

/-- Fills the slots of a tree, in at most `passes` more passes of `limit`. -/
def fillSlots (limit : Nat) : Nat → Overrides → List Node →
    Except RenderError (List Node) × Overrides
  | passes, overrides, nodes =>
    -- bodies that were put in place may bring slots that are not recorded yet
    let overrides := recordSlots overrides nodes
    if (outermostSlots nodes).isEmpty then (.ok nodes, overrides)
    else match passes with
      | 0 => (.error (.recursionLimit .parents limit), overrides)
      | passes + 1 => fillSlots limit passes overrides (rebuild (filling overrides) nodes)

/-! ## Following parents -/

/-- Follows the parents of a document, at most `hops` more of `limit`, and fills the slots of the
last one. -/
def followParents {m : Type → Type} [Monad m] (fetch : Text → m (Option Document)) (limit : Nat)
    (hops : Nat) (overrides : Overrides) (document : Document) :
    m (Except RenderError (List Node) × Overrides) := do
  match document.parentName with
  | none => return fillSlots limit limit overrides document.nodes
  | some parent =>
    -- the slots of a document count even if its parent is not found
    let overrides := recordSlots overrides document.nodes
    match hops with
    | 0 => return (.error (.recursionLimit .parents limit), overrides)
    | hops + 1 =>
      match ← fetch parent with
      | none => return (.error (.missingParent parent), overrides)
      | some next => followParents fetch limit hops overrides next

/-- The tree of a document with its parents resolved and its slots filled, and the slot bodies
that were recorded. -/
def resolveParents {m : Type → Type} [Monad m] (fetch : Text → m (Option Document)) (limit : Nat)
    (overrides : Overrides) (document : Document) :
    m (Except RenderError (List Node) × Overrides) :=
  followParents fetch limit limit overrides document

end Stencil
