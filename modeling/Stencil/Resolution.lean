import Stencil.Document
import Stencil.Text

/-!
# Resolving references between templates

What the passes that resolve a template's parents and inclusions have in common: their limits and
the errors they and a render end with.
-/

set_option autoImplicit false

namespace Stencil

/-- Bounds on resolution. -/
structure Limits where
  /-- The most parents that are followed, and the most passes that fill slots. -/
  parents : Nat := 32
  /-- The most passes that replace inclusions. -/
  inclusions : Nat := 32
deriving DecidableEq, Repr

/-- A pass of resolution. -/
inductive Stage where
  | parents
  | inclusions
deriving DecidableEq, Repr

/-- Why a render gives no text. -/
inductive RenderError where
  /-- A template names a parent that is not found. -/
  | missingParent (name : Text)
  /-- The template to render is not found. -/
  | notFound (name : Text)
  /-- Resolution did not settle within its limit. -/
  | recursionLimit (stage : Stage) (limit : Nat)
deriving DecidableEq, Repr

/-- The name of a pass. -/
def Stage.label : Stage → Text
  | .parents => "extend".toList
  | .inclusions => "include".toList

/-- The error in words. -/
def RenderError.message : RenderError → Text
  | .missingParent name => "parent template not found: ".toList ++ name
  | .notFound name => "template not found: ".toList ++ name
  | .recursionLimit stage limit =>
    stage.label ++ " resolution exceeded ".toList ++ natText limit ++ " passes".toList

end Stencil
