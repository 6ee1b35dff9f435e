import Stencil.Entries
import Stencil.Number

/-!
# JSON values

Numbers are integers where they are written as integers, and floating-point numbers otherwise.
Objects keep the order of their entries.
-/

set_option autoImplicit false

namespace Stencil

/-- A number in JSON. -/
inductive JsonNumber where
  | integer (value : Int)
  | float (value : Binary64)
deriving DecidableEq

/-- The floating-point number nearest to it. -/
def JsonNumber.toBinary64 : JsonNumber → Binary64
  | .integer value => Binary64.ofInt value
  | .float value => value

/-- A JSON value. -/
inductive Json where
  | null
  | bool (value : Bool)
  | number (value : JsonNumber)
  | text (content : Text)
  | array (items : List Json)
  | object (entries : List (Text × Json))

instance : Inhabited Json := ⟨.null⟩

end Stencil
