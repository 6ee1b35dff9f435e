import Stencil.Entries
import Stencil.Number

/-!
# TOML values

The values of a TOML document. Tables keep the order in which their entries were written, and
date-times are kept as their text in normal form.
-/

set_option autoImplicit false

namespace Stencil

/-- A TOML value. -/
inductive Toml where
  | text (content : Text)
  | integer (value : Int)
  | float (value : Binary64)
  | bool (value : Bool)
  /-- A date, a time, or both, in normal form. -/
  | moment (written : Text)
  | array (items : List Toml)
  | table (entries : List (Text × Toml))

instance : Inhabited Toml := ⟨.table []⟩

end Stencil
