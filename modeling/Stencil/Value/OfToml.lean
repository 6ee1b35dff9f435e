import Stencil.Toml
import Stencil.Toml.Moment
import Stencil.Value

/-!
# TOML as template data

Integers become floating-point numbers and date-times become their text. A table other than the
whole document whose first key is `momentKey` is a date-time that was written as a table: the text
under the key has to be one, and the other entries mean nothing.
-/

set_option autoImplicit false

namespace Stencil

namespace Value

/-- The key of a date-time that is written as a table. -/
def momentKey : Text := "$__toml_private_datetime".toList

/-- The date-time that entries of a table stand for, in normal form; `some none` if they should
stand for one but do not. -/
def tableMoment? : List (Text × Toml) → Option (Option Text)
  | [] => none
  | (key, value) :: _ =>
    if key = momentKey then
      match value with
      | .text content => some (readMoment? content)
      | _ => some none
    else none

variable {κ : Type}

mutual

/-- The value that a TOML value is. -/
def ofToml? : Toml → Option (Value κ)
  | .text content => some (.text content)
  | .integer n => some (.number (Binary64.ofInt n))
  | .float x => some (.number x)
  | .bool b => some (.bool b)
  | .moment written => some (.text written)
  | .array items => (ofTomlItems? items).map .sequence
  | .table entries =>
    match tableMoment? entries with
    | some moment => moment.map .text
    | none => (ofTomlEntries? entries).map .mapping

/-- The values that TOML items are. -/
def ofTomlItems? : List Toml → Option (List (Value κ))
  | [] => some []
  | item :: rest =>
    match ofToml? item, ofTomlItems? rest with
    | some value, some values => some (value :: values)
    | _, _ => none

/-- The entries that TOML entries are. -/
def ofTomlEntries? : List (Text × Toml) → Option (List (Text × Value κ))
  | [] => some []
  | (key, item) :: rest =>
    match ofToml? item, ofTomlEntries? rest with
    | some value, some entries => some ((key, value) :: entries)
    | _, _ => none

end

/-- The mapping that the root table of a document is. -/
def ofTomlDocument? (entries : List (Text × Toml)) : Option (Value κ) :=
  (ofTomlEntries? entries).map .mapping

end Value

end Stencil
