import Stencil.Resolution
import Stencil.Toml.Tables

/-!
# Configuration

The configuration of an engine is a TOML document with a table of limits and a table that says
where templates are found. What is not given has a default, and unknown keys mean nothing. The
fields of a table can also be given in order, as the items of an array.
-/

set_option autoImplicit false

namespace Stencil

/-- Where templates are found. -/
structure Location where
  dir : Option Text := none
  /-- Added to the names of templates that have no extension. -/
  extension : Option Text := none
deriving DecidableEq, Repr

/-- The configuration of an engine. -/
structure Config where
  limits : Limits := {}
  location : Location := {}
deriving DecidableEq, Repr

namespace Config

/-- The values of fields, if they are given by name or in order. A date-time gives none of them. -/
def fieldValues? (names : List Text) : Toml → Option (List (Option Toml))
  | .table entries => some (names.map fun name => lookup? name entries)
  | .array items => some ((List.range names.length).map fun i => items[i]?)
  | .moment _ => some (names.map fun _ => none)
  | _ => none

/-- A limit, from its value if there is one. -/
def limit? (default : Nat) : Option Toml → Option Nat
  | none => some default
  | some (.integer n) => if 0 ≤ n then some n.toNat else none
  | some _ => none

/-- A text that may be absent. -/
def text? : Option Toml → Option (Option Text)
  | none => some none
  | some (.text t) => some (some t)
  | some _ => none

/-- The limits, from their table if there is one. -/
def limits? : Option Toml → Option Limits
  | none => some {}
  | some table => do
    match ← fieldValues? ["max_extend_depth".toList, "max_include_depth".toList] table with
    | [parents, inclusions] => return ⟨← limit? 32 parents, ← limit? 32 inclusions⟩
    | _ => none

/-- Where templates are found, from its table if there is one. -/
def location? : Option Toml → Option Location
  | none => some {}
  | some table => do
    match ← fieldValues? ["dir".toList, "extension".toList] table with
    | [dir, extension] => return ⟨← text? dir, ← text? extension⟩
    | _ => none

/-- The configuration that a text is, if it is one. -/
def parse? (t : Text) : Option Config := do
  let entries ← Toml.read? t
  return ⟨← limits? (lookup? "limits".toList entries),
    ← location? (lookup? "templates".toList entries)⟩

end Config

end Stencil
