import Stencil.Entries
import Stencil.Number

/-!
# Template data

The values that templates are filled with. Besides plain data a value can hold computed entries,
which are evaluated when a key leads to them. What a computed entry is stays a parameter `κ`, and
how one is evaluated is a function given where keys are resolved.
-/

set_option autoImplicit false

namespace Stencil

/-- A value of template data, with computed entries described by `κ`. -/
inductive Value (κ : Type) where
  | null
  | bool (value : Bool)
  | number (value : Binary64)
  | text (content : Text)
  | sequence (items : List (Value κ))
  /-- Entries in the order of insertion. -/
  | mapping (entries : List (Text × Value κ))
  | computed (computation : κ)

namespace Value

variable {κ : Type}

instance : Inhabited (Value κ) := ⟨.null⟩

/-- Does the value count as true? -/
def isTruthy : Value κ → Bool
  | .null => false
  | .bool b => b
  | .number x => !x.isZero && !x.isNaN
  | .text content => !content.isEmpty
  | .sequence _ | .mapping _ | .computed _ => true

/-- Is the value the number zero, of either sign? -/
def isZero : Value κ → Bool
  | .number x => x.isZero
  | _ => false

/-- Is the value null? -/
def isNull : Value κ → Bool
  | .null => true
  | _ => false

/-- Is the value a computed entry? -/
def isComputed : Value κ → Bool
  | .computed _ => true
  | _ => false

/-- The content, if the value is a text. -/
def text? : Value κ → Option Text
  | .text content => some content
  | _ => none

/-- The number, if the value is one. -/
def number? : Value κ → Option Binary64
  | .number x => some x
  | _ => none

/-- A natural number as a value. -/
def ofNat (n : Nat) : Value κ := .number (Binary64.ofNat n)

/-- A mapping built by putting entries in order. -/
def ofEntries (entries : List (Text × Value κ)) : Value κ :=
  .mapping (entries.foldl (fun m entry => insertEntry entry.1 entry.2 m) [])

end Value

end Stencil
