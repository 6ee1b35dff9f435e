import Stencil.Value

/-!
# Equality of values

Numbers are compared as numbers, sequences item by item, and mappings entry by entry whatever the
order of their keys. A computed entry equals nothing.
-/

set_option autoImplicit false

namespace Stencil

namespace Value

variable {κ : Type}

mutual

/-- Equality of values. -/
def eqv : Value κ → Value κ → Bool
  | .null, .null => true
  | .bool a, .bool b => a == b
  | .number x, .number y => x.eqv y
  | .text s, .text t => s == t
  | .sequence items, .sequence others => eqvItems items others
  | .mapping entries, .mapping others =>
    entries.length == others.length && eqvEntries entries others
  | _, _ => false

/-- Equality item by item. -/
def eqvItems : List (Value κ) → List (Value κ) → Bool
  | [], [] => true
  | a :: items, b :: others => eqv a b && eqvItems items others
  | _, _ => false

/-- Has each of the entries an equal one among the others? -/
def eqvEntries : List (Text × Value κ) → List (Text × Value κ) → Bool
  | [], _ => true
  | (key, a) :: entries, others =>
    (match lookup? key others with
      | some b => eqv a b
      | none => false) && eqvEntries entries others

end

end Value

end Stencil
