import Stencil.Json.Writer
import Stencil.Value

/-!
# The text of a value

Values are shown as text: null and computed entries as nothing, sequences as their items with
commas between them, and mappings as JSON. Numbers without a fractional part below `10 ^ 21` are
shown with all their digits, others with the fewest digits that identify them and never with an
exponent.
-/

set_option autoImplicit false

namespace Stencil

/-- The text of a number. -/
def Binary64.toText (x : Binary64) : Text :=
  let sign : Text := if x.negative then ['-'] else []
  if x.isNaN then "NaN".toList
  else if x.isInfinite then sign ++ "Infinity".toList
  else if x.isZero then ['0']
  else if x.isIntegral ∧ x.truncated < tenTo 21 then sign ++ natText x.truncated
  else sign ++ (shortest .upward x).positional

/-- The number in JSON: an integer if it is one that fits 63 bits and a sign, null if it is not
finite. -/
def Binary64.toJson (x : Binary64) : Json :=
  if x.isIntegral ∧ x.truncated < twoTo 63 then .number (.integer x.toInt)
  else if x.isFinite then .number (.float x)
  else .null

namespace Value

variable {κ : Type}

mutual

/-- The value in JSON. Computed entries of mappings are left out, and elsewhere are null. -/
def toJson : Value κ → Json
  | .null => .null
  | .computed _ => .null
  | .bool b => .bool b
  | .number x => x.toJson
  | .text content => .text content
  | .sequence items => .array (toJsonItems items)
  | .mapping entries => .object (toJsonEntries entries)

/-- The items in JSON. -/
def toJsonItems : List (Value κ) → List Json
  | [] => []
  | item :: rest => toJson item :: toJsonItems rest

/-- The entries in JSON, without those that are computed. -/
def toJsonEntries : List (Text × Value κ) → List (Text × Json)
  | [] => []
  | (key, value) :: rest =>
    if value.isComputed then toJsonEntries rest
    else (key, toJson value) :: toJsonEntries rest

end

mutual

/-- The text of a value. -/
def toText : Value κ → Text
  | .null => []
  | .computed _ => []
  | .bool true => "true".toList
  | .bool false => "false".toList
  | .number x => x.toText
  | .text content => content
  | .sequence items => itemsText items
  | .mapping entries => (toJson (.mapping entries)).write

/-- The texts of items with commas between them. -/
def itemsText : List (Value κ) → Text
  | [] => []
  | [item] => toText item
  | item :: rest => toText item ++ ',' :: itemsText rest

end

mutual

/-- The value that a JSON value is. -/
def ofJson : Json → Value κ
  | .null => .null
  | .bool b => .bool b
  | .number n => .number n.toBinary64
  | .text content => .text content
  | .array items => .sequence (ofJsonItems items)
  | .object entries => .mapping (ofJsonEntries entries)

/-- The values that JSON items are. -/
def ofJsonItems : List Json → List (Value κ)
  | [] => []
  | item :: rest => ofJson item :: ofJsonItems rest

/-- The entries that JSON entries are. -/
def ofJsonEntries : List (Text × Json) → List (Text × Value κ)
  | [] => []
  | (key, value) :: rest => (key, ofJson value) :: ofJsonEntries rest

end

end Value

end Stencil
