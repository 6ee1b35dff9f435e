import Stencil.Json
import Stencil.Number.Shortest

/-!
# Writing JSON

The compact form: no spaces, strings with the fewest escapes, integers as integers, and other
numbers with the fewest digits that identify them, without an exponent when the first digit
stands at a power of ten from -5 to 15.
-/

set_option autoImplicit false

namespace Stencil

namespace Json

/-- A digit to base sixteen. -/
def hexDigit (n : Nat) : Char := Nat.digitChar (n % 16)

/-- A character inside a string. -/
def escapeChar (c : Char) : Text :=
  match c with
  | '"' => ['\\', '"']
  | '\\' => ['\\', '\\']
  | '\x08' => ['\\', 'b']
  | '\x0c' => ['\\', 'f']
  | '\n' => ['\\', 'n']
  | '\r' => ['\\', 'r']
  | '\t' => ['\\', 't']
  | c =>
    if c.toNat < 0x20 then ['\\', 'u', '0', '0', hexDigit (c.toNat / 16), hexDigit c.toNat]
    else [c]

/-- A string with its quotes. -/
def quote (content : Text) : Text := '"' :: content.flatMap escapeChar ++ ['"']

/-- A floating-point number; what is not finite has no form and is written as null. -/
def writeFloat (x : Binary64) : Text :=
  if !x.isFinite then "null".toList
  else
    let sign : Text := if x.negative then ['-'] else []
    if x.isZero then sign ++ "0.0".toList
    else
      let d := shortest .toEven x
      let body :=
        if -5 < d.pointAt ∧ d.pointAt ≤ 16 then
          if x.isIntegral then d.positional ++ ".0".toList else d.positional
        else d.scientific
      sign ++ body

/-- An integer. -/
def writeInt (n : Int) : Text := if n < 0 then '-' :: natText n.natAbs else natText n.natAbs

/-- A number. -/
def writeNumber : JsonNumber → Text
  | .integer n => writeInt n
  | .float x => writeFloat x

mutual

/-- The compact form of a value. -/
def write : Json → Text
  | .null => "null".toList
  | .bool true => "true".toList
  | .bool false => "false".toList
  | .number n => writeNumber n
  | .text content => quote content
  | .array items => '[' :: writeItems items ++ [']']
  | .object entries => '{' :: writeEntries entries ++ ['}']

/-- Values with commas between them. -/
def writeItems : List Json → Text
  | [] => []
  | [item] => write item
  | item :: rest => write item ++ ',' :: writeItems rest

/-- Entries with commas between them. -/
def writeEntries : List (Text × Json) → Text
  | [] => []
  | [(key, value)] => quote key ++ ':' :: write value
  | (key, value) :: rest => quote key ++ ':' :: write value ++ ',' :: writeEntries rest

end

end Json

end Stencil
