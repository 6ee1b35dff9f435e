import Stencil.Number
import Stencil.Text

/-!
# Reading decimal numbers

A decimal number is read as the floating-point number nearest to it: a sign or none, digits with a
point among them or not, and an exponent or not. Infinity and what is no number can be named.
-/

set_option autoImplicit false

namespace Stencil

/-- The value of a decimal digit. -/
def digitValue (c : Char) : Nat := c.toNat - 48

/-- The natural number that decimal digits spell. -/
def digitsValue (digits : Text) : Nat := digits.foldl (fun n c => n * 10 + digitValue c) 0

/-- The integer that digits spell, after a sign or not. -/
def readInt? (t : Text) : Option Int :=
  let (negative, digits) := match t with
    | '-' :: rest => (true, rest)
    | '+' :: rest => (false, rest)
    | _ => (false, t)
  if digits.isEmpty || !digits.all Char.isDigit then none
  else some (if negative then -(digitsValue digits : Int) else digitsValue digits)

/-- The exponent that a text is: nothing, or the letter and an integer. -/
def readExponent : Text → Option Int
  | [] => some 0
  | c :: rest => if c = 'e' ∨ c = 'E' then readInt? rest else none

/-- The number a text without a sign is. -/
def Binary64.readUnsigned? (negative : Bool) (t : Text) : Option Binary64 :=
  let lower := t.map Char.toLower
  if lower = "nan".toList then some (if negative then Binary64.nan.neg else Binary64.nan)
  else if lower = "inf".toList ∨ lower = "infinity".toList then some (Binary64.infinity negative)
  else
    let whole := t.takeWhile Char.isDigit
    let rest := t.dropWhile Char.isDigit
    let (fraction, rest) := match rest with
      | '.' :: rest => (rest.takeWhile Char.isDigit, rest.dropWhile Char.isDigit)
      | _ => ([], rest)
    if whole.isEmpty && fraction.isEmpty then none
    else (readExponent rest).map fun e =>
      Binary64.ofDecimal negative (digitsValue (whole ++ fraction)) (e - fraction.length)

/-- The number nearest to the decimal number that a text is, if it is one. -/
def Binary64.read? : Text → Option Binary64
  | '-' :: rest => Binary64.readUnsigned? true rest
  | '+' :: rest => Binary64.readUnsigned? false rest
  | t => Binary64.readUnsigned? false t

end Stencil
