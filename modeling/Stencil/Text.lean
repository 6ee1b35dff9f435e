/-!
# Text and positions

Template text, keys, names and data strings are lists of characters. Positions in a text are
counted in bytes of its UTF-8 form, so a span is a pair of byte counts; `byteSize_append` is what
lets positions be summed along a text that is cut into pieces.
-/

set_option autoImplicit false

namespace Stencil

/-- A text, one character at a time. -/
abbrev Text := List Char

/-- How many bytes the UTF-8 form of a text has. -/
def byteSize : Text → Nat
  | [] => 0
  | c :: rest => c.utf8Size + byteSize rest

theorem byteSize_append (s t : Text) : byteSize (s ++ t) = byteSize s + byteSize t := by
  induction s with
  | nil => simp [byteSize]
  | cons c s ih => simp [byteSize, ih, Nat.add_assoc]

/-- The decimal digits of a natural number. -/
def natText (n : Nat) : Text := Nat.toDigits 10 n

/-- The texts in order with a separator between neighbours. -/
def joinTexts (separator : Text) : List Text → Text
  | [] => []
  | [t] => t
  | t :: rest => t ++ separator ++ joinTexts separator rest

/-- The pieces of a text between the occurrences of a character. A text without the character is
one piece, the empty text too. -/
def splitText (separator : Char) : Text → List Text
  | [] => [[]]
  | c :: rest =>
    if c = separator then [] :: splitText separator rest
    else match splitText separator rest with
      | [] => [[c]]
      | piece :: pieces => (c :: piece) :: pieces

/-- A stretch of source text, from the byte at `start` up to and without the byte at `stop`. -/
structure Span where
  start : Nat
  stop : Nat
deriving DecidableEq, Repr

/-- Something read from a source, with the stretch it was read from. -/
structure Located (α : Type) where
  item : α
  span : Span
deriving DecidableEq, Repr

end Stencil
