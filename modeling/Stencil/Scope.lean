import Stencil.Number.Reading
import Stencil.Value.Printing

/-!
# Resolving keys

A dotted key leads from a value into it, a segment at a time: into mappings by key, into sequences
by position. The length of a sequence or text is found under `length`. A computed entry at the end
of a key is evaluated with the value that holds it, and its result is final; elsewhere it leads
nowhere. A key that leads nowhere, or to null, stands for the empty text.
-/

set_option autoImplicit false

namespace Stencil

/-- How something that evaluates computed entries or macros ends. -/
inductive Outcome (α : Type) where
  | done (value : α)
  /-- It panics. Whatever the panic carries can be let go of without another panic. -/
  | panicked
deriving DecidableEq, Repr, Inhabited

/-- The outcome with a function applied to its value. -/
def Outcome.map {α β : Type} (f : α → β) : Outcome α → Outcome β
  | .done value => .done (f value)
  | .panicked => .panicked

/-- How computed entries are evaluated, given the value that holds them. -/
abbrev Evaluate (κ : Type) := κ → Value κ → Outcome (Value κ)

/-- The position that a segment spells: digits, after a plus sign or not, below `2 ^ 64`. -/
def position? (segment : Text) : Option Nat :=
  let digits := match segment with
    | '+' :: rest => rest
    | _ => segment
  if digits.isEmpty || !digits.all Char.isDigit then none
  else if digitsValue digits < twoTo 64 then some (digitsValue digits) else none

/-- The segment that leads to a length. -/
def lengthSegment : Text := ['l', 'e', 'n', 'g', 't', 'h']

variable {κ : Type}

/-- What one segment leads to from a value: a length, or a value inside it. -/
inductive Landing (κ : Type) where
  | nowhere
  | length (n : Nat)
  | inside (value : Value κ)

/-- What one segment leads to from a value. -/
def land (holder : Value κ) (segment : Text) : Landing κ :=
  match holder with
  | .mapping entries =>
    match lookup? segment entries with
    | some value => .inside value
    | none => .nowhere
  | .sequence items =>
    if segment = lengthSegment then .length items.length
    else match position? segment with
      | none => .nowhere
      | some index =>
        match items[index]? with
        | some value => .inside value
        | none => .nowhere
  | .text content => if segment = lengthSegment then .length content.length else .nowhere
  | _ => .nowhere

/-- What segments lead to from a value, with nothing for what is absent. -/
def walk (evaluate : Evaluate κ) (holder : Value κ) : List Text → Outcome (Option (Value κ))
  | [] => .done none
  | segment :: rest =>
    match land holder segment with
    | .nowhere => .done none
    | .length n => .done (if rest.isEmpty then some (.ofNat n) else none)
    | .inside (.computed computation) =>
      if rest.isEmpty then (evaluate computation holder).map some else .done none
    | .inside value => if rest.isEmpty then .done (some value) else walk evaluate value rest

/-- The empty text in place of what is absent or null. -/
def presented : Option (Value κ) → Value κ
  | none => .text []
  | some .null => .text []
  | some value => value

/-- What a dotted key stands for in a context. -/
def resolve (evaluate : Evaluate κ) (context : Value κ) (key : Text) : Outcome (Value κ) :=
  (walk evaluate context (splitText '.' key)).map presented

/-! ## Escaping -/

/-- A character in escaped text. -/
def escapeChar (c : Char) : Text :=
  match c with
  | '<' => ['&', 'l', 't', ';']
  | '>' => ['&', 'g', 't', ';']
  | '\x27' => ['&', 'a', 'p', 'o', 's', ';']
  | '"' => ['&', 'q', 'u', 'o', 't', ';']
  | c => [c]

/-- A text with angle brackets and quotes escaped. -/
def escape (t : Text) : Text := t.flatMap escapeChar

end Stencil
