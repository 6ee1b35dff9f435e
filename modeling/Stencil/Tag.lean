import Stencil.Text

/-!
# Tags

What a tag says: it opens or closes a directive, or stands for itself.
-/

set_option autoImplicit false

namespace Stencil

/-- What a block does with the value of its key. -/
inductive BlockKind where
  /-- Show the body when the value is truthy. -/
  | conditional
  /-- Show the body when the value is falsy. -/
  | negated
  /-- Show the body once for each element or entry. -/
  | enumerate
  /-- Show the body with the value as the context. -/
  | scopeShift
deriving DecidableEq, Repr

/-- An argument of a macro call. -/
inductive Argument where
  /-- A quoted text, passed as it is. -/
  | literal (content : Text)
  /-- A key, resolved where the call stands. -/
  | key (key : Text)
deriving DecidableEq, Repr

/-- What a single tag says. -/
inductive Tag where
  /-- Opens a block: the key, after `!`, `@`, `>` or nothing. -/
  | opener (kind : BlockKind) (key : Text)
  /-- Opens a slot, a named region that other templates can fill: `#name`. -/
  | slot (name : Text)
  /-- Parts a block in two: `:key`. -/
  | otherwise (key : Text)
  /-- Closes a directive, the innermost one when no name is given: `/name`. -/
  | closer (name : Option Text)
  /-- Stands for another template: `+name`. -/
  | inclusion (name : Text)
  /-- Names the parent of the template: `^name`. -/
  | parent (name : Text)
  /-- Stands for a value: `=key`, or `%key` when the value is to be escaped. -/
  | value (escape : Bool) (key : Text)
  /-- Calls a macro: `name(arguments)`. -/
  | call (name : Text) (arguments : List Argument)
deriving DecidableEq, Repr

end Stencil
