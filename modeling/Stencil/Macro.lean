import Stencil.Scope

/-!
# Macros

A macro is a named program that templates call with arguments. While it runs it can look at the
context, resolve keys in it, and have template text rendered in it; it ends with a text, with a
failure, or with a panic. A macro is given by what it does next with each answer, so its run is a
tree that evaluation walks.

Resolving a key and rendering text can panic. A macro may catch such a panic and go on, in the
context that the panic has left. One that does not catch it panics too (`MacroRun.uncaught`).
-/

set_option autoImplicit false

namespace Stencil

/-- What a macro does, one request at a time. -/
inductive MacroRun (κ : Type) where
  /-- It ends with a text. -/
  | done (text : Text)
  /-- It ends with a failure. -/
  | failed (message : Text)
  /-- It panics. -/
  | panicked
  /-- It looks at the context. -/
  | context (next : Value κ → MacroRun κ)
  /-- It resolves a key in the context, and is told whether that panicked. -/
  | tryKey (key : Text) (next : Outcome (Value κ) → MacroRun κ)
  /-- It has template text rendered in the context, and is told whether that panicked. -/
  | tryTemplate (source : Text) (next : Outcome Text → MacroRun κ)

namespace MacroRun

variable {κ α : Type}

instance : Inhabited (MacroRun κ) := ⟨.panicked⟩

/-- What follows a request whose panic is not caught: it is a panic of the macro. -/
def uncaught (next : α → MacroRun κ) : Outcome α → MacroRun κ
  | .done answer => next answer
  | .panicked => .panicked

/-- Resolves a key in the context, and catches no panic of it. -/
def key (key : Text) (next : Value κ → MacroRun κ) : MacroRun κ := .tryKey key (uncaught next)

/-- Has template text rendered in the context, and catches no panic of it. -/
def template (source : Text) (next : Text → MacroRun κ) : MacroRun κ :=
  .tryTemplate source (uncaught next)

end MacroRun

/-- A macro: what it does with the arguments of a call. -/
abbrev Macro (κ : Type) := List (Value κ) → MacroRun κ

/-- The registered macros. -/
abbrev Macros (κ : Type) := Entries (Macro κ)

/-- Why a call gave no text. -/
inductive MacroFailure where
  | notRegistered (name : Text)
  | panicked (name : Text)
  | failed (message : Text)
deriving DecidableEq, Repr

/-- The failure in words. -/
def MacroFailure.message : MacroFailure → Text
  | .notRegistered name => "Macro '".toList ++ name ++ "' is not registered".toList
  | .panicked name => "Macro '".toList ++ name ++ "' panicked".toList
  | .failed message => message

/-- The macros with one put under a name if it is given. -/
def Macros.define {κ : Type} (macros : Macros κ) (name : Text) (new : Option (Macro κ)) :
    Macros κ :=
  match new with
  | some m => insertEntry name m macros
  | none => macros

end Stencil
