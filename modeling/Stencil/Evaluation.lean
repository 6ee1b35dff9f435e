import Stencil.Document.Nesting
import Stencil.Macro

/-!
# Evaluating a tree

Evaluation turns a directive tree into text in a context. It never fails: what is absent shows
nothing, and a macro call that gives no text shows its body. Only a computed entry can panic, and
a panic inside a macro call ends with that call.

The context is a state that loops and scope shifts exchange for a while. They put the outer
context back when they end, but not when they are left by a panic; then the macro call that
catches the panic puts it back. A macro that catches a panic of text that it has rendered gets
nothing put back, and its call ends in the context that the panic has left.

A macro may render template text that calls macros again, so evaluation is bounded by a depth: how
deep macros may have text rendered inside one another. An evaluation that exceeds it gives no
answer.
-/

set_option autoImplicit false

namespace Stencil

/-- What evaluation works with. -/
structure Environment (κ : Type) where
  evaluate : Evaluate κ
  macros : Macros κ

/-- An evaluation from a context, with the context it ends in; no answer if it goes too deep. -/
abbrev Evaluation (κ α : Type) := Value κ → Option (Outcome α × Value κ)

namespace Evaluation

variable {κ α β : Type}

/-- Gives a value at once. -/
def pure (value : α) : Evaluation κ α := fun context => some (.done value, context)

/-- One evaluation and then another. -/
def bind (first : Evaluation κ α) (next : α → Evaluation κ β) : Evaluation κ β := fun context =>
  match first context with
  | none => none
  | some (.panicked, context) => some (.panicked, context)
  | some (.done value, context) => next value context

/-- An outcome of something that leaves the context as it is. -/
def ofOutcome (outcome : Value κ → Outcome α) : Evaluation κ α := fun context =>
  some (outcome context, context)

/-- Gives how an evaluation ends. A panic ends here, in the context that it has left. -/
def attempt (evaluation : Evaluation κ α) : Evaluation κ (Outcome α) := fun context =>
  (evaluation context).map fun answer => (.done answer.1, answer.2)

/-- The texts of two evaluations, one after the other. -/
def append (first second : Evaluation κ Text) : Evaluation κ Text :=
  bind first fun before => bind second fun after => pure (before ++ after)

/-- Evaluates in another context. The outer context is back at the end, but not after a panic. -/
def inContext (inner : Value κ) (evaluation : Evaluation κ α) : Evaluation κ α := fun context =>
  match evaluation inner with
  | none => none
  | some (.done value, _) => some (.done value, context)
  | some (.panicked, left) => some (.panicked, left)

/-- Evaluates in each of several contexts, and gives the texts one after the other. -/
def inContexts (evaluation : Evaluation κ Text) : List (Value κ) → Evaluation κ Text
  | [] => pure []
  | context :: rest => append (inContext context evaluation) (inContexts evaluation rest)

end Evaluation

open Evaluation

variable {κ : Type}

/-! ## Values and contexts -/

/-- The suffix of keys that stand for a length. -/
def lengthSuffix : Text := '.' :: lengthSegment

/-- Is a value shown? Falsy values are not, except for zero unless it is a length. -/
def isShown (key : Text) (value : Value κ) : Bool :=
  value.isTruthy || (value.isZero && !lengthSuffix.isSuffixOf key)

/-- What a value tag shows. -/
def shownValue (key : Text) (isEscaped : Bool) (value : Value κ) : Text :=
  if isShown key value then
    if isEscaped then escape value.toText else value.toText
  else []

/-- The contexts for the items of a sequence, counted from a position on. -/
def itemContexts (position : Nat) : List (Value κ) → List (Value κ)
  | [] => []
  | item :: rest =>
    .mapping [(['i'], .ofNat position), (['n'], .ofNat (position + 1)), (['v', 'a', 'l'], item)]
      :: itemContexts (position + 1) rest

/-- The context for an entry of a mapping. -/
def entryContext (entry : Text × Value κ) : Value κ :=
  .mapping [(['k', 'e', 'y'], .text entry.1), (['v', 'a', 'l'], entry.2)]

/-- The contexts that a loop over a value shows its body in. -/
def loopContexts : Value κ → List (Value κ)
  | .sequence items => itemContexts 0 items
  | .mapping entries => entries.map entryContext
  | _ => []

/-- The contexts that a scope shift to a value shows its body in. -/
def shiftContexts : Value κ → List (Value κ)
  | .sequence items => items
  | value => [value]

/-! ## Macro calls -/

/-- Runs a macro in the current context, with `render` for template text. -/
def MacroRun.run (env : Environment κ) (render : Text → Evaluation κ Text) :
    MacroRun κ → Evaluation κ (Except MacroFailure Text)
  | .done text => pure (.ok text)
  | .failed message => pure (.error (.failed message))
  | .panicked => ofOutcome fun _ => .panicked
  | .context next => fun context => (next context).run env render context
  | .tryKey key next =>
    bind (attempt (ofOutcome fun context => resolve env.evaluate context key)) fun answer =>
      (next answer).run env render
  | .tryTemplate source next =>
    bind (attempt (render source)) fun answer => (next answer).run env render

/-- The arguments of a call in the current context. -/
def callArgs (env : Environment κ) : List Argument → Evaluation κ (List (Value κ))
  | [] => pure []
  | argument :: rest =>
    bind (ofOutcome fun context => match argument with
      | .literal content => .done (.text content)
      | .key key => resolve env.evaluate context key) fun value =>
    bind (callArgs env rest) fun values => pure (value :: values)

/-- Calls the macro of a name. A panic is caught here, and the context put back. -/
def callMacro (env : Environment κ) (render : Text → Evaluation κ Text) (name : Text)
    (args : List (Value κ)) : Evaluation κ (Except MacroFailure Text) := fun context =>
  match lookup? name env.macros with
  | none => some (.done (.error (.notRegistered name)), context)
  | some m =>
    match (m args).run env render context with
    -- the panic may have left an inner context behind
    | some (.panicked, _) => some (.done (.error (.panicked name)), context)
    | answer => answer

/-! ## Nodes -/

mutual

/-- The text of a node, with `render` for the template text of macros. -/
def evalNode (env : Environment κ) (render : Text → Evaluation κ Text) :
    Node → Evaluation κ Text
  | .text content => pure content
  | .value key isEscaped =>
    bind (ofOutcome fun context => resolve env.evaluate context key) fun value =>
      pure (shownValue key isEscaped value)
  | .block kind key body otherwise =>
    bind (ofOutcome fun context => resolve env.evaluate context key) fun value =>
      if value.isTruthy then
        match kind with
        | .conditional => evalNodes env render body
        | .negated => pure []
        | .enumerate => inContexts (evalNodes env render body) (loopContexts value)
        | .scopeShift => inContexts (evalNodes env render body) (shiftContexts value)
      else
        match kind with
        | .negated => evalNodes env render body
        | _ => evalBody env render otherwise
  -- slots and inclusions are left only in text that macros have rendered
  | .slot _ body => evalNodes env render body
  | .inclusion _ => pure []
  | .call name arguments body =>
    bind (callArgs env arguments) fun args =>
    bind (callMacro env render name args) fun answer =>
      match answer with
      | .ok text => pure text
      | .error _ => evalBody env render body

/-- The texts of nodes, one after the other. -/
def evalNodes (env : Environment κ) (render : Text → Evaluation κ Text) :
    List Node → Evaluation κ Text
  | [] => pure []
  | node :: rest => append (evalNode env render node) (evalNodes env render rest)

/-- The text of a body that may be absent. -/
def evalBody (env : Environment κ) (render : Text → Evaluation κ Text) :
    Option (List Node) → Evaluation κ Text
  | none => pure []
  | some body => evalNodes env render body

end

/-- The text of a template source, as macros have it rendered: without resolving parents and
inclusions. -/
def renderFragment (env : Environment κ) : Nat → Text → Evaluation κ Text
  | 0, _ => fun _ => none
  | depth + 1, source => evalNodes env (renderFragment env depth) (parseFragment source)

/-- The text of a tree, with macros rendering text at most `depth` deep inside one another. -/
def renderNodes (env : Environment κ) (depth : Nat) (nodes : List Node) : Evaluation κ Text :=
  evalNodes env (renderFragment env depth) nodes

end Stencil
