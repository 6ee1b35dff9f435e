import Stencil.Evaluation
import Stencil.Resolution.Inclusions
import Stencil.Resolution.Slots
import Stencil.Template

/-!
# Rendering templates

To render a template is to resolve its parents, then its inclusions, and to evaluate the tree that
remains. The tree is kept in the template's cell, so later renders only evaluate; a resolution that
fails leaves the cell empty and can be tried again. The empty template renders to the empty text
and is not resolved.

Where templates are found by name is a parameter here: an action of some monad. An `Engine` finds
them in a registry of its own.
-/

set_option autoImplicit false

namespace Stencil

/-- How a render ends. -/
inductive Rendering where
  | text (content : Text)
  | failed (error : RenderError)
  /-- A computed entry panicked outside every macro call. -/
  | panicked
  /-- Macros had text rendered inside one another deeper than allowed. -/
  | unfinished
deriving DecidableEq, Repr

/-- What evaluates trees: how computed entries are evaluated, and how deep macros may have text
rendered inside one another. -/
structure Evaluator (κ : Type) where
  evaluate : Evaluate κ
  depth : Nat

section Source

variable {κ : Type} {m : Type → Type} [Monad m]

/-- The tree of a document with its parents and inclusions resolved. -/
def resolveDocument (fetch : Text → m (Option Document)) (limits : Limits)
    (document : Document) : m (Except RenderError (List Node)) := do
  match ← resolveParents fetch limits.parents [] document with
  | (.error error, _) => return .error error
  | (.ok nodes, _) => resolveInclusions fetch limits.inclusions nodes

/-- The documents behind a source of templates. -/
def documentSource (fetch : Text → m (Option Template)) (name : Text) : m (Option Document) :=
  (fun template => template.map Template.document) <$> fetch name

/-- The resolved tree of a template, from its cell if that holds one, and into it otherwise. -/
def resolveTemplate (fetch : Text → m (Option Template)) (limits : Limits) (template : Template)
    (caches : Caches) : m (Except RenderError (List Node) × Caches) := do
  match caches.tree? template.cell with
  | some tree => return (.ok tree, caches)
  | none =>
    match ← resolveDocument (documentSource fetch) limits template.document with
    | .ok tree => return (.ok tree, caches.fill template.cell tree)
    | .error error => return (.error error, caches)

/-- The text of a resolved tree for some data. -/
def renderTree (evaluator : Evaluator κ) (macros : Macros κ) (tree : List Node)
    (data : Value κ) : Rendering :=
  match renderNodes ⟨evaluator.evaluate, macros⟩ evaluator.depth tree data with
  | some (.done content, _) => .text content
  | some (.panicked, _) => .panicked
  | none => .unfinished

/-- How a resolution that gave a tree, or failed, goes on with some data. -/
def renderResolved (evaluator : Evaluator κ) (macros : Macros κ) (data : Value κ) :
    Except RenderError (List Node) → Rendering
  | .ok tree => renderTree evaluator macros tree data
  | .error error => .failed error

/-- Renders a template. -/
def renderTemplate (evaluator : Evaluator κ) (fetch : Text → m (Option Template))
    (macros : Macros κ) (limits : Limits) (template : Template) (data : Value κ)
    (caches : Caches) : m (Rendering × Caches) := do
  -- the empty template leaves its cell empty
  if template.source.isEmpty then return (.text [], caches)
  else
    let (answer, caches) ← resolveTemplate fetch limits template caches
    return (renderResolved evaluator macros data answer, caches)

/-- Renders a template found by name. -/
def renderNamed (evaluator : Evaluator κ) (fetch : Text → m (Option Template))
    (macros : Macros κ) (limits : Limits) (name : Text) (data : Value κ) (caches : Caches) :
    m (Rendering × Caches) := do
  match ← fetch name with
  | none => return (.failed (.notFound name), caches)
  | some template => renderTemplate evaluator fetch macros limits template data caches

/-- Renders template text that is under no name. Its tree is kept nowhere. -/
def renderText (evaluator : Evaluator κ) (fetch : Text → m (Option Template))
    (macros : Macros κ) (limits : Limits) (source : Text) (data : Value κ) : m Rendering := do
  if source.isEmpty then return .text []
  else
    let answer ← resolveDocument (documentSource fetch) limits (Document.parse source)
    return renderResolved evaluator macros data answer

end Source

/-! ## Engines with a registry -/

/-- Templates by name, macros, and limits. -/
structure Engine (κ : Type) where
  templates : Entries Template := []
  macros : Macros κ := []
  limits : Limits := {}

namespace Engine

variable {κ : Type}

/-- The template under a name. -/
def find? (engine : Engine κ) (name : Text) : Id (Option Template) :=
  lookup? name engine.templates

/-- Puts a template under a name, which becomes its name; gives the template as it is kept. -/
def put (engine : Engine κ) (name : Text) (template : Template) : Template × Engine κ :=
  let template := template.rename name
  (template, { engine with templates := insertEntry name template engine.templates })

/-- The resolved tree of a template. -/
def resolve (engine : Engine κ) (template : Template) (caches : Caches) :
    Except RenderError (List Node) × Caches :=
  Id.run (resolveTemplate engine.find? engine.limits template caches)

/-- Renders a template. -/
def render (evaluator : Evaluator κ) (engine : Engine κ) (template : Template) (data : Value κ)
    (caches : Caches) : Rendering × Caches :=
  Id.run (renderTemplate evaluator engine.find? engine.macros engine.limits template data caches)

/-- Renders the template under a name. -/
def renderNamed (evaluator : Evaluator κ) (engine : Engine κ) (name : Text) (data : Value κ)
    (caches : Caches) : Rendering × Caches :=
  Id.run (Stencil.renderNamed evaluator engine.find? engine.macros engine.limits name data caches)

/-- Renders template text. -/
def renderText (evaluator : Evaluator κ) (engine : Engine κ) (source : Text) (data : Value κ) :
    Rendering :=
  Id.run (Stencil.renderText evaluator engine.find? engine.macros engine.limits source data)

end Engine

end Stencil
