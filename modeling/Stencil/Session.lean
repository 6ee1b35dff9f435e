import Stencil.Engine

/-!
# Sessions

Templates can be held outside the registries they are put into, and the same template can be in
several registries. A `Session` is a number of engines, the templates that are held, each under a
handle, and the cells that all of them share. A `Command` does one thing with one engine, and
`Session.step` says what it answers and what the session is afterwards.
-/

set_option autoImplicit false

namespace Stencil

/-- Engines, held templates, and the cells of all templates. -/
structure Session (κ : Type) where
  engines : Nat → Engine κ
  held : Entries Template
  caches : Caches
  /-- The first cell that belongs to no template yet. -/
  nextCell : Nat

/-- Where a template comes from. -/
inductive Origin where
  /-- A new template with this source. -/
  | source (source : Text)
  /-- A copy of the template held under this handle. -/
  | handle (handle : Text)

/-- Something to do with an engine. -/
inductive Command (κ : Type) where
  /-- Hold a new template. -/
  | hold (handle : Text) (name : Option Text) (source : Text)
  /-- Hold a copy of a held template under another name and handle. -/
  | rename (handle name into : Text)
  /-- Put a template into the registry, and hold it as it is kept there. -/
  | put (name : Text) (origin : Origin) (into : Option Text)
  /-- Look a template up, and hold it. -/
  | get (name : Text) (into : Option Text)
  /-- Look several templates up. -/
  | getAll (names : List Text)
  | remove (name : Text)
  /-- Ask for a template and for a macro. -/
  | contains (name : Text)
  /-- Remove every template and macro. -/
  | clear
  | clearTemplates
  | describe (handle : Text)
  | setLimits (limits : Limits)
  /-- Put a macro into the registry if one is given, and ask for it. -/
  | defineMacro (name : Text) (new : Option (Macro κ))
  | removeMacro (name : Text)
  | resolve (handle : Text)
  | render (handle : Text) (data : Value κ)
  | renderNamed (name : Text) (data : Value κ)
  | renderText (source : Text) (data : Value κ)

/-- What a command answers. -/
inductive Answer where
  | nothing
  /-- The handle is not held. -/
  | noHandle
  | template (template : Template)
  /-- The sources of the templates found, by name. -/
  | sources (sources : Entries Text)
  | source (source : Option Text)
  | presence (template registeredMacro : Bool)
  | flag (value : Bool)
  | limits (limits : Limits)
  | tree (answer : Except RenderError (List Node))
  | rendering (rendering : Rendering)

namespace Session

variable {κ : Type}

/-- The session with no templates and fresh engines. -/
def start : Session κ := ⟨fun _ => {}, [], [], 0⟩

/-- The session with another engine in a place. -/
def setEngine (session : Session κ) (index : Nat) (engine : Engine κ) : Session κ :=
  { session with engines := fun i => if i = index then engine else session.engines i }

/-- The session with a template held under a handle. -/
def hold (session : Session κ) (handle : Text) (template : Template) : Session κ :=
  { session with held := insertEntry handle template session.held }

/-- The session with a template held, if a handle is given. -/
def holdMaybe (session : Session κ) (handle : Option Text) (template : Template) : Session κ :=
  match handle with
  | some handle => session.hold handle template
  | none => session

/-- A new template with a cell of its own. -/
def create (session : Session κ) (name : Option Text) (source : Text) : Template × Session κ :=
  (⟨name, source, session.nextCell⟩, { session with nextCell := session.nextCell + 1 })

/-- The template an origin gives. -/
def obtain? (session : Session κ) : Origin → Option (Template × Session κ)
  | .source source => some (session.create none source)
  | .handle handle => (lookup? handle session.held).map fun template => (template, session)

/-- The sources of the templates found under names, each name once. -/
def sourcesOf (engine : Engine κ) (names : List Text) : Entries Text :=
  (distinct names).filterMap fun name =>
    (lookup? name engine.templates).map fun template => (name, template.source)

/-- What a command on an engine answers, and the session after it. -/
def step (evaluator : Evaluator κ) (session : Session κ) (index : Nat) :
    Command κ → Answer × Session κ
  | .hold handle name source =>
    let (template, session) := session.create name source
    (.template template, session.hold handle template)
  | .rename handle name into =>
    match lookup? handle session.held with
    | none => (.noHandle, session)
    | some template =>
      let template := template.rename name
      (.template template, session.hold into template)
  | .put name origin into =>
    match session.obtain? origin with
    | none => (.noHandle, session)
    | some (template, session) =>
      let (template, engine) := (session.engines index).put name template
      (.template template, (session.setEngine index engine).holdMaybe into template)
  | .get name into =>
    match lookup? name (session.engines index).templates with
    | none => (.nothing, session)
    | some template => (.template template, session.holdMaybe into template)
  | .getAll names => (.sources (sourcesOf (session.engines index) names), session)
  | .remove name =>
    let engine := session.engines index
    (.source ((lookup? name engine.templates).map (·.source)),
      session.setEngine index { engine with templates := eraseEntry name engine.templates })
  | .contains name =>
    let engine := session.engines index
    (.presence (lookup? name engine.templates).isSome (lookup? name engine.macros).isSome,
      session)
  | .clear =>
    let engine := session.engines index
    (.nothing, session.setEngine index { engine with templates := [], macros := [] })
  | .clearTemplates =>
    let engine := session.engines index
    (.nothing, session.setEngine index { engine with templates := [] })
  -- what is known of a template comes with the answer, its cell from the caches
  | .describe handle =>
    match lookup? handle session.held with
    | none => (.noHandle, session)
    | some template => (.template template, session)
  | .setLimits limits =>
    let engine := session.engines index
    (.limits limits, session.setEngine index { engine with limits := limits })
  | .defineMacro name new =>
    let engine := session.engines index
    let macros := Macros.define engine.macros name new
    (.flag (lookup? name macros).isSome,
      session.setEngine index { engine with macros := macros })
  | .removeMacro name =>
    let engine := session.engines index
    (.flag (lookup? name engine.macros).isSome,
      session.setEngine index { engine with macros := eraseEntry name engine.macros })
  | .resolve handle =>
    match lookup? handle session.held with
    | none => (.noHandle, session)
    | some template =>
      let (answer, caches) := (session.engines index).resolve template session.caches
      (.tree answer, { session with caches := caches })
  | .render handle data =>
    match lookup? handle session.held with
    | none => (.noHandle, session)
    | some template =>
      let (answer, caches) :=
        Engine.render evaluator (session.engines index) template data session.caches
      (.rendering answer, { session with caches := caches })
  | .renderNamed name data =>
    let (answer, caches) :=
      Engine.renderNamed evaluator (session.engines index) name data session.caches
    (.rendering answer, { session with caches := caches })
  | .renderText source data =>
    (.rendering (Engine.renderText evaluator (session.engines index) source data), session)

end Session

end Stencil
