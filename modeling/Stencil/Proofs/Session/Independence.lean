import Stencil.Proofs.Session.Cells

/-!
# Renders do not influence each other

As long as the templates, macros and limits of an engine stay as they are, what the engine answers
depends on the source of a template alone: not on the cells that earlier commands filled, not on the
name or handle the template goes by, and not on the data that it was rendered with before
(`answer_eq_alone`).

A cell is filled with what its source resolves to with the engine of that moment. If the engine is
still the same, this is what the source resolves to now (`Engine.Agrees`), so the cell only saves
work. A step that leaves the engine as it is keeps the cells of the session so (`Serves`).
-/

set_option autoImplicit false

namespace Stencil

namespace Engine

variable {κ : Type}

/-- If the cell of the template holds a tree, it is what the source resolves to with the engine. -/
def Agrees (engine : Engine κ) (template : Template) (caches : Caches) : Prop :=
  ∀ tree, caches.tree? template.cell = some tree → engine.treeOf template.source = .ok tree

section

variable {engine : Engine κ} {template : Template} {caches : Caches}

theorem Agrees.resolve (h : engine.Agrees template caches) :
    (engine.resolve template caches).1 = engine.treeOf template.source := by
  cases hcell : caches.tree? template.cell with
  | some tree => rw [engine.resolve_of_some hcell, h tree hcell]
  | none =>
      rw [engine.resolve_of_none hcell]
      cases engine.treeOf template.source <;> rfl

/-- **A render answers what rendering its source answers**, whether the cell is filled or not. -/
theorem Agrees.render (h : engine.Agrees template caches) (evaluator : Evaluator κ)
    (data : Value κ) :
    (engine.render evaluator template data caches).1
      = engine.renderText evaluator template.source data := by
  by_cases hsource : template.source = []
  · rw [engine.render_of_empty evaluator hsource, hsource]
    rfl
  · rw [engine.render_of_source evaluator hsource, engine.renderText_of_source evaluator hsource,
      h.resolve]

end

end Engine

namespace Session

variable {κ : Type} {session : Session κ} {index : Nat}

/-! ## Commands that leave the engines as they are -/

/-- Does the command leave the templates, macros and limits of every engine as they are? -/
def keepsEngines : Command κ → Bool
  | .hold _ _ _ | .rename _ _ _ | .get _ _ | .getAll _ | .contains _ | .describe _ => true
  | .resolve _ | .render _ _ | .renderNamed _ _ | .renderText _ _ => true
  | .put _ _ _ | .remove _ | .clear | .clearTemplates => false
  | .setLimits _ | .defineMacro _ _ | .removeMacro _ => false

theorem engines_holdMaybe (session : Session κ) (handle : Option Text) (template : Template) :
    (session.holdMaybe handle template).engines = session.engines := by
  cases handle <;> rfl

theorem engines_step {command : Command κ} (h : keepsEngines command = true)
    (evaluator : Evaluator κ) (session : Session κ) (index : Nat) :
    (session.step evaluator index command).2.engines = session.engines := by
  cases command with
  | get name into =>
      simp only [step]
      split
      · rfl
      · exact engines_holdMaybe session into _
  | rename | describe | resolve | render =>
      simp only [step]
      split <;> rfl
  | hold | getAll | contains | renderNamed | renderText => rfl
  | _ => cases h

theorem lookup?_held_of_hold {handle other : Text} {template : Template}
    (h : lookup? other (session.hold handle template).held = none) :
    lookup? other session.held = none := by
  rw [hold, lookup?_insertEntry] at h
  split at h
  · cases h
  · exact h

/-- A handle that is held stays held. -/
theorem lookup?_held_of_step {evaluator : Evaluator κ} {command : Command κ} {handle : Text}
    (hkeeps : keepsEngines command = true)
    (h : lookup? handle (session.step evaluator index command).2.held = none) :
    lookup? handle session.held = none := by
  cases command with
  | hold => exact lookup?_held_of_hold h
  | rename =>
      simp only [step] at h
      split at h
      · exact h
      · exact lookup?_held_of_hold h
  | get name into =>
      simp only [step] at h
      split at h
      · exact h
      · cases into with
        | none => exact h
        | some into => exact lookup?_held_of_hold h
  | describe | resolve | render =>
      simp only [step] at h
      split at h <;> exact h
  | getAll | contains | renderNamed | renderText => exact h
  | _ => cases hkeeps

/-! ## Cells that agree with the engine -/

/-- The trees in the cells are what the engine would give for the source of the cell. -/
def Serves (session : Session κ) (index : Nat) : Prop :=
  ∀ cell tree, session.caches.tree? cell = some tree →
    ∃ source, session.Reserves cell source ∧ (session.engines index).treeOf source = .ok tree

theorem Serves.agrees (h : session.Serves index) {template : Template}
    (htemplate : session.Has template) :
    (session.engines index).Agrees template session.caches := by
  intro tree htree
  obtain ⟨source, hreserves, hsource⟩ := h _ tree htree
  rw [hreserves.source_eq template htemplate rfl]
  exact hsource

theorem has_of_asked? {command : Command κ} {template : Template}
    (h : session.asked? index command = some template) : session.Has template := by
  cases command with
  | resolve handle => exact .held h
  | render handle data => exact .held h
  | renderNamed name data => exact .registered h
  | _ => cases h

/-- **One step**: a tree that is new in a cell comes from the engine as it is. -/
theorem Serves.step (h : session.Serves index) (hconsistent : session.Consistent)
    {command : Command κ} (hkeeps : keepsEngines command = true) (evaluator : Evaluator κ) :
    (session.step evaluator index command).2.Serves index := by
  intro cell tree htree
  rw [engines_step hkeeps]
  cases hcell : session.caches.tree? cell with
  | some held =>
      obtain rfl : held = tree :=
        Option.some.inj ((tree?_step hcell evaluator index command).symm.trans htree)
      obtain ⟨source, hreserves, hsource⟩ := h cell held hcell
      exact ⟨source, hreserves.step evaluator index command, hsource⟩
  | none =>
      obtain ⟨-, template, hasked, rfl, hsource⟩ := fillsCell_of_step hcell htree
      have hreserves := hconsistent template (has_of_asked? hasked)
      exact ⟨template.source, hreserves.step evaluator index command, hsource⟩

/-- **Any number of steps.** The engines stay as they are, the cells agree with this one, and what
is held stays held. -/
theorem Serves.run (h : session.Serves index) (hconsistent : session.Consistent)
    {history : List (Command κ)} (hkeeps : ∀ command ∈ history, keepsEngines command = true)
    (evaluator : Evaluator κ) :
    let last := Session.run evaluator (history.map fun command => (index, command)) session
    last.Serves index ∧ last.engines = session.engines ∧
      ∀ handle, lookup? handle last.held = none → lookup? handle session.held = none := by
  induction history generalizing session with
  | nil => exact ⟨h, rfl, fun _ hnone => hnone⟩
  | cons command rest ih =>
      rw [List.forall_mem_cons] at hkeeps
      obtain ⟨hserves, hengines, hheld⟩ := ih (h.step hconsistent hkeeps.1 evaluator)
        (hconsistent.step evaluator index command) hkeeps.2
      exact ⟨hserves, hengines.trans (engines_step hkeeps.1 evaluator session index),
        fun handle hnone => lookup?_held_of_step hkeeps.1 (hheld handle hnone)⟩

/-! ## Answers -/

/-- Is the command one that resolves, renders or looks up a template? -/
def asks : Command κ → Bool
  | .resolve _ | .render _ _ | .renderNamed _ _ | .renderText _ _ | .get _ _ => true
  | _ => false

/-- The handle of the template that a command resolves or renders. -/
def handle? : Command κ → Option Text
  | .resolve handle | .render handle _ => some handle
  | _ => none

namespace Serves

variable {handle name : Text} {template : Template}

theorem answer_resolve (h : session.Serves index)
    (hheld : lookup? handle session.held = some template) (evaluator : Evaluator κ) :
    (session.step evaluator index (.resolve handle)).1
      = .tree ((session.engines index).treeOf template.source) := by
  simp only [Session.step, hheld]
  rw [(h.agrees (.held hheld)).resolve]

theorem answer_render (h : session.Serves index)
    (hheld : lookup? handle session.held = some template) (evaluator : Evaluator κ)
    (data : Value κ) :
    (session.step evaluator index (.render handle data)).1
      = .rendering ((session.engines index).renderText evaluator template.source data) := by
  simp only [Session.step, hheld]
  rw [(h.agrees (.held hheld)).render]

theorem answer_renderNamed (h : session.Serves index)
    (hfound : lookup? name (session.engines index).templates = some template)
    (evaluator : Evaluator κ) (data : Value κ) :
    (session.step evaluator index (.renderNamed name data)).1
      = .rendering ((session.engines index).renderText evaluator template.source data) := by
  simp only [Session.step]
  rw [Engine.renderNamed_of_some evaluator _ hfound, (h.agrees (.registered hfound)).render]

end Serves

theorem answer_renderNamed_of_none {name : Text}
    (hnone : lookup? name (session.engines index).templates = none)
    (evaluator : Evaluator κ) (data : Value κ) :
    (session.step evaluator index (.renderNamed name data)).1
      = .rendering (.failed (.notFound name)) := by
  simp only [step]
  rw [Engine.renderNamed_of_none evaluator _ hnone]

theorem answer_get (evaluator : Evaluator κ) (session : Session κ) (name : Text)
    (into : Option Text) :
    (session.step evaluator index (.get name into)).1
      = match lookup? name (session.engines index).templates with
        | none => .nothing
        | some template => .template template := by
  simp only [step]
  split <;> simp_all

/-- **What an answer depends on**: the engine, and the source of the template that is asked for.
Neither the cells nor anything else in the session has a say. -/
theorem Serves.answer_eq {other : Session κ} (h : session.Serves index)
    (hother : other.Serves index)
    (hengine : session.engines index = other.engines index) {command : Command κ}
    (hasks : asks command = true)
    (hsource : ∀ handle, handle? command = some handle →
      (lookup? handle session.held).map (·.source) = (lookup? handle other.held).map (·.source))
    (evaluator : Evaluator κ) :
    (session.step evaluator index command).1 = (other.step evaluator index command).1 := by
  cases command with
  | resolve handle =>
      have hheld := hsource handle rfl
      cases hsome : lookup? handle session.held with
      | none =>
          rw [hsome, eq_comm, Option.map_none, Option.map_eq_none_iff] at hheld
          simp [Session.step, hsome, hheld]
      | some template =>
          rw [hsome, eq_comm, Option.map_some, Option.map_eq_some_iff] at hheld
          obtain ⟨twin, htwin, heq⟩ := hheld
          rw [h.answer_resolve hsome, hother.answer_resolve htwin, hengine, heq]
  | render handle data =>
      have hheld := hsource handle rfl
      cases hsome : lookup? handle session.held with
      | none =>
          rw [hsome, eq_comm, Option.map_none, Option.map_eq_none_iff] at hheld
          simp [Session.step, hsome, hheld]
      | some template =>
          rw [hsome, eq_comm, Option.map_some, Option.map_eq_some_iff] at hheld
          obtain ⟨twin, htwin, heq⟩ := hheld
          rw [h.answer_render hsome, hother.answer_render htwin, hengine, heq]
  | renderNamed name data =>
      cases hfound : lookup? name (session.engines index).templates with
      | some template =>
          rw [h.answer_renderNamed hfound, hother.answer_renderNamed (hengine ▸ hfound), hengine]
      | none =>
          rw [answer_renderNamed_of_none hfound, answer_renderNamed_of_none (hengine ▸ hfound)]
  | renderText source data => simp only [Session.step, hengine]
  | get name into => rw [answer_get, answer_get, hengine]
  | _ => cases hasks

/-! ## Commands tried alone -/

/-- The session with a fresh template held, which nothing was done with yet. -/
def holdFresh (session : Session κ) (handle source : Text) : Session κ :=
  let (template, session) := session.create none source
  session.hold handle template

/-- The first session made ready for a command of a later one: if the command is about a held
template, a fresh one of the same source is held in its place. -/
def readyFor (initial later : Session κ) (command : Command κ) : Session κ :=
  match handle? command with
  | none => initial
  | some handle =>
    match lookup? handle later.held with
    | none => initial
    | some template => initial.holdFresh handle template.source

theorem Serves.readyFor (h : session.Serves index) (hconsistent : session.Consistent)
    (evaluator : Evaluator κ) (later : Session κ) (command : Command κ) :
    (session.readyFor later command).Serves index := by
  unfold Session.readyFor
  split
  · exact h
  · next handle _ =>
      split
      · exact h
      · next template _ =>
          have hkeeps : keepsEngines (.hold handle none template.source : Command κ) = true := rfl
          exact h.step hconsistent hkeeps evaluator

theorem engines_readyFor (initial later : Session κ) (command : Command κ) :
    (initial.readyFor later command).engines = initial.engines := by
  unfold readyFor
  split
  · rfl
  · split <;> rfl

theorem source_readyFor {initial later : Session κ} {command : Command κ} {handle : Text}
    (hhandle : handle? command = some handle)
    (hheld : lookup? handle later.held = none → lookup? handle initial.held = none) :
    (lookup? handle (initial.readyFor later command).held).map (·.source)
      = (lookup? handle later.held).map (·.source) := by
  unfold readyFor
  rw [hhandle]
  cases hsome : lookup? handle later.held with
  | none => simp [hsome, hheld hsome]
  | some template => simp [hsome, holdFresh, create, hold, lookup?_insertEntry]

/-- **Renders do not influence each other.** Take any session in which no template is resolved yet,
and any commands on one engine that leave templates, macros and limits as they are, whatever they
answer. After them each command that resolves, renders or looks up a template answers what it
answers alone, in the session as it was before, about a fresh template of the same source. So a
render gives what rendering the source gives, by whatever handle or name the template goes and
whatever was rendered before. The templates of the registry stay what they are, and every copy of a
template keeps its source for ever. -/
theorem answer_eq_alone (evaluator : Evaluator κ) (setup : List (Nat × Command κ)) (index : Nat)
    (hfresh : ∀ cell, (run evaluator setup start).caches.tree? cell = none)
    (history : List (Command κ)) (hkeeps : ∀ command ∈ history, keepsEngines command = true) :
    let initial := run evaluator setup start
    let session := run evaluator (history.map fun command => (index, command)) initial
    (∀ command, asks command = true → (session.step evaluator index command).1
      = ((initial.readyFor session command).step evaluator index command).1) ∧
    (∀ handle template data, lookup? handle session.held = some template →
      (session.step evaluator index (.render handle data)).1
        = .rendering ((initial.engines index).renderText evaluator template.source data)) ∧
    (∀ name template data, lookup? name (initial.engines index).templates = some template →
      (session.step evaluator index (.renderNamed name data)).1
        = .rendering ((initial.engines index).renderText evaluator template.source data)) ∧
    session.engines = initial.engines ∧
    ∀ more first second, session.Has first → (run evaluator more session).Has second →
      first.cell = second.cell → first.source = second.source := by
  intro initial session
  have hconsistent : initial.Consistent := consistent_start.run evaluator setup
  have hinitial : initial.Serves index := by
    intro cell tree htree
    rw [hfresh cell] at htree
    cases htree
  obtain ⟨hserves, hengines, hheld⟩ : session.Serves index ∧ session.engines = initial.engines ∧
      ∀ handle, lookup? handle session.held = none → lookup? handle initial.held = none :=
    hinitial.run hconsistent hkeeps evaluator
  refine ⟨fun command hasks => ?_, fun handle template data htemplate => ?_,
    fun name template data htemplate => ?_, hengines, ?_⟩
  · have halone := hinitial.readyFor hconsistent evaluator session command
    refine hserves.answer_eq halone ?_ hasks (fun handle hhandle => ?_) evaluator
    · rw [engines_readyFor, hengines]
    · exact (source_readyFor hhandle (hheld handle)).symm
  · rw [hserves.answer_render htemplate, hengines]
  · rw [hserves.answer_renderNamed (hengines ▸ htemplate), hengines]
  · intro more first second hfirst hsecond hcell
    have hreserves := ((hconsistent.run evaluator _) first hfirst).run evaluator more
    exact (hreserves.source_eq second hsecond hcell.symm).symm

/-- A template that has a parent is rendered, with data that makes the evaluation panic; another one
fails to render, since its parent is not there. A copy of the first then renders like a fresh
template. -/
theorem answer_eq_alone_copy :
    let evaluator : Evaluator Unit := ⟨fun _ _ => .panicked, 0⟩
    let setup : List (Nat × Command Unit) := [
      (0, .put ['p'] (.source "[{{#b}}{{/b}}]".toList) none),
      (0, .hold ['t'] none "{{^p}}{{#b}}{{=x}}{{/b}}".toList),
      (0, .hold ['u'] none "{{^gone}}".toList)]
    let history : List (Command Unit) := [.render ['t'] (.mapping [(['x'], .computed ())]),
      .render ['u'] .null, .rename ['t'] ['n'] ['c']]
    let command : Command Unit := .render ['c'] (.mapping [(['x'], .text ['2'])])
    let initial := run evaluator setup start
    let session := run evaluator (history.map fun command => (0, command)) initial
    (∀ cell, initial.caches.tree? cell = none) ∧
      (∀ command ∈ history, keepsEngines command = true) ∧ asks command = true ∧
      (session.step evaluator 0 command).1
        = ((initial.readyFor session command).step evaluator 0 command).1 := by
  intro evaluator setup history command initial session
  have hfresh : ∀ cell, initial.caches.tree? cell = none := fun _ => rfl
  have hkeeps : ∀ command ∈ history, keepsEngines command = true := by simp [history, keepsEngines]
  exact ⟨hfresh, hkeeps, rfl,
    (answer_eq_alone evaluator setup 0 hfresh history hkeeps).1 command rfl⟩

end Session

end Stencil
