import Stencil.Proofs.Engine.Filling
import Stencil.Session

/-!
# The cells of a session

Templates are copied, renamed, put into several registries and taken out again, and all copies share
one cell. What holds of the cells after any commands on any engines: templates that share a cell
have one source, a cell that holds a tree keeps it, and the tree is what the source resolved to with
the engine of the command that filled the cell, at that moment (`cells_of_run`).

A command reaches the cells through an engine (`Engine.Fills`), and it brings in at most one new
template, with a cell that no template had before (`has_of_step`). Everything else is an induction
on the commands.
-/

set_option autoImplicit false

namespace Stencil

namespace Session

variable {κ : Type}

/-- The session after some commands, each on an engine. -/
def run (evaluator : Evaluator κ) (commands : List (Nat × Command κ)) (session : Session κ) :
    Session κ :=
  commands.foldl (fun session command => (session.step evaluator command.1 command.2).2) session

/-! ## Templates -/

/-- The session has a template: it is held, or it is in a registry. -/
inductive Has (session : Session κ) (template : Template) : Prop
  | held {handle : Text} (h : lookup? handle session.held = some template)
  | registered {index : Nat} {name : Text}
      (h : lookup? name (session.engines index).templates = some template)

/-- The source of the template that a command makes, if it makes one. -/
def newSource? : Command κ → Option Text
  | .hold _ _ source => some source
  | .put _ (.source source) _ => some source
  | _ => none

theorem has_hold {session : Session κ} {handle : Text} {template other : Template}
    (h : (session.hold handle template).Has other) : other = template ∨ session.Has other := by
  cases h with
  | @held other_handle h =>
      rw [hold, lookup?_insertEntry] at h
      split at h
      · exact .inl (Option.some.inj h).symm
      · exact .inr (.held h)
  | registered h => exact .inr (.registered h)

theorem has_holdMaybe {session : Session κ} {handle : Option Text} {template other : Template}
    (h : (session.holdMaybe handle template).Has other) :
    other = template ∨ session.Has other := by
  cases handle with
  | none => exact .inr h
  | some handle => exact has_hold h

theorem has_setEngine {session : Session κ} {index : Nat} {engine : Engine κ} {other : Template}
    (h : (session.setEngine index engine).Has other) :
    (∃ name, lookup? name engine.templates = some other) ∨ session.Has other := by
  cases h with
  | held h => exact .inr (.held h)
  | @registered place name h =>
      by_cases hplace : place = index
      · simp only [setEngine, hplace, if_true] at h
        exact .inl ⟨name, h⟩
      · simp only [setEngine, hplace, if_false] at h
        exact .inr (.registered h)

/-- The templates of a session are those of its holders and registries, whatever else it has. -/
theorem Has.congr {session other : Session κ} {template : Template} (h : session.Has template)
    (hheld : session.held = other.held) (hengines : session.engines = other.engines) :
    other.Has template := by
  cases h with
  | held h => exact .held (hheld ▸ h)
  | registered h => exact .registered (hengines ▸ h)

theorem has_put {session : Session κ} {index : Nat} {name : Text} {into : Option Text}
    {template other : Template}
    (h : ((session.setEngine index ((session.engines index).put name template).2).holdMaybe into
      (template.rename name)).Has other) :
    other = template.rename name ∨ session.Has other := by
  rcases has_holdMaybe h with rfl | h
  · exact .inl rfl
  rcases has_setEngine h with ⟨key, h⟩ | h
  · simp only [Engine.put, lookup?_insertEntry] at h
    split at h
    · exact .inl (Option.some.inj h).symm
    · exact .inr (.registered h)
  · exact .inr h

/-- **What a command brings in**: a template that shares cell and source with one that was there
before, or a new one, with the first cell that belonged to none. -/
theorem has_of_step {evaluator : Evaluator κ} {session : Session κ} {index : Nat}
    {command : Command κ} {template : Template}
    (h : (session.step evaluator index command).2.Has template) :
    (∃ old, session.Has old ∧ old.cell = template.cell ∧ old.source = template.source) ∨
    (template.cell = session.nextCell ∧
      session.nextCell < (session.step evaluator index command).2.nextCell ∧
      newSource? command = some template.source) := by
  -- a template that was there before stands for itself
  have hold : session.Has template →
      ∃ old, session.Has old ∧ old.cell = template.cell ∧ old.source = template.source :=
    fun h => ⟨template, h, rfl, rfl⟩
  cases command with
  | hold handle name source =>
      rcases has_hold h with rfl | h
      · exact .inr ⟨rfl, Nat.lt_succ_self _, rfl⟩
      · exact .inl (hold (h.congr rfl rfl))
  | rename handle name into =>
      simp only [step] at h
      split at h
      · exact .inl (hold h)
      · next held hheld =>
          rcases has_hold h with rfl | h
          · exact .inl ⟨held, .held hheld, rfl, rfl⟩
          · exact .inl (hold h)
  | put name origin into =>
      cases origin with
      | source source =>
          rcases has_put h with rfl | h
          · refine .inr ⟨rfl, ?_, rfl⟩
            cases into <;> exact Nat.lt_succ_self _
          · exact .inl (hold (h.congr rfl rfl))
      | handle handle =>
          simp only [step, obtain?] at h
          cases hheld : lookup? handle session.held with
          | none =>
              rw [hheld] at h
              exact .inl (hold h)
          | some held =>
              rw [hheld] at h
              rcases has_put h with rfl | h
              · exact .inl ⟨held, .held hheld, rfl, rfl⟩
              · exact .inl (hold h)
  | get name into =>
      simp only [step] at h
      split at h
      · exact .inl (hold h)
      · next found hfound =>
          rcases has_holdMaybe h with rfl | h
          · exact .inl (hold (.registered hfound))
          · exact .inl (hold h)
  | getAll | contains | renderText => exact .inl (hold h)
  | remove name =>
      rcases has_setEngine h with ⟨key, h⟩ | h
      · rw [lookup?_eraseEntry] at h
        split at h
        · cases h
        · exact .inl (hold (.registered h))
      · exact .inl (hold h)
  | clear | clearTemplates =>
      rcases has_setEngine h with ⟨key, h⟩ | h
      · cases h
      · exact .inl (hold h)
  | describe handle =>
      simp only [step] at h
      split at h <;> exact .inl (hold h)
  | setLimits | defineMacro | removeMacro =>
      rcases has_setEngine h with ⟨key, h⟩ | h
      · exact .inl (hold (.registered h))
      · exact .inl (hold h)
  | resolve | render =>
      simp only [step] at h
      split at h
      · exact .inl (hold h)
      · exact .inl (hold (h.congr rfl rfl))
  | renderNamed name data => exact .inl (hold (h.congr rfl rfl))

theorem nextCell_holdMaybe (session : Session κ) (handle : Option Text) (template : Template) :
    (session.holdMaybe handle template).nextCell = session.nextCell := by
  cases handle <;> rfl

theorem caches_holdMaybe (session : Session κ) (handle : Option Text) (template : Template) :
    (session.holdMaybe handle template).caches = session.caches := by
  cases handle <;> rfl

theorem nextCell_le_step (evaluator : Evaluator κ) (session : Session κ) (index : Nat)
    (command : Command κ) :
    session.nextCell ≤ (session.step evaluator index command).2.nextCell := by
  cases command with
  | hold handle name source => exact Nat.le_succ _
  | put name origin into =>
      cases origin with
      | source source =>
          simp only [step, obtain?, nextCell_holdMaybe]
          exact Nat.le_succ _
      | handle handle =>
          simp only [step, obtain?]
          cases lookup? handle session.held with
          | none => exact Nat.le_refl _
          | some held =>
              simp only [Option.map_some, nextCell_holdMaybe]
              exact Nat.le_refl _
  | get name into =>
      simp only [step]
      split
      · exact Nat.le_refl _
      · exact Nat.le_of_eq (nextCell_holdMaybe _ _ _).symm
  | rename | describe | resolve | render =>
      simp only [step]
      split <;> exact Nat.le_refl _
  | _ => exact Nat.le_refl _

/-! ## One source for each cell -/

/-- A cell belongs to a source: all templates with the cell have that source, and no template to
come gets the cell. -/
structure Reserves (session : Session κ) (cell : Nat) (source : Text) : Prop where
  below : cell < session.nextCell
  source_eq : ∀ template, session.Has template → template.cell = cell → template.source = source

/-- The cell of every template belongs to the source of the template. -/
def Consistent (session : Session κ) : Prop :=
  ∀ template, session.Has template → session.Reserves template.cell template.source

theorem Reserves.step {session : Session κ} {cell : Nat} {source : Text}
    (h : session.Reserves cell source) (evaluator : Evaluator κ) (index : Nat)
    (command : Command κ) :
    (session.step evaluator index command).2.Reserves cell source := by
  refine ⟨Nat.lt_of_lt_of_le h.below (nextCell_le_step evaluator session index command), ?_⟩
  intro template htemplate hcell
  rcases has_of_step htemplate with ⟨old, hold, holdCell, holdSource⟩ | ⟨hnew, -, -⟩
  · rw [← holdSource]
    exact h.source_eq old hold (holdCell.trans hcell)
  · have := h.below
    omega

theorem Reserves.run {session : Session κ} {cell : Nat} {source : Text}
    (h : session.Reserves cell source) (evaluator : Evaluator κ)
    (commands : List (Nat × Command κ)) :
    (Session.run evaluator commands session).Reserves cell source := by
  induction commands generalizing session with
  | nil => exact h
  | cons command rest ih => exact ih (h.step evaluator command.1 command.2)

theorem Consistent.step {session : Session κ} (h : session.Consistent) (evaluator : Evaluator κ)
    (index : Nat) (command : Command κ) :
    (session.step evaluator index command).2.Consistent := by
  intro template htemplate
  rcases has_of_step htemplate with ⟨old, hold, holdCell, holdSource⟩ | ⟨hnew, hbelow, hsource⟩
  · rw [← holdCell, ← holdSource]
    exact (h old hold).step evaluator index command
  · refine ⟨hnew ▸ hbelow, ?_⟩
    intro other hother hcell
    rcases has_of_step hother with ⟨old, hold, holdCell, -⟩ | ⟨-, -, hsource'⟩
    · -- an old template has an old cell, and this one is new
      have := (h old hold).below
      omega
    · exact Option.some.inj (hsource'.symm.trans hsource)

theorem consistent_start : (start : Session κ).Consistent := by
  intro template h
  cases h with
  | held h => cases h
  | registered h => cases h

theorem Consistent.run {session : Session κ} (h : session.Consistent) (evaluator : Evaluator κ)
    (commands : List (Nat × Command κ)) : (Session.run evaluator commands session).Consistent := by
  induction commands generalizing session with
  | nil => exact h
  | cons command rest ih => exact ih (h.step evaluator command.1 command.2)

/-! ## The trees in the cells -/

/-- The template that a command has its engine resolve or render, if it is one that a session
keeps. -/
def asked? (session : Session κ) (index : Nat) : Command κ → Option Template
  | .resolve handle => lookup? handle session.held
  | .render handle _ => lookup? handle session.held
  | .renderNamed name _ => lookup? name (session.engines index).templates
  | _ => none

/-- The error in an answer. -/
def error? : Answer → Option RenderError
  | .tree (.error error) => some error
  | .rendering (.failed error) => some error
  | _ => none

theorem eq_of_error?_tree {answer : Except RenderError (List Node)} {error : RenderError}
    (h : error? (.tree answer) = some error) : answer = .error error := by
  cases answer with
  | ok tree => cases h
  | error other => exact congrArg Except.error (Option.some.inj h)

theorem eq_of_error?_rendering {rendering : Rendering} {error : RenderError}
    (h : error? (.rendering rendering) = some error) : rendering = .failed error := by
  cases rendering with
  | failed other => exact congrArg Rendering.failed (Option.some.inj h)
  | _ => cases h

/-- **What a command does to the cells**: nothing, or what its engine does when it works on the
template that the command asks for. -/
theorem caches_step (evaluator : Evaluator κ) (session : Session κ) (index : Nat)
    (command : Command κ) :
    (session.step evaluator index command).2.caches = session.caches ∨
    ∃ template, session.asked? index command = some template ∧
      (session.engines index).Fills template session.caches
        (session.step evaluator index command).2.caches := by
  cases command with
  | put name origin into =>
      refine .inl ?_
      cases origin with
      | source source =>
          simp only [step, obtain?, caches_holdMaybe]
          rfl
      | handle handle =>
          simp only [step, obtain?]
          cases lookup? handle session.held with
          | none => rfl
          | some held =>
              simp only [Option.map_some, caches_holdMaybe]
              rfl
  | get name into =>
      refine .inl ?_
      simp only [step]
      split
      · rfl
      · exact caches_holdMaybe session into _
  | rename | describe =>
      refine .inl ?_
      simp only [step]
      split <;> rfl
  | resolve handle =>
      simp only [step, asked?]
      split
      · exact .inl rfl
      · next template htemplate =>
          exact .inr ⟨template, htemplate, Engine.fills_resolve _ template session.caches⟩
  | render handle data =>
      simp only [step, asked?]
      split
      · exact .inl rfl
      · next template htemplate =>
          refine .inr ⟨template, htemplate, ?_⟩
          exact Engine.fills_render evaluator _ template data session.caches
  | renderNamed name data =>
      simp only [step, asked?]
      cases hfound : lookup? name (session.engines index).templates with
      | none => exact .inl (by rw [Engine.renderNamed_of_none evaluator _ hfound])
      | some template =>
          refine .inr ⟨template, rfl, ?_⟩
          rw [Engine.renderNamed_of_some evaluator _ hfound]
          exact Engine.fills_render evaluator _ template data session.caches
  | _ => exact .inl rfl

/-- A cell that holds a tree keeps it. -/
theorem tree?_step {session : Session κ} {cell : Nat} {tree : List Node}
    (h : session.caches.tree? cell = some tree) (evaluator : Evaluator κ) (index : Nat)
    (command : Command κ) :
    (session.step evaluator index command).2.caches.tree? cell = some tree := by
  rcases caches_step evaluator session index command with hsame | ⟨template, -, hfills⟩
  · rw [hsame, h]
  · exact hfills.tree?_of_some h

theorem tree?_run {session : Session κ} {cell : Nat} {tree : List Node}
    (h : session.caches.tree? cell = some tree) (evaluator : Evaluator κ)
    (commands : List (Nat × Command κ)) :
    (run evaluator commands session).caches.tree? cell = some tree := by
  induction commands generalizing session with
  | nil => exact h
  | cons command rest ih => exact ih (tree?_step h evaluator command.1 command.2)

/-- Only the cell of the template that a command asks for can change. -/
theorem tree?_step_of_ne {session : Session κ} {index : Nat} {command : Command κ} {cell : Nat}
    (h : ∀ template, session.asked? index command = some template → template.cell ≠ cell)
    (evaluator : Evaluator κ) :
    (session.step evaluator index command).2.caches.tree? cell
      = session.caches.tree? cell := by
  rcases caches_step evaluator session index command with hsame | ⟨template, hasked, hfills⟩
  · rw [hsame]
  · exact hfills.tree?_of_ne (h template hasked)

/-- A command that answers with an error changes nothing. -/
theorem step_of_error {evaluator : Evaluator κ} {session : Session κ} {index : Nat}
    {command : Command κ} {error : RenderError}
    (h : error? (session.step evaluator index command).1 = some error) :
    (session.step evaluator index command).2 = session := by
  have hsame : ∀ caches, caches = session.caches →
      { session with caches := caches } = session := by
    rintro _ rfl
    rfl
  cases command with
  | put | get | rename | describe =>
      simp only [step] at h
      split at h <;> cases h
  | resolve handle =>
      simp only [step] at h ⊢
      split at h
      · cases h
      · exact hsame _ (Engine.caches_resolve_of_error (eq_of_error?_tree h))
  | render handle data =>
      simp only [step] at h ⊢
      split at h
      · cases h
      · exact hsame _ (Engine.caches_render_of_failed (eq_of_error?_rendering h))
  | renderNamed name data =>
      simp only [step] at h ⊢
      refine hsame _ ?_
      cases hfound : lookup? name (session.engines index).templates with
      | none => rw [Engine.renderNamed_of_none evaluator _ hfound]
      | some template =>
          rw [Engine.renderNamed_of_some evaluator _ hfound] at h ⊢
          exact Engine.caches_render_of_failed (eq_of_error?_rendering h)
  | renderText source data => rfl
  | _ => cases h

/-- The source that a command has rendered. -/
def renderedSource? (session : Session κ) (index : Nat) : Command κ → Option Text
  | .render handle _ => (lookup? handle session.held).map (·.source)
  | .renderNamed name _ =>
      (lookup? name (session.engines index).templates).map (·.source)
  | .renderText source _ => some source
  | _ => none

/-- The empty source renders to the empty text, and no cell is filled on the way. -/
theorem step_of_empty {session : Session κ} {index : Nat} {command : Command κ}
    (h : session.renderedSource? index command = some []) (evaluator : Evaluator κ) :
    session.step evaluator index command = (.rendering (.text []), session) := by
  cases command with
  | render handle data =>
      obtain ⟨template, htemplate, hsource⟩ := Option.map_eq_some_iff.mp h
      simp only [step, htemplate]
      rw [Engine.render_of_empty evaluator _ hsource]
  | renderNamed name data =>
      obtain ⟨template, htemplate, hsource⟩ := Option.map_eq_some_iff.mp h
      simp only [step]
      rw [Engine.renderNamed_of_some evaluator _ htemplate,
        Engine.render_of_empty evaluator _ hsource]
  | renderText source data =>
      obtain rfl : source = [] := Option.some.inj h
      rfl
  | _ => cases h

/-- As long as its cell is empty a template is resolved anew. -/
theorem step_resolve_of_none {session : Session κ} {handle : Text} {template : Template}
    (htemplate : lookup? handle session.held = some template)
    (hempty : session.caches.tree? template.cell = none) (evaluator : Evaluator κ)
    (index : Nat) : (session.step evaluator index (.resolve handle)).1
      = .tree ((session.engines index).treeOf template.source) := by
  simp only [step, htemplate]
  rw [Engine.resolve_of_none _ hempty]
  cases (session.engines index).treeOf template.source <;> rfl

/-- A command fills a cell with a tree: the cell is empty, and the tree is what the source of the
template that the command asks for resolves to with the engine as it is now. -/
structure FillsCell (session : Session κ) (index : Nat) (command : Command κ) (cell : Nat)
    (tree : List Node) : Prop where
  empty : session.caches.tree? cell = none
  origin : ∃ template, session.asked? index command = some template ∧ template.cell = cell ∧
    (session.engines index).treeOf template.source = .ok tree

theorem fillsCell_of_step {evaluator : Evaluator κ} {session : Session κ} {index : Nat}
    {command : Command κ} {cell : Nat} {tree : List Node}
    (hempty : session.caches.tree? cell = none)
    (htree : (session.step evaluator index command).2.caches.tree? cell = some tree) :
    session.FillsCell index command cell tree := by
  rcases caches_step evaluator session index command with hsame | ⟨template, hasked, hfills⟩
  · rw [hsame, hempty] at htree
    cases htree
  · exact ⟨hempty, template, hasked, hfills.treeOf_of_new hempty htree⟩

/-- A tree that was not there at the beginning was put in its cell by one of the commands. -/
theorem exists_fillsCell (evaluator : Evaluator κ) (commands : List (Nat × Command κ))
    {session : Session κ} {cell : Nat} {tree : List Node}
    (hempty : session.caches.tree? cell = none)
    (htree : (run evaluator commands session).caches.tree? cell = some tree) :
    ∃ before index command rest, commands = before ++ (index, command) :: rest ∧
      (run evaluator before session).FillsCell index command cell tree := by
  induction commands generalizing session with
  | nil =>
      rw [show (run evaluator [] session).caches = session.caches from rfl, hempty] at htree
      cases htree
  | cons first rest ih =>
      obtain ⟨index, command⟩ := first
      cases hnext : (session.step evaluator index command).2.caches.tree? cell with
      | none =>
          obtain ⟨before, place, other, after, rfl, hfills⟩ := ih hnext htree
          exact ⟨(index, command) :: before, place, other, after, rfl, hfills⟩
      | some held =>
          have hkept := tree?_run hnext evaluator rest
          obtain rfl : held = tree := Option.some.inj (hkept.symm.trans htree)
          exact ⟨[], index, command, rest, rfl, fillsCell_of_step hempty hnext⟩

/-- **Every cell is filled at most once, with a tree of its one source.** Of the session that any
commands lead to from the start, whatever they answer:
templates that share a cell have the same source, even at different times;
a cell that holds a tree holds it for ever;
one of the commands put the tree there, and it is what the source resolved to then.
A next command can change only the cell of the template it asks for; one that answers with an error
changes nothing, and neither does rendering the empty source; and a template is resolved anew until
its cell holds a tree. -/
theorem cells_of_run (evaluator : Evaluator κ) (commands : List (Nat × Command κ)) :
    let session := run evaluator commands start
    (∀ more first second, session.Has first → (run evaluator more session).Has second →
      first.cell = second.cell → first.source = second.source) ∧
    (∀ more cell tree, session.caches.tree? cell = some tree →
      (run evaluator more session).caches.tree? cell = some tree) ∧
    (∀ cell tree, session.caches.tree? cell = some tree →
      ∃ before index command rest, commands = before ++ (index, command) :: rest ∧
        (run evaluator before start).FillsCell index command cell tree) ∧
    ∀ index command,
      let next := session.step evaluator index command
      (∀ cell, (∀ template, session.asked? index command = some template →
        template.cell ≠ cell) → next.2.caches.tree? cell = session.caches.tree? cell) ∧
      (∀ error, error? next.1 = some error → next.2 = session) ∧
      (session.renderedSource? index command = some [] →
        next = (.rendering (.text []), session)) ∧
      (∀ handle template, command = .resolve handle →
        lookup? handle session.held = some template →
        session.caches.tree? template.cell = none →
        next.1 = .tree ((session.engines index).treeOf template.source)) := by
  intro session
  have hconsistent : session.Consistent := consistent_start.run evaluator commands
  refine ⟨?_, fun more cell tree h => tree?_run h evaluator more, ?_, fun index command => ?_⟩
  · intro more first second hfirst hsecond hcell
    have hreserves := (hconsistent first hfirst).run evaluator more
    exact (hreserves.source_eq second hsecond hcell.symm).symm
  · intro cell tree h
    exact exists_fillsCell evaluator commands rfl h
  · refine ⟨fun cell h => tree?_step_of_ne h evaluator, fun error h => step_of_error h,
      fun h => step_of_empty h evaluator, ?_⟩
    rintro handle template rfl htemplate hempty
    exact step_resolve_of_none htemplate hempty evaluator index

end Session

end Stencil
