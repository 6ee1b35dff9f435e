import Stencil.Engine

/-!
# How cells are filled

Resolving or rendering a template does at most one thing to the cells: it fills the cell of that
template, if the cell is empty, with the tree that the source resolves to with the templates and
limits the engine has now (`Engine.Fills`). A resolution that fails does nothing to them. Whatever
is shown by a session of many engines about its cells is drawn from these two facts.
-/

set_option autoImplicit false

namespace Stencil

namespace Caches

/-- Filling a cell puts the tree there if the cell was empty, and changes no other cell. -/
theorem tree?_fill (caches : Caches) (cell other : Nat) (tree : List Node) :
    (caches.fill cell tree).tree? other
      = if cell = other then some ((caches.tree? cell).getD tree) else caches.tree? other := by
  unfold fill
  cases hcell : caches.tree? cell with
  | some held =>
      by_cases h : cell = other
      · subst h
        simp [hcell]
      · simp [h]
  | none =>
      by_cases h : cell = other
      · simp [tree?, h]
      · simp [tree?, h]

end Caches

namespace Engine

variable {κ : Type}

/-- The tree that a source resolves to with an engine: its parents, starting without slot bodies,
and then its inclusions. -/
def treeOf (engine : Engine κ) (source : Text) : Except RenderError (List Node) :=
  match (Id.run (resolveParents (documentSource engine.find?) engine.limits.parents []
      (Document.parse source))).1 with
  | .ok merged =>
      Id.run (resolveInclusions (documentSource engine.find?) engine.limits.inclusions merged)
  | .error error => .error error

theorem resolveDocument_eq (engine : Engine κ) (source : Text) :
    Id.run (resolveDocument (documentSource engine.find?) engine.limits (Document.parse source))
      = engine.treeOf source := by
  unfold treeOf resolveDocument
  rcases hparents : Id.run (resolveParents (documentSource engine.find?) engine.limits.parents []
    (Document.parse source)) with ⟨answer | answer, overrides⟩
  · simp [hparents]
  · simp [hparents]

theorem treeOf_eq_ok_iff (engine : Engine κ) (source : Text) (tree : List Node) :
    engine.treeOf source = .ok tree ↔
      ∃ merged last, Id.run (resolveParents (documentSource engine.find?) engine.limits.parents []
          (Document.parse source)) = (.ok merged, last) ∧
        Id.run (resolveInclusions (documentSource engine.find?) engine.limits.inclusions merged)
          = .ok tree := by
  unfold treeOf
  rcases Id.run (resolveParents (documentSource engine.find?) engine.limits.parents []
    (Document.parse source)) with ⟨answer | answer, overrides⟩
  · simp
  · simp

/-! ## Resolving -/

theorem resolve_of_some (engine : Engine κ) {template : Template} {caches : Caches}
    {tree : List Node} (h : caches.tree? template.cell = some tree) :
    engine.resolve template caches = (.ok tree, caches) := by
  simp [resolve, resolveTemplate, h]

/-- A template whose cell is empty is resolved anew; only a tree is kept. -/
theorem resolve_of_none (engine : Engine κ) {template : Template} {caches : Caches}
    (h : caches.tree? template.cell = none) :
    engine.resolve template caches = match engine.treeOf template.source with
      | .ok tree => (.ok tree, caches.fill template.cell tree)
      | .error error => (.error error, caches) := by
  have hdocument := engine.resolveDocument_eq template.source
  unfold resolve resolveTemplate
  rw [h]
  simp only [Template.document, Id.run_bind, hdocument]
  cases engine.treeOf template.source <;> rfl

/-- What work on a template may do to the cells: leave them as they are, or fill the empty cell of
the template with the tree that its source resolves to. -/
inductive Fills (engine : Engine κ) (template : Template) (caches : Caches) : Caches → Prop
  | unchanged : Fills engine template caches caches
  | filled {tree : List Node} (hempty : caches.tree? template.cell = none)
      (htree : engine.treeOf template.source = .ok tree) :
      Fills engine template caches (caches.fill template.cell tree)

namespace Fills

variable {engine : Engine κ} {template : Template} {caches after : Caches} {cell : Nat}
  {tree : List Node}

/-- A tree that a cell holds stays there. -/
theorem tree?_of_some (h : engine.Fills template caches after)
    (hheld : caches.tree? cell = some tree) : after.tree? cell = some tree := by
  cases h with
  | unchanged => exact hheld
  | filled hempty htree =>
      have hcell : template.cell ≠ cell := by
        rintro rfl
        rw [hempty] at hheld
        cases hheld
      rw [Caches.tree?_fill, if_neg hcell, hheld]

theorem tree?_of_ne (h : engine.Fills template caches after) (hcell : template.cell ≠ cell) :
    after.tree? cell = caches.tree? cell := by
  cases h with
  | unchanged => rfl
  | filled hempty htree => rw [Caches.tree?_fill, if_neg hcell]

/-- A tree that is new in a cell is what the source of the template resolves to. -/
theorem treeOf_of_new (h : engine.Fills template caches after) (hempty : caches.tree? cell = none)
    (hnew : after.tree? cell = some tree) :
    template.cell = cell ∧ engine.treeOf template.source = .ok tree := by
  cases h with
  | unchanged =>
      rw [hempty] at hnew
      cases hnew
  | @filled resolved hcell htree =>
      rw [Caches.tree?_fill] at hnew
      by_cases h : template.cell = cell
      · rw [if_pos h, hcell] at hnew
        obtain rfl : resolved = tree := Option.some.inj hnew
        exact ⟨h, htree⟩
      · rw [if_neg h, hempty] at hnew
        cases hnew

end Fills

theorem fills_resolve (engine : Engine κ) (template : Template) (caches : Caches) :
    engine.Fills template caches (engine.resolve template caches).2 := by
  cases hcell : caches.tree? template.cell with
  | some tree =>
      rw [engine.resolve_of_some hcell]
      exact .unchanged
  | none =>
      rw [engine.resolve_of_none hcell]
      cases htree : engine.treeOf template.source with
      | ok tree => exact .filled hcell htree
      | error error => exact .unchanged

theorem caches_resolve_of_error {engine : Engine κ} {template : Template} {caches : Caches}
    {error : RenderError} (h : (engine.resolve template caches).1 = .error error) :
    (engine.resolve template caches).2 = caches := by
  cases hcell : caches.tree? template.cell with
  | some tree => rw [engine.resolve_of_some hcell]
  | none =>
      rw [engine.resolve_of_none hcell] at h ⊢
      cases htree : engine.treeOf template.source with
      | ok tree =>
          rw [htree] at h
          cases h
      | error error => rfl

/-! ## Rendering -/

theorem render_of_empty (evaluator : Evaluator κ) (engine : Engine κ) {template : Template}
    (h : template.source = []) (data : Value κ) (caches : Caches) :
    engine.render evaluator template data caches = (.text [], caches) := by
  simp [render, renderTemplate, h]

theorem render_of_source (evaluator : Evaluator κ) (engine : Engine κ) {template : Template}
    (h : template.source ≠ []) (data : Value κ) (caches : Caches) :
    engine.render evaluator template data caches
      = (renderResolved evaluator engine.macros data (engine.resolve template caches).1,
        (engine.resolve template caches).2) := by
  have hempty : template.source.isEmpty = false := List.isEmpty_eq_false_iff.mpr h
  simp [render, renderTemplate, hempty, resolve]

theorem renderText_of_source (evaluator : Evaluator κ) (engine : Engine κ) {source : Text}
    (h : source ≠ []) (data : Value κ) :
    engine.renderText evaluator source data
      = renderResolved evaluator engine.macros data (engine.treeOf source) := by
  have hempty : source.isEmpty = false := List.isEmpty_eq_false_iff.mpr h
  have hdocument := engine.resolveDocument_eq source
  unfold renderText Stencil.renderText
  simp [hempty, hdocument]

theorem renderTree_ne_failed (evaluator : Evaluator κ) (macros : Macros κ) (tree : List Node)
    (data : Value κ) (error : RenderError) :
    renderTree evaluator macros tree data ≠ .failed error := by
  unfold renderTree
  split <;> simp

/-- A render fails with an error only if the resolution does: evaluation never fails. -/
theorem error_of_renderResolved {evaluator : Evaluator κ} {macros : Macros κ} {data : Value κ}
    {answer : Except RenderError (List Node)} {error : RenderError}
    (h : renderResolved evaluator macros data answer = .failed error) :
    answer = .error error := by
  cases answer with
  | ok tree => exact absurd h (renderTree_ne_failed evaluator macros tree data error)
  | error other =>
      obtain rfl : other = error := Rendering.failed.inj h
      rfl

theorem fills_render (evaluator : Evaluator κ) (engine : Engine κ) (template : Template)
    (data : Value κ) (caches : Caches) :
    engine.Fills template caches (engine.render evaluator template data caches).2 := by
  by_cases h : template.source = []
  · rw [engine.render_of_empty evaluator h]
    exact .unchanged
  · rw [engine.render_of_source evaluator h]
    exact engine.fills_resolve template caches

theorem caches_render_of_failed {evaluator : Evaluator κ} {engine : Engine κ}
    {template : Template} {data : Value κ} {caches : Caches} {error : RenderError}
    (h : (engine.render evaluator template data caches).1 = .failed error) :
    (engine.render evaluator template data caches).2 = caches := by
  by_cases hsource : template.source = []
  · rw [engine.render_of_empty evaluator hsource]
  · rw [engine.render_of_source evaluator hsource] at h ⊢
    exact caches_resolve_of_error (error_of_renderResolved h)

theorem renderNamed_of_none (evaluator : Evaluator κ) (engine : Engine κ) {name : Text}
    (h : lookup? name engine.templates = none) (data : Value κ) (caches : Caches) :
    engine.renderNamed evaluator name data caches = (.failed (.notFound name), caches) := by
  have hfound : engine.find? name = none := h
  unfold renderNamed Stencil.renderNamed
  rw [hfound]
  rfl

theorem renderNamed_of_some (evaluator : Evaluator κ) (engine : Engine κ) {name : Text}
    {template : Template} (h : lookup? name engine.templates = some template) (data : Value κ)
    (caches : Caches) : engine.renderNamed evaluator name data caches
      = engine.render evaluator template data caches := by
  have hfound : engine.find? name = some template := h
  unfold renderNamed Stencil.renderNamed
  rw [hfound]
  rfl

end Engine

end Stencil
