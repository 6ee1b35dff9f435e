import Stencil.Proofs.Document.Leading
import Stencil.Proofs.Resolution.Opening

/-!
# Text that engines and macros render alike

Rendering a text resolves it first; a macro that has a text rendered in its context evaluates the
tree of the text as it is. Where a text refers to no other template and names each of its slots
once, resolving it does nothing but open these slots (`exists_treeOf_eq`). So both ways end alike
for every engine and all data, with a text as with a panic (`renderText_eq_renderFragment`).
-/

set_option autoImplicit false

namespace Stencil

variable {κ : Type}

/-- A text without a parent and inclusions, whose slots have different names and are nested within
the limit, resolves to a tree that shows what its fragment shows. -/
theorem Engine.exists_treeOf_eq (engine : Engine κ) {source : Text}
    (hparent : (Document.parse source).parent = none)
    (hinclusions : inclusionNames (Document.parse source).nodes = [])
    (hnames : (slotNames (Document.parse source).nodes).Nodup)
    (hdepth : slotDepth (Document.parse source).nodes ≤ engine.limits.parents) :
    ∃ tree, engine.treeOf source = .ok tree ∧
      ∀ (env : Environment κ) (render : Text → Evaluation κ Text),
        evalNodes env render tree = evalNodes env render (parseFragment source) := by
  have hnone : (Document.parse source).parentName = none := by
    rw [Document.parentName, hparent, Option.map_none]
  have hunrecorded : Unrecorded [] (Document.parse source).nodes := ⟨hnames, fun _ _ => rfl⟩
  obtain ⟨tree, last, hfill, hkept, hshown⟩ := exists_fillSlots_of_nodup engine.limits.parents
    engine.limits.parents hunrecorded (settled_parse source) hdepth
  refine ⟨tree, ?_, ?_⟩
  · rw [Engine.treeOf_eq_ok_iff]
    refine ⟨tree, last, ?_, ?_⟩
    · rw [resolveParents, followParents_of_root hnone, hfill]
      rfl
    · exact inlineInclusions_of_nil (hkept.trans hinclusions) _ _
  · intro env render
    rw [hshown κ env render, nodes_parse_of_parent_eq_none hparent]

/-- How a rendering ends, from how the evaluation of the tree does. -/
def Rendering.ofAnswer : Option (Outcome Text × Value κ) → Rendering
  | some (.done content, _) => .text content
  | some (.panicked, _) => .panicked
  | none => .unfinished

theorem renderTree_eq_ofAnswer (evaluator : Evaluator κ) (macros : Macros κ) (tree : List Node)
    (data : Value κ) :
    renderTree evaluator macros tree data
      = .ofAnswer (renderNodes ⟨evaluator.evaluate, macros⟩ evaluator.depth tree data) := by
  rw [renderTree]
  split <;> simp_all [Rendering.ofAnswer]

/-- Rendering a text ends as the evaluation of its fragment does. -/
theorem Engine.renderText_eq_ofAnswer (evaluator : Evaluator κ) (engine : Engine κ) {source : Text}
    (hparent : (Document.parse source).parent = none)
    (hinclusions : inclusionNames (Document.parse source).nodes = [])
    (hnames : (slotNames (Document.parse source).nodes).Nodup)
    (hdepth : slotDepth (Document.parse source).nodes ≤ engine.limits.parents) (data : Value κ) :
    engine.renderText evaluator source data = .ofAnswer
      (renderFragment ⟨evaluator.evaluate, engine.macros⟩ (evaluator.depth + 1) source data) := by
  by_cases hsource : source = []
  · subst hsource
    have hnil : parseFragment [] = [] := by with_unfolding_all rfl
    rw [renderFragment, hnil]
    rfl
  · obtain ⟨tree, htree, hshown⟩ := engine.exists_treeOf_eq hparent hinclusions hnames hdepth
    rw [engine.renderText_of_source evaluator hsource, htree, renderResolved,
      renderTree_eq_ofAnswer, renderNodes, hshown, renderFragment]

/-- **Rendering a text and having it rendered by a macro agree.** Take any engine, any data, and any
text that has no leading parent and no inclusion, uses each name for one slot at most, and nests
slots no deeper than the engine's limit. The engine renders the text to what a macro has it rendered
to in a context that holds the data, with the same macros and without resolving anything; it panics
exactly when that panics, and the evaluation that goes too deep for one goes too deep for the other.
The engine never fails to render the text. And where the macros pass panics on, the macro that has
the text rendered is left with the context it had. -/
theorem renderText_eq_renderFragment (evaluator : Evaluator κ) (engine : Engine κ) (source : Text)
    (data : Value κ) (hparent : (Document.parse source).parent = none)
    (hinclusions : inclusionNames (Document.parse source).nodes = [])
    (hnames : (slotNames (Document.parse source).nodes).Nodup)
    (hdepth : slotDepth (Document.parse source).nodes ≤ engine.limits.parents) :
    let rendering := engine.renderText evaluator source data
    let fragment :=
      renderFragment ⟨evaluator.evaluate, engine.macros⟩ (evaluator.depth + 1) source data
    (∀ content, rendering = .text content ↔ ∃ after, fragment = some (.done content, after)) ∧
    (rendering = .panicked ↔ ∃ after, fragment = some (.panicked, after)) ∧
    (rendering = .unfinished ↔ fragment = none) ∧
    (∀ error, rendering ≠ .failed error) ∧
    (Environment.PassesPanics ⟨evaluator.evaluate, engine.macros⟩ →
      ∀ content after, fragment = some (.done content, after) → after = data) := by
  intro rendering fragment
  have heq : rendering = .ofAnswer fragment :=
    engine.renderText_eq_ofAnswer evaluator hparent hinclusions hnames hdepth data
  have hkept : Environment.PassesPanics ⟨evaluator.evaluate, engine.macros⟩ →
      ∀ content after, fragment = some (.done content, after) → after = data :=
    fun hpass content after hfragment => after_eq_of_renderNodes hpass hfragment
  rw [heq]
  cases hfragment : fragment with
  | none => simp [Rendering.ofAnswer]
  | some answer =>
      rw [hfragment] at hkept
      refine ⟨?_, ?_, ?_, ?_, hkept⟩ <;> obtain ⟨content | _, after⟩ := answer <;>
        simp [Rendering.ofAnswer]

/-- The statement for a slot with another one inside it, and with a call that panics. -/
theorem renderText_eq_renderFragment_nested :
    let evaluator : Evaluator Unit := ⟨fun _ _ => .panicked, 0⟩
    let engine : Engine Unit := { macros := [(['m'], fun _ => .panicked)], limits := ⟨2, 0⟩ }
    let source := "{{#s}}{{#t}}{{=x}}{{/t}}{{m()}}!{{/m}}{{/s}}".toList
    let data : Value Unit := .mapping [(['x'], .text ['a'])]
    engine.renderText evaluator source data = .text "a!".toList ∧
      ((∀ content, engine.renderText evaluator source data = .text content ↔ ∃ after,
        renderFragment ⟨evaluator.evaluate, engine.macros⟩ 1 source data
          = some (.done content, after)) ∧
      (engine.renderText evaluator source data = .panicked ↔ ∃ after,
        renderFragment ⟨evaluator.evaluate, engine.macros⟩ 1 source data
          = some (.panicked, after)) ∧
      (engine.renderText evaluator source data = .unfinished ↔
        renderFragment ⟨evaluator.evaluate, engine.macros⟩ 1 source data = none) ∧
      (∀ error, engine.renderText evaluator source data ≠ .failed error) ∧
      (Environment.PassesPanics ⟨evaluator.evaluate, engine.macros⟩ → ∀ content after,
        renderFragment ⟨evaluator.evaluate, engine.macros⟩ 1 source data
          = some (.done content, after) → after = data)) := by
  intro evaluator engine source data
  have hdocument : Document.parse source = ⟨none, [.slot ['s'] [
      .slot ['t'] [.value ['x'] false], .call ['m'] [] (some [.text ['!']])]]⟩ := by
    with_unfolding_all rfl
  refine ⟨?_, renderText_eq_renderFragment evaluator engine source data ?_ ?_ ?_ ?_⟩
  · rw [engine.renderText_of_source evaluator (by decide), Engine.treeOf, hdocument]
    rfl
  · rw [hdocument]
  · rw [hdocument]
    rfl
  · rw [hdocument]
    decide
  · rw [hdocument]
    decide

end Stencil
