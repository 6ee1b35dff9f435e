import Stencil.Proofs.Evaluation.Context
import Stencil.Proofs.Tree.Rebuilding

/-!
# Rebuilt trees show the same

Evaluation does not see whether adjacent texts were joined (`evalNodes_merged`). So a rebuilt tree
shows what the tree shows if only what is put in the place of slots and inclusions does
(`evalNodes_rebuild`). A slot shows its body, and an inclusion shows nothing.
-/

set_option autoImplicit false

namespace Stencil

open Evaluation

variable {κ : Type} {env : Environment κ} {render : Text → Evaluation κ Text}

namespace Evaluation

/-- Nothing shown after an evaluation changes nothing. -/
theorem append_pure_nil_right (evaluation : Evaluation κ Text) :
    append evaluation (pure []) = evaluation := by
  funext context
  cases h : evaluation context with
  | none => simp [append, bind, h]
  | some answer =>
      obtain ⟨shown | _, after⟩ := answer <;> simp [append, bind, pure, h]

theorem append_pure_pure (before content : Text) :
    append (pure before) (pure content : Evaluation κ Text) = pure (before ++ content) := rfl

end Evaluation

theorem evalNodes_singleton (node : Node) :
    evalNodes env render [node] = evalNode env render node := by
  rw [evalNodes, evalNodes, append_pure_nil_right]

theorem evalNodes_cons (node : Node) (rest : List Node) :
    evalNodes env render (node :: rest)
      = append (evalNodes env render [node]) (evalNodes env render rest) := by
  rw [evalNodes_singleton, evalNodes]

/-! ## Joined texts -/

theorem evalNodes_text_append (before content : Text) :
    evalNodes env render [.text (before ++ content)]
      = evalNodes env render [.text before, .text content] := by
  rw [evalNodes_singleton, evalNodes, evalNodes_singleton, evalNode, evalNode, evalNode,
    append_pure_pure]

theorem evalNodes_pushNode (nodes : List Node) (node : Node) :
    evalNodes env render (pushNode nodes node) = evalNodes env render (nodes ++ [node]) := by
  rcases pushNode_cases nodes node with ⟨rest, before, content, rfl, rfl⟩ | h
  · rw [pushNode_concat_text, List.append_assoc, List.singleton_append, evalNodes_append,
      evalNodes_append, evalNodes_text_append]
  · rw [pushNode_eq_concat h]

theorem evalNodes_pushNodes (nodes more : List Node) :
    evalNodes env render (pushNodes nodes more) = evalNodes env render (nodes ++ more) := by
  induction more generalizing nodes with
  | nil => simp
  | cons node more ih =>
      rw [pushNodes_cons, ih, evalNodes_append, evalNodes_pushNode, ← evalNodes_append,
        List.append_assoc, List.singleton_append]

/-- Joined or not, the texts of a list show the same. -/
theorem evalNodes_merged (nodes : List Node) :
    evalNodes env render (merged nodes) = evalNodes env render nodes :=
  evalNodes_pushNodes [] nodes

/-! ## Rebuilding -/

section Rebuilding

variable {filling : Filling}
  (hslot : ∀ name body rebuilt, evalNodes env render rebuilt = evalNodes env render body →
    evalNodes env render (filling.slot name body rebuilt) = evalNodes env render body)
  (hinclusion : ∀ name, evalNodes env render (filling.inclusion name) = Evaluation.pure [])

include hslot hinclusion

/-- **A rebuilt tree shows what the tree shows**, if what is put in the place of a slot shows what
its body shows, and what is put in the place of an inclusion shows nothing. -/
theorem evalNodes_rebuild (nodes : List Node) :
    evalNodes env render (rebuild filling nodes) = evalNodes env render nodes := by
  have hcons : ∀ node rest,
      evalNodes env render (rebuildNode filling node) = evalNodes env render [node] →
      evalNodes env render (rebuild filling rest) = evalNodes env render rest →
      evalNodes env render (rebuild filling (node :: rest))
        = evalNodes env render (node :: rest) := by
    intro node rest hnode hrest
    rw [rebuild_cons, evalNodes_merged, evalNodes_append, hnode, hrest, ← evalNodes_cons]
  have hbody : ∀ body : Option (List Node),
      (∀ inner ∈ body,
        evalNodes env render (rebuild filling inner) = evalNodes env render inner) →
      evalBody env render (rebuildBody filling body) = evalBody env render body := by
    intro body ih
    cases body with
    | none => rfl
    | some inner => exact ih inner rfl
  induction nodes using tree_induction with
  | nil => rfl
  | text content rest ih => exact hcons _ rest rfl ih
  | value key isEscaped rest ih => exact hcons _ rest rfl ih
  | block kind key body otherwise rest ihbody ihother ih =>
      refine hcons _ rest ?_ ih
      have hinner : evalNodes env render (merged (rebuildAll filling body))
          = evalNodes env render body := ihbody
      simp only [rebuildNode, evalNodes_singleton, evalNode, hinner, hbody otherwise ihother]
  | slot name body rest ihbody ih =>
      refine hcons _ rest ?_ ih
      rw [evalNodes_singleton, evalNode]
      exact hslot name body _ ihbody
  | inclusion name rest ih =>
      refine hcons _ rest ?_ ih
      rw [rebuildNode, hinclusion, evalNodes_singleton, evalNode]
  | call name arguments body rest ihbody ih =>
      refine hcons _ rest ?_ ih
      rw [rebuildNode, evalNodes_singleton, evalNodes_singleton, evalNode, evalNode,
        hbody body ihbody]

end Rebuilding

end Stencil
