import Mathlib.Data.List.Chain
import Stencil.Node.Rebuild

/-!
# Joining adjacent texts

`pushNode` joins a text to a text that stands before it, and `merged` does so along a whole list.
Where in a list the joining is done makes no difference: a part of a list may be merged before the
whole is (`merged_append_merged`, `merged_merged_append`). A function on nodes that gives for a text
the same whether the text comes whole or in two parts does not see the joining at all
(`flatMap_merged`); the slots, the inclusions and the events of a tree are read off by such
functions.
-/

set_option autoImplicit false

namespace Stencil

/-! ## Pushing one node -/

/-- Is the node a text? -/
def Node.isText : Node → Bool
  | .text _ => true
  | _ => false

/-- Two nodes that stay apart when they stand side by side: not both are texts. -/
def Apart (first second : Node) : Prop := ¬ (first.isText = true ∧ second.isText = true)

instance (first second : Node) : Decidable (Apart first second) :=
  inferInstanceAs (Decidable (¬ _))

theorem pushNode_concat_text (nodes : List Node) (before content : Text) :
    pushNode (nodes ++ [.text before]) (.text content) = nodes ++ [.text (before ++ content)] := by
  induction nodes with
  | nil => rfl
  | cons first rest ih =>
      cases rest with
      | nil => cases first <;> rfl
      | cons second rest =>
          simp only [List.cons_append, pushNode] at ih ⊢
          rw [ih]

theorem pushNode_eq_concat {nodes : List Node} {node : Node}
    (h : ∀ last ∈ nodes.getLast?, Apart last node) : pushNode nodes node = nodes ++ [node] := by
  fun_induction pushNode nodes node with
  | case1 node => rfl
  | case2 before content => exact absurd ⟨rfl, rfl⟩ (h (.text before) rfl)
  | case3 last node _ => rfl
  | case4 first second rest node ih =>
      rw [ih fun last hlast => h last (by simpa using hlast)]
      rfl

/-- A pushed node is either a text that joins a text, or stays apart from what stands before it. -/
theorem pushNode_cases (nodes : List Node) (node : Node) :
    (∃ rest before content, nodes = rest ++ [.text before] ∧ node = .text content) ∨
      ∀ last ∈ nodes.getLast?, Apart last node := by
  rcases List.eq_nil_or_concat nodes with rfl | ⟨rest, last, rfl⟩
  · exact Or.inr (by simp)
  · by_cases h : Apart last node
    · exact Or.inr (by simpa using h)
    · cases last <;> cases node <;> simp [Apart, Node.isText] at h
      exact Or.inl ⟨rest, _, _, List.concat_eq_append, rfl⟩

theorem pushNode_text_text (nodes : List Node) (first second : Text) :
    pushNode (pushNode nodes (.text first)) (.text second)
      = pushNode nodes (.text (first ++ second)) := by
  rcases pushNode_cases nodes (.text first) with ⟨rest, before, content, rfl, hc⟩ | h
  · cases hc
    rw [pushNode_concat_text, pushNode_concat_text, pushNode_concat_text, List.append_assoc]
  · have h' : ∀ last ∈ nodes.getLast?, Apart last (.text (first ++ second)) := h
    rw [pushNode_eq_concat h, pushNode_eq_concat h', pushNode_concat_text]

/-! ## Pushing a list -/

theorem pushNodes_pushNode (start nodes : List Node) (node : Node) :
    pushNodes start (pushNode nodes node) = pushNode (pushNodes start nodes) node := by
  rcases pushNode_cases nodes node with ⟨rest, before, content, rfl, rfl⟩ | h
  · rw [pushNode_concat_text, pushNodes_append, pushNodes_append]
    exact (pushNode_text_text _ _ _).symm
  · rw [pushNode_eq_concat h, pushNodes_append]
    rfl

theorem pushNodes_pushNodes (start nodes more : List Node) :
    pushNodes start (pushNodes nodes more) = pushNodes (pushNodes start nodes) more := by
  induction more generalizing nodes with
  | nil => rfl
  | cons node more ih => rw [pushNodes_cons, pushNodes_cons, ih, pushNodes_pushNode]

/-- Nodes may be merged before they are pushed. -/
theorem pushNodes_merged (start nodes : List Node) :
    pushNodes start (merged nodes) = pushNodes start nodes :=
  pushNodes_pushNodes start [] nodes

theorem merged_append (nodes more : List Node) :
    merged (nodes ++ more) = pushNodes (merged nodes) more :=
  pushNodes_append [] nodes more

@[simp]
theorem merged_merged (nodes : List Node) : merged (merged nodes) = merged nodes :=
  pushNodes_merged [] nodes

theorem merged_append_merged (nodes more : List Node) :
    merged (nodes ++ merged more) = merged (nodes ++ more) := by
  rw [merged_append, merged_append, pushNodes_merged]

theorem merged_merged_append (nodes more : List Node) :
    merged (merged nodes ++ more) = merged (nodes ++ more) := by
  rw [merged_append, merged_append, merged_merged]

/-- What is pushed onto a list touches only the end of it. -/
theorem pushNode_append {more : List Node} (nodes : List Node) (node : Node) (h : more ≠ []) :
    pushNode (nodes ++ more) node = nodes ++ pushNode more node := by
  rcases pushNode_cases more node with ⟨rest, before, content, rfl, rfl⟩ | h'
  · rw [← List.append_assoc, pushNode_concat_text, pushNode_concat_text, List.append_assoc]
  · have hlast : ∀ last ∈ (nodes ++ more).getLast?, Apart last node := by
      rwa [List.getLast?_append_of_ne_nil _ h]
    rw [pushNode_eq_concat h', pushNode_eq_concat hlast, List.append_assoc]

/-! ## Functions that do not see the joining -/

section FlatMap

variable {α : Type} {f : Node → List α}
  (hf : ∀ first second, f (.text (first ++ second)) = f (.text first) ++ f (.text second))

include hf

theorem flatMap_pushNode (nodes : List Node) (node : Node) :
    (pushNode nodes node).flatMap f = nodes.flatMap f ++ f node := by
  rcases pushNode_cases nodes node with ⟨rest, before, content, rfl, rfl⟩ | h
  · simp [pushNode_concat_text, hf]
  · simp [pushNode_eq_concat h]

theorem flatMap_pushNodes (nodes more : List Node) :
    (pushNodes nodes more).flatMap f = nodes.flatMap f ++ more.flatMap f := by
  induction more generalizing nodes with
  | nil => simp
  | cons node more ih => rw [pushNodes_cons, ih, flatMap_pushNode hf]; simp

theorem flatMap_merged (nodes : List Node) : (merged nodes).flatMap f = nodes.flatMap f :=
  flatMap_pushNodes hf [] nodes

end FlatMap

end Stencil
