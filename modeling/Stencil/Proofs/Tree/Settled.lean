import Stencil.Proofs.Tree.Merging

/-!
# Settled trees

A tree is settled when none of its lists, at any depth, has an empty text or two texts side by
side. Merging leaves a settled list as it is (`merged_of_settled`), and pushing settled nodes onto a
settled list gives a settled list (`settled_pushNodes`).

`nodesWithin` lists the nodes of a tree at every depth. It is what statements about "a node anywhere
in the tree" are made with.
-/

set_option autoImplicit false

namespace Stencil

/-! ## Induction on trees -/

section Induction

variable {motive : List Node → Prop} (nil : motive [])
  (text : ∀ content rest, motive rest → motive (.text content :: rest))
  (value : ∀ key escape rest, motive rest → motive (.value key escape :: rest))
  (block : ∀ kind key body otherwise rest, motive body → (∀ other ∈ otherwise, motive other) →
    motive rest → motive (.block kind key body otherwise :: rest))
  (slot : ∀ name body rest, motive body → motive rest → motive (.slot name body :: rest))
  (inclusion : ∀ name rest, motive rest → motive (.inclusion name :: rest))
  (call : ∀ name arguments body rest, (∀ inner ∈ body, motive inner) → motive rest →
    motive (.call name arguments body :: rest))

include nil text value block slot inclusion call

/-- **Induction on trees**: a property of lists of nodes holds if it holds of the empty list and
passes from the lists inside the first node, and from the list after it, to the whole. -/
@[elab_as_elim]
theorem tree_induction : ∀ nodes : List Node, motive nodes
  | [] => nil
  | .text content :: rest => text content rest (tree_induction rest)
  | .value key escape :: rest => value key escape rest (tree_induction rest)
  | .block kind key body none :: rest =>
      block kind key body none rest (tree_induction body) (by simp) (tree_induction rest)
  | .block kind key body (some other) :: rest =>
      block kind key body (some other) rest (tree_induction body)
        (by rintro _ ⟨⟩; exact tree_induction other) (tree_induction rest)
  | .slot name body :: rest => slot name body rest (tree_induction body) (tree_induction rest)
  | .inclusion name :: rest => inclusion name rest (tree_induction rest)
  | .call name arguments none :: rest =>
      call name arguments none rest (by simp) (tree_induction rest)
  | .call name arguments (some inner) :: rest =>
      call name arguments (some inner) rest (by rintro _ ⟨⟩; exact tree_induction inner)
        (tree_induction rest)

end Induction

/-! ## The nodes of a tree -/

mutual

/-- A node with every node inside it. -/
def nodesOf : Node → List Node
  | .block kind key body otherwise =>
      .block kind key body otherwise :: (nodesWithin body ++ nodesIn otherwise)
  | .slot name body => .slot name body :: nodesWithin body
  | .call name arguments body => .call name arguments body :: nodesIn body
  | node => [node]

/-- The nodes of a tree at every depth, in order. -/
def nodesWithin : List Node → List Node
  | [] => []
  | node :: rest => nodesOf node ++ nodesWithin rest

/-- The nodes of a body that may be absent, at every depth. -/
def nodesIn : Option (List Node) → List Node
  | none => []
  | some body => nodesWithin body

end

section Within

variable (node : Node) (kind : BlockKind) (key name : Text) (arguments : List Argument)
  (body rest : List Node) (absent : Option (List Node))

theorem mem_nodesWithin_head : node ∈ nodesWithin (node :: rest) := by
  have hnode : node ∈ nodesOf node := by cases node <;> simp [nodesOf]
  exact List.mem_append_left _ hnode

theorem nodesWithin_subset_head : nodesWithin [node] ⊆ nodesWithin (node :: rest) := by
  rw [nodesWithin, nodesWithin, nodesWithin, List.append_nil]
  exact List.subset_append_left _ _

theorem nodesWithin_subset_cons : nodesWithin rest ⊆ nodesWithin (node :: rest) :=
  List.subset_append_right _ _

theorem nodesWithin_subset_block :
    nodesWithin body ⊆ nodesWithin (.block kind key body absent :: rest) := by
  intro inner hinner
  simp [nodesWithin, nodesOf, hinner]

theorem nodesWithin_subset_otherwise :
    nodesWithin (absent.getD []) ⊆ nodesWithin (.block kind key body absent :: rest) := by
  cases absent with
  | none => exact List.nil_subset _
  | some other =>
      intro inner hinner
      have hmem : inner ∈ nodesWithin other := hinner
      simp [nodesWithin, nodesOf, nodesIn, hmem]

theorem nodesWithin_subset_slot :
    nodesWithin body ⊆ nodesWithin (.slot name body :: rest) := by
  intro inner hinner
  simp [nodesWithin, nodesOf, hinner]

theorem nodesWithin_subset_call :
    nodesWithin (absent.getD []) ⊆ nodesWithin (.call name arguments absent :: rest) := by
  cases absent with
  | none => exact List.nil_subset _
  | some other =>
      intro inner hinner
      have hmem : inner ∈ nodesWithin other := hinner
      simp [nodesWithin, nodesOf, nodesIn, hmem]

end Within

/-! ## Settled trees -/

mutual

/-- A node without empty texts, and without two texts side by side in any list inside it. -/
def NodeSettled : Node → Prop
  | .text content => content ≠ []
  | .value _ _ => True
  | .block _ _ body otherwise => Settled body ∧ BodySettled otherwise
  | .slot _ body => Settled body
  | .inclusion _ => True
  | .call _ _ body => BodySettled body

/-- A tree none of whose lists, at any depth, has an empty text or two texts side by side. -/
def Settled : List Node → Prop
  | [] => True
  | node :: rest => NodeSettled node ∧ (∀ next ∈ rest.head?, Apart node next) ∧ Settled rest

/-- A body that may be absent, settled if it is there. -/
def BodySettled : Option (List Node) → Prop
  | none => True
  | some body => Settled body

end

theorem settled_iff (nodes : List Node) :
    Settled nodes ↔ (∀ node ∈ nodes, NodeSettled node) ∧ nodes.IsChain Apart := by
  induction nodes with
  | nil => simp [Settled]
  | cons node rest ih =>
      rw [Settled, ih, List.isChain_cons, List.forall_mem_cons]
      constructor
      · rintro ⟨hnode, hnext, hrest, hchain⟩
        exact ⟨⟨hnode, hrest⟩, hnext, hchain⟩
      · rintro ⟨⟨hnode, hrest⟩, hnext, hchain⟩
        exact ⟨hnode, hnext, hrest, hchain⟩

theorem Settled.nodeSettled {nodes : List Node} (h : Settled nodes) :
    ∀ node ∈ nodes, NodeSettled node :=
  ((settled_iff nodes).mp h).1

/-! ## Merging and settled lists -/

theorem settled_pushNode {nodes : List Node} {node : Node} (hnodes : Settled nodes)
    (hnode : NodeSettled node) : Settled (pushNode nodes node) := by
  obtain ⟨hall, hchain⟩ := (settled_iff nodes).mp hnodes
  rcases pushNode_cases nodes node with ⟨rest, before, content, rfl, rfl⟩ | h
  · rw [pushNode_concat_text, settled_iff]
    refine ⟨?_, ?_⟩
    · intro other hother
      rcases List.mem_append.mp hother with hother | hother
      · exact hall other (List.mem_append_left _ hother)
      · obtain rfl := List.mem_singleton.mp hother
        have hcontent : content ≠ [] := by simpa [NodeSettled] using hnode
        simp [NodeSettled, hcontent]
    · obtain ⟨hrest, -, hlast⟩ := List.isChain_append.mp hchain
      refine hrest.append (List.IsChain.singleton _) ?_
      intro last hmem next hnext
      cases hnext
      exact hlast last hmem (.text before) rfl
  · rw [pushNode_eq_concat h, settled_iff]
    refine ⟨?_, hchain.append (List.IsChain.singleton _) ?_⟩
    · intro other hother
      rcases List.mem_append.mp hother with hother | hother
      · exact hall other hother
      · exact List.mem_singleton.mp hother ▸ hnode
    · intro last hmem next hnext
      cases hnext
      exact h last hmem

theorem settled_pushNodes {nodes more : List Node} (hnodes : Settled nodes)
    (hmore : ∀ node ∈ more, NodeSettled node) : Settled (pushNodes nodes more) := by
  induction more generalizing nodes with
  | nil => exact hnodes
  | cons node more ih =>
      rw [List.forall_mem_cons] at hmore
      exact ih (settled_pushNode hnodes hmore.1) hmore.2

theorem settled_merged {nodes : List Node} (h : ∀ node ∈ nodes, NodeSettled node) :
    Settled (merged nodes) :=
  settled_pushNodes trivial h

/-- Pushing the rest of a settled list gives the list. -/
theorem pushNodes_of_settled {nodes more : List Node} (h : Settled (nodes ++ more)) :
    pushNodes nodes more = nodes ++ more := by
  induction more generalizing nodes with
  | nil => simp
  | cons node more ih =>
      have hchain := ((settled_iff _).mp h).2
      have hlast : ∀ last ∈ nodes.getLast?, Apart last node := fun last hmem =>
        (List.isChain_append.mp hchain).2.2 last hmem node rfl
      have hassoc : nodes ++ node :: more = nodes ++ [node] ++ more := by simp
      rw [pushNodes_cons, pushNode_eq_concat hlast, hassoc]
      exact ih (hassoc ▸ h)

theorem merged_of_settled {nodes : List Node} (h : Settled nodes) : merged nodes = nodes :=
  @pushNodes_of_settled [] nodes h

end Stencil
