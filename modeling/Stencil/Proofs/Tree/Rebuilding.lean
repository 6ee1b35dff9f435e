import Stencil.Proofs.Tree.Settled

/-!
# Rebuilt trees

How `rebuild` goes along a list (`rebuild_cons`, `rebuild_append`), that it does not see whether
the texts of the list were joined before (`rebuild_merged`), and that it keeps trees settled when
what is put in place is settled (`settled_rebuild`).
-/

set_option autoImplicit false

namespace Stencil

variable (filling : Filling)

theorem rebuildAll_append (nodes more : List Node) :
    rebuildAll filling (nodes ++ more) = rebuildAll filling nodes ++ rebuildAll filling more := by
  induction nodes with
  | nil => rfl
  | cons node rest ih => rw [List.cons_append, rebuildAll, rebuildAll, ih, List.append_assoc]

theorem rebuild_append (nodes more : List Node) :
    rebuild filling (nodes ++ more) = merged (rebuild filling nodes ++ rebuild filling more) := by
  rw [rebuild, rebuildAll_append, rebuild, rebuild, merged_append_merged, merged_merged_append]

theorem rebuild_cons (node : Node) (rest : List Node) :
    rebuild filling (node :: rest) = merged (rebuildNode filling node ++ rebuild filling rest) := by
  rw [rebuild, rebuildAll, rebuild, merged_append_merged]

theorem rebuild_pushNode (nodes : List Node) (node : Node) :
    rebuild filling (pushNode nodes node) = rebuild filling (nodes ++ [node]) := by
  rcases pushNode_cases nodes node with ⟨rest, before, content, rfl, rfl⟩ | h
  · have hleft : rebuild filling [.text (before ++ content)] = [.text (before ++ content)] := rfl
    have hright : rebuild filling [.text before, .text content] = [.text (before ++ content)] := rfl
    rw [pushNode_concat_text, List.append_assoc, rebuild_append, hleft, rebuild_append]
    exact congrArg (fun tail => merged (rebuild filling rest ++ tail)) hright.symm
  · rw [pushNode_eq_concat h]

theorem rebuild_pushNodes (nodes more : List Node) :
    rebuild filling (pushNodes nodes more) = rebuild filling (nodes ++ more) := by
  induction more generalizing nodes with
  | nil => simp
  | cons node more ih =>
      rw [pushNodes_cons, ih, rebuild_append, rebuild_pushNode, ← rebuild_append,
        List.append_assoc, List.singleton_append]

/-- Joined or not, the texts of a list make the same rebuilt list. -/
theorem rebuild_merged (nodes : List Node) :
    rebuild filling (merged nodes) = rebuild filling nodes :=
  rebuild_pushNodes filling [] nodes

/-! ## Settled trees -/

section Settled

variable {filling}
  (hslot : ∀ name body rebuilt, Settled body → Settled rebuilt →
    ∀ node ∈ filling.slot name body rebuilt, NodeSettled node)
  (hinclusion : ∀ name, ∀ node ∈ filling.inclusion name, NodeSettled node)

include hslot hinclusion

theorem nodeSettled_rebuildAll (nodes : List Node) (hnodes : ∀ node ∈ nodes, NodeSettled node) :
    ∀ node ∈ rebuildAll filling nodes, NodeSettled node := by
  -- what is rebuilt of a settled list inside the tree is settled once it is merged
  have hmerged : ∀ inner : List Node, Settled inner →
      ((∀ node ∈ inner, NodeSettled node) → ∀ node ∈ rebuildAll filling inner, NodeSettled node) →
      Settled (merged (rebuildAll filling inner)) := fun inner hinner ih =>
    settled_merged (ih hinner.nodeSettled)
  have hbody : ∀ body : Option (List Node), BodySettled body →
      (∀ inner ∈ body, (∀ node ∈ inner, NodeSettled node) →
        ∀ node ∈ rebuildAll filling inner, NodeSettled node) →
      BodySettled (rebuildBody filling body) := by
    intro body hbody ih
    cases body with
    | none => trivial
    | some inner => exact hmerged inner hbody (ih inner rfl)
  induction nodes using tree_induction with
  | nil => simp [rebuildAll]
  | text content rest ih =>
      rw [List.forall_mem_cons] at hnodes
      simp only [rebuildAll, rebuildNode, List.singleton_append, List.forall_mem_cons]
      exact ⟨hnodes.1, ih hnodes.2⟩
  | value key escape rest ih =>
      rw [List.forall_mem_cons] at hnodes
      simp only [rebuildAll, rebuildNode, List.singleton_append, List.forall_mem_cons]
      exact ⟨hnodes.1, ih hnodes.2⟩
  | block kind key body otherwise rest ihbody ihother ih =>
      rw [List.forall_mem_cons] at hnodes
      obtain ⟨⟨hsettled, hother⟩, hrest⟩ := hnodes
      simp only [rebuildAll, rebuildNode, List.singleton_append, List.forall_mem_cons]
      exact ⟨⟨hmerged body hsettled ihbody, hbody otherwise hother ihother⟩, ih hrest⟩
  | slot name body rest ihbody ih =>
      rw [List.forall_mem_cons] at hnodes
      obtain ⟨hsettled, hrest⟩ := hnodes
      simp only [rebuildAll, rebuildNode, List.forall_mem_append]
      exact ⟨hslot name body _ hsettled (hmerged body hsettled ihbody), ih hrest⟩
  | inclusion name rest ih =>
      rw [List.forall_mem_cons] at hnodes
      simp only [rebuildAll, rebuildNode, List.forall_mem_append]
      exact ⟨hinclusion name, ih hnodes.2⟩
  | call name arguments body rest ihbody ih =>
      rw [List.forall_mem_cons] at hnodes
      simp only [rebuildAll, rebuildNode, List.singleton_append, List.forall_mem_cons]
      exact ⟨hbody body hnodes.1 ihbody, ih hnodes.2⟩

/-- A settled tree stays settled when settled trees are put in the place of its slots and
inclusions. -/
theorem settled_rebuild {nodes : List Node} (hnodes : Settled nodes) :
    Settled (rebuild filling nodes) :=
  settled_merged (nodeSettled_rebuildAll hslot hinclusion nodes hnodes.nodeSettled)

end Settled

end Stencil
