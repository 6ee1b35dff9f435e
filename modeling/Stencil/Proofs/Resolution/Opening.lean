import Stencil.Proofs.Evaluation.Rebuilding
import Stencil.Proofs.Resolution.Remaining

/-!
# Slots that are filled with their own bodies

A template without a parent fills its own slots. Where no name is used twice, what is recorded for a
slot is the slot's own body, so a pass does nothing but open the outermost slots of the tree
(`rebuild_filling_of_ownBodies`), and evaluation does not see whether a slot was opened. What one
pass keeps is that the slots that are left have names that differ, and that nothing is recorded for
them yet. As many passes as the slots are deep leave a tree that shows what the tree showed
(`exists_fillSlots_of_nodup`).
-/

set_option autoImplicit false

namespace Stencil

/-! ## How deep slots are -/

mutual

/-- How many slots stand inside one another in a node. -/
def slotDepthOf : Node → Nat
  | .block _ _ body otherwise => max (slotDepth body) (slotDepthIn otherwise)
  | .slot _ body => slotDepth body + 1
  | .call _ _ body => slotDepthIn body
  | _ => 0

/-- How many slots stand inside one another in a tree. -/
def slotDepth : List Node → Nat
  | [] => 0
  | node :: rest => max (slotDepthOf node) (slotDepth rest)

/-- How many slots stand inside one another in a body that may be absent. -/
def slotDepthIn : Option (List Node) → Nat
  | none => 0
  | some body => slotDepth body

end

/-- A tree is one slot deeper than the deepest body of its outermost slots. -/
theorem slotDepth_le_iff (n : Nat) (nodes : List Node) :
    slotDepth nodes ≤ n ↔ ∀ slot ∈ outermostSlots nodes, slotDepth slot.2 < n := by
  have hbody : ∀ body : Option (List Node),
      (∀ inner ∈ body,
        slotDepth inner ≤ n ↔ ∀ slot ∈ outermostSlots inner, slotDepth slot.2 < n) →
      (slotDepthIn body ≤ n ↔ ∀ slot ∈ outermostSlotsIn body, slotDepth slot.2 < n) := by
    intro body ih
    cases body with
    | none => simp [slotDepthIn, outermostSlotsIn]
    | some inner => exact ih inner rfl
  induction nodes using tree_induction with
  | nil => simp [slotDepth, outermostSlots]
  | text content rest ih =>
      simpa [slotDepth, slotDepthOf, outermostSlots, outermostSlotsOf] using ih
  | value key escape rest ih =>
      simpa [slotDepth, slotDepthOf, outermostSlots, outermostSlotsOf] using ih
  | block kind key body otherwise rest ihbody ihother ih =>
      simp only [slotDepth, slotDepthOf, outermostSlots, outermostSlotsOf, max_le_iff,
        List.forall_mem_append, ihbody, hbody otherwise ihother, ih]
  | slot name body rest ihbody ih =>
      simp only [slotDepth, slotDepthOf, outermostSlots, outermostSlotsOf, max_le_iff,
        List.singleton_append, List.forall_mem_cons, Nat.succ_le_iff, ih]
  | inclusion name rest ih =>
      simpa [slotDepth, slotDepthOf, outermostSlots, outermostSlotsOf] using ih
  | call name arguments body rest ihbody ih =>
      simp only [slotDepth, slotDepthOf, outermostSlots, outermostSlotsOf, max_le_iff,
        List.forall_mem_append, hbody body ihbody, ih]

/-! ## The names of slots, outermost first -/

theorem slotNames_eq_flatMap_outermostSlots (nodes : List Node) :
    slotNames nodes = (outermostSlots nodes).flatMap fun slot => slot.1 :: slotNames slot.2 := by
  have hbody : ∀ body : Option (List Node),
      (∀ inner ∈ body, slotNames inner
        = (outermostSlots inner).flatMap fun slot => slot.1 :: slotNames slot.2) →
      slotNamesIn body
        = (outermostSlotsIn body).flatMap fun slot => slot.1 :: slotNames slot.2 := by
    intro body ih
    cases body with
    | none => rfl
    | some inner => exact ih inner rfl
  induction nodes using tree_induction with
  | nil => rfl
  | text content rest ih => exact ih
  | value key escape rest ih => exact ih
  | block kind key body otherwise rest ihbody ihother ih =>
      rw [slotNames_cons, slotNamesOf_block, outermostSlots, outermostSlotsOf, List.flatMap_append,
        List.flatMap_append, ihbody, hbody otherwise ihother, ih]
  | slot name body rest ihbody ih =>
      rw [slotNames_cons, slotNamesOf_slot, outermostSlots, outermostSlotsOf, List.flatMap_append,
        List.flatMap_singleton, ih]
  | inclusion name rest ih => exact ih
  | call name arguments body rest ihbody ih =>
      rw [slotNames_cons, slotNamesOf_call, outermostSlots, outermostSlotsOf, List.flatMap_append,
        hbody body ihbody, ih]

theorem slotNames_perm (nodes : List Node) :
    ((outermostSlots nodes).map (·.1) ++ (outermostSlots nodes).flatMap fun slot =>
      slotNames slot.2).Perm (slotNames nodes) := by
  rw [slotNames_eq_flatMap_outermostSlots nodes]
  exact List.map_append_flatMap_perm _ _ _

/-! ## What is recorded -/

/-- Each outermost slot of the tree is recorded with its own body. -/
def OwnBodies (overrides : Overrides) (nodes : List Node) : Prop :=
  ∀ slot ∈ outermostSlots nodes, lookup? slot.1 overrides = some slot.2

/-- No two slots of the tree share a name, and none of their names is recorded. -/
structure Unrecorded (overrides : Overrides) (nodes : List Node) : Prop where
  nodup : (slotNames nodes).Nodup
  absent : ∀ name ∈ slotNames nodes, lookup? name overrides = none

/-- A body without slots of the name is recorded as it is. -/
theorem unnest_of_notMem {name : Text} {body : List Node} (hbody : Settled body)
    (h : name ∉ slotNames body) : unnest name body = body := by
  have habsent : ∀ other : Option (List Node), BodySettled other → name ∉ slotNamesIn other →
      (∀ inner ∈ other, Settled inner → name ∉ slotNames inner → unnest name inner = inner) →
      rebuildBody (unnesting name) other = other := by
    intro other hother hname ih
    cases other with
    | none => rfl
    | some inner => exact congrArg some (ih inner rfl hother hname)
  -- a list whose first node and whose rest stay is settled, so merging leaves it alone
  have hcons : ∀ node rest, Settled (node :: rest) →
      rebuildNode (unnesting name) node = [node] → unnest name rest = rest →
      unnest name (node :: rest) = node :: rest := by
    intro node rest hsettled hnode hrest
    rw [unnest, rebuild_cons, hnode, ← unnest, hrest]
    exact merged_of_settled hsettled
  induction body using tree_induction with
  | nil => rfl
  | text content rest ih => exact hcons _ _ hbody rfl (ih hbody.2.2 h)
  | value key escape rest ih => exact hcons _ _ hbody rfl (ih hbody.2.2 h)
  | block kind key inner otherwise rest ihinner ihother ih =>
      obtain ⟨⟨hinner, hother⟩, -, hrest⟩ := id hbody
      simp only [slotNames_cons, slotNamesOf_block, List.mem_append, not_or] at h
      refine hcons _ _ hbody ?_ (ih hrest h.2)
      have hstays : merged (rebuildAll (unnesting name) inner) = inner := ihinner hinner h.1.1
      rw [rebuildNode, hstays, habsent otherwise hother h.1.2 ihother]
  | slot other inner rest ihinner ih =>
      obtain ⟨hinner, -, hrest⟩ := id hbody
      simp only [slotNames_cons, slotNamesOf_slot, List.cons_append, List.mem_cons, List.mem_append,
        not_or] at h
      obtain ⟨hname, hin, hout⟩ := h
      refine hcons _ _ hbody ?_ (ih hrest hout)
      have hstays : merged (rebuildAll (unnesting name) inner) = inner := ihinner hinner hin
      rw [rebuildNode, hstays]
      exact if_neg fun hother => hname hother.symm
  | inclusion other rest ih => exact hcons _ _ hbody rfl (ih hbody.2.2 h)
  | call other arguments inner rest ihinner ih =>
      obtain ⟨hinner, -, hrest⟩ := id hbody
      simp only [slotNames_cons, slotNamesOf_call, List.mem_append, not_or] at h
      refine hcons _ _ hbody ?_ (ih hrest h.2)
      rw [rebuildNode, habsent inner hinner h.1 ihinner]

/-- Recording the slots of a tree records each with its own body. -/
theorem Unrecorded.ownBodies {overrides : Overrides} {nodes : List Node}
    (h : Unrecorded overrides nodes) (hnodes : Settled nodes) :
    OwnBodies (recordSlots overrides nodes) nodes := by
  intro slot hslot
  obtain ⟨hkeys, hinner, hapart⟩ :=
    List.nodup_append.mp ((slotNames_perm nodes).nodup_iff.mpr h.nodup)
  have hkey : slot.1 ∈ (outermostSlots nodes).map (·.1) := List.mem_map_of_mem hslot
  have hfree : lookup? slot.1 overrides = none :=
    h.absent slot.1 ((slotNames_perm nodes).mem_iff.mp (List.mem_append_left _ hkey))
  have hbody : unnest slot.1 slot.2 = slot.2 := by
    refine unnest_of_notMem (settled_of_mem_outermostSlots hnodes.nodeSettled slot hslot) ?_
    intro hname
    exact hapart slot.1 hkey slot.1 (List.mem_flatMap.mpr ⟨slot, hslot, hname⟩) rfl
  rw [lookup?_recordSlots, hfree, lookup?_of_mem hkeys hslot, Option.none_or, Option.map_some,
    hbody]

/-! ## One pass -/

section Pass

variable {overrides : Overrides} {nodes : List Node}

theorem OwnBodies.covers (h : OwnBodies overrides nodes) : Covers overrides nodes :=
  fun slot hslot => ⟨slot.2, h slot hslot⟩

/-- The outermost slots after a pass are those that were directly inside one. -/
theorem OwnBodies.outermostSlots_rebuild (h : OwnBodies overrides nodes) :
    outermostSlots (rebuild (filling overrides) nodes)
      = (outermostSlots nodes).flatMap fun slot => outermostSlots slot.2 := by
  have hbodies : (outermostSlots nodes).map (fun slot => (lookup? slot.1 overrides).getD slot.2)
      = (outermostSlots nodes).map (·.2) := by
    refine List.map_congr_left fun slot hslot => ?_
    rw [h slot hslot, Option.getD_some]
  rw [rebuild_filling_eq_pass h.covers (.refl overrides), outermostSlots_pass h.covers,
    references_of_covers h.covers, hbodies, List.flatMap_map]

theorem OwnBodies.slotNames_rebuild (h : OwnBodies overrides nodes) :
    slotNames (rebuild (filling overrides) nodes)
      = (outermostSlots nodes).flatMap fun slot => slotNames slot.2 := by
  rw [slotNames_eq_flatMap_outermostSlots, h.outermostSlots_rebuild, List.flatMap_assoc]
  refine List.flatMap_congr fun slot _ => ?_
  exact (slotNames_eq_flatMap_outermostSlots slot.2).symm

theorem OwnBodies.slotDepth_rebuild_le (h : OwnBodies overrides nodes) {n : Nat}
    (hdepth : slotDepth nodes ≤ n + 1) : slotDepth (rebuild (filling overrides) nodes) ≤ n := by
  rw [slotDepth_le_iff, h.outermostSlots_rebuild]
  intro inner hinner
  obtain ⟨slot, hslot, hinner⟩ := List.mem_flatMap.mp hinner
  have houter : slotDepth slot.2 ≤ n :=
    Nat.le_of_lt_succ ((slotDepth_le_iff (n + 1) nodes).mp hdepth slot hslot)
  exact (slotDepth_le_iff n slot.2).mp houter inner hinner

/-- What is left after a pass is not recorded yet. -/
theorem Unrecorded.after_pass (h : Unrecorded overrides nodes) (hnodes : Settled nodes) :
    Unrecorded (recordSlots overrides nodes)
      (rebuild (filling (recordSlots overrides nodes)) nodes) := by
  obtain ⟨-, hinner, hapart⟩ :=
    List.nodup_append.mp ((slotNames_perm nodes).nodup_iff.mpr h.nodup)
  have hnames := (h.ownBodies hnodes).slotNames_rebuild
  refine ⟨hnames ▸ hinner, fun name hname => ?_⟩
  rw [hnames] at hname
  have hfree : lookup? name overrides = none :=
    h.absent name ((slotNames_perm nodes).mem_iff.mp (List.mem_append_right _ hname))
  have hkey : lookup? name (outermostSlots nodes) = none := by
    rw [lookup?_eq_none_iff]
    intro slot hslot hsame
    exact hapart slot.1 (List.mem_map_of_mem hslot) name hname hsame
  rw [lookup?_recordSlots, hfree, hkey]
  rfl

/-- **A pass opens the outermost slots**, as one without any overrides would. -/
theorem rebuild_filling_of_ownBodies (h : OwnBodies overrides nodes) :
    rebuild (filling overrides) nodes = rebuild (filling []) nodes := by
  have hbody : ∀ body : Option (List Node),
      (∀ slot ∈ outermostSlotsIn body, lookup? slot.1 overrides = some slot.2) →
      (∀ inner ∈ body, OwnBodies overrides inner →
        rebuildAll (filling overrides) inner = rebuildAll (filling []) inner) →
      rebuildBody (filling overrides) body = rebuildBody (filling []) body := by
    intro body hslots ih
    cases body with
    | none => rfl
    | some inner => rw [rebuildBody, rebuildBody, ih inner rfl hslots]
  suffices hall : rebuildAll (filling overrides) nodes = rebuildAll (filling []) nodes from
    congrArg merged hall
  induction nodes using tree_induction with
  | nil => rfl
  | text content rest ih => rw [rebuildAll, rebuildAll, ih h]; rfl
  | value key escape rest ih => rw [rebuildAll, rebuildAll, ih h]; rfl
  | block kind key body otherwise rest ihbody ihother ih =>
      simp only [OwnBodies, outermostSlots, outermostSlotsOf, List.forall_mem_append] at h
      obtain ⟨⟨hinner, hother⟩, hrest⟩ := h
      rw [rebuildAll, rebuildAll, ih hrest, rebuildNode, rebuildNode, ihbody hinner,
        hbody otherwise hother ihother]
  | slot name body rest ihbody ih =>
      simp only [OwnBodies, outermostSlots, outermostSlotsOf, List.singleton_append,
        List.forall_mem_cons] at h
      obtain ⟨hname, hrest⟩ := h
      rw [rebuildAll, rebuildAll, ih hrest]
      simp [rebuildNode, filling, hname, lookup?]
  | inclusion name rest ih => rw [rebuildAll, rebuildAll, ih h]; rfl
  | call name arguments body rest ihbody ih =>
      simp only [OwnBodies, outermostSlots, outermostSlotsOf, List.forall_mem_append] at h
      obtain ⟨hinner, hrest⟩ := h
      rw [rebuildAll, rebuildAll, ih hrest, rebuildNode, rebuildNode, hbody body hinner ihbody]

end Pass

/-! ## Inclusions -/

theorem inclusionNames_eq_flatMap (nodes : List Node) :
    inclusionNames nodes = nodes.flatMap inclusionNamesOf := by
  induction nodes with
  | nil => rfl
  | cons node rest ih => rw [inclusionNames, ih, List.flatMap_cons]

theorem inclusionNames_append (nodes more : List Node) :
    inclusionNames (nodes ++ more) = inclusionNames nodes ++ inclusionNames more := by
  simp [inclusionNames_eq_flatMap]

theorem inclusionNames_merged (nodes : List Node) :
    inclusionNames (merged nodes) = inclusionNames nodes := by
  rw [inclusionNames_eq_flatMap, inclusionNames_eq_flatMap]
  exact flatMap_merged (fun _ _ => rfl) nodes

/-- Opening slots leaves the inclusions as they are. -/
theorem inclusionNames_open (nodes : List Node) :
    inclusionNames (rebuild (filling []) nodes) = inclusionNames nodes := by
  have hcons : ∀ node rest,
      inclusionNames (rebuildNode (filling []) node) = inclusionNamesOf node →
      inclusionNames (rebuild (filling []) rest) = inclusionNames rest →
      inclusionNames (rebuild (filling []) (node :: rest)) = inclusionNames (node :: rest) := by
    intro node rest hnode hrest
    rw [rebuild_cons, inclusionNames_merged, inclusionNames_append, hnode, hrest, inclusionNames]
  have hbody : ∀ body : Option (List Node),
      (∀ inner ∈ body, inclusionNames (rebuild (filling []) inner) = inclusionNames inner) →
      inclusionNamesIn (rebuildBody (filling []) body) = inclusionNamesIn body := by
    intro body ih
    cases body with
    | none => rfl
    | some inner => exact ih inner rfl
  induction nodes using tree_induction with
  | nil => rfl
  | text content rest ih => exact hcons _ rest rfl ih
  | value key escape rest ih => exact hcons _ rest rfl ih
  | block kind key body otherwise rest ihbody ihother ih =>
      refine hcons _ rest ?_ ih
      have hinner : inclusionNames (merged (rebuildAll (filling []) body)) = inclusionNames body :=
        ihbody
      simp [rebuildNode, inclusionNames, inclusionNamesOf, hinner, hbody otherwise ihother]
  | slot name body rest ihbody ih => exact hcons _ rest rfl ih
  | inclusion name rest ih => exact hcons _ rest rfl ih
  | call name arguments body rest ihbody ih =>
      refine hcons _ rest ?_ ih
      simp [rebuildNode, inclusionNames, inclusionNamesOf, hbody body ihbody]

/-! ## The passes -/

/-- Opening slots does not change what a tree shows. -/
theorem evalNodes_open {κ : Type} (env : Environment κ) (render : Text → Evaluation κ Text)
    (nodes : List Node) :
    evalNodes env render (rebuild (filling []) nodes) = evalNodes env render nodes := by
  refine evalNodes_rebuild ?_ ?_ nodes
  · intro name body rebuilt _
    rfl
  · intro name
    exact evalNodes_singleton (.inclusion name)

theorem settled_open {nodes : List Node} (h : Settled nodes) :
    Settled (rebuild (filling []) nodes) := by
  refine settled_rebuild ?_ ?_ h
  · intro name body rebuilt hbody _
    exact hbody.nodeSettled
  · simp [filling, NodeSettled]

/-- **Filling slots with their own bodies.** If no two slots of a tree share a name, as many passes
as its slots are deep leave a tree with the same inclusions that shows the same. -/
theorem exists_fillSlots_of_nodup (limit passes : Nat) {overrides : Overrides} {nodes : List Node}
    (h : Unrecorded overrides nodes) (hnodes : Settled nodes) (hdepth : slotDepth nodes ≤ passes) :
    ∃ tree last, fillSlots limit passes overrides nodes = (.ok tree, last) ∧
      inclusionNames tree = inclusionNames nodes ∧
      ∀ (κ : Type) (env : Environment κ) (render : Text → Evaluation κ Text),
        evalNodes env render tree = evalNodes env render nodes := by
  by_cases hslots : outermostSlots nodes = []
  · exact ⟨nodes, _, fillSlots_of_nil hslots limit passes overrides, rfl, fun _ _ _ => rfl⟩
  -- the induction is on the passes; each makes the tree one slot less deep
  induction passes generalizing overrides nodes with
  | zero =>
      rw [slotDepth_le_iff] at hdepth
      obtain ⟨slot, hslot⟩ := List.exists_mem_of_ne_nil _ hslots
      exact absurd (hdepth slot hslot) (Nat.not_lt_zero _)
  | succ passes ih =>
      have hown := h.ownBodies hnodes
      have hopen := rebuild_filling_of_ownBodies hown
      have hrest := h.after_pass hnodes
      have hless := hown.slotDepth_rebuild_le hdepth
      rw [fillSlots_succ hslots]
      rw [hopen] at hrest hless ⊢
      by_cases hdone : outermostSlots (rebuild (filling []) nodes) = []
      · exact ⟨_, _, fillSlots_of_nil hdone limit passes _, inclusionNames_open nodes,
          fun _ env render => evalNodes_open env render nodes⟩
      · obtain ⟨tree, last, hfill, hinclusions, hshown⟩ :=
          ih hrest (settled_open hnodes) hless hdone
        refine ⟨tree, last, hfill, hinclusions.trans (inclusionNames_open nodes), ?_⟩
        intro κ env render
        exact (hshown κ env render).trans (evalNodes_open env render nodes)

end Stencil
