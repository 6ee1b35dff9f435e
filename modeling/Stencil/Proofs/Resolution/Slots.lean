import Stencil.Engine
import Stencil.Proofs.Nesting.Settled
import Stencil.Proofs.Tree.Unfolding

/-!
# Filling slots is unfolding

The overrides that `resolveParents` ends with give a meaning to every slot it met, and its answer is
what the tree of the last document in the chain of parents unfolds to under that meaning.
The overrides grow while slots are filled, from what is put in place; what makes the passes agree
with the recursion all the same is that an entry never changes once it is there
(`Extends`), and that a pass finds an entry for every slot it replaces (`Covers`).
-/

set_option autoImplicit false

namespace Stencil

/-! ## Outermost slots -/

theorem outermostSlots_eq_flatMap (nodes : List Node) :
    outermostSlots nodes = nodes.flatMap outermostSlotsOf := by
  induction nodes with
  | nil => rfl
  | cons node rest ih => rw [outermostSlots, ih, List.flatMap_cons]

theorem outermostSlots_append (nodes more : List Node) :
    outermostSlots (nodes ++ more) = outermostSlots nodes ++ outermostSlots more := by
  simp [outermostSlots_eq_flatMap]

theorem outermostSlots_merged (nodes : List Node) :
    outermostSlots (merged nodes) = outermostSlots nodes := by
  rw [outermostSlots_eq_flatMap, outermostSlots_eq_flatMap]
  exact flatMap_merged (fun _ _ => rfl) nodes

theorem settled_of_mem_outermostSlots {nodes : List Node} (h : ∀ node ∈ nodes, NodeSettled node) :
    ∀ slot ∈ outermostSlots nodes, Settled slot.2 := by
  have hbody : ∀ body : Option (List Node), BodySettled body →
      (∀ inner ∈ body, (∀ node ∈ inner, NodeSettled node) →
        ∀ slot ∈ outermostSlots inner, Settled slot.2) →
      ∀ slot ∈ outermostSlotsIn body, Settled slot.2 := by
    intro body hbody ih
    cases body with
    | none => simp [outermostSlotsIn]
    | some inner => exact ih inner rfl (Settled.nodeSettled hbody)
  induction nodes using tree_induction with
  | nil => simp [outermostSlots]
  | text content rest ih => exact ih (List.forall_mem_cons.mp h).2
  | value key escape rest ih => exact ih (List.forall_mem_cons.mp h).2
  | block kind key body otherwise rest ihbody ihother ih =>
      obtain ⟨⟨hsettled, hother⟩, hrest⟩ := List.forall_mem_cons.mp h
      simp only [outermostSlots, outermostSlotsOf, List.forall_mem_append]
      exact ⟨⟨ihbody hsettled.nodeSettled, hbody otherwise hother ihother⟩, ih hrest⟩
  | slot name body rest ihbody ih =>
      obtain ⟨hsettled, hrest⟩ := List.forall_mem_cons.mp h
      simp only [outermostSlots, outermostSlotsOf, List.singleton_append, List.forall_mem_cons]
      exact ⟨hsettled, ih hrest⟩
  | inclusion name rest ih => exact ih (List.forall_mem_cons.mp h).2
  | call name arguments body rest ihbody ih =>
      obtain ⟨hsettled, hrest⟩ := List.forall_mem_cons.mp h
      simp only [outermostSlots, outermostSlotsOf, List.forall_mem_append]
      exact ⟨hbody body hsettled ihbody, ih hrest⟩

/-- Without an outermost slot there is no slot at any depth. -/
theorem slot_notMem_nodesWithin {nodes : List Node} (h : outermostSlots nodes = []) (name : Text)
    (body : List Node) : .slot name body ∉ nodesWithin nodes := by
  have hbody : ∀ other : Option (List Node), outermostSlotsIn other = [] →
      (∀ inner ∈ other, outermostSlots inner = [] → .slot name body ∉ nodesWithin inner) →
      .slot name body ∉ nodesIn other := by
    intro other hother ih
    cases other with
    | none => simp [nodesIn]
    | some inner => exact ih inner rfl hother
  induction nodes using tree_induction with
  | nil => simp [nodesWithin]
  | text content rest ih => simpa [nodesWithin, nodesOf] using ih h
  | value key escape rest ih => simpa [nodesWithin, nodesOf] using ih h
  | block kind key inner otherwise rest ihinner ihother ih =>
      simp only [outermostSlots, outermostSlotsOf, List.append_eq_nil_iff] at h
      simp only [nodesWithin, nodesOf, List.cons_append, List.mem_cons, List.mem_append,
        reduceCtorEq, false_or, not_or]
      exact ⟨⟨ihinner h.1.1, hbody otherwise h.1.2 ihother⟩, ih h.2⟩
  | slot other inner rest ihinner ih => simp [outermostSlots, outermostSlotsOf] at h
  | inclusion other rest ih => simpa [nodesWithin, nodesOf] using ih h
  | call other arguments inner rest ihinner ih =>
      simp only [outermostSlots, outermostSlotsOf, List.append_eq_nil_iff] at h
      simp only [nodesWithin, nodesOf, List.cons_append, List.mem_cons, List.mem_append,
        reduceCtorEq, false_or, not_or]
      exact ⟨hbody inner h.1 ihinner, ih h.2⟩

/-! ## Recording -/

/-- Entries that are there stay as they are. -/
def Extends (overrides more : Overrides) : Prop :=
  ∀ name body, lookup? name overrides = some body → lookup? name more = some body

/-- Every outermost slot of the tree has an entry. -/
def Covers (overrides : Overrides) (nodes : List Node) : Prop :=
  ∀ slot ∈ outermostSlots nodes, ∃ body, lookup? slot.1 overrides = some body

/-- Every tree recorded for a slot is settled. -/
def SettledOverrides (overrides : Overrides) : Prop :=
  ∀ name body, lookup? name overrides = some body → Settled body

theorem Extends.refl (overrides : Overrides) : Extends overrides overrides := fun _ _ h => h

theorem Extends.trans {first second third : Overrides} (h : Extends first second)
    (h' : Extends second third) : Extends first third :=
  fun name body hbody => h' name body (h name body hbody)

theorem Covers.extend {overrides more : Overrides} {nodes : List Node}
    (h : Covers overrides nodes) (hmore : Extends overrides more) : Covers more nodes := by
  intro slot hslot
  obtain ⟨body, hbody⟩ := h slot hslot
  exact ⟨body, hmore _ _ hbody⟩

theorem settled_unnest (name : Text) {body : List Node} (h : Settled body) :
    Settled (unnest name body) := by
  refine settled_rebuild ?_ ?_ h
  · intro inner other rebuilt _ hrebuilt
    by_cases hname : inner = name
    · simpa [unnesting, hname] using hrebuilt.nodeSettled
    · simpa [unnesting, hname, NodeSettled] using hrebuilt
  · simp [unnesting, NodeSettled]

theorem lookup?_recordSlot (name : Text) (overrides : Overrides) (slot : Text × List Node) :
    lookup? name (recordSlot overrides slot)
      = (lookup? name overrides).or
          (if slot.1 = name then some (unnest slot.1 slot.2) else none) := by
  unfold recordSlot
  split
  · next body h =>
      by_cases hname : slot.1 = name
      · simp [← hname, h]
      · simp [hname]
  · rw [lookup?_append]
    rfl

/-- What is under a name once slots are recorded: what was there, or else the first slot of that
name. -/
theorem lookup?_foldl_recordSlot (name : Text) (slots : List (Text × List Node))
    (overrides : Overrides) :
    lookup? name (slots.foldl recordSlot overrides)
      = (lookup? name overrides).or ((lookup? name slots).map (unnest name)) := by
  induction slots generalizing overrides with
  | nil => simp [lookup?]
  | cons slot rest ih =>
      rw [List.foldl_cons, ih, lookup?_recordSlot, Option.or_assoc]
      by_cases h : slot.1 = name
      · simp [lookup?, h]
      · simp [lookup?, h]

theorem lookup?_recordSlots (name : Text) (overrides : Overrides) (nodes : List Node) :
    lookup? name (recordSlots overrides nodes)
      = (lookup? name overrides).or ((lookup? name (outermostSlots nodes)).map (unnest name)) :=
  lookup?_foldl_recordSlot name (outermostSlots nodes) overrides

theorem extends_recordSlots (overrides : Overrides) (nodes : List Node) :
    Extends overrides (recordSlots overrides nodes) := by
  intro name body h
  rw [lookup?_recordSlots, h, Option.some_or]

/-- Once the slots of a tree are recorded, each of them has an entry. -/
theorem covers_recordSlots (overrides : Overrides) (nodes : List Node) :
    Covers (recordSlots overrides nodes) nodes := by
  intro slot hslot
  refine Option.ne_none_iff_exists'.mp fun hnone => ?_
  rw [lookup?_recordSlots, Option.or_eq_none_iff, Option.map_eq_none_iff] at hnone
  exact (lookup?_eq_none_iff slot.1 _).mp hnone.2 slot hslot rfl

theorem settledOverrides_recordSlots {overrides : Overrides} {nodes : List Node}
    (h : SettledOverrides overrides) (hnodes : Settled nodes) :
    SettledOverrides (recordSlots overrides nodes) := by
  intro name body hbody
  rw [lookup?_recordSlots, Option.or_eq_some_iff] at hbody
  rcases hbody with hbody | ⟨-, hbody⟩
  · exact h name body hbody
  · obtain ⟨found, hfound, rfl⟩ := Option.map_eq_some_iff.mp hbody
    have hslots := settled_of_mem_outermostSlots hnodes.nodeSettled
    exact settled_unnest name (hslots _ (mem_of_lookup? hfound))

/-! ## Overrides as a meaning -/

/-- The meaning that overrides give to slots. Inclusions stay. -/
def Meaning.ofOverrides (overrides : Overrides) : Meaning where
  slot name := lookup? name overrides
  inclusion _ := none

/-- With an entry for each outermost slot, what a tree refers to are the entries of its outermost
slots. -/
theorem references_of_covers {overrides : Overrides} {nodes : List Node}
    (h : Covers overrides nodes) :
    (Meaning.ofOverrides overrides).references nodes
      = (outermostSlots nodes).map fun slot => (lookup? slot.1 overrides).getD slot.2 := by
  have hbody : ∀ body : Option (List Node),
      (∀ slot ∈ outermostSlotsIn body, ∃ tree, lookup? slot.1 overrides = some tree) →
      (∀ inner ∈ body, Covers overrides inner → (Meaning.ofOverrides overrides).references inner
        = (outermostSlots inner).map fun slot => (lookup? slot.1 overrides).getD slot.2) →
      (Meaning.ofOverrides overrides).referencesIn body
        = (outermostSlotsIn body).map fun slot => (lookup? slot.1 overrides).getD slot.2 := by
    intro body hcovers ih
    cases body with
    | none => rfl
    | some inner => exact ih inner rfl hcovers
  induction nodes using tree_induction with
  | nil => rfl
  | text content rest ih => exact ih h
  | value key escape rest ih => exact ih h
  | block kind key body otherwise rest ihbody ihother ih =>
      simp only [Covers, outermostSlots, outermostSlotsOf, List.forall_mem_append] at h
      obtain ⟨⟨hinner, hother⟩, hrest⟩ := h
      simp only [Meaning.references, Meaning.referencesOf, outermostSlots, outermostSlotsOf,
        List.map_append]
      rw [ihbody hinner, hbody otherwise hother ihother, ih hrest]
  | slot name body rest ihbody ih =>
      simp only [Covers, outermostSlots, outermostSlotsOf, List.singleton_append,
        List.forall_mem_cons] at h
      obtain ⟨⟨tree, htree⟩, hrest⟩ := h
      have hname : (Meaning.ofOverrides overrides).slot name = some tree := htree
      simp only [Meaning.references, Meaning.referencesOf, outermostSlots, outermostSlotsOf, hname,
        List.singleton_append, List.map_cons, htree, Option.getD_some]
      rw [ih hrest]
  | inclusion name rest ih => exact ih h
  | call name arguments body rest ihbody ih =>
      simp only [Covers, outermostSlots, outermostSlotsOf, List.forall_mem_append] at h
      obtain ⟨hinner, hrest⟩ := h
      simp only [Meaning.references, Meaning.referencesOf, outermostSlots, outermostSlotsOf,
        List.map_append]
      rw [hbody body hinner ihbody, ih hrest]

/-- The outermost slots after a pass are those of the trees that were put in place. -/
theorem outermostSlots_pass {overrides : Overrides} {nodes : List Node}
    (h : Covers overrides nodes) :
    outermostSlots ((Meaning.ofOverrides overrides).pass nodes)
      = ((Meaning.ofOverrides overrides).references nodes).flatMap outermostSlots := by
  have hcons : ∀ node rest, outermostSlots ((Meaning.ofOverrides overrides).pass (node :: rest))
      = outermostSlots (rebuildNode ((Meaning.ofOverrides overrides).filling id) node)
        ++ outermostSlots ((Meaning.ofOverrides overrides).pass rest) := by
    intro node rest
    rw [Meaning.pass, rebuild_cons, outermostSlots_merged, outermostSlots_append, Meaning.pass]
  have hbody : ∀ body : Option (List Node),
      (∀ slot ∈ outermostSlotsIn body, ∃ tree, lookup? slot.1 overrides = some tree) →
      (∀ inner ∈ body, Covers overrides inner →
        outermostSlots ((Meaning.ofOverrides overrides).pass inner)
          = ((Meaning.ofOverrides overrides).references inner).flatMap outermostSlots) →
      outermostSlotsIn (rebuildBody ((Meaning.ofOverrides overrides).filling id) body)
        = ((Meaning.ofOverrides overrides).referencesIn body).flatMap outermostSlots := by
    intro body hcovers ih
    cases body with
    | none => rfl
    | some inner => exact ih inner rfl hcovers
  induction nodes using tree_induction with
  | nil => rfl
  | text content rest ih => rw [hcons, ih h]; rfl
  | value key escape rest ih => rw [hcons, ih h]; rfl
  | block kind key body otherwise rest ihbody ihother ih =>
      simp only [Covers, outermostSlots, outermostSlotsOf, List.forall_mem_append] at h
      obtain ⟨⟨hinner, hother⟩, hrest⟩ := h
      have hnode : outermostSlots (rebuildNode ((Meaning.ofOverrides overrides).filling id)
            (.block kind key body otherwise))
          = outermostSlots ((Meaning.ofOverrides overrides).pass body) ++ outermostSlotsIn
              (rebuildBody ((Meaning.ofOverrides overrides).filling id) otherwise) := by
        simp [rebuildNode, outermostSlots, outermostSlotsOf, Meaning.pass, rebuild]
      rw [hcons, ih hrest, hnode, ihbody hinner, hbody otherwise hother ihother]
      simp [Meaning.references, Meaning.referencesOf]
  | slot name body rest ihbody ih =>
      simp only [Covers, outermostSlots, outermostSlotsOf, List.singleton_append,
        List.forall_mem_cons] at h
      obtain ⟨⟨tree, htree⟩, hrest⟩ := h
      have hname : (Meaning.ofOverrides overrides).slot name = some tree := htree
      rw [hcons, ih hrest]
      simp [rebuildNode, Meaning.filling, Meaning.references, Meaning.referencesOf, hname]
  | inclusion name rest ih => rw [hcons, ih h]; rfl
  | call name arguments body rest ihbody ih =>
      simp only [Covers, outermostSlots, outermostSlotsOf, List.forall_mem_append] at h
      obtain ⟨hinner, hrest⟩ := h
      have hnode : outermostSlots (rebuildNode ((Meaning.ofOverrides overrides).filling id)
            (.call name arguments body))
          = outermostSlotsIn (rebuildBody ((Meaning.ofOverrides overrides).filling id) body) := by
        simp [rebuildNode, outermostSlots, outermostSlotsOf]
      rw [hcons, ih hrest, hnode, hbody body hinner ihbody]
      simp [Meaning.references, Meaning.referencesOf]

/-- **What a pass puts in place**: with overrides that have an entry for each outermost slot, a pass
never falls back to the body of a slot, and overrides with more entries give the same pass. -/
theorem rebuild_filling_eq_pass {overrides more : Overrides} {nodes : List Node}
    (h : Covers overrides nodes) (hmore : Extends overrides more) :
    rebuild (filling overrides) nodes = (Meaning.ofOverrides more).pass nodes := by
  have hbody : ∀ body : Option (List Node),
      (∀ slot ∈ outermostSlotsIn body, ∃ tree, lookup? slot.1 overrides = some tree) →
      (∀ inner ∈ body, Covers overrides inner → rebuildAll (filling overrides) inner
        = rebuildAll ((Meaning.ofOverrides more).filling id) inner) →
      rebuildBody (filling overrides) body
        = rebuildBody ((Meaning.ofOverrides more).filling id) body := by
    intro body hcovers ih
    cases body with
    | none => rfl
    | some inner => simp only [rebuildBody, ih inner rfl hcovers]
  suffices hall : rebuildAll (filling overrides) nodes
      = rebuildAll ((Meaning.ofOverrides more).filling id) nodes from congrArg merged hall
  induction nodes using tree_induction with
  | nil => rfl
  | text content rest ih => rw [rebuildAll, rebuildAll, ih h]; rfl
  | value key escape rest ih => rw [rebuildAll, rebuildAll, ih h]; rfl
  | block kind key body otherwise rest ihbody ihother ih =>
      simp only [Covers, outermostSlots, outermostSlotsOf, List.forall_mem_append] at h
      obtain ⟨⟨hinner, hother⟩, hrest⟩ := h
      rw [rebuildAll, rebuildAll, ih hrest, rebuildNode, rebuildNode, ihbody hinner,
        hbody otherwise hother ihother]
  | slot name body rest ihbody ih =>
      simp only [Covers, outermostSlots, outermostSlotsOf, List.singleton_append,
        List.forall_mem_cons] at h
      obtain ⟨⟨tree, htree⟩, hrest⟩ := h
      have hname : (Meaning.ofOverrides more).slot name = some tree := hmore _ _ htree
      rw [rebuildAll, rebuildAll, ih hrest]
      simp [rebuildNode, filling, Meaning.filling, htree, hname]
  | inclusion name rest ih => rw [rebuildAll, rebuildAll, ih h]; rfl
  | call name arguments body rest ihbody ih =>
      simp only [Covers, outermostSlots, outermostSlotsOf, List.forall_mem_append] at h
      obtain ⟨hinner, hrest⟩ := h
      rw [rebuildAll, rebuildAll, ih hrest, rebuildNode, rebuildNode, hbody body hinner ihbody]

theorem references_eq_nil_iff_of_covers {overrides : Overrides} {nodes : List Node}
    (h : Covers overrides nodes) :
    (Meaning.ofOverrides overrides).references nodes = [] ↔ outermostSlots nodes = [] := by
  rw [references_of_covers h, List.map_eq_nil_iff]

theorem covers_of_mem_references {overrides : Overrides} {nodes : List Node}
    (h : Covers overrides nodes)
    (hpass : Covers overrides ((Meaning.ofOverrides overrides).pass nodes)) :
    ∀ tree ∈ (Meaning.ofOverrides overrides).references nodes, Covers overrides tree := by
  intro tree htree slot hslot
  have hmem : slot ∈ outermostSlots ((Meaning.ofOverrides overrides).pass nodes) := by
    rw [outermostSlots_pass h]
    exact List.mem_flatMap.mpr ⟨tree, htree, hslot⟩
  exact hpass slot hmem

theorem settledTrees_ofOverrides {overrides : Overrides} (h : SettledOverrides overrides) :
    (Meaning.ofOverrides overrides).SettledTrees :=
  ⟨fun hname => h _ _ hname, fun hname => nomatch hname⟩

/-! ## The passes -/

/-- How a filling of slots ends, in terms of the meaning that its last overrides give. -/
structure Filled (limit passes : Nat) (overrides : Overrides) (nodes : List Node)
    (answer : Except RenderError (List Node)) (last : Overrides) : Prop where
  extend : Extends overrides last
  settled : SettledOverrides last
  covers : ∀ n ≤ passes, ∀ tree ∈ (Meaning.ofOverrides last).level n nodes, Covers last tree
  ok : (Meaning.ofOverrides last).level (passes + 1) nodes = [] →
    answer = .ok ((Meaning.ofOverrides last).pass^[passes] nodes)
  error : (Meaning.ofOverrides last).level (passes + 1) nodes ≠ [] →
    answer = .error (.recursionLimit .parents limit)

/-- A tree without slots is the answer, whatever passes are left. -/
theorem Filled.of_settled {limit passes : Nat} {overrides : Overrides} {nodes : List Node}
    (hoverrides : SettledOverrides overrides) (hnodes : Settled nodes)
    (hslots : outermostSlots nodes = []) :
    Filled limit passes overrides nodes (.ok nodes) overrides := by
  have hcovers : Covers overrides nodes := by simp [Covers, hslots]
  have hnone : (Meaning.ofOverrides overrides).references nodes = [] :=
    (references_eq_nil_iff_of_covers hcovers).mpr hslots
  have hlevel : ∀ n, 1 ≤ n → (Meaning.ofOverrides overrides).level n nodes = [] := fun n hn =>
    Meaning.level_eq_nil_of_le _ hn (by rw [Meaning.level_one, hnone])
  refine ⟨.refl overrides, hoverrides, ?_, ?_, ?_⟩
  · intro n _ tree htree
    cases n with
    | zero =>
        obtain rfl := List.mem_singleton.mp htree
        exact hcovers
    | succ n => simp [hlevel (n + 1) (by omega)] at htree
  · intro _
    rw [Meaning.iterate_pass_of_references_eq_nil hnodes hnone]
  · intro hsome
    exact absurd (hlevel (passes + 1) (by omega)) hsome

/-- One pass more: the slots of the tree have entries, and the rest is the filling of the tree after
the pass. -/
theorem Filled.step {limit passes : Nat} {overrides last : Overrides} {nodes : List Node}
    {answer : Except RenderError (List Node)} (hcovers : Covers overrides nodes)
    (h : Filled limit passes overrides ((Meaning.ofOverrides last).pass nodes) answer last) :
    Filled limit (passes + 1) overrides nodes answer last := by
  have hnodes : Covers last nodes := hcovers.extend h.extend
  have hpass : Covers last ((Meaning.ofOverrides last).pass nodes) :=
    h.covers 0 (Nat.zero_le _) _ List.mem_cons_self
  refine ⟨h.extend, h.settled, ?_, ?_, ?_⟩
  · intro n hn tree htree
    match n with
    | 0 =>
        obtain rfl := List.mem_singleton.mp htree
        exact hnodes
    | 1 =>
        rw [Meaning.level_one] at htree
        exact covers_of_mem_references hnodes hpass tree htree
    | n + 2 =>
        rw [← Meaning.level_pass] at htree
        exact h.covers (n + 1) (by omega) tree htree
  · intro hlevel
    rw [← Meaning.level_pass] at hlevel
    rw [h.ok hlevel, Function.iterate_succ_apply]
  · intro hlevel
    rw [← Meaning.level_pass] at hlevel
    exact h.error hlevel

theorem Filled.of_extends {limit passes : Nat} {overrides more last : Overrides}
    {nodes : List Node} {answer : Except RenderError (List Node)} (hmore : Extends overrides more)
    (h : Filled limit passes more nodes answer last) :
    Filled limit passes overrides nodes answer last :=
  ⟨hmore.trans h.extend, h.settled, h.covers, h.ok, h.error⟩

theorem fillSlots_of_nil {nodes : List Node} (h : outermostSlots nodes = []) (limit passes : Nat)
    (overrides : Overrides) :
    fillSlots limit passes overrides nodes = (.ok nodes, recordSlots overrides nodes) := by
  cases passes <;> simp [fillSlots, h]

theorem fillSlots_zero {nodes : List Node} (h : outermostSlots nodes ≠ []) (limit : Nat)
    (overrides : Overrides) : fillSlots limit 0 overrides nodes
      = (.error (.recursionLimit .parents limit), recordSlots overrides nodes) := by
  simp [fillSlots, h]

theorem fillSlots_succ {nodes : List Node} (h : outermostSlots nodes ≠ []) (limit passes : Nat)
    (overrides : Overrides) : fillSlots limit (passes + 1) overrides nodes
      = fillSlots limit passes (recordSlots overrides nodes)
          (rebuild (filling (recordSlots overrides nodes)) nodes) := by
  simp [fillSlots, h]

/-- No pass is left for a tree that has slots. -/
theorem Filled.of_zero {limit : Nat} {overrides : Overrides} {nodes : List Node}
    (hoverrides : SettledOverrides overrides) (hcovers : Covers overrides nodes)
    (hslots : outermostSlots nodes ≠ []) :
    Filled limit 0 overrides nodes (.error (.recursionLimit .parents limit)) overrides := by
  refine ⟨.refl overrides, hoverrides, ?_, ?_, fun _ => rfl⟩
  · intro n hn tree htree
    obtain rfl := Nat.le_zero.mp hn
    obtain rfl := List.mem_singleton.mp htree
    exact hcovers
  · intro hlevel
    rw [Meaning.level_one, references_eq_nil_iff_of_covers hcovers] at hlevel
    exact absurd hlevel hslots

/-- **What a run of passes gives.** -/
theorem filled_fillSlots (limit passes : Nat) {overrides : Overrides} {nodes : List Node}
    (hoverrides : SettledOverrides overrides) (hnodes : Settled nodes) :
    Filled limit passes overrides nodes (fillSlots limit passes overrides nodes).1
      (fillSlots limit passes overrides nodes).2 := by
  -- the induction is on the passes that are left; every pass begins by recording
  induction passes generalizing overrides nodes with
  | zero =>
      have hrecorded := settledOverrides_recordSlots hoverrides hnodes
      refine Filled.of_extends (extends_recordSlots overrides nodes) ?_
      by_cases hslots : outermostSlots nodes = []
      · rw [fillSlots_of_nil hslots]
        exact .of_settled hrecorded hnodes hslots
      · rw [fillSlots_zero hslots]
        exact .of_zero hrecorded (covers_recordSlots overrides nodes) hslots
  | succ passes ih =>
      have hrecorded := settledOverrides_recordSlots hoverrides hnodes
      have hcovers := covers_recordSlots overrides nodes
      refine Filled.of_extends (extends_recordSlots overrides nodes) ?_
      by_cases hslots : outermostSlots nodes = []
      · rw [fillSlots_of_nil hslots]
        exact .of_settled hrecorded hnodes hslots
      · rw [fillSlots_succ hslots]
        have hnext : Settled (rebuild (filling (recordSlots overrides nodes)) nodes) := by
          rw [rebuild_filling_eq_pass hcovers (.refl _)]
          exact Meaning.settled_pass (settledTrees_ofOverrides hrecorded) hnodes
        have hrest := ih hrecorded hnext
        have hpass := rebuild_filling_eq_pass hcovers hrest.extend
        refine Filled.step hcovers ?_
        rw [← hpass]
        exact hrest

theorem outermostSlots_of_fillSlots {limit passes : Nat} {overrides last : Overrides}
    {nodes tree : List Node} (h : fillSlots limit passes overrides nodes = (.ok tree, last)) :
    outermostSlots tree = [] := by
  induction passes generalizing overrides nodes with
  | zero =>
      by_cases hslots : outermostSlots nodes = []
      · rw [fillSlots_of_nil hslots] at h
        cases h
        exact hslots
      · rw [fillSlots_zero hslots] at h
        cases h
  | succ passes ih =>
      by_cases hslots : outermostSlots nodes = []
      · rw [fillSlots_of_nil hslots] at h
        cases h
        exact hslots
      · rw [fillSlots_succ hslots] at h
        exact ih h

theorem settled_of_fillSlots {limit passes : Nat} {overrides last : Overrides}
    {nodes tree : List Node} (hoverrides : SettledOverrides overrides) (hnodes : Settled nodes)
    (h : fillSlots limit passes overrides nodes = (.ok tree, last)) : Settled tree := by
  have hfilled := filled_fillSlots limit passes hoverrides hnodes
  rw [h] at hfilled
  by_cases hlevel : (Meaning.ofOverrides last).level (passes + 1) nodes = []
  · obtain rfl : tree = (Meaning.ofOverrides last).pass^[passes] nodes :=
      Except.ok.inj (hfilled.ok hlevel)
    exact Function.Iterate.rec Settled hnodes
      (fun _ => Meaning.settled_pass (settledTrees_ofOverrides hfilled.settled)) passes
  · cases hfilled.error hlevel

/-! ## Along the chain of parents -/

/-- The chain of parents of a document leads to one without a parent, after so many of them. -/
inductive LeadsTo (fetch : Text → Id (Option Document)) : Document → Nat → Document → Prop
  | root {document : Document} (hparent : document.parentName = none) :
      LeadsTo fetch document 0 document
  | parent {document next root : Document} {name : Text} {hops : Nat}
      (hparent : document.parentName = some name) (hfetch : fetch name = some next)
      (hrest : LeadsTo fetch next hops root) : LeadsTo fetch document (hops + 1) root

section Following

variable {fetch : Text → Id (Option Document)} {document next : Document} {name : Text}

theorem followParents_of_root (h : document.parentName = none) (limit hops : Nat)
    (overrides : Overrides) :
    followParents fetch limit hops overrides document
      = fillSlots limit limit overrides document.nodes := by
  unfold followParents
  rw [h]
  rfl

theorem followParents_of_zero (h : document.parentName = some name) (limit : Nat)
    (overrides : Overrides) :
    followParents fetch limit 0 overrides document
      = (.error (.recursionLimit .parents limit), recordSlots overrides document.nodes) := by
  unfold followParents
  rw [h]
  rfl

theorem followParents_of_missing (h : document.parentName = some name) (hfetch : fetch name = none)
    (limit hops : Nat) (overrides : Overrides) :
    followParents fetch limit (hops + 1) overrides document
      = (.error (.missingParent name), recordSlots overrides document.nodes) := by
  unfold followParents
  rw [h]
  simp only [hfetch]
  rfl

theorem followParents_of_parent (h : document.parentName = some name)
    (hfetch : fetch name = some next) (limit hops : Nat) (overrides : Overrides) :
    followParents fetch limit (hops + 1) overrides document
      = followParents fetch limit hops (recordSlots overrides document.nodes) next := by
  conv_lhs => unfold followParents
  rw [h]
  simp only [hfetch]
  rfl

end Following

/-- **Induction along the chain of parents**: a property of documents, and of how many parents may
still be followed from them, holds if it holds where the chain is not followed further and passes
from a parent to the document that names it. -/
@[elab_as_elim]
theorem chain_induction (fetch : Text → Id (Option Document)) {motive : Nat → Document → Prop}
    (root : ∀ hops document, document.parentName = none → motive hops document)
    (spent : ∀ document name, document.parentName = some name → motive 0 document)
    (missing : ∀ hops document name, document.parentName = some name → fetch name = none →
      motive (hops + 1) document)
    (parent : ∀ hops document name next, document.parentName = some name →
      fetch name = some next → motive hops next → motive (hops + 1) document)
    (hops : Nat) (document : Document) : motive hops document := by
  induction hops generalizing document with
  | zero =>
      cases hparent : document.parentName with
      | none => exact root 0 document hparent
      | some name => exact spent document name hparent
  | succ hops ih =>
      cases hparent : document.parentName with
      | none => exact root (hops + 1) document hparent
      | some name =>
          cases hfetch : fetch name with
          | none => exact missing hops document name hparent hfetch
          | some next => exact parent hops document name next hparent hfetch (ih next)

/-- Following a chain of parents records slots on the way and fills the slots of the last
document. -/
theorem exists_followParents_eq {fetch : Text → Id (Option Document)} {limit hops allowed : Nat}
    {overrides : Overrides} {document root : Document} (hchain : LeadsTo fetch document hops root)
    (hhops : hops ≤ allowed) (hoverrides : SettledOverrides overrides)
    (hfetch : ∀ name next, fetch name = some next → Settled next.nodes)
    (hdocument : Settled document.nodes) :
    ∃ recorded, SettledOverrides recorded ∧ Settled root.nodes ∧
      followParents fetch limit allowed overrides document
        = fillSlots limit limit recorded root.nodes := by
  induction hchain generalizing allowed overrides with
  | root hparent =>
      exact ⟨overrides, hoverrides, hdocument, followParents_of_root hparent _ _ _⟩
  | @parent document next root name hops hparent hname hrest ih =>
      obtain ⟨allowed, rfl⟩ : ∃ k, allowed = k + 1 := ⟨allowed - 1, by omega⟩
      rw [followParents_of_parent hparent hname]
      have hrecorded := settledOverrides_recordSlots hoverrides hdocument
      exact ih (Nat.le_of_succ_le_succ hhops) hrecorded (hfetch name next hname)

theorem settled_of_documentSource {templates : Text → Id (Option Template)} {name : Text}
    {document : Document} (h : documentSource templates name = some document) :
    Settled document.nodes := by
  obtain ⟨template, -, rfl⟩ := Option.map_eq_some_iff.mp h
  exact settled_parse template.source

/-- A tree that is left when parents are resolved is left when the slots of the last document are
filled. -/
theorem exists_fillSlots_of_followParents {templates : Text → Id (Option Template)}
    {limit hops : Nat} {overrides last : Overrides} {document : Document} {tree : List Node}
    (hoverrides : SettledOverrides overrides) (hdocument : Settled document.nodes)
    (h : followParents (documentSource templates) limit hops overrides document
      = (.ok tree, last)) :
    ∃ recorded root, SettledOverrides recorded ∧ Settled root ∧
      fillSlots limit limit recorded root = (.ok tree, last) := by
  induction hops, document using chain_induction (documentSource templates)
    generalizing overrides with
  | root hops document hparent =>
      rw [followParents_of_root hparent] at h
      exact ⟨overrides, document.nodes, hoverrides, hdocument, h⟩
  | spent document name hparent =>
      rw [followParents_of_zero hparent] at h
      cases h
  | missing hops document name hparent hfetch =>
      rw [followParents_of_missing hparent hfetch] at h
      cases h
  | parent hops document name next hparent hfetch ih =>
      rw [followParents_of_parent hparent hfetch] at h
      exact ih (settledOverrides_recordSlots hoverrides hdocument)
        (settled_of_documentSource hfetch) h

/-- Resolving the parents of a parsed document gives a settled tree, if it gives one. -/
theorem settled_of_followParents {templates : Text → Id (Option Template)} {limit hops : Nat}
    {overrides last : Overrides} {document : Document} {tree : List Node}
    (hoverrides : SettledOverrides overrides) (hdocument : Settled document.nodes)
    (h : followParents (documentSource templates) limit hops overrides document
      = (.ok tree, last)) : Settled tree := by
  obtain ⟨recorded, root, hrecorded, hroot, hfill⟩ :=
    exists_fillSlots_of_followParents hoverrides hdocument h
  exact settled_of_fillSlots hrecorded hroot hfill

/-! ## The tree that remains -/

/-- **Filling slots is unfolding.** If the parents of a document lead to `root` within the limit,
then every slot that is met has an entry in the overrides that are left. The answer is what the tree
of `root` unfolds to under these entries, if they are nested no deeper than the limit, and there is
no slot in it at any depth; it is the recursion error otherwise. -/
theorem resolveParents_unfolds (templates : Text → Id (Option Template)) (limit hops : Nat)
    (overrides : Overrides) (document root : Document) (hdocument : Parsed document.nodes)
    (hoverrides : ∀ entry ∈ overrides, Parsed entry.2)
    (hchain : LeadsTo (documentSource templates) document hops root) (hhops : hops ≤ limit) :
    let result := Id.run (resolveParents (documentSource templates) limit overrides document)
    let meaning := Meaning.ofOverrides result.2
    (∀ n ≤ limit, ∀ tree ∈ meaning.level n root.nodes, Covers result.2 tree) ∧
    (meaning.depth root.nodes ≤ limit → ∃ tree, result.1 = .ok tree ∧
      (∀ other, meaning.Unfolds root.nodes other ↔ other = tree) ∧
      ∀ name body, .slot name body ∉ nodesWithin tree) ∧
    (limit < meaning.depth root.nodes → result.1 = .error (.recursionLimit .parents limit)) := by
  intro result meaning
  have hsettled : SettledOverrides overrides := fun name body hbody =>
    (hoverrides _ (mem_of_lookup? hbody)).settled
  obtain ⟨recorded, hrecorded, hroot, heq⟩ := exists_followParents_eq hchain hhops hsettled
    (fun _ _ => settled_of_documentSource) hdocument.settled
  have hresult : result = fillSlots limit limit recorded root.nodes := heq
  have hfilled : Filled limit limit recorded root.nodes result.1 result.2 := by
    rw [hresult]
    exact filled_fillSlots limit limit hrecorded hroot
  refine ⟨hfilled.covers, ?_, ?_⟩
  · intro hdepth
    have hlevel : meaning.level (limit + 1) root.nodes = [] := (meaning.depth_le_iff _ _).mp hdepth
    have hok : result.1 = .ok (meaning.pass^[limit] root.nodes) := hfilled.ok hlevel
    have hunfolds := Meaning.unfolds_iterate_pass (settledTrees_ofOverrides hfilled.settled) hroot
      hlevel
    refine ⟨_, hok, ?_, ?_⟩
    · intro other
      constructor
      · intro hother
        exact hother.unique hunfolds
      · rintro rfl
        exact hunfolds
    · refine slot_notMem_nodesWithin ?_
      refine @outermostSlots_of_fillSlots limit limit recorded result.2 root.nodes _ ?_
      rw [← hresult, ← hok]
  · intro hdepth
    refine hfilled.error fun hlevel => ?_
    exact absurd ((meaning.depth_le_iff _ _).mpr hlevel) (not_le.mpr hdepth)

/-- The statement for a child that fills the one slot of its parent. -/
theorem resolveParents_unfolds_child :
    let templates : Text → Id (Option Template) := fun name =>
      if name = ['p'] then some ⟨none, "a{{#s}}b{{/s}}".toList, 0⟩ else none
    let child := Document.parse "{{^p}}{{#s}}c{{/s}}".toList
    let result := Id.run (resolveParents (documentSource templates) 1 [] child)
    Covers result.2 (Document.parse "a{{#s}}b{{/s}}".toList).nodes ∧
      ∃ tree, result.1 = .ok tree ∧ ∀ name body, .slot name body ∉ nodesWithin tree := by
  intro templates child result
  have hchild : child = ⟨some ⟨['p'], ⟨0, 6⟩⟩, [.slot ['s'] [.text ['c']]]⟩ := by
    with_unfolding_all rfl
  have hparent : Document.parse "a{{#s}}b{{/s}}".toList
      = ⟨none, [.text ['a'], .slot ['s'] [.text ['b']]]⟩ := by with_unfolding_all rfl
  have hsource : documentSource templates = fun name =>
      if name = ['p'] then some ⟨none, [.text ['a'], .slot ['s'] [.text ['b']]]⟩ else none := by
    funext name
    simp only [documentSource, templates]
    split
    · exact congrArg some hparent
    · rfl
  have hchain : LeadsTo (documentSource templates) child 1
      (Document.parse "a{{#s}}b{{/s}}".toList) :=
    .parent (by rw [hchild]; rfl) rfl (.root (by rw [hparent]; rfl))
  obtain ⟨hcovers, hok, -⟩ := resolveParents_unfolds templates 1 1 [] child _ (.template _)
    (by simp) hchain le_rfl
  have hlast : result.2 = [(['s'], [.text ['c']])] := by
    simp only [result, hchild, hsource]
    rfl
  have hlevel : (Meaning.ofOverrides result.2).level 2
      (Document.parse "a{{#s}}b{{/s}}".toList).nodes = [] := by
    rw [hlast, hparent]
    rfl
  obtain ⟨tree, htree, -, hslots⟩ := hok ((Meaning.depth_le_iff _ 1 _).mpr hlevel)
  exact ⟨hcovers 0 (by omega) _ List.mem_cons_self, tree, htree, hslots⟩

end Stencil
