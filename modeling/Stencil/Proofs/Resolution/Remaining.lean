import Stencil.Proofs.Engine.Filling
import Stencil.Proofs.Resolution.Inclusions

/-!
# What remains in a resolved tree

Parents are resolved before inclusions, and slots are filled only while parents are. So the tree
that is left when both are done has no inclusion in it, but the slots of included templates are
still there: a slot of some name remains exactly if one of the templates that are put in, directly
or through another, has a slot of that name (`mem_slotNames_inlineInclusions`).
-/

set_option autoImplicit false

namespace Stencil

/-! ## The slots of a tree -/

/-- The name of a node that is a slot. -/
def slotName? : Node → Option Text
  | .slot name _ => some name
  | _ => none

/-- The names of the slots inside a node and of the node itself. -/
def slotNamesOf (node : Node) : List Text := (nodesOf node).filterMap slotName?

/-- The names of the slots of a tree, at every depth. -/
def slotNames (nodes : List Node) : List Text := (nodesWithin nodes).filterMap slotName?

/-- The names of the slots of a body that may be absent, at every depth. -/
def slotNamesIn (body : Option (List Node)) : List Text := (nodesIn body).filterMap slotName?

theorem mem_slotNames (name : Text) (nodes : List Node) :
    name ∈ slotNames nodes ↔ ∃ body, .slot name body ∈ nodesWithin nodes := by
  unfold slotNames
  rw [List.mem_filterMap]
  constructor
  · rintro ⟨node, hnode, hname⟩
    cases node with
    | slot other body =>
        obtain rfl : other = name := Option.some.inj hname
        exact ⟨body, hnode⟩
    | _ => cases hname
  · rintro ⟨body, hbody⟩
    exact ⟨.slot name body, hbody, rfl⟩

@[simp]
theorem slotNames_nil : slotNames [] = [] := rfl

@[simp]
theorem slotNames_cons (node : Node) (rest : List Node) :
    slotNames (node :: rest) = slotNamesOf node ++ slotNames rest :=
  List.filterMap_append

@[simp]
theorem slotNamesOf_text (content : Text) : slotNamesOf (.text content) = [] := rfl

@[simp]
theorem slotNamesOf_value (key : Text) (escape : Bool) : slotNamesOf (.value key escape) = [] := rfl

@[simp]
theorem slotNamesOf_block (kind : BlockKind) (key : Text) (body : List Node)
    (otherwise : Option (List Node)) :
    slotNamesOf (.block kind key body otherwise) = slotNames body ++ slotNamesIn otherwise := by
  have hhead : slotName? (.block kind key body otherwise) = none := rfl
  simp [slotNamesOf, nodesOf, hhead, slotNames, slotNamesIn]

@[simp]
theorem slotNamesOf_slot (name : Text) (body : List Node) :
    slotNamesOf (.slot name body) = name :: slotNames body := rfl

@[simp]
theorem slotNamesOf_inclusion (name : Text) : slotNamesOf (.inclusion name) = [] := rfl

@[simp]
theorem slotNamesOf_call (name : Text) (arguments : List Argument) (body : Option (List Node)) :
    slotNamesOf (.call name arguments body) = slotNamesIn body := rfl

theorem slotNames_eq_flatMap (nodes : List Node) : slotNames nodes = nodes.flatMap slotNamesOf := by
  induction nodes with
  | nil => rfl
  | cons node rest ih => rw [slotNames_cons, ih, List.flatMap_cons]

theorem slotNames_append (nodes more : List Node) :
    slotNames (nodes ++ more) = slotNames nodes ++ slotNames more := by
  simp [slotNames_eq_flatMap]

theorem slotNames_merged (nodes : List Node) : slotNames (merged nodes) = slotNames nodes := by
  rw [slotNames_eq_flatMap, slotNames_eq_flatMap]
  exact flatMap_merged (fun _ _ => rfl) nodes

/-! ## Slots through the passes -/

section Passes

variable {fetch : Text → Id (Option Document)}

/-- One pass keeps the slots of the tree and adds those of the trees that are put in. -/
theorem count_slotNames_pass (name : Text) (nodes : List Node) :
    (slotNames ((Meaning.ofTemplates fetch).pass nodes)).count name
      = (slotNames nodes).count name
        + (((Meaning.ofTemplates fetch).references nodes).flatMap slotNames).count name := by
  have hcons : ∀ node rest, slotNames ((Meaning.ofTemplates fetch).pass (node :: rest))
      = slotNames (rebuildNode ((Meaning.ofTemplates fetch).filling id) node)
        ++ slotNames ((Meaning.ofTemplates fetch).pass rest) := by
    intro node rest
    rw [Meaning.pass, rebuild_cons, slotNames_merged, slotNames_append, Meaning.pass]
  have hbody : ∀ body : Option (List Node),
      (∀ inner ∈ body, (slotNames ((Meaning.ofTemplates fetch).pass inner)).count name
        = (slotNames inner).count name
          + (((Meaning.ofTemplates fetch).references inner).flatMap slotNames).count name) →
      (slotNamesIn (rebuildBody ((Meaning.ofTemplates fetch).filling id) body)).count name
        = (slotNamesIn body).count name
          + (((Meaning.ofTemplates fetch).referencesIn body).flatMap slotNames).count name := by
    intro body ih
    cases body with
    | none => rfl
    | some inner => exact ih inner rfl
  induction nodes using tree_induction with
  | nil => rfl
  | text content rest ih =>
      rw [hcons, List.count_append, ih]
      simp [rebuildNode, Meaning.references, Meaning.referencesOf]
  | value key escape rest ih =>
      rw [hcons, List.count_append, ih]
      simp [rebuildNode, Meaning.references, Meaning.referencesOf]
  | block kind key body otherwise rest ihbody ihother ih =>
      have hnode : slotNames (rebuildNode ((Meaning.ofTemplates fetch).filling id)
            (.block kind key body otherwise))
          = slotNames ((Meaning.ofTemplates fetch).pass body) ++ slotNamesIn
              (rebuildBody ((Meaning.ofTemplates fetch).filling id) otherwise) := by
        simp [rebuildNode, Meaning.pass, rebuild]
      simp only [hcons, hnode, Meaning.references, Meaning.referencesOf, slotNames_cons,
        slotNamesOf_block, List.flatMap_append, List.count_append, ihbody,
        hbody otherwise ihother, ih]
      omega
  | slot other body rest ihbody ih =>
      have hnode : slotNames (rebuildNode ((Meaning.ofTemplates fetch).filling id)
            (.slot other body))
          = [other] ++ slotNames ((Meaning.ofTemplates fetch).pass body) := by
        simp [rebuildNode, Meaning.filling, Meaning.ofTemplates, Meaning.pass, rebuild]
      have hreferences : (Meaning.ofTemplates fetch).references (.slot other body :: rest)
          = (Meaning.ofTemplates fetch).references body
            ++ (Meaning.ofTemplates fetch).references rest := rfl
      have hslot : slotNamesOf (.slot other body) = [other] ++ slotNames body := rfl
      simp only [hcons, hnode, hreferences, slotNames_cons, hslot, List.flatMap_append,
        List.count_append, ihbody, ih]
      omega
  | inclusion other rest ih =>
      have hnode : slotNames (rebuildNode ((Meaning.ofTemplates fetch).filling id)
            (.inclusion other)) = slotNames (includedBody (fetch other)) := by
        simp [rebuildNode, Meaning.filling, Meaning.ofTemplates]
      have hreferences : (Meaning.ofTemplates fetch).references (.inclusion other :: rest)
          = includedBody (fetch other) :: (Meaning.ofTemplates fetch).references rest := rfl
      simp only [hcons, hnode, hreferences, slotNames_cons, slotNamesOf_inclusion,
        List.nil_append, List.flatMap_cons, List.count_append, ih]
      omega
  | call other arguments body rest ihbody ih =>
      have hnode : slotNames (rebuildNode ((Meaning.ofTemplates fetch).filling id)
            (.call other arguments body))
          = slotNamesIn (rebuildBody ((Meaning.ofTemplates fetch).filling id) body) := by
        simp [rebuildNode]
      simp only [hcons, hnode, Meaning.references, Meaning.referencesOf, slotNames_cons,
        slotNamesOf_call, List.flatMap_append, List.count_append, hbody body ihbody, ih]
      omega

theorem mem_slotNames_pass (name : Text) (nodes : List Node) :
    name ∈ slotNames ((Meaning.ofTemplates fetch).pass nodes) ↔
      name ∈ slotNames nodes ∨
        ∃ tree ∈ (Meaning.ofTemplates fetch).references nodes, name ∈ slotNames tree := by
  rw [← List.mem_flatMap, ← List.count_pos_iff, ← List.count_pos_iff, ← List.count_pos_iff,
    count_slotNames_pass]
  omega

/-- The slots after some passes are those of the trees that are met in so many steps. -/
theorem mem_slotNames_iterate_pass (name : Text) (passes : Nat) (nodes : List Node) :
    name ∈ slotNames ((Meaning.ofTemplates fetch).pass^[passes] nodes) ↔
      ∃ n ≤ passes, ∃ tree ∈ (Meaning.ofTemplates fetch).level n nodes, name ∈ slotNames tree := by
  induction passes generalizing nodes with
  | zero =>
      constructor
      · intro h
        exact ⟨0, le_rfl, nodes, List.mem_cons_self, h⟩
      · rintro ⟨n, hn, tree, htree, h⟩
        obtain rfl := Nat.le_zero.mp hn
        obtain rfl := List.mem_singleton.mp htree
        exact h
  | succ passes ih =>
      rw [Function.iterate_succ_apply, ih]
      constructor
      · rintro ⟨n, hn, tree, htree, h⟩
        cases n with
        | zero =>
            obtain rfl := List.mem_singleton.mp htree
            rcases (mem_slotNames_pass name nodes).mp h with h | ⟨other, hother, h⟩
            · exact ⟨0, Nat.zero_le _, nodes, List.mem_cons_self, h⟩
            · rw [← Meaning.level_one] at hother
              exact ⟨1, by omega, other, hother, h⟩
        | succ n =>
            rw [Meaning.level_pass] at htree
            exact ⟨n + 2, by omega, tree, htree, h⟩
      · rintro ⟨n, hn, tree, htree, h⟩
        match n with
        | 0 =>
            obtain rfl := List.mem_singleton.mp htree
            exact ⟨0, Nat.zero_le _, _, List.mem_cons_self,
              (mem_slotNames_pass name tree).mpr (.inl h)⟩
        | 1 =>
            rw [Meaning.level_one] at htree
            exact ⟨0, Nat.zero_le _, _, List.mem_cons_self,
              (mem_slotNames_pass name nodes).mpr (.inr ⟨tree, htree, h⟩)⟩
        | n + 2 =>
            rw [← Meaning.level_pass] at htree
            exact ⟨n + 1, by omega, tree, htree, h⟩

/-! ## Templates that are put in -/

/-- A template is put into a tree: the tree names it, or names one from which inclusions lead to
it. -/
def PutInto (fetch : Text → Id (Option Document)) (nodes : List Node) (other : Text) : Prop :=
  ∃ name ∈ inclusionNames nodes, Relation.ReflTransGen (Includes fetch) name other

theorem exists_mem_level_iff (name : Text) (tree : List Node) :
    (∃ n, tree ∈ (Meaning.ofTemplates fetch).level n (includedBody (fetch name))) ↔
      ∃ other, Relation.ReflTransGen (Includes fetch) name other ∧
        includedBody (fetch other) = tree := by
  constructor
  · rintro ⟨n, htree⟩
    induction n generalizing name with
    | zero => exact ⟨name, .refl, (List.mem_singleton.mp htree).symm⟩
    | succ n ih =>
        rw [Meaning.level, references_ofTemplates, List.flatMap_map, List.mem_flatMap] at htree
        obtain ⟨next, hnext, htree⟩ := htree
        obtain ⟨other, hother, rfl⟩ := ih next htree
        exact ⟨other, .head hnext hother, rfl⟩
  · rintro ⟨other, hother, rfl⟩
    induction hother using Relation.ReflTransGen.head_induction_on with
    | refl => exact ⟨0, List.mem_cons_self⟩
    | @head name next hnext _ ih =>
        obtain ⟨n, hn⟩ := ih
        refine ⟨n + 1, ?_⟩
        rw [Meaning.level, references_ofTemplates, List.flatMap_map, List.mem_flatMap]
        exact ⟨next, hnext, hn⟩

/-- The trees that are met on the way from a tree are the tree and those of the templates that are
put into it. -/
theorem exists_level_slotNames_iff (name : Text) (nodes : List Node) :
    (∃ n, ∃ tree ∈ (Meaning.ofTemplates fetch).level n nodes, name ∈ slotNames tree) ↔
      name ∈ slotNames nodes ∨
        ∃ other, PutInto fetch nodes other ∧ name ∈ slotNames (includedBody (fetch other)) := by
  constructor
  · rintro ⟨n, tree, htree, h⟩
    cases n with
    | zero =>
        obtain rfl := List.mem_singleton.mp htree
        exact .inl h
    | succ n =>
        rw [Meaning.level, references_ofTemplates, List.flatMap_map, List.mem_flatMap] at htree
        obtain ⟨first, hfirst, htree⟩ := htree
        obtain ⟨other, hother, rfl⟩ := (exists_mem_level_iff first tree).mp ⟨n, htree⟩
        exact .inr ⟨other, ⟨first, hfirst, hother⟩, h⟩
  · rintro (h | ⟨other, ⟨first, hfirst, hother⟩, h⟩)
    · exact ⟨0, nodes, List.mem_cons_self, h⟩
    · obtain ⟨n, hn⟩ := (exists_mem_level_iff first _).mpr ⟨other, hother, rfl⟩
      refine ⟨n + 1, _, ?_, h⟩
      rw [Meaning.level, references_ofTemplates, List.flatMap_map, List.mem_flatMap]
      exact ⟨first, hfirst, hn⟩

/-- **The slots that remain**: those of the tree, and those of the templates that are put into
it. -/
theorem mem_slotNames_inlineInclusions (h : (Meaning.ofTemplates fetch).SettledTrees)
    {limit passes : Nat} {nodes tree : List Node} (hnodes : Settled nodes)
    (htree : Id.run (inlineInclusions fetch limit passes nodes) = .ok tree) (name : Text) :
    name ∈ slotNames tree ↔ name ∈ slotNames nodes ∨
      ∃ other, PutInto fetch nodes other ∧ name ∈ slotNames (includedBody (fetch other)) := by
  obtain ⟨hok, herror⟩ := inlineInclusions_eq h limit passes hnodes
  have hlevel : (Meaning.ofTemplates fetch).level (passes + 1) nodes = [] := by
    by_contra hsome
    rw [herror hsome] at htree
    cases htree
  obtain rfl : (Meaning.ofTemplates fetch).pass^[passes] nodes = tree :=
    Except.ok.inj ((hok hlevel).symm.trans htree)
  rw [mem_slotNames_iterate_pass, ← exists_level_slotNames_iff]
  constructor
  · rintro ⟨n, -, hn⟩
    exact ⟨n, hn⟩
  · rintro ⟨n, other, hother, hname⟩
    refine ⟨n, ?_, other, hother, hname⟩
    -- nothing is met beyond the passes that were needed
    by_contra hlt
    have hnone := (Meaning.ofTemplates fetch).level_eq_nil_of_le (by omega : passes + 1 ≤ n) hlevel
    rw [hnone] at hother
    cases hother

end Passes

/-! ## Both passes -/

theorem slotNames_eq_nil_of_outermostSlots {nodes : List Node} (h : outermostSlots nodes = []) :
    slotNames nodes = [] := by
  refine List.eq_nil_iff_forall_not_mem.mpr fun name hname => ?_
  obtain ⟨body, hbody⟩ := (mem_slotNames name nodes).mp hname
  exact slot_notMem_nodesWithin h name body hbody

/-- **What remains when a template is resolved**: no inclusion, and of slots exactly those that
included templates bring. So the tree is without slots if and only if no template that is put into
the tree of its last parent has a slot anywhere. -/
theorem slots_of_resolve {κ : Type} (engine : Engine κ) (template : Template)
    (caches after : Caches) (tree : List Node) (hempty : caches.tree? template.cell = none)
    (h : engine.resolve template caches = (.ok tree, after)) :
    let fetch := documentSource engine.find?
    ∃ merged last, Id.run (resolveParents fetch engine.limits.parents [] template.document)
        = (.ok merged, last) ∧
      (∀ name, .inclusion name ∉ nodesWithin tree) ∧
      ((∀ name body, .slot name body ∉ nodesWithin tree) ↔
        ∀ other, PutInto fetch merged other →
          ∀ name body, .slot name body ∉ nodesWithin (includedBody (fetch other))) := by
  intro fetch
  rw [engine.resolve_of_none hempty] at h
  have htree : engine.treeOf template.source = .ok tree := by
    cases hsource : engine.treeOf template.source with
    | ok resolved =>
        rw [hsource] at h
        cases h
        rfl
    | error error =>
        rw [hsource] at h
        cases h
  obtain ⟨merged, last, hmerged, hinlined⟩ := (engine.treeOf_eq_ok_iff _ _).mp htree
  have hnone : SettledOverrides [] := fun name body hbody => nomatch hbody
  obtain ⟨recorded, root, hrecorded, hroot, hfill⟩ :=
    exists_fillSlots_of_followParents hnone (settled_parse template.source) hmerged
  have hsettled : Settled merged := settled_of_fillSlots hrecorded hroot hfill
  have hslots : slotNames merged = [] :=
    slotNames_eq_nil_of_outermostSlots (outermostSlots_of_fillSlots hfill)
  have hremain := mem_slotNames_inlineInclusions
    (settledTrees_ofTemplates fun _ _ => settled_of_documentSource) hsettled hinlined
  refine ⟨merged, last, hmerged, ?_, ?_⟩
  · exact inclusion_notMem_nodesWithin (inclusionNames_of_inlineInclusions hinlined)
  · constructor
    · intro hfree other hother name body hbody
      have hname : name ∈ slotNames tree :=
        (hremain name).mpr (.inr ⟨other, hother, (mem_slotNames _ _).mpr ⟨body, hbody⟩⟩)
      obtain ⟨inner, hinner⟩ := (mem_slotNames name tree).mp hname
      exact hfree name inner hinner
    · intro hfree name body hbody
      have hremains : name ∈ slotNames tree := (mem_slotNames _ _).mpr ⟨body, hbody⟩
      rcases (hremain name).mp hremains with hname | ⟨other, hother, hname⟩
      · rw [hslots] at hname
        cases hname
      · obtain ⟨inner, hinner⟩ := (mem_slotNames name _).mp hname
        exact hfree other hother name inner hinner

/-- The documents that an engine finds by their names. -/
theorem documentSource_find? {κ : Type} (engine : Engine κ) :
    documentSource engine.find? = fun name =>
      pure (lookup? name (engine.templates.map fun entry => (entry.1, entry.2.document))) := by
  funext name
  show (lookup? name engine.templates).map Template.document
    = lookup? name (engine.templates.map fun entry => (entry.1, entry.2.document))
  induction engine.templates with
  | nil => rfl
  | cons entry rest ih => by_cases h : entry.1 = name <;> simp_all [lookup?]

/-- The statement for a page that fills the slot of its parent with an inclusion. -/
theorem slots_of_resolve_page :
    let engine : Engine Unit := { templates :=
      [(['p'], ⟨none, "<{{#s}}y{{/s}}>".toList, 0⟩), (['a'], ⟨none, "x{{+b}}".toList, 1⟩)] }
    let page : Template := ⟨none, "{{^p}}{{#s}}{{+a}}{{/s}}".toList, 2⟩
    let fetch := documentSource engine.find?
    ∃ tree after merged last, engine.resolve page [] = (.ok tree, after) ∧
      Id.run (resolveParents fetch engine.limits.parents [] page.document) = (.ok merged, last) ∧
      (∀ name, .inclusion name ∉ nodesWithin tree) ∧
      ((∀ name body, .slot name body ∉ nodesWithin tree) ↔
        ∀ other, PutInto fetch merged other →
          ∀ name body, .slot name body ∉ nodesWithin (includedBody (fetch other))) := by
  intro engine page fetch
  have hpage : Document.parse page.source
      = ⟨some ⟨['p'], ⟨0, 6⟩⟩, [.slot ['s'] [.inclusion ['a']]]⟩ := by with_unfolding_all rfl
  have hdocuments : engine.templates.map (fun entry => (entry.1, entry.2.document))
      = [(['p'], ⟨none, [.text ['<'], .slot ['s'] [.text ['y']], .text ['>']]⟩),
        (['a'], ⟨none, [.text ['x'], .inclusion ['b']]⟩)] := by with_unfolding_all rfl
  have htree : engine.treeOf page.source = .ok [.text "<x>".toList] := by
    rw [Engine.treeOf, hpage, documentSource_find?, hdocuments]
    rfl
  have hresolve : engine.resolve page []
      = (.ok [.text "<x>".toList], [(2, [.text "<x>".toList])]) := by
    rw [engine.resolve_of_none rfl, htree]
    rfl
  obtain ⟨merged, last, hmerged, hinclusions, hslots⟩ := slots_of_resolve engine page [] _ _ rfl
    hresolve
  exact ⟨_, _, merged, last, hresolve, hmerged, hinclusions, hslots⟩

/-- A resolved tree can have a slot in it: the slot of an included template is never filled. -/
theorem not_forall_resolve_without_slots :
    ¬ ∀ (engine : Engine Unit) (template : Template) (caches after : Caches) (tree : List Node),
      caches.tree? template.cell = none → engine.resolve template caches = (.ok tree, after) →
      (∀ name body, .slot name body ∉ nodesWithin tree) ∧
        ∀ name, .inclusion name ∉ nodesWithin tree := by
  intro h
  let engine : Engine Unit := { templates := [(['a'], ⟨none, "{{#s}}x{{/s}}".toList, 0⟩)] }
  have hpage : Document.parse "{{+a}}".toList = ⟨none, [.inclusion ['a']]⟩ := by
    with_unfolding_all rfl
  have hdocuments : engine.templates.map (fun entry => (entry.1, entry.2.document))
      = [(['a'], ⟨none, [.slot ['s'] [.text ['x']]]⟩)] := by with_unfolding_all rfl
  have htree : engine.treeOf "{{+a}}".toList = .ok [.slot ['s'] [.text ['x']]] := by
    rw [Engine.treeOf, hpage, documentSource_find?, hdocuments]
    rfl
  have hresolve : engine.resolve ⟨none, "{{+a}}".toList, 1⟩ []
      = (.ok [.slot ['s'] [.text ['x']]], [(1, [.slot ['s'] [.text ['x']]])]) := by
    rw [engine.resolve_of_none rfl, htree]
    rfl
  exact (h _ _ _ _ _ rfl hresolve).1 ['s'] [.text ['x']] List.mem_cons_self

end Stencil
