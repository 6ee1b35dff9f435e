import Mathlib.Logic.Relation
import Stencil.Proofs.Resolution.Slots

/-!
# Replacing inclusions is unfolding

The passes of `resolveInclusions` fetch the templates that a tree names, each of them once, and put
their trees in the place of the inclusions. The answer is what the tree unfolds to when every
inclusion means the tree of its template. How often a template is named and in which order templates
are fetched makes no difference (`lookup?_fetchBodies`).
-/

set_option autoImplicit false

namespace Stencil

/-- The meaning that a source of templates gives to inclusions. Slots stay. -/
def Meaning.ofTemplates (fetch : Text → Id (Option Document)) : Meaning where
  slot _ := none
  inclusion name := some (includedBody (fetch name))

section Inclusions

variable {fetch : Text → Id (Option Document)}

/-! ## Included names -/

/-- What a tree refers to are the trees of the templates it names, at whatever depth it names
them. -/
theorem references_ofTemplates (nodes : List Node) :
    (Meaning.ofTemplates fetch).references nodes
      = (inclusionNames nodes).map fun name => includedBody (fetch name) := by
  have hbody : ∀ body : Option (List Node),
      (∀ inner ∈ body, (Meaning.ofTemplates fetch).references inner
        = (inclusionNames inner).map fun name => includedBody (fetch name)) →
      (Meaning.ofTemplates fetch).referencesIn body
        = (inclusionNamesIn body).map fun name => includedBody (fetch name) := by
    intro body ih
    cases body with
    | none => rfl
    | some inner => exact ih inner rfl
  induction nodes using tree_induction with
  | nil => rfl
  | text content rest ih => exact ih
  | value key escape rest ih => exact ih
  | block kind key body otherwise rest ihbody ihother ih =>
      simp only [Meaning.references, Meaning.referencesOf, inclusionNames, inclusionNamesOf,
        List.map_append]
      rw [ihbody, hbody otherwise ihother, ih]
  | slot name body rest ihbody ih =>
      have hname : (Meaning.ofTemplates fetch).slot name = none := rfl
      simp only [Meaning.references, Meaning.referencesOf, inclusionNames, inclusionNamesOf, hname,
        List.map_append]
      rw [ihbody, ih]
  | inclusion name rest ih =>
      have hname : (Meaning.ofTemplates fetch).inclusion name = some (includedBody (fetch name)) :=
        rfl
      simp only [Meaning.references, Meaning.referencesOf, inclusionNames, inclusionNamesOf, hname,
        List.map_append, Option.toList_some, List.map_cons, List.map_nil]
      rw [ih]
  | call name arguments body rest ihbody ih =>
      simp only [Meaning.references, Meaning.referencesOf, inclusionNames, inclusionNamesOf,
        List.map_append]
      rw [hbody body ihbody, ih]

theorem references_ofTemplates_eq_nil_iff (nodes : List Node) :
    (Meaning.ofTemplates fetch).references nodes = [] ↔ inclusionNames nodes = [] := by
  rw [references_ofTemplates, List.map_eq_nil_iff]

/-- Where no name is included there is no inclusion at any depth. -/
theorem inclusion_notMem_nodesWithin {nodes : List Node} (h : inclusionNames nodes = [])
    (name : Text) : .inclusion name ∉ nodesWithin nodes := by
  have hbody : ∀ other : Option (List Node), inclusionNamesIn other = [] →
      (∀ inner ∈ other, inclusionNames inner = [] → .inclusion name ∉ nodesWithin inner) →
      .inclusion name ∉ nodesIn other := by
    intro other hother ih
    cases other with
    | none => simp [nodesIn]
    | some inner => exact ih inner rfl hother
  induction nodes using tree_induction with
  | nil => simp [nodesWithin]
  | text content rest ih => simpa [nodesWithin, nodesOf] using ih h
  | value key escape rest ih => simpa [nodesWithin, nodesOf] using ih h
  | block kind key inner otherwise rest ihinner ihother ih =>
      simp only [inclusionNames, inclusionNamesOf, List.append_eq_nil_iff] at h
      simp only [nodesWithin, nodesOf, List.cons_append, List.mem_cons, List.mem_append,
        reduceCtorEq, false_or, not_or]
      exact ⟨⟨ihinner h.1.1, hbody otherwise h.1.2 ihother⟩, ih h.2⟩
  | slot other inner rest ihinner ih =>
      simp only [inclusionNames, inclusionNamesOf, List.append_eq_nil_iff] at h
      simp only [nodesWithin, nodesOf, List.cons_append, List.mem_cons, List.mem_append,
        reduceCtorEq, false_or, not_or]
      exact ⟨ihinner h.1, ih h.2⟩
  | inclusion other rest ih => simp [inclusionNames, inclusionNamesOf] at h
  | call other arguments inner rest ihinner ih =>
      simp only [inclusionNames, inclusionNamesOf, List.append_eq_nil_iff] at h
      simp only [nodesWithin, nodesOf, List.cons_append, List.mem_cons, List.mem_append,
        reduceCtorEq, false_or, not_or]
      exact ⟨hbody inner h.1 ihinner, ih h.2⟩

/-! ## One pass -/

theorem mem_distinct (name : Text) (names : List Text) : name ∈ distinct names ↔ name ∈ names := by
  induction names with
  | nil => rfl
  | cons first rest ih =>
      by_cases h : name = first
      · simp [distinct, h]
      · simp [distinct, h, ih]

theorem nodup_distinct (names : List Text) : (distinct names).Nodup := by
  induction names with
  | nil => exact List.nodup_nil
  | cons name rest ih =>
      rw [distinct, List.nodup_cons]
      exact ⟨by simp, ih.filter _⟩

theorem distinct_eq_nil_iff (names : List Text) : distinct names = [] ↔ names = [] := by
  cases names <;> simp [distinct]

theorem fetchBodies_eq (names : List Text) :
    Id.run (fetchBodies fetch names) = names.map fun name => (name, includedBody (fetch name)) := by
  induction names with
  | nil => rfl
  | cons name rest ih =>
      show (name, includedBody (fetch name)) :: Id.run (fetchBodies fetch rest) = _
      rw [ih, List.map_cons]

/-- Each name that was asked for is fetched, and what is fetched for it is the tree of its
template. -/
theorem lookup?_fetchBodies {name : Text} {names : List Text} (h : name ∈ names) :
    lookup? name (Id.run (fetchBodies fetch names)) = some (includedBody (fetch name)) := by
  rw [fetchBodies_eq]
  induction names with
  | nil => cases h
  | cons first rest ih =>
      by_cases hfirst : first = name
      · simp [lookup?, hfirst]
      · have hrest : name ∈ rest := (List.mem_cons.mp h).resolve_left (Ne.symm hfirst)
        simp only [List.map_cons, lookup?, hfirst, if_false]
        exact ih hrest

/-- **What a pass puts in place**: with a tree for every name that is included, a pass leaves no
inclusion out. -/
theorem rebuild_inlining_eq_pass {bodies : Entries (List Node)} {nodes : List Node}
    (h : ∀ name ∈ inclusionNames nodes, lookup? name bodies = some (includedBody (fetch name))) :
    rebuild (inlining bodies) nodes = (Meaning.ofTemplates fetch).pass nodes := by
  have hbody : ∀ body : Option (List Node),
      (∀ name ∈ inclusionNamesIn body, lookup? name bodies = some (includedBody (fetch name))) →
      (∀ inner ∈ body,
        (∀ name ∈ inclusionNames inner,
          lookup? name bodies = some (includedBody (fetch name))) →
        rebuildAll (inlining bodies) inner
          = rebuildAll ((Meaning.ofTemplates fetch).filling id) inner) →
      rebuildBody (inlining bodies) body
        = rebuildBody ((Meaning.ofTemplates fetch).filling id) body := by
    intro body hnames ih
    cases body with
    | none => rfl
    | some inner => simp only [rebuildBody, ih inner rfl hnames]
  suffices hall : rebuildAll (inlining bodies) nodes
      = rebuildAll ((Meaning.ofTemplates fetch).filling id) nodes from congrArg merged hall
  induction nodes using tree_induction with
  | nil => rfl
  | text content rest ih => rw [rebuildAll, rebuildAll, ih h]; rfl
  | value key escape rest ih => rw [rebuildAll, rebuildAll, ih h]; rfl
  | block kind key body otherwise rest ihbody ihother ih =>
      simp only [inclusionNames, inclusionNamesOf, List.forall_mem_append] at h
      obtain ⟨⟨hinner, hother⟩, hrest⟩ := h
      rw [rebuildAll, rebuildAll, ih hrest, rebuildNode, rebuildNode, ihbody hinner,
        hbody otherwise hother ihother]
  | slot name body rest ihbody ih =>
      simp only [inclusionNames, inclusionNamesOf, List.forall_mem_append] at h
      rw [rebuildAll, rebuildAll, ih h.2, rebuildNode, rebuildNode, ihbody h.1]
      rfl
  | inclusion name rest ih =>
      simp only [inclusionNames, inclusionNamesOf, List.singleton_append,
        List.forall_mem_cons] at h
      rw [rebuildAll, rebuildAll, ih h.2]
      simp [rebuildNode, inlining, Meaning.filling, Meaning.ofTemplates, h.1]
  | call name arguments body rest ihbody ih =>
      simp only [inclusionNames, inclusionNamesOf, List.forall_mem_append] at h
      obtain ⟨hinner, hrest⟩ := h
      rw [rebuildAll, rebuildAll, ih hrest, rebuildNode, rebuildNode, hbody body hinner ihbody]

theorem rebuild_fetchBodies (nodes : List Node) :
    rebuild (inlining (Id.run (fetchBodies fetch (distinct (inclusionNames nodes))))) nodes
      = (Meaning.ofTemplates fetch).pass nodes :=
  rebuild_inlining_eq_pass fun _ hname => lookup?_fetchBodies ((mem_distinct _ _).mpr hname)

/-! ## The passes -/

theorem settled_includedBody {found : Option Document}
    (h : ∀ document ∈ found, Settled document.nodes) : Settled (includedBody found) := by
  cases found with
  | none => trivial
  | some document =>
      simp only [includedBody]
      split
      · trivial
      · exact h document rfl

theorem settledTrees_ofTemplates (h : ∀ name document, fetch name = some document →
    Settled document.nodes) : (Meaning.ofTemplates fetch).SettledTrees := by
  refine ⟨(fun hname => nomatch hname), fun {name tree} hname => ?_⟩
  obtain rfl : includedBody (fetch name) = tree := Option.some.inj hname
  exact settled_includedBody (h name)

theorem inlineInclusions_of_nil {nodes : List Node} (h : inclusionNames nodes = [])
    (limit passes : Nat) : Id.run (inlineInclusions fetch limit passes nodes) = .ok nodes := by
  cases passes <;> simp [inlineInclusions, distinct, h]

theorem inlineInclusions_zero {nodes : List Node} (h : inclusionNames nodes ≠ []) (limit : Nat) :
    Id.run (inlineInclusions fetch limit 0 nodes)
      = .error (.recursionLimit .inclusions limit) := by
  have hdistinct : distinct (inclusionNames nodes) ≠ [] := mt (distinct_eq_nil_iff _).mp h
  simp [inlineInclusions, hdistinct]

theorem inlineInclusions_succ {nodes : List Node} (h : inclusionNames nodes ≠ [])
    (limit passes : Nat) : Id.run (inlineInclusions fetch limit (passes + 1) nodes)
      = Id.run (inlineInclusions fetch limit passes ((Meaning.ofTemplates fetch).pass nodes)) := by
  have hdistinct : distinct (inclusionNames nodes) ≠ [] := mt (distinct_eq_nil_iff _).mp h
  rw [← rebuild_fetchBodies]
  simp [inlineInclusions, hdistinct]

/-- **What a run of passes gives**: the tree after so many passes if it has no inclusion left, and
the error otherwise. -/
theorem inlineInclusions_eq (h : (Meaning.ofTemplates fetch).SettledTrees) (limit passes : Nat)
    {nodes : List Node} (hnodes : Settled nodes) :
    ((Meaning.ofTemplates fetch).level (passes + 1) nodes = [] →
      Id.run (inlineInclusions fetch limit passes nodes)
        = .ok ((Meaning.ofTemplates fetch).pass^[passes] nodes)) ∧
    ((Meaning.ofTemplates fetch).level (passes + 1) nodes ≠ [] →
      Id.run (inlineInclusions fetch limit passes nodes)
        = .error (.recursionLimit .inclusions limit)) := by
  -- the induction is on the passes that are left
  induction passes generalizing nodes with
  | zero =>
      rw [Meaning.level_one, ne_eq, references_ofTemplates_eq_nil_iff]
      exact ⟨fun hnone => inlineInclusions_of_nil hnone limit 0,
        fun hsome => inlineInclusions_zero hsome limit⟩
  | succ passes ih =>
      by_cases hnames : inclusionNames nodes = []
      · have hnone := (@references_ofTemplates_eq_nil_iff fetch nodes).mpr hnames
        have hlevel : (Meaning.ofTemplates fetch).level (passes + 2) nodes = [] :=
          Meaning.level_eq_nil_of_le _ (by omega : 1 ≤ passes + 2)
            (by rw [Meaning.level_one, hnone])
        refine ⟨fun _ => ?_, fun hsome => absurd hlevel hsome⟩
        rw [Meaning.iterate_pass_of_references_eq_nil hnodes hnone, inlineInclusions_of_nil hnames]
      · rw [inlineInclusions_succ hnames, ← Meaning.level_pass, Function.iterate_succ_apply]
        exact ih (Meaning.settled_pass h hnodes)

theorem inclusionNames_of_inlineInclusions {limit passes : Nat} {nodes tree : List Node}
    (h : Id.run (inlineInclusions fetch limit passes nodes) = .ok tree) :
    inclusionNames tree = [] := by
  induction passes generalizing nodes with
  | zero =>
      by_cases hnames : inclusionNames nodes = []
      · rw [inlineInclusions_of_nil hnames] at h
        cases h
        exact hnames
      · rw [inlineInclusions_zero hnames] at h
        cases h
  | succ passes ih =>
      by_cases hnames : inclusionNames nodes = []
      · rw [inlineInclusions_of_nil hnames] at h
        cases h
        exact hnames
      · rw [inlineInclusions_succ hnames] at h
        exact ih h

/-! ## Cycles -/

/-- The tree of the first template names the second. -/
def Includes (fetch : Text → Id (Option Document)) (outer inner : Text) : Prop :=
  inner ∈ inclusionNames (includedBody (fetch outer))

theorem one_add_depth_le_of_mem {nodes : List Node} {name : Text}
    (h : name ∈ inclusionNames nodes) :
    1 + (Meaning.ofTemplates fetch).depth (includedBody (fetch name))
      ≤ (Meaning.ofTemplates fetch).depth nodes := by
  refine Meaning.one_add_depth_le _ ?_
  rw [references_ofTemplates]
  exact List.mem_map_of_mem h

theorem one_add_depth_le_of_transGen {outer inner : Text}
    (h : Relation.TransGen (Includes fetch) outer inner) :
    1 + (Meaning.ofTemplates fetch).depth (includedBody (fetch inner))
      ≤ (Meaning.ofTemplates fetch).depth (includedBody (fetch outer)) := by
  induction h with
  | single hincludes => exact one_add_depth_le_of_mem hincludes
  | @tail middle inner _ hincludes ih =>
      calc 1 + (Meaning.ofTemplates fetch).depth (includedBody (fetch inner))
          ≤ (Meaning.ofTemplates fetch).depth (includedBody (fetch middle)) :=
            one_add_depth_le_of_mem hincludes
        _ ≤ 1 + (Meaning.ofTemplates fetch).depth (includedBody (fetch middle)) := le_add_self
        _ ≤ (Meaning.ofTemplates fetch).depth (includedBody (fetch outer)) := ih

/-- A tree from which a template can be reached that includes itself, directly or not, is infinitely
deep. -/
theorem depth_eq_top_of_cycle {nodes : List Node} {name other : Text}
    (hname : name ∈ inclusionNames nodes)
    (hreach : Relation.ReflTransGen (Includes fetch) name other)
    (hcycle : Relation.TransGen (Includes fetch) other other) :
    (Meaning.ofTemplates fetch).depth nodes = ⊤ := by
  have hother : (Meaning.ofTemplates fetch).depth (includedBody (fetch other)) = ⊤ := by
    by_contra hfinite
    have hle := one_add_depth_le_of_transGen hcycle
    lift (Meaning.ofTemplates fetch).depth (includedBody (fetch other)) to ℕ using hfinite with d
    have : 1 + d ≤ d := by exact_mod_cast hle
    omega
  have hstart : (Meaning.ofTemplates fetch).depth (includedBody (fetch name)) = ⊤ := by
    rcases Relation.reflTransGen_iff_eq_or_transGen.mp hreach with rfl | htrans
    · exact hother
    · have hle := one_add_depth_le_of_transGen htrans
      rw [hother] at hle
      simpa using hle
  have hle := @one_add_depth_le_of_mem fetch nodes name hname
  rw [hstart] at hle
  simpa using hle

end Inclusions

/-! ## The tree that remains -/

/-- The trees whose inclusions are resolved: those that come from a source, and those that are left
when the parents of such a tree are resolved. -/
inductive Resolvable : List Node → Prop
  | parsed {nodes : List Node} (hnodes : Parsed nodes) : Resolvable nodes
  | resolved (templates : Text → Id (Option Template)) (limit : Nat) {overrides last : Overrides}
      {document : Document} {tree : List Node} (hdocument : Parsed document.nodes)
      (hoverrides : ∀ entry ∈ overrides, Parsed entry.2)
      (hresolve : Id.run (resolveParents (documentSource templates) limit overrides document)
        = (.ok tree, last)) : Resolvable tree

theorem Resolvable.settled {nodes : List Node} (h : Resolvable nodes) : Settled nodes := by
  cases h with
  | parsed hnodes => exact hnodes.settled
  | resolved templates limit hdocument hoverrides hresolve =>
      exact settled_of_followParents
        (fun name body hbody => (hoverrides _ (mem_of_lookup? hbody)).settled) hdocument.settled
        hresolve

/-- **Replacing inclusions is unfolding.** The answer is what the tree unfolds to when every
inclusion means the tree of its template, if templates include one another no deeper than the limit,
and there is no inclusion in it at any depth; it is the recursion error otherwise, and so it is
whenever a template that includes itself can be reached. -/
theorem resolveInclusions_unfolds (templates : Text → Id (Option Template)) (limit : Nat)
    (nodes : List Node) (hnodes : Resolvable nodes) :
    let fetch := documentSource templates
    let answer := Id.run (resolveInclusions fetch limit nodes)
    let meaning := Meaning.ofTemplates fetch
    (meaning.depth nodes ≤ limit → ∃ tree, answer = .ok tree ∧
      (∀ other, meaning.Unfolds nodes other ↔ other = tree) ∧
      ∀ name, .inclusion name ∉ nodesWithin tree) ∧
    (limit < meaning.depth nodes → answer = .error (.recursionLimit .inclusions limit)) ∧
    ∀ name ∈ inclusionNames nodes, ∀ other, Relation.ReflTransGen (Includes fetch) name other →
      Relation.TransGen (Includes fetch) other other →
      answer = .error (.recursionLimit .inclusions limit) := by
  intro fetch answer meaning
  have hmeaning : meaning.SettledTrees :=
    settledTrees_ofTemplates fun _ _ => settled_of_documentSource
  obtain ⟨hok, herror⟩ := inlineInclusions_eq hmeaning limit limit hnodes.settled
  have hdeep : limit < meaning.depth nodes →
      answer = .error (.recursionLimit .inclusions limit) := by
    intro hdepth
    refine herror fun hlevel => ?_
    exact absurd ((meaning.depth_le_iff _ _).mpr hlevel) (not_le.mpr hdepth)
  refine ⟨?_, hdeep, ?_⟩
  · intro hdepth
    have hlevel : meaning.level (limit + 1) nodes = [] := (meaning.depth_le_iff _ _).mp hdepth
    have hunfolds := Meaning.unfolds_iterate_pass hmeaning hnodes.settled hlevel
    refine ⟨_, hok hlevel, ?_, ?_⟩
    · intro other
      constructor
      · intro hother
        exact hother.unique hunfolds
      · rintro rfl
        exact hunfolds
    · exact inclusion_notMem_nodesWithin (inclusionNames_of_inlineInclusions (hok hlevel))
  · intro name hname other hreach hcycle
    refine hdeep ?_
    rw [depth_eq_top_of_cycle hname hreach hcycle]
    exact ENat.natCast_lt_top limit

/-- The statement for a template that is named twice, and for one that names itself. -/
theorem resolveInclusions_unfolds_pair :
    let templates : Text → Id (Option Template) := fun name =>
      if name = ['a'] then some ⟨none, "x".toList, 0⟩
      else if name = ['b'] then some ⟨none, "{{+b}}".toList, 1⟩ else none
    (∃ tree, Id.run (resolveInclusions (documentSource templates) 1
        (parseFragment "{{+a}}-{{+a}}".toList)) = .ok tree ∧
      ∀ name, .inclusion name ∉ nodesWithin tree) ∧
    Id.run (resolveInclusions (documentSource templates) 1 (parseFragment "{{+b}}".toList))
      = .error (.recursionLimit .inclusions 1) := by
  intro templates
  constructor
  · obtain ⟨hok, -⟩ := resolveInclusions_unfolds templates 1
      (parseFragment "{{+a}}-{{+a}}".toList) (.parsed (.fragment _))
    have hpage : parseFragment "{{+a}}-{{+a}}".toList
        = [.inclusion ['a'], .text ['-'], .inclusion ['a']] := by with_unfolding_all rfl
    have hdocument : Document.parse "x".toList = ⟨none, [.text ['x']]⟩ := by
      with_unfolding_all rfl
    have hincluded : includedBody (documentSource templates ['a']) = [.text ['x']] := by
      show includedBody (some (Document.parse "x".toList)) = _
      rw [hdocument]
      rfl
    have hreferences : (Meaning.ofTemplates (documentSource templates)).references
        (parseFragment "{{+a}}-{{+a}}".toList) = [[.text ['x']], [.text ['x']]] := by
      rw [hpage, ← hincluded]
      rfl
    have hlevel : (Meaning.ofTemplates (documentSource templates)).level 2
        (parseFragment "{{+a}}-{{+a}}".toList) = [] := by
      rw [Meaning.level, hreferences]
      rfl
    obtain ⟨tree, htree, -, hinclusions⟩ := hok ((Meaning.depth_le_iff _ 1 _).mpr hlevel)
    exact ⟨tree, htree, hinclusions⟩
  · obtain ⟨-, -, hcycle⟩ := resolveInclusions_unfolds templates 1
      (parseFragment "{{+b}}".toList) (.parsed (.fragment _))
    have hname : ['b'] ∈ inclusionNames (parseFragment "{{+b}}".toList) := by decide +kernel
    have hself : Includes (documentSource templates) ['b'] ['b'] := by
      simp only [templates]
      unfold Includes
      decide +kernel
    exact hcycle ['b'] hname ['b'] .refl (.single hself)

end Stencil
