import Mathlib.Data.ENat.Lattice
import Mathlib.Logic.Function.Iterate
import Mathlib.Order.CompletePartialOrder
import Stencil.Proofs.Tree.Rebuilding

/-!
# Unfolding references

Slots and inclusions of a tree refer to other trees, which may refer to further ones. `Unfolds` says
what comes out when every reference is replaced by what its tree unfolds to: a definition by
recursion along the references. `pass` replaces the references of one tree and does not look at
what it puts in place. The main statement is that passes, one after the other, do what the recursion
does: a tree whose references are `depth` deep is unfolded by that many passes
(`unfolds_iterate_pass`).
-/

set_option autoImplicit false

namespace Stencil

/-- What slots and inclusions stand for. Those without a meaning stay as they are. -/
structure Meaning where
  slot : Text → Option (List Node)
  inclusion : Text → Option (List Node)

namespace Meaning

variable (meaning : Meaning)

/-! ## References and their depth -/

mutual

/-- The trees that the slots and inclusions of a node stand for. Of a slot without a meaning the
body counts. -/
def referencesOf : Node → List (List Node)
  | .block _ _ body otherwise => references body ++ referencesIn otherwise
  | .slot name body =>
      match meaning.slot name with
      | some tree => [tree]
      | none => references body
  | .inclusion name => (meaning.inclusion name).toList
  | .call _ _ body => referencesIn body
  | _ => []

/-- The trees that the slots and inclusions of a tree stand for, in order. -/
def references : List Node → List (List Node)
  | [] => []
  | node :: rest => referencesOf node ++ references rest

/-- The trees that the slots and inclusions of a body stand for, if there is a body. -/
def referencesIn : Option (List Node) → List (List Node)
  | none => []
  | some body => references body

end

/-- The trees that are met when references are followed from a tree, one after the other, so many
times. -/
def level : Nat → List Node → List (List Node)
  | 0, nodes => [nodes]
  | n + 1, nodes => (meaning.references nodes).flatMap (level n)

/-- How many references can be followed one after the other from a tree: infinitely many when the
references go round in a circle. -/
noncomputable def depth (nodes : List Node) : ℕ∞ :=
  ⨆ n ∈ {n : ℕ | meaning.level n nodes ≠ []}, (n : ℕ∞)

theorem references_eq_flatMap (nodes : List Node) :
    meaning.references nodes = nodes.flatMap meaning.referencesOf := by
  induction nodes with
  | nil => rfl
  | cons node rest ih => rw [references, ih, List.flatMap_cons]

theorem references_merged (nodes : List Node) :
    meaning.references (merged nodes) = meaning.references nodes := by
  rw [references_eq_flatMap, references_eq_flatMap]
  exact flatMap_merged (fun _ _ => rfl) nodes

theorem references_append (nodes more : List Node) :
    meaning.references (nodes ++ more) = meaning.references nodes ++ meaning.references more := by
  simp [references_eq_flatMap]

theorem level_one (nodes : List Node) : meaning.level 1 nodes = meaning.references nodes := by
  show (meaning.references nodes).flatMap (fun tree => [tree]) = _
  simp

theorem level_succ_eq_nil_iff (n : Nat) (nodes : List Node) :
    meaning.level (n + 1) nodes = []
      ↔ ∀ tree ∈ meaning.references nodes, meaning.level n tree = [] :=
  List.flatMap_eq_nil_iff

theorem level_eq_nil_of_le {n k : Nat} (hk : n ≤ k) {nodes : List Node}
    (h : meaning.level n nodes = []) : meaning.level k nodes = [] := by
  induction n generalizing k nodes with
  | zero => simp [level] at h
  | succ n ih =>
      obtain ⟨k, rfl⟩ : ∃ j, k = j + 1 := ⟨k - 1, by omega⟩
      rw [level_succ_eq_nil_iff] at h ⊢
      exact fun tree htree => ih (by omega) (h tree htree)

theorem depth_le_iff (n : Nat) (nodes : List Node) :
    meaning.depth nodes ≤ n ↔ meaning.level (n + 1) nodes = [] := by
  constructor
  · intro h
    by_contra hlevel
    have hle : ((n + 1 : ℕ) : ℕ∞) ≤ meaning.depth nodes :=
      le_iSup₂_of_le (n + 1) hlevel le_rfl
    have : n + 1 ≤ n := by exact_mod_cast hle.trans h
    omega
  · intro h
    refine iSup₂_le fun k hk => ?_
    have hkn : k ≤ n := by
      by_contra hlt
      exact hk (meaning.level_eq_nil_of_le (by omega) h)
    exact_mod_cast hkn

/-- **The depth by recursion along the references**: nothing for a tree without references, else one
more than the deepest tree that is referred to. -/
theorem depth_eq (nodes : List Node) :
    meaning.depth nodes = if meaning.references nodes = [] then 0
      else 1 + ⨆ tree ∈ meaning.references nodes, meaning.depth tree := by
  refine eq_of_forall_ge_iff fun bound => ?_
  induction bound using ENat.recTopCoe with
  | top => simp
  | coe n =>
      rw [depth_le_iff, level_succ_eq_nil_iff]
      split
      · next hnone => simp [hnone]
      · next hsome =>
          cases n with
          | zero =>
              obtain ⟨tree, htree⟩ := List.exists_mem_of_ne_nil _ hsome
              simp only [level, Nat.cast_zero, nonpos_iff_eq_zero, add_eq_zero, one_ne_zero,
                false_and, iff_false, not_forall]
              exact ⟨tree, htree, by simp⟩
          | succ n =>
              have hsum : ((n + 1 : ℕ) : ℕ∞) = 1 + n := by push_cast; exact add_comm _ _
              rw [hsum, ENat.add_le_add_iff_left ENat.one_ne_top, iSup₂_le_iff]
              exact forall₂_congr fun tree _ => (meaning.depth_le_iff n tree).symm

theorem one_add_depth_le {nodes tree : List Node} (h : tree ∈ meaning.references nodes) :
    1 + meaning.depth tree ≤ meaning.depth nodes := by
  have hle : meaning.depth tree ≤ ⨆ tree ∈ meaning.references nodes, meaning.depth tree :=
    le_iSup₂_of_le tree h le_rfl
  rw [meaning.depth_eq nodes, if_neg (List.ne_nil_of_mem h)]
  exact add_le_add le_rfl hle

/-! ## Passes -/

/-- Puts `unfold` of what it stands for in the place of each slot and inclusion that has a
meaning. -/
def filling (unfold : List Node → List Node) : Filling where
  slot name _ rebuilt :=
    match meaning.slot name with
    | some tree => unfold tree
    | none => [.slot name rebuilt]
  inclusion name :=
    match meaning.inclusion name with
    | some tree => unfold tree
    | none => [.inclusion name]

/-- One pass: each reference replaced by what it stands for. -/
def pass (nodes : List Node) : List Node := rebuild (meaning.filling id) nodes

theorem references_pass (nodes : List Node) :
    meaning.references (meaning.pass nodes)
      = (meaning.references nodes).flatMap meaning.references := by
  have hcons : ∀ node rest, meaning.references (meaning.pass (node :: rest))
      = meaning.references (rebuildNode (meaning.filling id) node)
        ++ meaning.references (meaning.pass rest) := by
    intro node rest
    rw [pass, rebuild_cons, references_merged, references_append, pass]
  have hbody : ∀ body : Option (List Node),
      (∀ inner ∈ body, meaning.references (meaning.pass inner)
        = (meaning.references inner).flatMap meaning.references) →
      meaning.referencesIn (rebuildBody (meaning.filling id) body)
        = (meaning.referencesIn body).flatMap meaning.references := by
    intro body ih
    cases body with
    | none => rfl
    | some inner => exact ih inner rfl
  induction nodes using tree_induction with
  | nil => rfl
  | text content rest ih => rw [hcons, ih]; rfl
  | value key escape rest ih => rw [hcons, ih]; rfl
  | block kind key body otherwise rest ihbody ihother ih =>
      have hnode : meaning.references
            (rebuildNode (meaning.filling id) (.block kind key body otherwise))
          = meaning.references (meaning.pass body)
            ++ meaning.referencesIn (rebuildBody (meaning.filling id) otherwise) := by
        simp [rebuildNode, references, referencesOf, pass, rebuild]
      rw [hcons, ih, hnode, ihbody, hbody otherwise ihother]
      simp [references, referencesOf]
  | slot name body rest ihbody ih =>
      rw [hcons, ih]
      cases hname : meaning.slot name with
      | some tree => simp [rebuildNode, filling, references, referencesOf, hname]
      | none =>
          have hnode : meaning.references (rebuildNode (meaning.filling id) (.slot name body))
              = meaning.references (meaning.pass body) := by
            simp [rebuildNode, filling, references, referencesOf, hname, pass, rebuild]
          rw [hnode, ihbody]
          simp [references, referencesOf, hname]
  | inclusion name rest ih =>
      rw [hcons, ih]
      cases hname : meaning.inclusion name <;>
        simp [rebuildNode, filling, references, referencesOf, hname]
  | call name arguments body rest ihbody ih =>
      have hnode : meaning.references
            (rebuildNode (meaning.filling id) (.call name arguments body))
          = meaning.referencesIn (rebuildBody (meaning.filling id) body) := by
        simp [rebuildNode, references, referencesOf]
      rw [hcons, ih, hnode, hbody body ihbody]
      simp [references, referencesOf]

theorem level_pass (n : Nat) (nodes : List Node) :
    meaning.level (n + 1) (meaning.pass nodes) = meaning.level (n + 2) nodes := by
  calc meaning.level (n + 1) (meaning.pass nodes)
      = ((meaning.references nodes).flatMap meaning.references).flatMap (meaning.level n) := by
        rw [level, references_pass]
    _ = (meaning.references nodes).flatMap fun tree =>
          (meaning.references tree).flatMap (meaning.level n) := List.flatMap_assoc
    _ = meaning.level (n + 2) nodes := rfl

/-- A pass followed by a rebuilding is one rebuilding, in which what a reference stands for is
rebuilt in its place. -/
theorem rebuild_pass (unfold : List Node → List Node) (nodes : List Node) :
    rebuild (meaning.filling unfold) (meaning.pass nodes)
      = rebuild (meaning.filling (rebuild (meaning.filling unfold))) nodes := by
  have hcons : ∀ node rest, rebuild (meaning.filling unfold) (meaning.pass (node :: rest))
      = merged (rebuild (meaning.filling unfold) (rebuildNode (meaning.filling id) node)
        ++ rebuild (meaning.filling unfold) (meaning.pass rest)) := by
    intro node rest
    rw [pass, rebuild_cons, rebuild_merged, rebuild_append, pass]
  have hbody : ∀ body : Option (List Node),
      (∀ inner ∈ body, rebuild (meaning.filling unfold) (meaning.pass inner)
        = rebuild (meaning.filling (rebuild (meaning.filling unfold))) inner) →
      rebuildBody (meaning.filling unfold) (rebuildBody (meaning.filling id) body)
        = rebuildBody (meaning.filling (rebuild (meaning.filling unfold))) body := by
    intro body ih
    cases body with
    | none => rfl
    | some inner => exact congrArg some (ih inner rfl)
  induction nodes using tree_induction with
  | nil => rfl
  | text content rest ih => rw [hcons, rebuild_cons, ih]; rfl
  | value key escape rest ih => rw [hcons, rebuild_cons, ih]; rfl
  | block kind key body otherwise rest ihbody ihother ih =>
      have hnode : rebuild (meaning.filling unfold)
            (rebuildNode (meaning.filling id) (.block kind key body otherwise))
          = [.block kind key (rebuild (meaning.filling unfold) (meaning.pass body))
              (rebuildBody (meaning.filling unfold)
                (rebuildBody (meaning.filling id) otherwise))] := rfl
      rw [hcons, rebuild_cons, ih, hnode, ihbody, hbody otherwise ihother]
      rfl
  | slot name body rest ihbody ih =>
      rw [hcons, rebuild_cons, ih]
      cases hname : meaning.slot name with
      | some tree => simp [rebuildNode, filling, hname]
      | none =>
          have hnode : rebuild (meaning.filling unfold) [.slot name (meaning.pass body)]
              = [.slot name (rebuild (meaning.filling unfold) (meaning.pass body))] := by
            simp [rebuild, rebuildAll, rebuildNode, filling, hname, merged, pushNode]
          rw [ihbody] at hnode
          simp only [rebuildNode, filling, hname]
          exact congrArg (fun head => merged (head ++ _)) hnode
  | inclusion name rest ih =>
      rw [hcons, rebuild_cons, ih]
      cases hname : meaning.inclusion name with
      | some tree => simp [rebuildNode, filling, hname]
      | none =>
          have hnode : rebuild (meaning.filling unfold) [.inclusion name] = [.inclusion name] := by
            simp [rebuild, rebuildAll, rebuildNode, filling, hname, merged, pushNode]
          simp only [rebuildNode, filling, hname]
          exact congrArg (fun head => merged (head ++ _)) hnode
  | call name arguments body rest ihbody ih =>
      have hnode : rebuild (meaning.filling unfold)
            (rebuildNode (meaning.filling id) (.call name arguments body))
          = [.call name arguments (rebuildBody (meaning.filling unfold)
              (rebuildBody (meaning.filling id) body))] := rfl
      rw [hcons, rebuild_cons, ih, hnode, hbody body ihbody]
      rfl

/-- Passes one after the other, or one rebuilding with all passes but the first inside: first
across the tree, or first into what a reference stands for. -/
theorem iterate_pass_succ (n : Nat) (nodes : List Node) :
    meaning.pass^[n + 1] nodes = rebuild (meaning.filling meaning.pass^[n]) nodes := by
  induction n generalizing nodes with
  | zero => rfl
  | succ n ih =>
      have hfun : meaning.pass^[n + 1] = rebuild (meaning.filling meaning.pass^[n]) := funext ih
      rw [Function.iterate_succ_apply, ih, rebuild_pass, hfun]

/-! ## Unfolding by recursion -/

/-- The second list is the first with every reference replaced by what its tree unfolds to. Only the
lists inside are merged yet. -/
inductive UnfoldsAll : List Node → List Node → Prop
  | nil : UnfoldsAll [] []
  | text {rest out : List Node} (content : Text) (hrest : UnfoldsAll rest out) :
      UnfoldsAll (.text content :: rest) (.text content :: out)
  | value {rest out : List Node} (key : Text) (escape : Bool) (hrest : UnfoldsAll rest out) :
      UnfoldsAll (.value key escape :: rest) (.value key escape :: out)
  | block {body unfolded rest out : List Node} (kind : BlockKind) (key : Text)
      (hbody : UnfoldsAll body unfolded) (hrest : UnfoldsAll rest out) :
      UnfoldsAll (.block kind key body none :: rest) (.block kind key (merged unfolded) none :: out)
  | partedBlock {body unfolded other unfoldedOther rest out : List Node} (kind : BlockKind)
      (key : Text) (hbody : UnfoldsAll body unfolded) (hother : UnfoldsAll other unfoldedOther)
      (hrest : UnfoldsAll rest out) :
      UnfoldsAll (.block kind key body (some other) :: rest)
        (.block kind key (merged unfolded) (some (merged unfoldedOther)) :: out)
  | slot {name : Text} {tree unfolded rest out : List Node} (body : List Node)
      (hname : meaning.slot name = some tree) (htree : UnfoldsAll tree unfolded)
      (hrest : UnfoldsAll rest out) :
      UnfoldsAll (.slot name body :: rest) (merged unfolded ++ out)
  | keptSlot {name : Text} {body unfolded rest out : List Node} (hname : meaning.slot name = none)
      (hbody : UnfoldsAll body unfolded) (hrest : UnfoldsAll rest out) :
      UnfoldsAll (.slot name body :: rest) (.slot name (merged unfolded) :: out)
  | inclusion {name : Text} {tree unfolded rest out : List Node}
      (hname : meaning.inclusion name = some tree) (htree : UnfoldsAll tree unfolded)
      (hrest : UnfoldsAll rest out) :
      UnfoldsAll (.inclusion name :: rest) (merged unfolded ++ out)
  | keptInclusion {name : Text} {rest out : List Node} (hname : meaning.inclusion name = none)
      (hrest : UnfoldsAll rest out) :
      UnfoldsAll (.inclusion name :: rest) (.inclusion name :: out)
  | call {rest out : List Node} (name : Text) (arguments : List Argument)
      (hrest : UnfoldsAll rest out) :
      UnfoldsAll (.call name arguments none :: rest) (.call name arguments none :: out)
  | closedCall {body unfolded rest out : List Node} (name : Text) (arguments : List Argument)
      (hbody : UnfoldsAll body unfolded) (hrest : UnfoldsAll rest out) :
      UnfoldsAll (.call name arguments (some body) :: rest)
        (.call name arguments (some (merged unfolded)) :: out)

/-- **What a tree unfolds to**: every reference replaced by what its tree unfolds to, and adjacent
texts joined in every list. -/
def Unfolds (nodes result : List Node) : Prop :=
  ∃ out, meaning.UnfoldsAll nodes out ∧ result = merged out

variable {meaning}

/-- A tree unfolds to one list only. -/
theorem UnfoldsAll.unique {nodes out other : List Node} (h : meaning.UnfoldsAll nodes out)
    (h' : meaning.UnfoldsAll nodes other) : out = other := by
  induction h generalizing other with
  | nil => cases h'; rfl
  | text content _ ih => cases h' with | text _ h' => rw [ih h']
  | value key escape _ ih => cases h' with | value _ _ h' => rw [ih h']
  | block kind key _ _ ihbody ih =>
      cases h' with | block _ _ hbody h' => rw [ihbody hbody, ih h']
  | partedBlock kind key _ _ _ ihbody ihother ih =>
      cases h' with
      | partedBlock _ _ hbody hother h' => rw [ihbody hbody, ihother hother, ih h']
  | slot body hname _ _ ihtree ih =>
      cases h' with
      | slot _ hname' htree h' =>
          cases hname.symm.trans hname'
          rw [ihtree htree, ih h']
      | keptSlot hname' _ _ => cases hname.symm.trans hname'
  | keptSlot hname _ _ ihbody ih =>
      cases h' with
      | slot _ hname' _ _ => cases hname.symm.trans hname'
      | keptSlot _ hbody h' => rw [ihbody hbody, ih h']
  | inclusion hname _ _ ihtree ih =>
      cases h' with
      | inclusion hname' htree h' =>
          cases hname.symm.trans hname'
          rw [ihtree htree, ih h']
      | keptInclusion hname' _ => cases hname.symm.trans hname'
  | keptInclusion hname _ ih =>
      cases h' with
      | inclusion hname' _ _ => cases hname.symm.trans hname'
      | keptInclusion _ h' => rw [ih h']
  | call name arguments _ ih => cases h' with | call _ _ h' => rw [ih h']
  | closedCall name arguments _ _ ihbody ih =>
      cases h' with | closedCall _ _ hbody h' => rw [ihbody hbody, ih h']

theorem Unfolds.unique {nodes result other : List Node} (h : meaning.Unfolds nodes result)
    (h' : meaning.Unfolds nodes other) : result = other := by
  obtain ⟨out, hout, rfl⟩ := h
  obtain ⟨out', hout', rfl⟩ := h'
  rw [hout.unique hout']

/-- Rebuilding unfolds a tree if what is put in the place of each reference is unfolded. -/
theorem unfoldsAll_rebuildAll {unfold : List Node → List Node} (nodes : List Node)
    (h : ∀ tree ∈ meaning.references nodes, meaning.Unfolds tree (unfold tree)) :
    meaning.UnfoldsAll nodes (rebuildAll (meaning.filling unfold) nodes) := by
  induction nodes using tree_induction with
  | nil => exact .nil
  | text content rest ih => exact .text content (ih h)
  | value key escape rest ih => exact .value key escape (ih h)
  | block kind key body otherwise rest ihbody ihother ih =>
      simp only [references, referencesOf, List.forall_mem_append] at h
      obtain ⟨⟨hbody, hother⟩, hrest⟩ := h
      cases otherwise with
      | none => exact .block kind key (ihbody hbody) (ih hrest)
      | some other =>
          exact .partedBlock kind key (ihbody hbody) (ihother other rfl hother) (ih hrest)
  | slot name body rest ihbody ih =>
      cases hname : meaning.slot name with
      | some tree =>
          simp only [references, referencesOf, hname, List.forall_mem_append,
            List.forall_mem_singleton] at h
          obtain ⟨out, hout, hunfold⟩ := h.1
          have hnode : rebuildNode (meaning.filling unfold) (.slot name body) = merged out := by
            simp [rebuildNode, filling, hname, hunfold]
          rw [rebuildAll, hnode]
          exact .slot body hname hout (ih h.2)
      | none =>
          simp only [references, referencesOf, hname, List.forall_mem_append] at h
          have hnode : rebuildNode (meaning.filling unfold) (.slot name body)
              = [.slot name (merged (rebuildAll (meaning.filling unfold) body))] := by
            simp [rebuildNode, filling, hname]
          rw [rebuildAll, hnode]
          exact .keptSlot hname (ihbody h.1) (ih h.2)
  | inclusion name rest ih =>
      cases hname : meaning.inclusion name with
      | some tree =>
          simp only [references, referencesOf, hname, Option.toList_some, List.forall_mem_append,
            List.forall_mem_singleton] at h
          obtain ⟨out, hout, hunfold⟩ := h.1
          have hnode : rebuildNode (meaning.filling unfold) (.inclusion name) = merged out := by
            simp [rebuildNode, filling, hname, hunfold]
          rw [rebuildAll, hnode]
          exact .inclusion hname hout (ih h.2)
      | none =>
          simp only [references, referencesOf, hname, Option.toList_none, List.nil_append] at h
          have hnode : rebuildNode (meaning.filling unfold) (.inclusion name)
              = [.inclusion name] := by
            simp [rebuildNode, filling, hname]
          rw [rebuildAll, hnode]
          exact .keptInclusion hname (ih h)
  | call name arguments body rest ihbody ih =>
      simp only [references, referencesOf, List.forall_mem_append] at h
      obtain ⟨hbody, hrest⟩ := h
      cases body with
      | none => exact .call name arguments (ih hrest)
      | some inner => exact .closedCall name arguments (ihbody inner rfl hbody) (ih hrest)

/-- A settled tree without references is left as it is by every rebuilding. -/
theorem rebuild_of_references_eq_nil (unfold : List Node → List Node) {nodes : List Node}
    (hnodes : Settled nodes) (h : meaning.references nodes = []) :
    rebuild (meaning.filling unfold) nodes = nodes := by
  have hbody : ∀ body : Option (List Node), BodySettled body → meaning.referencesIn body = [] →
      (∀ inner ∈ body, Settled inner → meaning.references inner = [] →
        rebuild (meaning.filling unfold) inner = inner) →
      rebuildBody (meaning.filling unfold) body = body := by
    intro body hbody h ih
    cases body with
    | none => rfl
    | some inner => exact congrArg some (ih inner rfl hbody h)
  -- the first node stays, and the list of it and the rest is settled, so merging leaves it alone
  have hcons : ∀ node rest, Settled (node :: rest) →
      rebuildNode (meaning.filling unfold) node = [node] →
      rebuild (meaning.filling unfold) rest = rest →
      rebuild (meaning.filling unfold) (node :: rest) = node :: rest := by
    intro node rest hsettled hnode hrest
    rw [rebuild_cons, hnode, hrest]
    exact merged_of_settled hsettled
  induction nodes using tree_induction with
  | nil => rfl
  | text content rest ih => exact hcons _ _ hnodes rfl (ih hnodes.2.2 h)
  | value key escape rest ih => exact hcons _ _ hnodes rfl (ih hnodes.2.2 h)
  | block kind key body otherwise rest ihbody ihother ih =>
      obtain ⟨⟨hsettled, hother⟩, -, hrest⟩ := id hnodes
      simp only [references, referencesOf, List.append_eq_nil_iff] at h
      obtain ⟨⟨hbodyNone, hotherNone⟩, hrestNone⟩ := h
      refine hcons _ _ hnodes ?_ (ih hrest hrestNone)
      rw [rebuildNode, hbody otherwise hother hotherNone ihother]
      exact congrArg (fun inner => [Node.block kind key inner otherwise])
        (ihbody hsettled hbodyNone)
  | slot name body rest ihbody ih =>
      obtain ⟨hsettled, -, hrest⟩ := id hnodes
      cases hname : meaning.slot name with
      | some tree => simp [references, referencesOf, hname] at h
      | none =>
          simp only [references, referencesOf, hname, List.append_eq_nil_iff] at h
          refine hcons _ _ hnodes ?_ (ih hrest h.2)
          simp only [rebuildNode, filling, hname]
          exact congrArg (fun inner => [Node.slot name inner]) (ihbody hsettled h.1)
  | inclusion name rest ih =>
      cases hname : meaning.inclusion name with
      | some tree => simp [references, referencesOf, hname] at h
      | none =>
          simp only [references, referencesOf, hname, Option.toList_none, List.nil_append] at h
          refine hcons _ _ hnodes ?_ (ih hnodes.2.2 h)
          simp only [rebuildNode, filling, hname]
  | call name arguments body rest ihbody ih =>
      obtain ⟨hsettled, -, hrest⟩ := id hnodes
      simp only [references, referencesOf, List.append_eq_nil_iff] at h
      refine hcons _ _ hnodes ?_ (ih hrest h.2)
      rw [rebuildNode, hbody body hsettled h.1 ihbody]

/-- The trees that slots and inclusions stand for are settled. -/
structure SettledTrees (meaning : Meaning) : Prop where
  slot {name : Text} {tree : List Node} : meaning.slot name = some tree → Settled tree
  inclusion {name : Text} {tree : List Node} : meaning.inclusion name = some tree → Settled tree

theorem settled_of_mem_references (hmeaning : meaning.SettledTrees) (nodes : List Node) :
    ∀ tree ∈ meaning.references nodes, Settled tree := by
  have hbody : ∀ body : Option (List Node),
      (∀ inner ∈ body, ∀ tree ∈ meaning.references inner, Settled tree) →
      ∀ tree ∈ meaning.referencesIn body, Settled tree := by
    intro body ih
    cases body with
    | none => simp [referencesIn]
    | some inner => exact ih inner rfl
  induction nodes using tree_induction with
  | nil => simp [references]
  | text content rest ih => exact ih
  | value key escape rest ih => exact ih
  | block kind key body otherwise rest ihbody ihother ih =>
      simp only [references, referencesOf, List.forall_mem_append]
      exact ⟨⟨ihbody, hbody otherwise ihother⟩, ih⟩
  | slot name body rest ihbody ih =>
      rw [references, List.forall_mem_append]
      refine ⟨?_, ih⟩
      cases hname : meaning.slot name with
      | some tree =>
          simp only [referencesOf, hname, List.forall_mem_singleton]
          exact hmeaning.slot hname
      | none => simpa only [referencesOf, hname] using ihbody
  | inclusion name rest ih =>
      rw [references, List.forall_mem_append]
      refine ⟨fun tree htree => ?_, ih⟩
      exact hmeaning.inclusion (by simpa [referencesOf] using htree)
  | call name arguments body rest ihbody ih =>
      rw [references, List.forall_mem_append]
      exact ⟨hbody body ihbody, ih⟩

theorem settled_pass (hmeaning : meaning.SettledTrees) {nodes : List Node}
    (hnodes : Settled nodes) : Settled (meaning.pass nodes) := by
  refine settled_rebuild ?_ ?_ hnodes
  · intro name body rebuilt _ hrebuilt
    cases hname : meaning.slot name with
    | some tree =>
        simp only [filling, hname, id]
        exact (hmeaning.slot hname).nodeSettled
    | none => simpa [filling, hname, NodeSettled] using hrebuilt
  · intro name
    cases hname : meaning.inclusion name with
    | some tree =>
        simp only [filling, hname, id]
        exact (hmeaning.inclusion hname).nodeSettled
    | none => simp [filling, hname, NodeSettled]

/-- **Passes unfold**: so many passes as the references are deep turn a settled tree into what it
unfolds to. -/
theorem unfolds_iterate_pass (hmeaning : meaning.SettledTrees) {n : Nat} {nodes : List Node}
    (hnodes : Settled nodes) (h : meaning.level (n + 1) nodes = []) :
    meaning.Unfolds nodes (meaning.pass^[n] nodes) := by
  induction n generalizing nodes with
  | zero =>
      rw [level_one] at h
      refine ⟨rebuildAll (meaning.filling id) nodes, unfoldsAll_rebuildAll nodes (by simp [h]), ?_⟩
      exact (rebuild_of_references_eq_nil id hnodes h).symm
  | succ n ih =>
      rw [level_succ_eq_nil_iff] at h
      have htrees : ∀ tree ∈ meaning.references nodes,
          meaning.Unfolds tree (meaning.pass^[n] tree) := fun tree htree =>
        ih (settled_of_mem_references hmeaning nodes tree htree) (h tree htree)
      rw [iterate_pass_succ]
      exact ⟨_, unfoldsAll_rebuildAll nodes htrees, rfl⟩

/-- Once nothing is left to refer to, more passes change nothing. -/
theorem iterate_pass_of_references_eq_nil {nodes : List Node} (hnodes : Settled nodes)
    (h : meaning.references nodes = []) (n : Nat) : meaning.pass^[n] nodes = nodes :=
  Function.iterate_fixed (rebuild_of_references_eq_nil id hnodes h) n

end Meaning

end Stencil
