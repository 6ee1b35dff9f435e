import Mathlib.Logic.Relation
import Stencil.Proofs.Resolution.Slots

/-!
# The first slot of a name counts

The overrides that `resolveParents` is left with are those it was given, with more entries behind
them. Which entries these are can be read off the documents it visits, the one it starts from and
then one parent after the other: the first slot of a name, in the first document that has one, is
the slot that is recorded (`FirstSlot`), with the slots of the same name inside its body dissolved
(`Dissolves`). This holds however the resolution ends, and no step of it touches an entry that is
there (`Resolving.Step.extends`).
-/

set_option autoImplicit false

namespace Stencil

/-! ## Slots of one name dissolved -/

/-- The second list is the first with the slots of one name replaced by their contents, at every
depth. Only the lists inside are merged yet. -/
inductive Dissolves (name : Text) : List Node → List Node → Prop
  | nil : Dissolves name [] []
  | text {rest out : List Node} (content : Text) (hrest : Dissolves name rest out) :
      Dissolves name (.text content :: rest) (.text content :: out)
  | value {rest out : List Node} (key : Text) (escape : Bool) (hrest : Dissolves name rest out) :
      Dissolves name (.value key escape :: rest) (.value key escape :: out)
  | block {body inner rest out : List Node} (kind : BlockKind) (key : Text)
      (hbody : Dissolves name body inner) (hrest : Dissolves name rest out) :
      Dissolves name (.block kind key body none :: rest)
        (.block kind key (merged inner) none :: out)
  | partedBlock {body inner other innerOther rest out : List Node} (kind : BlockKind) (key : Text)
      (hbody : Dissolves name body inner) (hother : Dissolves name other innerOther)
      (hrest : Dissolves name rest out) :
      Dissolves name (.block kind key body (some other) :: rest)
        (.block kind key (merged inner) (some (merged innerOther)) :: out)
  | slot {body contents rest out : List Node} (hbody : Dissolves name body contents)
      (hrest : Dissolves name rest out) :
      Dissolves name (.slot name body :: rest) (contents ++ out)
  | otherSlot {other : Text} {body inner rest out : List Node} (hother : other ≠ name)
      (hbody : Dissolves name body inner) (hrest : Dissolves name rest out) :
      Dissolves name (.slot other body :: rest) (.slot other (merged inner) :: out)
  | inclusion {rest out : List Node} (other : Text) (hrest : Dissolves name rest out) :
      Dissolves name (.inclusion other :: rest) (.inclusion other :: out)
  | call {rest out : List Node} (other : Text) (arguments : List Argument)
      (hrest : Dissolves name rest out) :
      Dissolves name (.call other arguments none :: rest) (.call other arguments none :: out)
  | closedCall {body inner rest out : List Node} (other : Text) (arguments : List Argument)
      (hbody : Dissolves name body inner) (hrest : Dissolves name rest out) :
      Dissolves name (.call other arguments (some body) :: rest)
        (.call other arguments (some (merged inner)) :: out)

theorem unnest_cons (name : Text) (node : Node) {rest out : List Node}
    (hrest : unnest name rest = merged out) :
    unnest name (node :: rest) = merged (rebuildNode (unnesting name) node ++ out) := by
  have hcons : unnest name (node :: rest)
      = merged (rebuildNode (unnesting name) node ++ unnest name rest) :=
    rebuild_cons (unnesting name) node rest
  rw [hcons, hrest, merged_append_merged]

/-- In every tree the slots of a name can be dissolved, and what is then left, with adjacent texts
joined, is the tree that `unnest` gives. -/
theorem exists_dissolves_unnest (name : Text) (nodes : List Node) :
    ∃ out, Dissolves name nodes out ∧ unnest name nodes = merged out := by
  induction nodes using tree_induction with
  | nil => exact ⟨[], .nil, rfl⟩
  | text content rest ih =>
      obtain ⟨out, hout, hrest⟩ := ih
      exact ⟨_, .text content hout, unnest_cons name _ hrest⟩
  | value key escape rest ih =>
      obtain ⟨out, hout, hrest⟩ := ih
      exact ⟨_, .value key escape hout, unnest_cons name _ hrest⟩
  | block kind key body otherwise rest ihbody ihother ih =>
      obtain ⟨inner, hinner, hbody⟩ := ihbody
      obtain ⟨out, hout, hrest⟩ := ih
      cases otherwise with
      | none =>
          refine ⟨_, .block kind key hinner hout, ?_⟩
          rw [unnest_cons name _ hrest, ← hbody]
          rfl
      | some other =>
          obtain ⟨innerOther, hinnerOther, hother⟩ := ihother other rfl
          refine ⟨_, .partedBlock kind key hinner hinnerOther hout, ?_⟩
          rw [unnest_cons name _ hrest, ← hbody, ← hother]
          rfl
  | slot other body rest ihbody ih =>
      obtain ⟨inner, hinner, hbody⟩ := ihbody
      obtain ⟨out, hout, hrest⟩ := ih
      by_cases h : other = name
      · -- `unnest` puts the contents in place merged; merging once more at the end gives the same
        subst h
        have hnode : rebuildNode (unnesting other) (.slot other body) = unnest other body :=
          if_pos rfl
        refine ⟨_, .slot hinner hout, ?_⟩
        rw [unnest_cons other _ hrest, hnode, hbody, merged_merged_append]
      · have hnode : rebuildNode (unnesting name) (.slot other body)
            = [.slot other (unnest name body)] := if_neg h
        refine ⟨_, .otherSlot h hinner hout, ?_⟩
        rw [unnest_cons name _ hrest, hnode, hbody]
        rfl
  | inclusion other rest ih =>
      obtain ⟨out, hout, hrest⟩ := ih
      exact ⟨_, .inclusion other hout, unnest_cons name _ hrest⟩
  | call other arguments body rest ihbody ih =>
      obtain ⟨out, hout, hrest⟩ := ih
      cases body with
      | none => exact ⟨_, .call other arguments hout, unnest_cons name _ hrest⟩
      | some inside =>
          obtain ⟨inner, hinner, hbody⟩ := ihbody inside rfl
          refine ⟨_, .closedCall other arguments hinner hout, ?_⟩
          rw [unnest_cons name _ hrest, ← hbody]
          rfl

/-! ## The first slot of a name -/

/-- The first of the documents to have an outermost slot of that name has it with this body first
of all. -/
def FirstSlot (documents : List Document) (name : Text) (body : List Node) : Prop :=
  ∃ before document after, documents = before ++ document :: after ∧
    (∀ other ∈ before, ∀ slot ∈ outermostSlots other.nodes, slot.1 ≠ name) ∧
    ∃ earlier later, outermostSlots document.nodes = earlier ++ (name, body) :: later ∧
      ∀ slot ∈ earlier, slot.1 ≠ name

/-- The outermost slots of documents, one document after the other. -/
def slotsAlong (documents : List Document) : List (Text × List Node) :=
  documents.flatMap fun document => outermostSlots document.nodes

theorem slotsAlong_cons (document : Document) (rest : List Document) :
    slotsAlong (document :: rest) = outermostSlots document.nodes ++ slotsAlong rest :=
  List.flatMap_cons

theorem firstSlot_of_lookup? {documents : List Document} {name : Text} {body : List Node}
    (h : lookup? name (slotsAlong documents) = some body) : FirstSlot documents name body := by
  induction documents with
  | nil => cases h
  | cons document rest ih =>
      rw [slotsAlong_cons, lookup?_append] at h
      cases hhere : lookup? name (outermostSlots document.nodes) with
      | some found =>
          rw [hhere, Option.some_or, Option.some.injEq] at h
          subst h
          exact ⟨[], document, rest, rfl, by simp, exists_of_lookup? hhere⟩
      | none =>
          rw [hhere, Option.none_or] at h
          obtain ⟨before, first, after, rfl, hbefore, hfirst⟩ := ih h
          have hnone := (lookup?_eq_none_iff name _).mp hhere
          exact ⟨document :: before, first, after, rfl,
            List.forall_mem_cons.mpr ⟨hnone, hbefore⟩, hfirst⟩

/-- A name that some document has an outermost slot of has a first slot. -/
theorem exists_lookup?_slotsAlong {documents : List Document} {document : Document}
    {slot : Text × List Node} (hdocument : document ∈ documents)
    (hslot : slot ∈ outermostSlots document.nodes) :
    ∃ body, lookup? slot.1 (slotsAlong documents) = some body := by
  refine Option.ne_none_iff_exists'.mp fun hnone => ?_
  have hmem : slot ∈ slotsAlong documents := List.mem_flatMap.mpr ⟨document, hdocument, hslot⟩
  exact (lookup?_eq_none_iff slot.1 _).mp hnone slot hmem rfl

/-! ## The documents that are visited -/

section Visiting

variable (fetch : Text → Id (Option Document))

/-- The documents that are visited when the parents of a document are followed, at most so many of
them, the document itself first. -/
def lineage : Nat → Document → List Document
  | 0, document => [document]
  | hops + 1, document =>
    match document.parentName with
    | none => [document]
    | some parent =>
      match fetch parent with
      | none => [document]
      | some next => document :: lineage hops next

/-- A source that notes each document it gives. -/
def noting (name : Text) : StateM (List Document) (Option Document) := do
  let found := fetch name
  modify (· ++ found.toList)
  return found

variable {fetch}

theorem lineage_of_root {document : Document} (h : document.parentName = none) (hops : Nat) :
    lineage fetch hops document = [document] := by
  cases hops with
  | zero => rfl
  | succ hops => rw [lineage, h]

theorem lineage_of_missing {document : Document} {name : Text} (h : document.parentName = some name)
    (hfetch : fetch name = none) (hops : Nat) : lineage fetch hops document = [document] := by
  cases hops with
  | zero => rfl
  | succ hops =>
      rw [lineage, h]
      simp only [hfetch]

theorem lineage_of_parent {document next : Document} {name : Text}
    (h : document.parentName = some name) (hfetch : fetch name = some next) (hops : Nat) :
    lineage fetch (hops + 1) document = document :: lineage fetch hops next := by
  rw [lineage, h]
  simp only [hfetch]

/-- The document itself is visited first. -/
theorem lineage_eq_cons (hops : Nat) (document : Document) :
    lineage fetch hops document = document :: (lineage fetch hops document).tail := by
  induction hops, document using chain_induction fetch with
  | root hops document hparent => rw [lineage_of_root hparent, List.tail_cons]
  | spent document name hparent => rfl
  | missing hops document name hparent hfetch =>
      rw [lineage_of_missing hparent hfetch, List.tail_cons]
  | parent hops document name next hparent hfetch ih =>
      rw [lineage_of_parent hparent hfetch, List.tail_cons]

/-- Besides the answer, a source that notes what it gives is left with the parents visited. -/
theorem followParents_noting (limit hops : Nat) (overrides : Overrides) (document : Document)
    (noted : List Document) :
    Id.run ((followParents (noting fetch) limit hops overrides document).run noted)
      = (Id.run (followParents fetch limit hops overrides document),
          noted ++ (lineage fetch hops document).tail) := by
  induction hops, document using chain_induction fetch generalizing overrides noted with
  | root hops document hparent =>
      rw [followParents_of_root hparent, lineage_of_root hparent, List.tail_cons, List.append_nil]
      unfold followParents
      rw [hparent]
      rfl
  | spent document name hparent =>
      rw [followParents_of_zero hparent, lineage, List.tail_cons, List.append_nil]
      unfold followParents
      rw [hparent]
      rfl
  | missing hops document name hparent hfetch =>
      rw [followParents_of_missing hparent hfetch, lineage_of_missing hparent hfetch]
      unfold followParents
      rw [hparent]
      simp only [noting, hfetch, Option.toList_none]
      rfl
  | parent hops document name next hparent hfetch ih =>
      have hnoted : Id.run ((followParents (noting fetch) limit (hops + 1) overrides
            document).run noted)
          = Id.run ((followParents (noting fetch) limit hops
              (recordSlots overrides document.nodes) next).run (noted ++ [next])) := by
        conv_lhs => unfold followParents
        simp [hparent, noting, hfetch]
      have htail : (lineage fetch (hops + 1) document).tail
          = next :: (lineage fetch hops next).tail := by
        rw [lineage_of_parent hparent hfetch, List.tail_cons]
        exact lineage_eq_cons hops next
      rw [hnoted, ih, followParents_of_parent hparent hfetch, htail, List.append_assoc]
      rfl

end Visiting

/-! ## What is recorded -/

/-- The overrides with the outermost slots of documents recorded, one document after the other. -/
def recordDocuments (overrides : Overrides) (documents : List Document) : Overrides :=
  (slotsAlong documents).foldl recordSlot overrides

theorem recordDocuments_cons (overrides : Overrides) (document : Document)
    (rest : List Document) :
    recordDocuments overrides (document :: rest)
      = recordDocuments (recordSlots overrides document.nodes) rest := by
  rw [recordDocuments, slotsAlong_cons, List.foldl_append]
  rfl

theorem recordDocuments_singleton (overrides : Overrides) (document : Document) :
    recordDocuments overrides [document] = recordSlots overrides document.nodes :=
  recordDocuments_cons overrides document []

theorem extends_fillSlots (limit passes : Nat) (overrides : Overrides) (nodes : List Node) :
    Extends (recordSlots overrides nodes) (fillSlots limit passes overrides nodes).2 := by
  induction passes generalizing overrides nodes with
  | zero =>
      by_cases hslots : outermostSlots nodes = []
      · rw [fillSlots_of_nil hslots]
        exact .refl _
      · rw [fillSlots_zero hslots]
        exact .refl _
  | succ passes ih =>
      by_cases hslots : outermostSlots nodes = []
      · rw [fillSlots_of_nil hslots]
        exact .refl _
      · rw [fillSlots_succ hslots]
        exact (extends_recordSlots _ _).trans (ih _ _)

/-- **However it ends**, following parents is left with the slots of every document it visited. -/
theorem extends_followParents (fetch : Text → Id (Option Document)) (limit hops : Nat)
    (overrides : Overrides) (document : Document) :
    Extends (recordDocuments overrides (lineage fetch hops document))
      (Id.run (followParents fetch limit hops overrides document)).2 := by
  induction hops, document using chain_induction fetch generalizing overrides with
  | root hops document hparent =>
      rw [lineage_of_root hparent, recordDocuments_singleton, followParents_of_root hparent]
      exact extends_fillSlots limit limit overrides document.nodes
  | spent document name hparent =>
      have hlineage : lineage fetch 0 document = [document] := rfl
      rw [hlineage, recordDocuments_singleton, followParents_of_zero hparent]
      exact .refl _
  | missing hops document name hparent hfetch =>
      rw [lineage_of_missing hparent hfetch, recordDocuments_singleton,
        followParents_of_missing hparent hfetch]
      exact .refl _
  | parent hops document name next hparent hfetch ih =>
      -- the parent finds the slots of the document recorded, on both sides
      rw [lineage_of_parent hparent hfetch, recordDocuments_cons,
        followParents_of_parent hparent hfetch]
      exact ih _

/-! ## Step by step -/

/-- Where a resolution stands. -/
inductive Resolving where
  /-- At a document, with so many more parents to follow. -/
  | atDocument (hops : Nat) (overrides : Overrides) (document : Document)
  /-- At a tree made from the last document, with so many more passes to fill slots. -/
  | atTree (passes : Nat) (overrides : Overrides) (nodes : List Node)

namespace Resolving

/-- What was recorded on the way there. -/
def recorded : Resolving → Overrides
  | .atDocument _ overrides _ => overrides
  | .atTree _ overrides _ => overrides

/-- The tree whose slots are recorded there. -/
def tree : Resolving → List Node
  | .atDocument _ _ document => document.nodes
  | .atTree _ _ nodes => nodes

section Steps

variable (fetch : Text → Id (Option Document)) (limit : Nat)

/-- What the resolution gives from there on. -/
def answer : Resolving → Except RenderError (List Node) × Overrides
  | .atDocument hops overrides document =>
      Id.run (followParents fetch limit hops overrides document)
  | .atTree passes overrides nodes => fillSlots limit passes overrides nodes

/-- One step of a resolution. -/
inductive Step : Resolving → Resolving → Prop
  /-- On to the parent of a document. -/
  | hop {hops : Nat} {overrides : Overrides} {document next : Document} {name : Text}
      (hparent : document.parentName = some name) (hfetch : fetch name = some next) :
      Step (.atDocument (hops + 1) overrides document)
        (.atDocument hops (recordSlots overrides document.nodes) next)
  /-- To the slots of a document that has no parent. -/
  | arrive {hops : Nat} {overrides : Overrides} {document : Document}
      (hparent : document.parentName = none) :
      Step (.atDocument hops overrides document) (.atTree limit overrides document.nodes)
  /-- Through a pass, which puts in place what was recorded for the slots. -/
  | pass {passes : Nat} {overrides : Overrides} {nodes : List Node}
      (hslots : outermostSlots nodes ≠ []) :
      Step (.atTree (passes + 1) overrides nodes)
        (.atTree passes (recordSlots overrides nodes)
          (rebuild (filling (recordSlots overrides nodes)) nodes))

/-- One step of a resolution after the other. -/
def Run : Resolving → Resolving → Prop := Relation.ReflTransGen (Step fetch limit)

/-- Steps lead to where the last slots are recorded. -/
def Ends (state : Resolving) : Prop :=
  ∃ last, Run fetch limit state last ∧
    (state.answer fetch limit).2 = recordSlots last.recorded last.tree

end Steps

variable {fetch : Text → Id (Option Document)} {limit : Nat} {state next : Resolving}

theorem Step.answer_eq (h : Step fetch limit state next) :
    next.answer fetch limit = state.answer fetch limit := by
  cases h with
  | hop hparent hfetch => exact (followParents_of_parent hparent hfetch _ _ _).symm
  | arrive hparent => exact (followParents_of_root hparent _ _ _).symm
  | pass hslots => exact (fillSlots_succ hslots _ _ _).symm

/-- No step changes an entry that is there. -/
theorem Step.extends (h : Step fetch limit state next) :
    Extends state.recorded next.recorded := by
  cases h with
  | hop hparent hfetch => exact extends_recordSlots _ _
  | arrive hparent => exact .refl _
  | pass hslots => exact extends_recordSlots _ _

theorem Run.answer_eq (h : Run fetch limit state next) :
    next.answer fetch limit = state.answer fetch limit := by
  induction h with
  | refl => rfl
  | tail _ hstep ih => rw [hstep.answer_eq, ih]

theorem Run.extends (h : Run fetch limit state next) :
    Extends state.recorded next.recorded := by
  induction h with
  | refl => exact .refl _
  | tail _ hstep ih => exact ih.trans hstep.extends

/-- Where nothing but its slots is recorded a resolution ends at once. -/
theorem ends_here (h : (state.answer fetch limit).2 = recordSlots state.recorded state.tree) :
    Ends fetch limit state :=
  ⟨state, .refl, h⟩

theorem Step.ends (hstep : Step fetch limit state next) (h : Ends fetch limit next) :
    Ends fetch limit state := by
  obtain ⟨last, hrun, hlast⟩ := h
  refine ⟨last, .head hstep hrun, ?_⟩
  rw [← hstep.answer_eq, hlast]

theorem ends_atTree (passes : Nat) (overrides : Overrides) (nodes : List Node) :
    Ends fetch limit (.atTree passes overrides nodes) := by
  induction passes generalizing overrides nodes with
  | zero =>
      by_cases hslots : outermostSlots nodes = []
      · exact ends_here (congrArg Prod.snd (fillSlots_of_nil hslots limit 0 overrides))
      · exact ends_here (congrArg Prod.snd (fillSlots_zero hslots limit overrides))
  | succ passes ih =>
      by_cases hslots : outermostSlots nodes = []
      · exact ends_here (congrArg Prod.snd (fillSlots_of_nil hslots limit _ overrides))
      · exact Step.ends (.pass hslots) (ih _ _)

theorem ends_atDocument (hops : Nat) (overrides : Overrides) (document : Document) :
    Ends fetch limit (.atDocument hops overrides document) := by
  induction hops, document using chain_induction fetch generalizing overrides with
  | root hops document hparent =>
      exact Step.ends (.arrive hparent) (ends_atTree limit overrides document.nodes)
  | spent document name hparent =>
      exact ends_here (congrArg Prod.snd (followParents_of_zero hparent limit overrides))
  | missing hops document name hparent hfetch =>
      have hanswer := followParents_of_missing hparent hfetch limit hops overrides
      exact ends_here (congrArg Prod.snd hanswer)
  | parent hops document name next hparent hfetch ih =>
      exact Step.ends (.hop hparent hfetch) (ih _)

/-- **Every resolution ends**, and nothing is recorded that no step records. -/
theorem ends (state : Resolving) : Ends fetch limit state := by
  cases state with
  | atDocument hops overrides document => exact ends_atDocument hops overrides document
  | atTree passes overrides nodes => exact ends_atTree passes overrides nodes

/-- What was recorded is left in the end. -/
theorem extends_answer (state : Resolving) :
    Extends state.recorded (state.answer fetch limit).2 := by
  have hends : Ends fetch limit state := ends state
  obtain ⟨last, hrun, hlast⟩ := hends
  rw [hlast]
  exact hrun.extends.trans (extends_recordSlots _ _)

end Resolving

/-! ## The first slot counts -/

/-- **Overrides along the chain of parents.** Take the document that a resolution of parents starts
from and the parents it fetches, in this order, whether it ends with a tree or with an error. All
entries it was given are left as they were. For any other name that one of the documents has an
outermost slot of, what is left is the body of the first such slot, with the slots of that name
inside it dissolved. And an entry that is there at one step of the resolution is the same at every
later step and in the end. -/
theorem resolveParents_overrides (fetch : Text → Id (Option Document)) (limit : Nat)
    (overrides : Overrides) (document : Document) :
    let result := Id.run (resolveParents fetch limit overrides document)
    let noted := Id.run ((resolveParents (noting fetch) limit overrides document).run [])
    let documents := document :: noted.2
    let start := Resolving.atDocument limit overrides document
    noted.1 = result ∧
    Extends overrides result.2 ∧
    (∀ visited ∈ documents, ∀ slot ∈ outermostSlots visited.nodes,
      lookup? slot.1 overrides = none →
      ∃ body contents, FirstSlot documents slot.1 body ∧ Dissolves slot.1 body contents ∧
        lookup? slot.1 result.2 = some (merged contents)) ∧
    (∃ last, Resolving.Run fetch limit start last ∧
      result.2 = recordSlots last.recorded last.tree) ∧
    ∀ earlier later, Resolving.Run fetch limit start earlier →
      Resolving.Run fetch limit earlier later →
      Extends earlier.recorded later.recorded ∧ Extends later.recorded result.2 := by
  intro result noted documents start
  have hnoted : noted = (result, (lineage fetch limit document).tail) :=
    followParents_noting limit limit overrides document []
  have hdocuments : documents = lineage fetch limit document := by
    show document :: noted.2 = _
    rw [hnoted]
    exact (lineage_eq_cons limit document).symm
  refine ⟨congrArg Prod.fst hnoted, ?_, ?_, ?_, ?_⟩
  · exact Resolving.extends_answer start
  · -- recording the documents gives the entry, and the passes that follow keep it
    intro visited hvisited slot hslot hnew
    obtain ⟨body, hbody⟩ := exists_lookup?_slotsAlong hvisited hslot
    obtain ⟨contents, hdissolves, hunnest⟩ := exists_dissolves_unnest slot.1 body
    have hrecorded : lookup? slot.1 (recordDocuments overrides documents)
        = some (merged contents) := by
      rw [recordDocuments, lookup?_foldl_recordSlot, hnew, hbody, Option.none_or,
        Option.map_some, hunnest]
    refine ⟨body, contents, firstSlot_of_lookup? hbody, hdissolves, ?_⟩
    rw [hdocuments] at hrecorded
    exact extends_followParents fetch limit limit overrides document _ _ hrecorded
  · exact Resolving.ends start
  · intro earlier later hearlier hlater
    have hrun : Resolving.Run fetch limit start later := hearlier.trans hlater
    have hanswer : later.answer fetch limit = result := hrun.answer_eq
    refine ⟨hlater.extends, ?_⟩
    rw [← hanswer]
    exact Resolving.extends_answer later

/-- A parent that is not found: of the two slots of a name the first is left, without the slot of
its own name inside it. -/
example :
    let missing : Text → Id (Option Document) := fun _ => none
    let document : Document := ⟨some ⟨['p'], ⟨0, 6⟩⟩,
      [.slot ['a'] [.text ['['], .slot ['a'] [.text ['x']], .text [']']], .slot ['a'] []]⟩
    Id.run (resolveParents missing 1 [] document)
      = (.error (.missingParent ['p']), [(['a'], [.text ['[', 'x', ']']])]) := by
  rfl

end Stencil
