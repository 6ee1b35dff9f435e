import Stencil.Proofs.Resolution.Overrides

/-!
# Where the chain of parents ends

Number the parents of a document along its chain: `ancestor fetch n` is the document after `n` of
them, and `parentAfter fetch n` is the parent that this document names in turn. Following the chain
with a limit ends in one of three ways, and which one can be read off these numbers: at a parent
below the limit that is not found, at a parent that would be one too many, found or not, or at a
document without a parent. A chain that comes back to a parent never ends, so it ends at the limit
(`parentAfter_isSome_of_cycle`).

What a document on the way contributes are its parent and its outermost slots
(`Document.SameOutline`); only the last one is shown.
-/

set_option autoImplicit false

namespace Stencil

section Chains

variable (fetch : Text → Id (Option Document))

/-- The document after so many parents, the document itself at first. -/
def ancestor : Nat → Document → Option Document
  | 0, document => some document
  | n + 1, document =>
    match document.parentName with
    | none => none
    | some parent =>
      match fetch parent with
      | none => none
      | some next => ancestor n next

/-- The parent that the document after so many parents names. -/
def parentAfter (n : Nat) (document : Document) : Option Text :=
  (ancestor fetch n document).bind Document.parentName

variable {fetch}

/-! ## One document further -/

theorem parentAfter_zero (document : Document) :
    parentAfter fetch 0 document = document.parentName := rfl

theorem ancestor_of_root {document : Document} (h : document.parentName = none) (n : Nat) :
    ancestor fetch (n + 1) document = none := by
  rw [ancestor, h]

theorem ancestor_of_missing {document : Document} {name : Text}
    (h : document.parentName = some name) (hfetch : fetch name = none) (n : Nat) :
    ancestor fetch (n + 1) document = none := by
  rw [ancestor, h]
  simp only [hfetch]

theorem ancestor_of_parent {document next : Document} {name : Text}
    (h : document.parentName = some name) (hfetch : fetch name = some next) (n : Nat) :
    ancestor fetch (n + 1) document = ancestor fetch n next := by
  rw [ancestor, h]
  simp only [hfetch]

theorem parentAfter_of_root {document : Document} (h : document.parentName = none) (n : Nat) :
    parentAfter fetch n document = none := by
  cases n with
  | zero => exact h
  | succ n => rw [parentAfter, ancestor_of_root h, Option.bind_none]

theorem parentAfter_of_missing {document : Document} {name : Text}
    (h : document.parentName = some name) (hfetch : fetch name = none) (n : Nat) :
    parentAfter fetch (n + 1) document = none := by
  rw [parentAfter, ancestor_of_missing h hfetch, Option.bind_none]

theorem parentAfter_of_parent {document next : Document} {name : Text}
    (h : document.parentName = some name) (hfetch : fetch name = some next) (n : Nat) :
    parentAfter fetch (n + 1) document = parentAfter fetch n next := by
  rw [parentAfter, ancestor_of_parent h hfetch, parentAfter]

/-- From a parent on, the chain is that of the document found for it. -/
theorem parentAfter_add {document : Document} {name : Text} {i : Nat}
    (h : parentAfter fetch i document = some name) (n : Nat) :
    parentAfter fetch (i + (n + 1)) document = match fetch name with
      | none => none
      | some next => parentAfter fetch n next := by
  induction i generalizing document with
  | zero =>
      rw [Nat.zero_add]
      cases hfetch : fetch name with
      | none => exact parentAfter_of_missing h hfetch n
      | some next => exact parentAfter_of_parent h hfetch n
  | succ i ih =>
      cases hparent : document.parentName with
      | none =>
          rw [parentAfter_of_root hparent] at h
          cases h
      | some parent =>
          cases hfetch : fetch parent with
          | none =>
              rw [parentAfter_of_missing hparent hfetch] at h
              cases h
          | some next =>
              rw [parentAfter_of_parent hparent hfetch] at h
              have hindex : i + 1 + (n + 1) = i + (n + 1) + 1 := by omega
              rw [hindex, parentAfter_of_parent hparent hfetch, ih h]

theorem parentAfter_isSome_of_le {document : Document} {i n : Nat} (hle : i ≤ n)
    (h : (parentAfter fetch n document).isSome = true) :
    (parentAfter fetch i document).isSome = true := by
  by_contra hnone
  rw [Bool.not_eq_true, Option.isSome_eq_false_iff, Option.isNone_iff_eq_none] at hnone
  induction i generalizing n document with
  | zero =>
      rw [parentAfter_of_root hnone] at h
      cases h
  | succ i ih =>
      obtain ⟨n, rfl⟩ : ∃ k, n = k + 1 := ⟨n - 1, by omega⟩
      cases hparent : document.parentName with
      | none =>
          rw [parentAfter_of_root hparent] at h
          cases h
      | some parent =>
          cases hfetch : fetch parent with
          | none =>
              rw [parentAfter_of_missing hparent hfetch] at h
              cases h
          | some next =>
              rw [parentAfter_of_parent hparent hfetch] at h hnone
              exact ih (Nat.le_of_succ_le_succ hle) h hnone

/-- **A cycle never ends**: where a parent comes back, every document of the chain names one. -/
theorem parentAfter_isSome_of_cycle {document : Document} {name : Text} {i j : Nat} (hij : i < j)
    (hi : parentAfter fetch i document = some name) (hj : parentAfter fetch j document = some name)
    (n : Nat) : (parentAfter fetch n document).isSome = true := by
  induction n using Nat.strong_induction_on with
  | _ n ih =>
      by_cases hle : n ≤ j
      · exact parentAfter_isSome_of_le hle (by rw [hj]; rfl)
      · -- past the second place of the parent the chain repeats what follows the first one
        obtain ⟨d, rfl⟩ : ∃ d, n = j + (d + 1) := ⟨n - j - 1, by omega⟩
        rw [parentAfter_add hj, ← parentAfter_add hi]
        exact ih _ (by omega)

/-! ## How following the chain ends -/

theorem followParents_of_missing_ancestor {limit hops k : Nat} {name : Text} (hk : k < hops)
    (overrides : Overrides) {document : Document}
    (hname : parentAfter fetch k document = some name) (hfetch : fetch name = none) :
    (Id.run (followParents fetch limit hops overrides document)).1
      = .error (.missingParent name) := by
  induction hops, document using chain_induction fetch generalizing k overrides with
  | root hops document hparent =>
      rw [parentAfter_of_root hparent] at hname
      cases hname
  | spent document other hparent => cases hk
  | missing hops document other hparent hother =>
      cases k with
      | zero =>
          obtain rfl : other = name := Option.some.inj (hparent.symm.trans hname)
          rw [followParents_of_missing hparent hother]
          rfl
      | succ k =>
          rw [parentAfter_of_missing hparent hother] at hname
          cases hname
  | parent hops document other next hparent hother ih =>
      rw [followParents_of_parent hparent hother]
      cases k with
      | zero =>
          -- this parent is found, so it is not the one that is missing
          obtain rfl : other = name := Option.some.inj (hparent.symm.trans hname)
          rw [hfetch] at hother
          cases hother
      | succ k =>
          rw [parentAfter_of_parent hparent hother] at hname
          exact ih (Nat.lt_of_succ_lt_succ hk) _ hname

/-- The parent that is one too many is not looked for. -/
theorem followParents_of_parent_beyond {limit hops : Nat} (overrides : Overrides)
    {document : Document} (h : (parentAfter fetch hops document).isSome = true) :
    (Id.run (followParents fetch limit hops overrides document)).1
      = .error (.recursionLimit .parents limit) := by
  induction hops, document using chain_induction fetch generalizing overrides with
  | root hops document hparent =>
      rw [parentAfter_of_root hparent] at h
      cases h
  | spent document name hparent =>
      rw [followParents_of_zero hparent]
      rfl
  | missing hops document name hparent hfetch =>
      rw [parentAfter_of_missing hparent hfetch] at h
      cases h
  | parent hops document name next hparent hfetch ih =>
      rw [parentAfter_of_parent hparent hfetch] at h
      rw [followParents_of_parent hparent hfetch]
      exact ih _ h

/-- A chain that ends is followed to its last document, and what was recorded before are the slots
of the documents on the way. -/
theorem exists_followParents_eq_fillSlots {hops : Nat} {document : Document}
    (hfound : ∀ k < hops, ∀ name, parentAfter fetch k document = some name → fetch name ≠ none)
    (hend : parentAfter fetch hops document = none) :
    ∃ earlier root, lineage fetch hops document = earlier ++ [root] ∧ earlier.length ≤ hops ∧
      LeadsTo fetch document earlier.length root ∧
      ∀ (limit : Nat) (overrides : Overrides),
        followParents fetch limit hops overrides document
          = fillSlots limit limit (recordDocuments overrides earlier) root.nodes := by
  induction hops, document using chain_induction fetch with
  | root hops document hparent =>
      refine ⟨[], document, lineage_of_root hparent hops, Nat.zero_le _, .root hparent, ?_⟩
      intro limit overrides
      exact followParents_of_root hparent limit hops overrides
  | spent document name hparent =>
      rw [parentAfter_zero, hparent] at hend
      cases hend
  | missing hops document name hparent hfetch =>
      exact absurd hfetch (hfound 0 (Nat.succ_pos hops) name hparent)
  | parent hops document name next hparent hfetch ih =>
      have hnext : ∀ k < hops, ∀ other, parentAfter fetch k next = some other →
          fetch other ≠ none := by
        intro k hk other hother
        rw [← parentAfter_of_parent hparent hfetch] at hother
        exact hfound (k + 1) (Nat.succ_lt_succ hk) other hother
      rw [parentAfter_of_parent hparent hfetch] at hend
      obtain ⟨earlier, root, hlineage, hlength, hchain, hfollow⟩ := ih hnext hend
      refine ⟨document :: earlier, root, ?_, Nat.succ_le_succ hlength,
        .parent hparent hfetch hchain, ?_⟩
      · rw [lineage_of_parent hparent hfetch, hlineage, List.cons_append]
      · intro limit overrides
        rw [followParents_of_parent hparent hfetch, hfollow, recordDocuments_cons]

/-! ## What a document contributes -/

/-- The documents name the same parent and have the same outermost slots. Without a parent they are
the same tree. -/
structure Document.SameOutline (document other : Document) : Prop where
  parentName : document.parentName = other.parentName
  slots : outermostSlots document.nodes = outermostSlots other.nodes
  nodes : document.parentName = none → document.nodes = other.nodes

theorem Document.SameOutline.recordSlots_eq {document other : Document}
    (h : document.SameOutline other) (overrides : Overrides) :
    recordSlots overrides document.nodes = recordSlots overrides other.nodes := by
  unfold recordSlots
  rw [h.slots]

/-- Chains of documents with the same outlines are followed to the same end. -/
theorem followParents_congr {source : Text → Id (Option Document)} {hops : Nat}
    {document start : Document}
    (h : ∀ n ≤ hops, Option.Rel Document.SameOutline (ancestor fetch n document)
      (ancestor source n start)) (limit : Nat) (overrides : Overrides) :
    followParents fetch limit hops overrides document
      = followParents source limit hops overrides start := by
  have hstart : document.SameOutline start := by
    have hfirst := h 0 (Nat.zero_le _)
    cases hfirst with
    | some hfirst => exact hfirst
  have hrecord := hstart.recordSlots_eq overrides
  induction hops, document using chain_induction fetch generalizing overrides start with
  | root hops document hparent =>
      have hparent' := hstart.parentName.symm.trans hparent
      rw [followParents_of_root hparent, followParents_of_root hparent', hstart.nodes hparent]
  | spent document name hparent =>
      have hparent' := hstart.parentName.symm.trans hparent
      -- the slots are recorded before the limit is looked at
      rw [followParents_of_zero hparent, followParents_of_zero hparent', hrecord]
  | missing hops document name hparent hfetch =>
      have hparent' := hstart.parentName.symm.trans hparent
      have hnone := h 1 (Nat.succ_le_succ (Nat.zero_le _))
      rw [ancestor_of_missing hparent hfetch] at hnone
      cases hfetch' : source name with
      | none =>
          rw [followParents_of_missing hparent hfetch, followParents_of_missing hparent' hfetch',
            hrecord]
      | some other =>
          rw [ancestor_of_parent hparent' hfetch'] at hnone
          cases hnone
  | parent hops document name next hparent hfetch ih =>
      have hparent' := hstart.parentName.symm.trans hparent
      have hone := h 1 (Nat.succ_le_succ (Nat.zero_le _))
      rw [ancestor_of_parent hparent hfetch] at hone
      cases hfetch' : source name with
      | none =>
          rw [ancestor_of_missing hparent' hfetch'] at hone
          cases hone
      | some other =>
          rw [ancestor_of_parent hparent' hfetch'] at hone
          have hnext : next.SameOutline other := by
            cases hone with
            | some hone => exact hone
          have hrest : ∀ n ≤ hops, Option.Rel Document.SameOutline (ancestor fetch n next)
              (ancestor source n other) := by
            intro n hn
            have hn' := h (n + 1) (Nat.succ_le_succ hn)
            rwa [ancestor_of_parent hparent hfetch, ancestor_of_parent hparent' hfetch'] at hn'
          rw [followParents_of_parent hparent hfetch, followParents_of_parent hparent' hfetch',
            hrecord]
          exact ih hrest _ hnext (hnext.recordSlots_eq _)

end Chains

/-! ## The outcome -/

/-- **The outcome of following the parents of a document.** If one of the first `limit` parents is
not found, that parent is reported missing. Otherwise, if the document after `limit` parents names
another one, the limit is reported, whether that one could be found or not; so it is on every cycle.
Otherwise the chain ends with a document within the limit, and slots are filled in the tree of this
document, with the slots of the documents before it recorded. What else the documents before it say
has no effect on the result. -/
theorem resolveParents_outcome (fetch : Text → Id (Option Document)) (limit : Nat)
    (overrides : Overrides) (document : Document) :
    let result := Id.run (resolveParents fetch limit overrides document)
    (∀ k < limit, ∀ name, parentAfter fetch k document = some name → fetch name = none →
      result.1 = .error (.missingParent name)) ∧
    (∀ name, parentAfter fetch limit document = some name →
      result.1 = .error (.recursionLimit .parents limit)) ∧
    (∀ i j name, i < j → parentAfter fetch i document = some name →
      parentAfter fetch j document = some name →
      result.1 = .error (.recursionLimit .parents limit)) ∧
    ((∀ k < limit, ∀ name, parentAfter fetch k document = some name → fetch name ≠ none) →
      parentAfter fetch limit document = none →
      ∃ earlier root, lineage fetch limit document = earlier ++ [root] ∧
        earlier.length ≤ limit ∧ LeadsTo fetch document earlier.length root ∧
        result = fillSlots limit limit (recordDocuments overrides earlier) root.nodes) ∧
    ∀ (source : Text → Id (Option Document)) (start : Document),
      (∀ n ≤ limit, Option.Rel Document.SameOutline (ancestor fetch n document)
        (ancestor source n start)) →
      Id.run (resolveParents source limit overrides start) = result := by
  intro result
  refine ⟨?_, ?_, ?_, ?_, ?_⟩
  · intro k hk name hname hfetch
    exact followParents_of_missing_ancestor hk overrides hname hfetch
  · intro name hname
    exact followParents_of_parent_beyond overrides (by rw [hname]; rfl)
  · intro i j name hij hi hj
    exact followParents_of_parent_beyond overrides (parentAfter_isSome_of_cycle hij hi hj limit)
  · intro hfound hend
    obtain ⟨earlier, root, hlineage, hlength, hchain, hfollow⟩ :=
      exists_followParents_eq_fillSlots hfound hend
    exact ⟨earlier, root, hlineage, hlength, hchain, hfollow limit overrides⟩
  · intro source start h
    exact (followParents_congr h limit overrides).symm

/-- A template that names itself, and one parent too many that is not there: with a limit of one the
chains end at the limit both times. -/
example :
    let itself : Text → Id (Option Document) := fun name => some ⟨some ⟨name, ⟨0, 6⟩⟩, []⟩
    let parted : Text → Id (Option Document) := fun name =>
      if name = ['p'] then some ⟨some ⟨['q'], ⟨0, 6⟩⟩, []⟩ else none
    let document : Document := ⟨some ⟨['p'], ⟨0, 6⟩⟩, []⟩
    (Id.run (resolveParents itself 1 [] document)).1 = .error (.recursionLimit .parents 1) ∧
      (Id.run (resolveParents parted 1 [] document)).1 = .error (.recursionLimit .parents 1) := by
  exact ⟨rfl, rfl⟩

end Stencil
