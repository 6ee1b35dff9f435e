import Mathlib.Logic.Function.Iterate
import Stencil.Proofs.Evaluation.Rebuilding
import Stencil.Proofs.Resolution.Overrides
import Stencil.Proofs.Resolution.Remaining

/-!
# A recorded body does not contain its own slot

`unnest` is a recursion: each slot of the name that is met in a body is replaced by what the same
recursion makes of the contents of that slot. `unnestBy` is one call of it, with the calls for the
contents left open. Calls nest no deeper than there are slots of the name, so the recursion ends
(`iterate_unnestBy`): what a call further down would give does not matter.

The answer is the body with the slots of the name dissolved, and there is one way to dissolve them
(`Dissolves.unique`). So no slot of the name is left at any depth, those of other names stand where
they stood and in the same order (`Dissolves.slotNames_eq`), and the body shows what it showed
(`renderNodes_unnest`).
-/

set_option autoImplicit false

namespace Stencil

/-! ## One call of the recursion -/

/-- Puts what a further call makes of their contents in the place of the slots of one name. -/
def unnestingBy (name : Text) (further : List Node → List Node) : Filling where
  slot other body rebuilt := if other = name then further body else [.slot other rebuilt]
  inclusion other := [.inclusion other]

/-- A body with its slots of one name replaced by what a further call makes of their contents. -/
def unnestBy (name : Text) (further : List Node → List Node) (body : List Node) : List Node :=
  rebuild (unnestingBy name further) body

section Recursion

variable {name : Text} {further : List Node → List Node}

theorem unnestBy_cons (node : Node) (rest : List Node) :
    unnestBy name further (node :: rest)
      = merged (rebuildNode (unnestingBy name further) node ++ unnestBy name further rest) :=
  rebuild_cons (unnestingBy name further) node rest

/-- A call gives the right answer for a body if further calls do for all bodies with fewer slots of
the name. -/
theorem unnestBy_eq {slots : Nat}
    (hfurther : ∀ inner, (slotNames inner).count name < slots → further inner = unnest name inner)
    {nodes : List Node} (h : (slotNames nodes).count name ≤ slots) :
    unnestBy name further nodes = unnest name nodes := by
  have hcons : ∀ node rest,
      rebuildNode (unnestingBy name further) node = rebuildNode (unnesting name) node →
      unnestBy name further rest = unnest name rest →
      unnestBy name further (node :: rest) = unnest name (node :: rest) := by
    intro node rest hnode hrest
    rw [unnestBy_cons, hnode, hrest]
    exact (rebuild_cons (unnesting name) node rest).symm
  have habsent : ∀ body : Option (List Node), (slotNamesIn body).count name ≤ slots →
      (∀ inner ∈ body, (slotNames inner).count name ≤ slots →
        unnestBy name further inner = unnest name inner) →
      rebuildBody (unnestingBy name further) body = rebuildBody (unnesting name) body := by
    intro body hbody ih
    cases body with
    | none => rfl
    | some inner => exact congrArg some (ih inner rfl hbody)
  induction nodes using tree_induction with
  | nil => rfl
  | text content rest ih => exact hcons _ rest rfl (ih h)
  | value key escape rest ih => exact hcons _ rest rfl (ih h)
  | block kind key body otherwise rest ihbody ihother ih =>
      rw [slotNames_cons, slotNamesOf_block, List.count_append, List.count_append] at h
      have hbody : merged (rebuildAll (unnestingBy name further) body)
          = merged (rebuildAll (unnesting name) body) := ihbody (by omega)
      have hother := habsent otherwise (by omega) ihother
      refine hcons _ rest ?_ (ih (by omega))
      rw [rebuildNode, rebuildNode, hbody, hother]
  | slot other body rest ihbody ih =>
      rw [slotNames_cons, slotNamesOf_slot, List.count_append] at h
      by_cases hname : other = name
      · -- the slot itself is one more than there are in its contents
        subst hname
        rw [List.count_cons_self] at h
        have hcontents : further body = unnest other body := hfurther body (by omega)
        refine hcons _ rest ?_ (ih (by omega))
        calc rebuildNode (unnestingBy other further) (.slot other body)
            = further body := if_pos rfl
          _ = unnest other body := hcontents
          _ = rebuildNode (unnesting other) (.slot other body) := (if_pos rfl).symm
      · rw [List.count_cons_of_ne hname] at h
        have hbody : unnestBy name further body = unnest name body := ihbody (by omega)
        refine hcons _ rest ?_ (ih (by omega))
        calc rebuildNode (unnestingBy name further) (.slot other body)
            = [.slot other (unnestBy name further body)] := if_neg hname
          _ = [.slot other (unnest name body)] := by rw [hbody]
          _ = rebuildNode (unnesting name) (.slot other body) := (if_neg hname).symm
  | inclusion other rest ih => exact hcons _ rest rfl (ih h)
  | call other arguments body rest ihbody ih =>
      rw [slotNames_cons, slotNamesOf_call, List.count_append] at h
      have hbody := habsent body (by omega) ihbody
      refine hcons _ rest ?_ (ih (by omega))
      rw [rebuildNode, rebuildNode, hbody]

/-- **The recursion ends**: when calls may nest as deep as there are slots of the name, and once
more for the body itself, nothing depends on what a call below these would give. -/
theorem iterate_unnestBy (below : List Node → List Node) {calls : Nat} {body : List Node}
    (h : (slotNames body).count name < calls) :
    (unnestBy name)^[calls] below body = unnest name body := by
  induction calls generalizing body with
  | zero => omega
  | succ calls ih =>
      rw [Function.iterate_succ_apply']
      exact unnestBy_eq (fun inner hinner => ih hinner) (Nat.le_of_lt_succ h)

end Recursion

/-! ## Dissolved slots -/

namespace Dissolves

variable {name : Text} {nodes out : List Node}

/-- There is one way to dissolve the slots of a name. -/
theorem unique {other : List Node} (h : Dissolves name nodes out)
    (hother : Dissolves name nodes other) : out = other := by
  induction h generalizing other with
  | nil =>
      cases hother
      rfl
  | text content _ ih =>
      cases hother with
      | text _ hrest => rw [ih hrest]
  | value key escape _ ih =>
      cases hother with
      | value _ _ hrest => rw [ih hrest]
  | block kind key _ _ ihbody ih =>
      cases hother with
      | block _ _ hbody hrest => rw [ihbody hbody, ih hrest]
  | partedBlock kind key _ _ _ ihbody ihother ih =>
      cases hother with
      | partedBlock _ _ hbody hafter hrest => rw [ihbody hbody, ihother hafter, ih hrest]
  | slot _ _ ihbody ih =>
      cases hother with
      | slot hbody hrest => rw [ihbody hbody, ih hrest]
      | otherSlot hne => exact absurd rfl hne
  | otherSlot hne _ _ ihbody ih =>
      cases hother with
      | slot => exact absurd rfl hne
      | otherSlot _ hbody hrest => rw [ihbody hbody, ih hrest]
  | inclusion other _ ih =>
      cases hother with
      | inclusion _ hrest => rw [ih hrest]
  | call other arguments _ ih =>
      cases hother with
      | call _ _ hrest => rw [ih hrest]
  | closedCall other arguments _ _ ihbody ih =>
      cases hother with
      | closedCall _ _ hbody hrest => rw [ihbody hbody, ih hrest]

/-- The slots of other names are left, in order, and those of the name are gone. -/
theorem slotNames_eq (h : Dissolves name nodes out) :
    slotNames out = (slotNames nodes).filter (· ≠ name) := by
  induction h with
  | nil => rfl
  | text content _ ih => exact ih
  | value key escape _ ih => exact ih
  | block kind key _ _ ihbody ih =>
      simp [slotNamesIn, nodesIn, slotNames_merged, ihbody, ih]
  | partedBlock kind key _ _ _ ihbody ihother ih =>
      have hafter : ∀ branch, slotNamesIn (some branch) = slotNames branch := fun _ => rfl
      simp [hafter, slotNames_merged, ihbody, ihother, ih]
  | slot _ _ ihbody ih => simp [slotNames_append, ihbody, ih]
  | otherSlot hne _ _ ihbody ih => simp [slotNames_merged, hne, ihbody, ih]
  | inclusion other _ ih => exact ih
  | call other arguments _ ih => exact ih
  | closedCall other arguments _ _ ihbody ih =>
      have hinside : ∀ body, slotNamesIn (some body) = slotNames body := fun _ => rfl
      simp [hinside, slotNames_merged, ihbody, ih]

end Dissolves

theorem slotNames_unnest (name : Text) (body : List Node) :
    slotNames (unnest name body) = (slotNames body).filter (· ≠ name) := by
  obtain ⟨out, hout, hunnest⟩ := exists_dissolves_unnest name body
  rw [hunnest, slotNames_merged, hout.slotNames_eq]

/-! ## What the body shows -/

/-- A slot shows its body, so nothing shows that it was dissolved. -/
theorem renderNodes_unnest {κ : Type} (env : Environment κ) (depth : Nat) (name : Text)
    (body : List Node) : renderNodes env depth (unnest name body) = renderNodes env depth body := by
  refine evalNodes_rebuild ?_ (fun other => ?_) body
  · intro other body rebuilt hrebuilt
    show evalNodes env _ (if other = name then rebuilt else [.slot other rebuilt]) = _
    split
    · exact hrebuilt
    · rw [evalNodes_singleton, evalNode, hrebuilt]
  · show evalNodes env _ [.inclusion other] = _
    rw [evalNodes_singleton, evalNode]

/-- **A recorded body does not contain its own slot and keeps its meaning.** `unnest` is the
recursion, and the recursion ends on every body: its calls nest at most one deeper than there are
slots of the name. It gives the body with these slots dissolved, and nothing else: none is left at
any depth, and the slots of other names stand in their places. What is left shows what the body
showed, whatever the context, the computed entries and the macros. -/
theorem unnest_dissolves (name : Text) (body : List Node) :
    unnestBy name (unnest name) body = unnest name body ∧
    (∀ below more,
      (unnestBy name)^[(slotNames body).count name + 1 + more] below body = unnest name body) ∧
    (∀ result, result = unnest name body ↔ ∃ out, Dissolves name body out ∧ result = merged out) ∧
    (∀ inner, .slot name inner ∉ nodesWithin (unnest name body)) ∧
    slotNames (unnest name body) = (slotNames body).filter (· ≠ name) ∧
    ∀ (κ : Type) (env : Environment κ) (depth : Nat),
      renderNodes env depth (unnest name body) = renderNodes env depth body := by
  have hslots := slotNames_unnest name body
  refine ⟨?_, ?_, ?_, ?_, hslots, ?_⟩
  · exact unnestBy_eq (fun _ _ => rfl) le_rfl
  · intro below more
    exact iterate_unnestBy below (by omega)
  · intro result
    obtain ⟨out, hout, hunnest⟩ := exists_dissolves_unnest name body
    constructor
    · rintro rfl
      exact ⟨out, hout, hunnest⟩
    · rintro ⟨other, hother, rfl⟩
      rw [hunnest, hout.unique hother]
  · intro inner hinner
    have hname : name ∈ slotNames (unnest name body) := (mem_slotNames name _).mpr ⟨inner, hinner⟩
    rw [hslots] at hname
    simpa using List.of_mem_filter hname
  · intro κ env depth
    exact renderNodes_unnest env depth name body

end Stencil
