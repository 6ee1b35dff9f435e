import Stencil.Engine

/-!
# Resolution only asks for documents

Resolving a document is made of requests to the source of documents and of what is done with the
answers. So take a relation between the actions of two sources that holds of every request, and of
actions one after the other if it holds of each of them: it holds of the whole resolution with the
one source and with the other (`resolveDocument_related`). In particular what holds of every request
holds of the resolution (`resolveDocument_of_requests`).
-/

set_option autoImplicit false

namespace Stencil

section Related

variable {m n : Type → Type} [Monad m] [Monad n] {R : ∀ {α : Type}, m α → n α → Prop}
  (hpure : ∀ {α : Type} (value : α), R (pure value) (pure value))
  (hbind : ∀ {α β : Type} (first : m α) (other : n α) (next : α → m β) (otherNext : α → n β),
    R first other → (∀ value, R (next value) (otherNext value)) →
    R (first >>= next) (other >>= otherNext))
  {fetch : Text → m (Option Document)} {other : Text → n (Option Document)}
  (hfetch : ∀ name, R (fetch name) (other name))

include hpure hbind hfetch

theorem followParents_related (limit hops : Nat) (overrides : Overrides) (document : Document) :
    R (followParents fetch limit hops overrides document)
      (followParents other limit hops overrides document) := by
  induction hops generalizing overrides document with
  | zero =>
      unfold followParents
      cases document.parentName with
      | none => exact hpure _
      | some parent => exact hpure _
  | succ hops ih =>
      unfold followParents
      cases document.parentName with
      | none => exact hpure _
      | some parent =>
          refine hbind _ _ _ _ (hfetch parent) fun answer => ?_
          cases answer with
          | none => exact hpure _
          | some next => exact ih _ next

theorem fetchBodies_related (names : List Text) :
    R (fetchBodies fetch names) (fetchBodies other names) := by
  induction names with
  | nil => exact hpure _
  | cons name rest ih =>
      unfold fetchBodies
      exact hbind _ _ _ _ (hfetch name) fun _ => hbind _ _ _ _ ih fun _ => hpure _

theorem inlineInclusions_related (limit passes : Nat) (nodes : List Node) :
    R (inlineInclusions fetch limit passes nodes) (inlineInclusions other limit passes nodes) := by
  induction passes generalizing nodes with
  | zero =>
      rw [inlineInclusions, inlineInclusions]
      split
      · exact hpure _
      · exact hpure _
  | succ passes ih =>
      rw [inlineInclusions, inlineInclusions]
      split
      · exact hpure _
      · exact hbind _ _ _ _ (fetchBodies_related hpure hbind hfetch _) fun _ => ih _

/-- **What relates requests relates the resolutions** that are made of them. -/
theorem resolveDocument_related (limits : Limits) (document : Document) :
    R (resolveDocument fetch limits document) (resolveDocument other limits document) := by
  unfold resolveDocument
  refine hbind _ _ _ _ (followParents_related hpure hbind hfetch _ _ _ _) fun answer => ?_
  obtain ⟨error | nodes, overrides⟩ := answer
  · exact hpure _
  · exact inlineInclusions_related hpure hbind hfetch _ _ nodes

end Related

variable {m : Type → Type} [Monad m] {P : ∀ {α : Type}, m α → Prop}
  (hpure : ∀ {α : Type} (value : α), P (pure value))
  (hbind : ∀ {α β : Type} (first : m α) (next : α → m β), P first → (∀ value, P (next value)) →
    P (first >>= next))

include hpure hbind

/-- What holds of requests holds of the resolution. -/
theorem resolveDocument_of_requests {fetch : Text → m (Option Document)}
    (hfetch : ∀ name, P (fetch name)) (limits : Limits) (document : Document) :
    P (resolveDocument fetch limits document) :=
  @resolveDocument_related m m _ _ (fun action _ => P action) hpure
    (fun first _ next _ => hbind first next) fetch fetch hfetch limits document

/-- The same for rendering a text, which does nothing else but resolve it. -/
theorem renderText_of_requests {κ : Type} {find : Text → m (Option Template)}
    (hfind : ∀ name, P (documentSource find name)) (evaluator : Evaluator κ) (macros : Macros κ)
    (limits : Limits) (source : Text) (data : Value κ) :
    P (renderText evaluator find macros limits source data) := by
  unfold renderText
  split
  · exact hpure _
  · exact hbind _ _ (resolveDocument_of_requests hpure hbind hfind _ _) fun _ => hpure _

end Stencil
