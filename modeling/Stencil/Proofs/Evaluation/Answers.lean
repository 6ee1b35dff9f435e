import Stencil.Proofs.Evaluation.Adequacy

/-!
# Trees without macros are always answered

Evaluation goes deep only in macros that have text rendered. A tree none of whose calls finds a
macro needs no depth at all: whatever `render` does, its evaluation ends with a text or a panic
(`answers_evalNodes`).
-/

set_option autoImplicit false

namespace Stencil

open Evaluation

variable {κ : Type}

namespace Evaluation

variable {α β : Type}

/-- The evaluation gives an answer in every context. -/
def Answers (evaluation : Evaluation κ α) : Prop :=
  ∀ context, ∃ outcome after, evaluation context = some (outcome, after)

theorem answers_pure (value : α) : Answers (pure value : Evaluation κ α) :=
  fun context => ⟨.done value, context, rfl⟩

theorem answers_ofOutcome (ask : Value κ → Outcome α) : Answers (ofOutcome ask) :=
  fun context => ⟨ask context, context, rfl⟩

theorem Answers.bind {first : Evaluation κ α} {next : α → Evaluation κ β} (h : Answers first)
    (hnext : ∀ value, Answers (next value)) : Answers (bind first next) := by
  intro context
  obtain ⟨value | _, between, hfirst⟩ := h context
  · obtain ⟨outcome, after, hlast⟩ := hnext value between
    exact ⟨outcome, after, (bind_of_done hfirst).trans hlast⟩
  · exact ⟨.panicked, between, bind_of_panicked hfirst⟩

theorem Answers.append {first second : Evaluation κ Text} (h : Answers first)
    (h' : Answers second) : Answers (append first second) :=
  h.bind fun _ => h'.bind fun _ => answers_pure _

theorem Answers.inContext {evaluation : Evaluation κ α} (h : Answers evaluation)
    (inner : Value κ) : Answers (inContext inner evaluation) := by
  intro context
  obtain ⟨value | _, left, hinner⟩ := h inner
  · exact ⟨.done value, context, by simp [Evaluation.inContext, hinner]⟩
  · exact ⟨.panicked, left, by simp [Evaluation.inContext, hinner]⟩

theorem Answers.inContexts {evaluation : Evaluation κ Text} (h : Answers evaluation)
    (contexts : List (Value κ)) : Answers (inContexts evaluation contexts) := by
  induction contexts with
  | nil => exact answers_pure []
  | cons context rest ih => exact (h.inContext context).append ih

end Evaluation

/-- None of the calls in the tree, at any depth, finds a macro. -/
def Uncalled (macros : Macros κ) (nodes : List Node) : Prop :=
  ∀ name arguments body, .call name arguments body ∈ nodesWithin nodes → lookup? name macros = none

theorem Uncalled.of_subset {macros : Macros κ} {nodes inner : List Node}
    (h : Uncalled macros nodes) (hinner : nodesWithin inner ⊆ nodesWithin nodes) :
    Uncalled macros inner :=
  fun name arguments body hmem => h name arguments body (hinner hmem)

variable {env : Environment κ} {render : Text → Evaluation κ Text}

/-- A call that finds no macro ends with that failure, and leaves the context as it is. -/
theorem callMacro_of_lookup?_eq_none {name : Text} {args : List (Value κ)}
    (h : lookup? name env.macros = none) :
    callMacro env render name args = Evaluation.pure (.error (.notRegistered name)) := by
  funext context
  simp [callMacro, h, Evaluation.pure]

theorem answers_evalBody {body : Option (List Node)}
    (h : ∀ inner ∈ body, Answers (evalNodes env render inner)) :
    Answers (evalBody env render body) := by
  cases body with
  | none => exact answers_pure []
  | some inner => exact h inner rfl

/-- **A tree whose calls find no macro is always answered.** -/
theorem answers_evalNodes {nodes : List Node} (h : Uncalled env.macros nodes) :
    Answers (evalNodes env render nodes) := by
  induction nodes using tree_induction with
  | nil => exact answers_pure []
  | text content rest ih =>
      have hrest := ih (h.of_subset (nodesWithin_subset_cons _ rest))
      exact (answers_pure content).append hrest
  | value key isEscaped rest ih =>
      have hrest := ih (h.of_subset (nodesWithin_subset_cons _ rest))
      refine Answers.append ?_ hrest
      rw [evalNode]
      exact (answers_ofOutcome _).bind fun _ => answers_pure _
  | block kind key body otherwise rest ihbody ihother ih =>
      have hrest := ih (h.of_subset (nodesWithin_subset_cons _ rest))
      have hbody := ihbody (h.of_subset (nodesWithin_subset_block kind key body rest otherwise))
      have hother : Answers (evalBody env render otherwise) := by
        refine answers_evalBody ?_
        rintro other rfl
        exact ihother other rfl
          (h.of_subset (nodesWithin_subset_otherwise kind key body rest (some other)))
      refine Answers.append ?_ hrest
      simp only [evalNode]
      refine (answers_ofOutcome _).bind fun value => ?_
      by_cases hvalue : value.isTruthy = true
      · rw [if_pos hvalue]
        cases kind with
        | conditional => exact hbody
        | negated => exact answers_pure []
        | enumerate => exact hbody.inContexts (loopContexts value)
        | scopeShift => exact hbody.inContexts (shiftContexts value)
      · rw [if_neg hvalue]
        cases kind with
        | negated => exact hbody
        | conditional | enumerate | scopeShift => exact hother
  | slot name body rest ihbody ih =>
      have hrest := ih (h.of_subset (nodesWithin_subset_cons _ rest))
      refine Answers.append ?_ hrest
      rw [evalNode]
      exact ihbody (h.of_subset (nodesWithin_subset_slot name body rest))
  | inclusion name rest ih =>
      have hrest := ih (h.of_subset (nodesWithin_subset_cons _ rest))
      exact (answers_pure []).append hrest
  | call name arguments body rest ihbody ih =>
      have hrest := ih (h.of_subset (nodesWithin_subset_cons _ rest))
      have hname : lookup? name env.macros = none :=
        h name arguments body (mem_nodesWithin_head _ rest)
      have hbody : Answers (evalBody env render body) := by
        refine answers_evalBody ?_
        rintro inner rfl
        exact ihbody inner rfl
          (h.of_subset (nodesWithin_subset_call name arguments rest (some inner)))
      refine Answers.append ?_ hrest
      rw [evalNode]
      refine Answers.bind (exists_callArgs env arguments) fun args => ?_
      rw [callMacro_of_lookup?_eq_none hname]
      exact hbody

end Stencil
