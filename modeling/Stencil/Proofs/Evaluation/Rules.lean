import Stencil.Evaluation
import Stencil.Proofs.Tree.Settled

/-!
# The rules of evaluation

`Evaluates possible evaluand context outcome after` says that an evaluation from `context` can have
that outcome and leave the context `after` behind, where every key is resolved and every macro is
called in an environment that `possible` allows. Two keys need not meet the same environment. So
the rules also tell of computed entries and macros that answer differently each time: they can
count their calls, look at a clock, or share a state. Macros act by the requests of a `MacroRun`
only.

A panic can leave any context behind; a loop or scope shift that it passes puts nothing back. The
rule `callPanicked` starts from the context of the call again. A macro that catches a panic of text
that it has rendered goes on in the context that is left, and its call ends there. Where no macro
does that, an evaluation without a panic ends in the context it started from
(`Evaluates.after_eq`).
-/

set_option autoImplicit false

namespace Stencil

variable {κ : Type}

/-! ## What is evaluated -/

/-- What there is to evaluate in a context. -/
inductive Evaluand (κ : Type) where
  | node (node : Node)
  | nodes (nodes : List Node)
  /-- A body in each of several contexts. -/
  | each (body : List Node) (contexts : List (Value κ))
  /-- What is left of the run of a macro. -/
  | run (run : MacroRun κ)

/-- What a block shows for the value of its key. -/
def blockEvaluand (kind : BlockKind) (body : List Node) (otherwise : Option (List Node))
    (value : Value κ) : Evaluand κ :=
  if value.isTruthy then
    match kind with
    | .conditional => .nodes body
    | .negated => .nodes []
    | .enumerate => .each body (loopContexts value)
    | .scopeShift => .each body (shiftContexts value)
  else
    match kind with
    | .negated => .nodes body
    | _ => .nodes (otherwise.getD [])

/-- Something other than what is left of the run of a macro. -/
def Evaluand.IsOutside : Evaluand κ → Prop
  | .run _ => False
  | .node _ | .nodes _ | .each _ _ => True

theorem isOutside_blockEvaluand (kind : BlockKind) (body : List Node)
    (otherwise : Option (List Node)) (value : Value κ) :
    (blockEvaluand kind body otherwise value).IsOutside := by
  unfold blockEvaluand
  split <;> cases kind <;> trivial

/-- The tree that an evaluand is about. There is none for the run of a macro. -/
def Evaluand.tree : Evaluand κ → List Node
  | .node one => [one]
  | .nodes tree => tree
  | .each body _ => body
  | .run _ => []

theorem nodesWithin_tree_blockEvaluand (kind : BlockKind) (key : Text) (body : List Node)
    (otherwise : Option (List Node)) (value : Value κ) :
    nodesWithin (blockEvaluand kind body otherwise value).tree
      ⊆ nodesWithin [.block kind key body otherwise] := by
  have hbody := nodesWithin_subset_block kind key body [] otherwise
  have hother := nodesWithin_subset_otherwise kind key body [] otherwise
  unfold blockEvaluand
  by_cases hvalue : value.isTruthy = true
  · rw [if_pos hvalue]
    cases kind with
    | conditional | enumerate | scopeShift => exact hbody
    | negated => exact List.nil_subset _
  · rw [if_neg hvalue]
    cases kind with
    | conditional | enumerate | scopeShift => exact hother
    | negated => exact hbody

/-- The outcome with a text put before the text it shows. -/
def Outcome.prepend (before : Text) (outcome : Outcome (Option Text)) : Outcome (Option Text) :=
  outcome.map (Option.map (before ++ ·))

/-! ## The rules -/

/-- What the arguments of a call can be. They are found from left to right. -/
inductive ArgumentsGive (possible : Environment κ → Prop) (context : Value κ) :
    List Argument → Outcome (List (Value κ)) → Prop where
  | nil : ArgumentsGive possible context [] (.done [])
  | literal {content : Text} {rest : List Argument} {outcome : Outcome (List (Value κ))} :
      ArgumentsGive possible context rest outcome →
      ArgumentsGive possible context (.literal content :: rest)
        (outcome.map (.text content :: ·))
  | key {key : Text} {rest : List Argument} {outcome : Outcome (List (Value κ))}
      {env : Environment κ} {value : Value κ} :
      possible env → resolve env.evaluate context key = .done value →
      ArgumentsGive possible context rest outcome →
      ArgumentsGive possible context (.key key :: rest) (outcome.map (value :: ·))
  | keyPanicked {key : Text} {rest : List Argument} {env : Environment κ} :
      possible env → resolve env.evaluate context key = .panicked →
      ArgumentsGive possible context (.key key :: rest) .panicked

/-- How an evaluation can end, and in which context. It is done with no text if it is the run of a
macro that fails. -/
inductive Evaluates (possible : Environment κ → Prop) :
    Evaluand κ → Value κ → Outcome (Option Text) → Value κ → Prop where
  | text {content : Text} {context : Value κ} :
      Evaluates possible (.node (.text content)) context (.done (some content)) context
  | value {key : Text} {isEscaped : Bool} {context value : Value κ} {env : Environment κ} :
      possible env → resolve env.evaluate context key = .done value →
      Evaluates possible (.node (.value key isEscaped)) context
        (.done (some (shownValue key isEscaped value))) context
  | valuePanicked {key : Text} {isEscaped : Bool} {context : Value κ} {env : Environment κ} :
      possible env → resolve env.evaluate context key = .panicked →
      Evaluates possible (.node (.value key isEscaped)) context .panicked context
  | block {kind : BlockKind} {key : Text} {body : List Node} {otherwise : Option (List Node)}
      {context value after : Value κ} {env : Environment κ} {outcome : Outcome (Option Text)} :
      possible env → resolve env.evaluate context key = .done value →
      Evaluates possible (blockEvaluand kind body otherwise value) context outcome after →
      Evaluates possible (.node (.block kind key body otherwise)) context outcome after
  | blockPanicked {kind : BlockKind} {key : Text} {body : List Node}
      {otherwise : Option (List Node)} {context : Value κ} {env : Environment κ} :
      possible env → resolve env.evaluate context key = .panicked →
      Evaluates possible (.node (.block kind key body otherwise)) context .panicked context
  | slot {name : Text} {body : List Node} {context after : Value κ}
      {outcome : Outcome (Option Text)} :
      Evaluates possible (.nodes body) context outcome after →
      Evaluates possible (.node (.slot name body)) context outcome after
  | inclusion {name : Text} {context : Value κ} :
      Evaluates possible (.node (.inclusion name)) context (.done (some [])) context
  | callArgumentPanicked {name : Text} {arguments : List Argument} {body : Option (List Node)}
      {context : Value κ} :
      ArgumentsGive possible context arguments .panicked →
      Evaluates possible (.node (.call name arguments body)) context .panicked context
  | callShown {name : Text} {arguments : List Argument} {body : Option (List Node)}
      {context after : Value κ} {args : List (Value κ)} {env : Environment κ} {m : Macro κ}
      {content : Text} :
      ArgumentsGive possible context arguments (.done args) →
      possible env → lookup? name env.macros = some m →
      Evaluates possible (.run (m args)) context (.done (some content)) after →
      Evaluates possible (.node (.call name arguments body)) context (.done (some content)) after
  | callUnregistered {name : Text} {arguments : List Argument} {body : Option (List Node)}
      {context after : Value κ} {args : List (Value κ)} {env : Environment κ}
      {outcome : Outcome (Option Text)} :
      ArgumentsGive possible context arguments (.done args) →
      possible env → lookup? name env.macros = none →
      Evaluates possible (.nodes (body.getD [])) context outcome after →
      Evaluates possible (.node (.call name arguments body)) context outcome after
  | callFailed {name : Text} {arguments : List Argument} {body : Option (List Node)}
      {context left after : Value κ} {args : List (Value κ)} {env : Environment κ} {m : Macro κ}
      {outcome : Outcome (Option Text)} :
      ArgumentsGive possible context arguments (.done args) →
      possible env → lookup? name env.macros = some m →
      Evaluates possible (.run (m args)) context (.done none) left →
      Evaluates possible (.nodes (body.getD [])) left outcome after →
      Evaluates possible (.node (.call name arguments body)) context outcome after
  -- whatever context the panic leaves, the body is shown in that of the call
  | callPanicked {name : Text} {arguments : List Argument} {body : Option (List Node)}
      {context left after : Value κ} {args : List (Value κ)} {env : Environment κ} {m : Macro κ}
      {outcome : Outcome (Option Text)} :
      ArgumentsGive possible context arguments (.done args) →
      possible env → lookup? name env.macros = some m →
      Evaluates possible (.run (m args)) context .panicked left →
      Evaluates possible (.nodes (body.getD [])) context outcome after →
      Evaluates possible (.node (.call name arguments body)) context outcome after
  | nil {context : Value κ} :
      Evaluates possible (.nodes []) context (.done (some [])) context
  | cons {node : Node} {rest : List Node} {context between after : Value κ} {before : Text}
      {outcome : Outcome (Option Text)} :
      Evaluates possible (.node node) context (.done (some before)) between →
      Evaluates possible (.nodes rest) between outcome after →
      Evaluates possible (.nodes (node :: rest)) context (outcome.prepend before) after
  | consPanicked {node : Node} {rest : List Node} {context left : Value κ} :
      Evaluates possible (.node node) context .panicked left →
      Evaluates possible (.nodes (node :: rest)) context .panicked left
  | eachNil {body : List Node} {context : Value κ} :
      Evaluates possible (.each body []) context (.done (some [])) context
  -- the context that the body ends in is not looked at
  | eachCons {body : List Node} {inner left context after : Value κ} {rest : List (Value κ)}
      {before : Text} {outcome : Outcome (Option Text)} :
      Evaluates possible (.nodes body) inner (.done (some before)) left →
      Evaluates possible (.each body rest) context outcome after →
      Evaluates possible (.each body (inner :: rest)) context (outcome.prepend before) after
  -- the outer context is lost
  | eachPanicked {body : List Node} {inner left context : Value κ} {rest : List (Value κ)} :
      Evaluates possible (.nodes body) inner .panicked left →
      Evaluates possible (.each body (inner :: rest)) context .panicked left
  | runDone {content : Text} {context : Value κ} :
      Evaluates possible (.run (.done content)) context (.done (some content)) context
  | runFailed {message : Text} {context : Value κ} :
      Evaluates possible (.run (.failed message)) context (.done none) context
  | runPanicked {context : Value κ} :
      Evaluates possible (.run .panicked) context .panicked context
  | runContext {next : Value κ → MacroRun κ} {context after : Value κ}
      {outcome : Outcome (Option Text)} :
      Evaluates possible (.run (next context)) context outcome after →
      Evaluates possible (.run (.context next)) context outcome after
  | runTryKey {key : Text} {next : Outcome (Value κ) → MacroRun κ} {context after : Value κ}
      {answer : Outcome (Value κ)} {env : Environment κ} {outcome : Outcome (Option Text)} :
      possible env → resolve env.evaluate context key = answer →
      Evaluates possible (.run (next answer)) context outcome after →
      Evaluates possible (.run (.tryKey key next)) context outcome after
  -- a macro that goes on after a panic goes on in the context that is left
  | runTryTemplate {source : Text} {next : Outcome Text → MacroRun κ}
      {context between after : Value κ} {answer : Outcome Text} {outcome : Outcome (Option Text)} :
      Evaluates possible (.nodes (parseFragment source)) context (answer.map some) between →
      Evaluates possible (.run (next answer)) between outcome after →
      Evaluates possible (.run (.tryTemplate source next)) context outcome after

/-! ## Macros that pass panics on -/

/-- The macro panics in the end, whatever it is answered. -/
def MacroRun.Panics : MacroRun κ → Prop
  | .done _ | .failed _ => False
  | .panicked => True
  | .context next => ∀ value, (next value).Panics
  | .tryKey _ next => ∀ answer, (next answer).Panics
  | .tryTemplate _ next => ∀ answer, (next answer).Panics

/-- The macro panics in the end where text that it has rendered does. -/
def MacroRun.PassesPanics : MacroRun κ → Prop
  | .done _ | .failed _ | .panicked => True
  | .context next => ∀ value, (next value).PassesPanics
  | .tryKey _ next => ∀ answer, (next answer).PassesPanics
  | .tryTemplate _ next =>
    (next .panicked).Panics ∧ ∀ content, (next (.done content)).PassesPanics

/-- All registered macros pass panics on. -/
def Environment.PassesPanics (env : Environment κ) : Prop :=
  ∀ (name : Text) (m : Macro κ), lookup? name env.macros = some m → ∀ args, (m args).PassesPanics

/-- If a macro is left to run, it passes panics on. -/
def Evaluand.PassesPanics : Evaluand κ → Prop
  | .run rest => rest.PassesPanics
  | .node _ | .nodes _ | .each _ _ => True

theorem Evaluand.IsOutside.passesPanics {evaluand : Evaluand κ} (h : evaluand.IsOutside) :
    evaluand.PassesPanics := by
  cases evaluand with
  | run rest => exact h.elim
  | node | nodes | each => trivial

theorem MacroRun.passesPanics_template {source : Text} {next : Text → MacroRun κ}
    (h : ∀ content, (next content).PassesPanics) : (template source next).PassesPanics :=
  ⟨trivial, h⟩

theorem Evaluates.eq_panicked {possible : Environment κ → Prop} {run : MacroRun κ}
    {context after : Value κ} {outcome : Outcome (Option Text)}
    (h : Evaluates possible (.run run) context outcome after) (hrun : run.Panics) :
    outcome = .panicked := by
  induction run generalizing context with
  | done content => exact hrun.elim
  | failed message => exact hrun.elim
  | panicked =>
      cases h
      rfl
  | context next ih =>
      cases h with
      | runContext h => exact ih _ h (hrun _)
  | tryKey key next ih =>
      cases h with
      | runTryKey _ _ h => exact ih _ h (hrun _)
  | tryTemplate source next ih =>
      cases h with
      | runTryTemplate _ h => exact ih _ h (hrun _)

/-! ## The context at the end -/

theorem Outcome.prepend_eq_panicked_iff {before : Text} {outcome : Outcome (Option Text)} :
    outcome.prepend before = .panicked ↔ outcome = .panicked := by
  cases outcome <;> simp [Outcome.prepend, Outcome.map]

/-- An evaluation that does not end with a panic ends in the context it started from, if all macros
pass panics on. -/
theorem Evaluates.after_eq {possible : Environment κ → Prop} {evaluand : Evaluand κ}
    {context after : Value κ} {outcome : Outcome (Option Text)}
    (h : Evaluates possible evaluand context outcome after)
    (hpass : ∀ env, possible env → env.PassesPanics) :
    evaluand.PassesPanics → outcome ≠ .panicked → after = context := by
  induction h with
  | text | value | inclusion | nil | eachNil | runDone | runFailed => exact fun _ _ => rfl
  | valuePanicked | blockPanicked | callArgumentPanicked | consPanicked | eachPanicked
  | runPanicked => exact fun _ hne => absurd rfl hne
  | block _ _ _ ih => exact fun _ => ih (isOutside_blockEvaluand _ _ _ _).passesPanics
  | slot _ ih | callUnregistered _ _ _ _ ih => exact fun _ => ih trivial
  | callShown _ henv hm _ ih => exact fun _ => ih (hpass _ henv _ _ hm _)
  | callFailed _ henv hm _ _ ihrun ihbody =>
      intro _ hne
      exact (ihbody trivial hne).trans (ihrun (hpass _ henv _ _ hm _) (by simp))
  | callPanicked _ _ _ _ _ _ ihbody => exact fun _ => ihbody trivial
  | cons _ _ ihnode ihrest =>
      intro _ hne
      rw [Ne, Outcome.prepend_eq_panicked_iff] at hne
      exact (ihrest trivial hne).trans (ihnode trivial (by simp))
  | eachCons _ _ _ ihrest =>
      intro _ hne
      rw [Ne, Outcome.prepend_eq_panicked_iff] at hne
      exact ihrest trivial hne
  | runContext _ ih => exact fun hrun => ih (hrun _)
  | runTryKey _ _ _ ih => exact fun hrun => ih (hrun _)
  | @runTryTemplate _ _ _ _ _ answer _ _ hrest ihtemplate ihrun =>
      intro hrun hne
      cases answer with
      | done content =>
          exact (ihrun (hrun.2 content) hne).trans (ihtemplate trivial (by simp [Outcome.map]))
      -- after a panic the macro can only panic
      | panicked => exact absurd (hrest.eq_panicked hrun.1) hne

end Stencil
