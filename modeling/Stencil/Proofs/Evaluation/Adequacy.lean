import Stencil.Proofs.Evaluation.Rules

/-!
# The evaluator follows the rules

For one environment the rules of evaluation and the evaluator agree (`evaluates_iff`): a tree can
end with an outcome by the rules if and only if the evaluator gives that outcome for some depth, and
then it does for every depth from some point on. So the depth keeps out nothing but evaluations that
would not end.

`Evaluand.evaluation` is what the evaluator does with anything that the rules speak of. Each of its
equations below has the shape of the rules for that kind of evaluand; both directions of the
agreement are read off from them.
-/

set_option autoImplicit false

namespace Stencil

open Evaluation

variable {κ : Type}

/-! ## Evaluations one after another -/

theorem Outcome.map_some_inj {α : Type} {first second : Outcome α} :
    first.map some = second.map some ↔ first = second := by
  cases first <;> cases second <;> simp [Outcome.map]

namespace Evaluation

variable {α β γ : Type}

/-- The evaluation with a function applied to its value. -/
def map (f : α → β) (evaluation : Evaluation κ α) : Evaluation κ β :=
  bind evaluation fun value => pure (f value)

theorem bind_of_done {first : Evaluation κ α} {next : α → Evaluation κ β}
    {context between : Value κ} {value : α} (h : first context = some (.done value, between)) :
    bind first next context = next value between := by
  simp [bind, h]

theorem bind_of_panicked {first : Evaluation κ α} {next : α → Evaluation κ β}
    {context left : Value κ} (h : first context = some (.panicked, left)) :
    bind first next context = some (.panicked, left) := by
  simp [bind, h]

theorem bind_eq_some_iff {first : Evaluation κ α} {next : α → Evaluation κ β}
    {context after : Value κ} {outcome : Outcome β} :
    bind first next context = some (outcome, after) ↔
      (∃ value between, first context = some (.done value, between) ∧
        next value between = some (outcome, after)) ∨
      (first context = some (.panicked, after) ∧ outcome = .panicked) := by
  unfold bind
  cases hfirst : first context with
  | none => simp
  | some answer =>
      obtain ⟨ending, between⟩ := answer
      cases ending with
      | done value => simp
      | panicked => simp [and_comm, eq_comm]

/-- Something that leaves the context as it is, and then an evaluation. -/
theorem bind_ofOutcome_eq_some_iff {ask : Value κ → Outcome α} {next : α → Evaluation κ β}
    {context after : Value κ} {outcome : Outcome β} :
    bind (ofOutcome ask) next context = some (outcome, after) ↔
      (∃ value, ask context = .done value ∧ next value context = some (outcome, after)) ∨
      (ask context = .panicked ∧ after = context ∧ outcome = .panicked) := by
  cases hask : ask context <;> simp [bind, ofOutcome, hask, eq_comm, and_comm]

/-- A panic of something that is attempted is one of its answers. -/
theorem bind_attempt_eq_some_iff {first : Evaluation κ α} {next : Outcome α → Evaluation κ β}
    {context after : Value κ} {outcome : Outcome β} :
    bind (attempt first) next context = some (outcome, after) ↔
      ∃ answer between, first context = some (answer, between) ∧
        next answer between = some (outcome, after) := by
  cases hfirst : first context with
  | none => simp [bind, attempt, hfirst]
  | some ending =>
      obtain ⟨answer, between⟩ := ending
      simp [bind, attempt, hfirst]

theorem bind_assoc (first : Evaluation κ α) (next : α → Evaluation κ β)
    (last : β → Evaluation κ γ) :
    bind (bind first next) last = bind first fun value => bind (next value) last := by
  funext context
  simp only [bind]
  cases first context with
  | none => rfl
  | some answer =>
      obtain ⟨_ | _, between⟩ := answer <;> rfl

theorem pure_bind (value : α) (next : α → Evaluation κ β) : bind (pure value) next = next value :=
  rfl

theorem map_bind (f : β → γ) (first : Evaluation κ α) (next : α → Evaluation κ β) :
    map f (bind first next) = bind first fun value => map f (next value) :=
  bind_assoc first next fun value => pure (f value)

theorem map_eq_some_iff {f : α → β} {evaluation : Evaluation κ α} {context after : Value κ}
    {outcome : Outcome β} :
    map f evaluation context = some (outcome, after) ↔
      ∃ before : Outcome α, evaluation context = some (before, after) ∧ outcome = before.map f := by
  rw [map, bind_eq_some_iff]
  constructor
  · rintro (⟨value, between, h, ⟨⟩⟩ | ⟨h, rfl⟩)
    · exact ⟨_, h, rfl⟩
    · exact ⟨_, h, rfl⟩
  · rintro ⟨value | _, h, rfl⟩
    · exact .inl ⟨value, after, h, rfl⟩
    · exact .inr ⟨h, rfl⟩

/-- Texts that are shown one after the other: the second is shown where the first has ended. -/
theorem map_append_eq_some_iff {first second : Evaluation κ Text} {context after : Value κ}
    {outcome : Outcome (Option Text)} :
    map some (append first second) context = some (outcome, after) ↔
      (∃ before between rest, map some first context = some (.done (some before), between) ∧
        map some second between = some (rest, after) ∧ outcome = rest.prepend before) ∨
      (map some first context = some (.panicked, after) ∧ outcome = .panicked) := by
  cases hfirst : first context with
  | none => simp [map, append, bind, hfirst]
  | some answer =>
      obtain ⟨before | _, between⟩ := answer
      · cases hsecond : second between with
        | none => simp [map, append, bind, pure, hfirst, hsecond]
        | some answer =>
            obtain ⟨rest | _, last⟩ := answer <;>
              simp [map, append, bind, pure, hfirst, hsecond, Outcome.prepend, Outcome.map,
                and_comm, eq_comm]
      · simp [map, append, bind, pure, hfirst, and_comm, eq_comm]

/-- A text that is shown in another context: the outer context is back. -/
theorem map_inContext_eq_done_iff {inner context between : Value κ} {evaluation : Evaluation κ Text}
    {content : Text} :
    map some (inContext inner evaluation) context = some (.done (some content), between) ↔
      between = context ∧
        ∃ left, map some evaluation inner = some (.done (some content), left) := by
  cases h : evaluation inner with
  | none => simp [map, bind, inContext, h]
  | some answer =>
      obtain ⟨shown | _, left⟩ := answer <;>
        simp [map, bind, pure, inContext, h, and_comm, eq_comm]

/-- A panic in another context: that context, or one inside it, is left. -/
theorem map_inContext_eq_panicked_iff {inner context left : Value κ}
    {evaluation : Evaluation κ Text} :
    map some (inContext inner evaluation) context = some (.panicked, left) ↔
      map some evaluation inner = some (.panicked, left) := by
  cases h : evaluation inner with
  | none => simp [map, bind, inContext, h]
  | some answer =>
      obtain ⟨shown | _, ending⟩ := answer <;> simp [map, bind, pure, inContext, h]

end Evaluation

/-! ## What the evaluator does -/

/-- What the evaluator does with an evaluand; no text where a macro fails. -/
def Evaluand.evaluation (env : Environment κ) (render : Text → Evaluation κ Text) :
    Evaluand κ → Evaluation κ (Option Text)
  | .node one => map some (evalNode env render one)
  | .nodes tree => map some (evalNodes env render tree)
  | .each body contexts => map some (inContexts (evalNodes env render body) contexts)
  | .run rest => map Except.toOption (rest.run env render)

section Equations

variable (env : Environment κ) (render : Text → Evaluation κ Text)

theorem evaluation_nodes_nil :
    (Evaluand.nodes []).evaluation env render = pure (some []) := by
  simp only [Evaluand.evaluation, evalNodes]
  rfl

theorem evaluation_body (body : Option (List Node)) :
    map some (evalBody env render body)
      = (Evaluand.nodes (body.getD [])).evaluation env render := by
  cases body with
  | none => exact (evaluation_nodes_nil env render).symm
  | some body => rfl

theorem evaluation_text (content : Text) :
    (Evaluand.node (.text content)).evaluation env render = pure (some content) := by
  simp only [Evaluand.evaluation, evalNode]
  rfl

theorem evaluation_value (key : Text) (isEscaped : Bool) :
    (Evaluand.node (.value key isEscaped)).evaluation env render =
      bind (ofOutcome fun context => resolve env.evaluate context key) fun value =>
        pure (some (shownValue key isEscaped value)) := by
  simp only [Evaluand.evaluation, evalNode, map_bind]
  rfl

theorem evaluation_block (kind : BlockKind) (key : Text) (body : List Node)
    (otherwise : Option (List Node)) :
    (Evaluand.node (.block kind key body otherwise)).evaluation env render =
      bind (ofOutcome fun context => resolve env.evaluate context key) fun value =>
        (blockEvaluand kind body otherwise value).evaluation env render := by
  show map some (evalNode env render (.block kind key body otherwise)) = _
  simp only [evalNode, map_bind]
  congr 1
  funext value
  unfold blockEvaluand
  by_cases hv : value.isTruthy = true
  · rw [if_pos hv, if_pos hv]
    cases kind with
    | negated => exact (evaluation_nodes_nil env render).symm
    | conditional | enumerate | scopeShift => rfl
  · rw [if_neg hv, if_neg hv]
    cases kind with
    | negated => rfl
    | conditional | enumerate | scopeShift => exact evaluation_body env render otherwise

theorem evaluation_slot (name : Text) (body : List Node) :
    (Evaluand.node (.slot name body)).evaluation env render
      = (Evaluand.nodes body).evaluation env render := by
  simp only [Evaluand.evaluation, evalNode]

theorem evaluation_inclusion (name : Text) :
    (Evaluand.node (.inclusion name)).evaluation env render = pure (some []) := by
  simp only [Evaluand.evaluation, evalNode]
  rfl

theorem evaluation_run_context (next : Value κ → MacroRun κ) (context : Value κ) :
    (Evaluand.run (.context next)).evaluation env render context
      = (Evaluand.run (next context)).evaluation env render context := rfl

theorem evaluation_run_tryKey (key : Text) (next : Outcome (Value κ) → MacroRun κ)
    (context : Value κ) :
    (Evaluand.run (.tryKey key next)).evaluation env render context =
      (Evaluand.run (next (resolve env.evaluate context key))).evaluation env render context := rfl

theorem evaluation_run_tryTemplate (source : Text) (next : Outcome Text → MacroRun κ) :
    (Evaluand.run (.tryTemplate source next)).evaluation env render =
      bind (attempt (render source)) fun answer =>
        (Evaluand.run (next answer)).evaluation env render := by
  simp only [Evaluand.evaluation, MacroRun.run, map_bind]

/-- A node and the nodes after it. -/
theorem evaluation_nodes_cons_iff (node : Node) (rest : List Node) (context after : Value κ)
    (outcome : Outcome (Option Text)) :
    (Evaluand.nodes (node :: rest)).evaluation env render context = some (outcome, after) ↔
      (∃ before between ending,
        (Evaluand.node node).evaluation env render context
            = some (.done (some before), between) ∧
          (Evaluand.nodes rest).evaluation env render between = some (ending, after) ∧
          outcome = ending.prepend before) ∨
      ((Evaluand.node node).evaluation env render context = some (.panicked, after) ∧
        outcome = .panicked) :=
  map_append_eq_some_iff

/-- A body in one context and in those after it. -/
theorem evaluation_each_cons_iff (body : List Node) (inner : Value κ) (rest : List (Value κ))
    (context after : Value κ) (outcome : Outcome (Option Text)) :
    (Evaluand.each body (inner :: rest)).evaluation env render context = some (outcome, after) ↔
      (∃ before left ending,
        (Evaluand.nodes body).evaluation env render inner = some (.done (some before), left) ∧
          (Evaluand.each body rest).evaluation env render context = some (ending, after) ∧
          outcome = ending.prepend before) ∨
      ((Evaluand.nodes body).evaluation env render inner = some (.panicked, after) ∧
        outcome = .panicked) := by
  have h := @map_append_eq_some_iff κ (inContext inner (evalNodes env render body))
    (inContexts (evalNodes env render body) rest) context after outcome
  rw [map_inContext_eq_panicked_iff] at h
  refine h.trans (or_congr_left ?_)
  constructor
  · rintro ⟨before, between, ending, hbody, hrest, hending⟩
    obtain ⟨rfl, left, hbody⟩ := map_inContext_eq_done_iff.mp hbody
    exact ⟨before, left, ending, hbody, hrest, hending⟩
  · rintro ⟨before, left, ending, hbody, hrest, hending⟩
    refine ⟨before, context, ending, ?_, hrest, hending⟩
    exact map_inContext_eq_done_iff.mpr ⟨rfl, left, hbody⟩

/-- A call whose arguments are found: its body is shown if the macro gives no text. -/
theorem evaluation_call_of_args {name : Text} {arguments : List Argument}
    {body : Option (List Node)} {context : Value κ} {args : List (Value κ)}
    (hargs : callArgs env arguments context = some (.done args, context)) :
    (Evaluand.node (.call name arguments body)).evaluation env render context =
      match lookup? name env.macros with
      | none => (Evaluand.nodes (body.getD [])).evaluation env render context
      | some m =>
        match (Evaluand.run (m args)).evaluation env render context with
        | none => none
        | some (.done (some content), after) => some (.done (some content), after)
        | some (.done none, after) => (Evaluand.nodes (body.getD [])).evaluation env render after
        | some (.panicked, _) => (Evaluand.nodes (body.getD [])).evaluation env render context := by
  show map some (evalNode env render (.call name arguments body)) context = _
  rw [evalNode, map_bind, bind_of_done hargs, map_bind]
  rw [← evaluation_body env render body]
  cases hm : lookup? name env.macros with
  | none =>
      have hcall : callMacro env render name args context
          = some (.done (.error (.notRegistered name)), context) := by simp [callMacro, hm]
      exact bind_of_done hcall
  | some m =>
      cases hrun : (m args).run env render context with
      | none => simp [Evaluand.evaluation, map, Evaluation.bind, callMacro, hm, hrun]
      | some answer =>
          obtain ⟨(failure | content) | _, left⟩ := answer <;>
            simp [Evaluand.evaluation, map, Evaluation.bind, Evaluation.pure, callMacro, hm, hrun,
              Except.toOption]

theorem evaluation_call_of_panicked {name : Text} {arguments : List Argument}
    {body : Option (List Node)} {context left : Value κ}
    (hargs : callArgs env arguments context = some (.panicked, left)) :
    (Evaluand.node (.call name arguments body)).evaluation env render context
      = some (.panicked, left) := by
  show map some (evalNode env render (.call name arguments body)) context = _
  rw [evalNode, map_bind]
  exact bind_of_panicked hargs

end Equations

/-! ## What the evaluator gives is allowed -/

/-- The arguments that the evaluator finds; the context stays. -/
theorem argumentsGive_of_callArgs {env : Environment κ} {arguments : List Argument}
    {context after : Value κ} {outcome : Outcome (List (Value κ))}
    (h : callArgs env arguments context = some (outcome, after)) :
    after = context ∧ ArgumentsGive (· = env) context arguments outcome := by
  induction arguments generalizing outcome after with
  | nil =>
      cases h
      exact ⟨rfl, .nil⟩
  | cons argument rest ih =>
      rw [callArgs, bind_ofOutcome_eq_some_iff] at h
      obtain ⟨value, hvalue, h⟩ | ⟨hvalue, rfl, rfl⟩ := h
      · obtain ⟨ending, hrest, rfl⟩ := map_eq_some_iff.mp h
        obtain ⟨rfl, hgive⟩ := ih hrest
        cases argument with
        | literal content =>
            cases hvalue
            exact ⟨rfl, .literal hgive⟩
        | key key => exact ⟨rfl, .key rfl hvalue hgive⟩
      · cases argument with
        | literal content => cases hvalue
        | key key => exact ⟨rfl, .keyPanicked rfl hvalue⟩

/-- Arguments are found or one of them panics; they cannot go too deep. -/
theorem exists_callArgs (env : Environment κ) (arguments : List Argument) (context : Value κ) :
    ∃ outcome after, callArgs env arguments context = some (outcome, after) := by
  induction arguments generalizing context with
  | nil => exact ⟨_, _, rfl⟩
  | cons argument rest ih =>
      obtain ⟨ending, after, hrest⟩ := ih context
      have hmap (value : Value κ) : map (value :: ·) (callArgs env rest) context
          = some (ending.map (value :: ·), after) := map_eq_some_iff.mpr ⟨ending, hrest, rfl⟩
      cases argument with
      | literal content => exact ⟨_, _, hmap _⟩
      | key key =>
          cases hkey : resolve env.evaluate context key with
          | done value =>
              exact ⟨_, _, bind_ofOutcome_eq_some_iff.mpr (.inl ⟨value, hkey, hmap value⟩)⟩
          | panicked =>
              exact ⟨_, _, bind_ofOutcome_eq_some_iff.mpr (.inr ⟨hkey, rfl, rfl⟩)⟩

/-- The evaluator gives only what the rules allow for the evaluand. -/
def Evaluand.IsSound (env : Environment κ) (render : Text → Evaluation κ Text)
    (evaluand : Evaluand κ) : Prop :=
  ∀ context outcome after, evaluand.evaluation env render context = some (outcome, after) →
    Evaluates (· = env) evaluand context outcome after

section Soundness

variable {env : Environment κ} {render : Text → Evaluation κ Text}

theorem isSound_cons {node : Node} {rest : List Node}
    (hnode : (Evaluand.node node).IsSound env render)
    (hrest : (Evaluand.nodes rest).IsSound env render) :
    (Evaluand.nodes (node :: rest)).IsSound env render := by
  intro context outcome after h
  rw [evaluation_nodes_cons_iff] at h
  obtain ⟨before, between, ending, hfirst, hsecond, rfl⟩ | ⟨hfirst, rfl⟩ := h
  · exact .cons (hnode _ _ _ hfirst) (hrest _ _ _ hsecond)
  · exact .consPanicked (hnode _ _ _ hfirst)

theorem isSound_nil : (Evaluand.nodes []).IsSound env render := by
  intro context outcome after h
  rw [evaluation_nodes_nil] at h
  cases h
  exact .nil

theorem isSound_each {body : List Node} (hbody : (Evaluand.nodes body).IsSound env render)
    (contexts : List (Value κ)) : (Evaluand.each body contexts).IsSound env render := by
  induction contexts with
  | nil =>
      intro context outcome after h
      cases h
      exact .eachNil
  | cons inner rest ih =>
      intro context outcome after h
      rw [evaluation_each_cons_iff] at h
      obtain ⟨before, left, ending, hinner, hrest, rfl⟩ | ⟨hinner, rfl⟩ := h
      · exact .eachCons (hbody _ _ _ hinner) (ih _ _ _ hrest)
      · exact .eachPanicked (hbody _ _ _ hinner)

/-- A body that may be absent. -/
theorem isSound_body {body : Option (List Node)}
    (h : ∀ inner ∈ body, (Evaluand.nodes inner).IsSound env render) :
    (Evaluand.nodes (body.getD [])).IsSound env render := by
  cases body with
  | none => exact isSound_nil
  | some inner => exact h inner rfl

theorem isSound_blockEvaluand {kind : BlockKind} {body : List Node}
    {otherwise : Option (List Node)} (hbody : (Evaluand.nodes body).IsSound env render)
    (hotherwise : ∀ inner ∈ otherwise, (Evaluand.nodes inner).IsSound env render)
    (value : Value κ) : (blockEvaluand kind body otherwise value).IsSound env render := by
  unfold blockEvaluand
  split
  · cases kind with
    | conditional => exact hbody
    | negated => exact isSound_nil
    | enumerate => exact isSound_each hbody _
    | scopeShift => exact isSound_each hbody _
  · cases kind with
    | negated => exact hbody
    | conditional | enumerate | scopeShift => exact isSound_body hotherwise

theorem isSound_block {kind : BlockKind} {key : Text} {body : List Node}
    {otherwise : Option (List Node)} (hbody : (Evaluand.nodes body).IsSound env render)
    (hotherwise : ∀ inner ∈ otherwise, (Evaluand.nodes inner).IsSound env render) :
    (Evaluand.node (.block kind key body otherwise)).IsSound env render := by
  intro context outcome after h
  rw [evaluation_block, bind_ofOutcome_eq_some_iff] at h
  obtain ⟨value, hkey, h⟩ | ⟨hkey, rfl, rfl⟩ := h
  · exact .block rfl hkey (isSound_blockEvaluand hbody hotherwise value _ _ _ h)
  · exact .blockPanicked rfl hkey

theorem isSound_run
    (hrender : ∀ source context outcome after,
      map some (render source) context = some (outcome, after) →
        Evaluates (· = env) (.nodes (parseFragment source)) context outcome after)
    (run : MacroRun κ) : (Evaluand.run run).IsSound env render := by
  induction run with
  | done content =>
      intro context outcome after h
      cases h
      exact .runDone
  | failed message =>
      intro context outcome after h
      cases h
      exact .runFailed
  | panicked =>
      intro context outcome after h
      cases h
      exact .runPanicked
  | context next ih =>
      intro context outcome after h
      rw [evaluation_run_context] at h
      exact .runContext (ih context _ _ _ h)
  | tryKey key next ih =>
      intro context outcome after h
      rw [evaluation_run_tryKey] at h
      exact .runTryKey rfl rfl (ih _ _ _ _ h)
  | tryTemplate source next ih =>
      intro context outcome after h
      rw [evaluation_run_tryTemplate, bind_attempt_eq_some_iff] at h
      obtain ⟨answer, between, hsource, h⟩ := h
      have hnodes := hrender source context _ _ (map_eq_some_iff.mpr ⟨answer, hsource, rfl⟩)
      exact .runTryTemplate hnodes (ih answer _ _ _ h)

theorem isSound_call {name : Text} {arguments : List Argument} {body : Option (List Node)}
    (hrun : ∀ run : MacroRun κ, (Evaluand.run run).IsSound env render)
    (hbody : ∀ inner ∈ body, (Evaluand.nodes inner).IsSound env render) :
    (Evaluand.node (.call name arguments body)).IsSound env render := by
  intro context outcome after h
  have hshow := isSound_body hbody
  obtain ⟨found, between, hargs⟩ := exists_callArgs env arguments context
  obtain ⟨rfl, hgive⟩ := argumentsGive_of_callArgs hargs
  cases found with
  | panicked =>
      rw [evaluation_call_of_panicked env render hargs] at h
      cases h
      exact .callArgumentPanicked hgive
  | done args =>
      rw [evaluation_call_of_args env render hargs] at h
      cases hm : lookup? name env.macros with
      | none =>
          rw [hm] at h
          exact .callUnregistered hgive rfl hm (hshow _ _ _ h)
      | some m =>
          rw [hm] at h
          cases hanswer : (Evaluand.run (m args)).evaluation env render between with
          | none => simp [hanswer] at h
          | some answer =>
              obtain ⟨(_ | content) | _, left⟩ := answer
              · have hfailed := hrun _ _ _ _ hanswer
                simp only [hanswer] at h
                exact .callFailed hgive rfl hm hfailed (hshow _ _ _ h)
              · have hdone := hrun _ _ _ _ hanswer
                simp only [hanswer] at h
                cases h
                exact .callShown hgive rfl hm hdone
              · have hpanicked := hrun _ _ _ _ hanswer
                simp only [hanswer] at h
                exact .callPanicked hgive rfl hm hpanicked (hshow _ _ _ h)

/-- The tree with what is rendered inside it. -/
theorem isSound_nodes
    (hrun : ∀ run : MacroRun κ, (Evaluand.run run).IsSound env render) (nodes : List Node) :
    (Evaluand.nodes nodes).IsSound env render := by
  induction nodes using tree_induction with
  | nil => exact isSound_nil
  | text content rest ih =>
      refine isSound_cons ?_ ih
      intro context outcome after h
      rw [evaluation_text] at h
      cases h
      exact .text
  | value key isEscaped rest ih =>
      refine isSound_cons ?_ ih
      intro context outcome after h
      rw [evaluation_value, bind_ofOutcome_eq_some_iff] at h
      obtain ⟨value, hkey, ⟨⟩⟩ | ⟨hkey, rfl, rfl⟩ := h
      · exact .value rfl hkey
      · exact .valuePanicked rfl hkey
  | block kind key body otherwise rest ihbody ihother ih =>
      exact isSound_cons (isSound_block ihbody ihother) ih
  | slot name body rest ihbody ih =>
      refine isSound_cons ?_ ih
      intro context outcome after h
      rw [evaluation_slot] at h
      exact .slot (ihbody _ _ _ h)
  | inclusion name rest ih =>
      refine isSound_cons ?_ ih
      intro context outcome after h
      rw [evaluation_inclusion] at h
      cases h
      exact .inclusion
  | call name arguments body rest ihbody ih =>
      exact isSound_cons (isSound_call hrun ihbody) ih

end Soundness

/-- What macros have rendered, at any depth. -/
theorem evaluates_of_renderFragment (env : Environment κ) (depth : Nat) (source : Text)
    (context : Value κ) (outcome : Outcome (Option Text)) (after : Value κ)
    (h : map some (renderFragment env depth source) context = some (outcome, after)) :
    Evaluates (· = env) (.nodes (parseFragment source)) context outcome after := by
  induction depth generalizing source context outcome after with
  | zero => cases h
  | succ depth ih => exact isSound_nodes (isSound_run ih) (parseFragment source) _ _ _ h

theorem isSound_renderFragment (env : Environment κ) (depth : Nat) (nodes : List Node) :
    (Evaluand.nodes nodes).IsSound env (renderFragment env depth) :=
  isSound_nodes (isSound_run (evaluates_of_renderFragment env depth)) nodes

/-! ## What is allowed is given -/

/-- From some depth on the evaluator gives the outcome for the evaluand. -/
def Evaluand.Settles (env : Environment κ) (evaluand : Evaluand κ) (context : Value κ)
    (outcome : Outcome (Option Text)) (after : Value κ) : Prop :=
  ∃ limit, ∀ depth, limit ≤ depth →
    evaluand.evaluation env (renderFragment env depth) context = some (outcome, after)

section Completeness

variable {env : Environment κ} {evaluand first second : Evaluand κ}
  {context start between left after : Value κ} {outcome ending rest : Outcome (Option Text)}

theorem settles_of_forall
    (h : ∀ render, evaluand.evaluation env render context = some (outcome, after)) :
    evaluand.Settles env context outcome after :=
  ⟨0, fun depth _ => h (renderFragment env depth)⟩

/-- The evaluator gives an outcome where it gives another. -/
theorem Evaluand.Settles.of_imp (h : first.Settles env start ending between)
    (himp : ∀ render, first.evaluation env render start = some (ending, between) →
      evaluand.evaluation env render context = some (outcome, after)) :
    evaluand.Settles env context outcome after := by
  obtain ⟨limit, hlimit⟩ := h
  exact ⟨limit, fun depth hdepth => himp _ (hlimit depth hdepth)⟩

/-- The evaluator gives an outcome where it gives two others. -/
theorem Evaluand.Settles.of_imp₂ {last : Value κ} (h : first.Settles env start ending between)
    (h' : second.Settles env left rest last)
    (himp : ∀ render, first.evaluation env render start = some (ending, between) →
      second.evaluation env render left = some (rest, last) →
      evaluand.evaluation env render context = some (outcome, after)) :
    evaluand.Settles env context outcome after := by
  obtain ⟨limit, hlimit⟩ := h
  obtain ⟨limit', hlimit'⟩ := h'
  refine ⟨max limit limit', fun depth hdepth => ?_⟩
  exact himp _ (hlimit depth (by omega)) (hlimit' depth (by omega))

theorem callArgs_of_argumentsGive {arguments : List Argument}
    {outcome : Outcome (List (Value κ))}
    (h : ArgumentsGive (· = env) context arguments outcome) :
    callArgs env arguments context = some (outcome, context) := by
  induction h with
  | nil => rfl
  | literal _ ih =>
      refine bind_ofOutcome_eq_some_iff.mpr (.inl ⟨_, rfl, ?_⟩)
      exact map_eq_some_iff.mpr ⟨_, ih, rfl⟩
  | key henv hkey _ ih =>
      subst henv
      refine bind_ofOutcome_eq_some_iff.mpr (.inl ⟨_, hkey, ?_⟩)
      exact map_eq_some_iff.mpr ⟨_, ih, rfl⟩
  | keyPanicked henv hkey =>
      subst henv
      exact bind_ofOutcome_eq_some_iff.mpr (.inr ⟨hkey, rfl, rfl⟩)

/-- What a macro has rendered, one level deeper. -/
theorem exists_renderFragment {source : Text}
    (h : (Evaluand.nodes (parseFragment source)).Settles env context outcome after) :
    ∃ limit, ∀ depth, limit ≤ depth →
      map some (renderFragment env depth source) context = some (outcome, after) := by
  obtain ⟨limit, hlimit⟩ := h
  refine ⟨limit + 1, fun depth hdepth => ?_⟩
  obtain ⟨depth, rfl⟩ : ∃ smaller, depth = smaller + 1 := ⟨depth - 1, by omega⟩
  exact hlimit depth (by omega)

theorem settles_run_tryTemplate {source : Text} {answer : Outcome Text}
    {next : Outcome Text → MacroRun κ}
    (htemplate : (Evaluand.nodes (parseFragment source)).Settles env context (answer.map some)
      between)
    (hrun : (Evaluand.run (next answer)).Settles env between outcome after) :
    (Evaluand.run (.tryTemplate source next)).Settles env context outcome after := by
  obtain ⟨limit, hlimit⟩ := exists_renderFragment htemplate
  obtain ⟨limit', hlimit'⟩ := hrun
  refine ⟨max limit limit', fun depth hdepth => ?_⟩
  rw [evaluation_run_tryTemplate, bind_attempt_eq_some_iff]
  obtain ⟨ending, hsource, hending⟩ := map_eq_some_iff.mp (hlimit depth (by omega))
  obtain rfl : answer = ending := Outcome.map_some_inj.mp hending
  exact ⟨answer, between, hsource, hlimit' depth (by omega)⟩

/-- What the rules allow is what the evaluator gives. -/
theorem settles_of_evaluates (h : Evaluates (· = env) evaluand context outcome after) :
    evaluand.Settles env context outcome after := by
  induction h with
  | text => exact settles_of_forall fun render => by rw [evaluation_text]; rfl
  | value henv hkey =>
      subst henv
      refine settles_of_forall fun render => ?_
      rw [evaluation_value, bind_ofOutcome_eq_some_iff]
      exact .inl ⟨_, hkey, rfl⟩
  | valuePanicked henv hkey =>
      subst henv
      refine settles_of_forall fun render => ?_
      rw [evaluation_value, bind_ofOutcome_eq_some_iff]
      exact .inr ⟨hkey, rfl, rfl⟩
  | block henv hkey _ ih =>
      subst henv
      refine ih.of_imp fun render hshown => ?_
      rw [evaluation_block, bind_ofOutcome_eq_some_iff]
      exact .inl ⟨_, hkey, hshown⟩
  | blockPanicked henv hkey =>
      subst henv
      refine settles_of_forall fun render => ?_
      rw [evaluation_block, bind_ofOutcome_eq_some_iff]
      exact .inr ⟨hkey, rfl, rfl⟩
  | slot _ ih =>
      refine ih.of_imp fun render hbody => ?_
      rw [evaluation_slot, hbody]
  | inclusion => exact settles_of_forall fun render => by rw [evaluation_inclusion]; rfl
  | callArgumentPanicked hgive =>
      exact settles_of_forall fun render =>
        evaluation_call_of_panicked env render (callArgs_of_argumentsGive hgive)
  | callShown hgive henv hm _ ih =>
      subst henv
      refine ih.of_imp fun render hrun => ?_
      simp only [evaluation_call_of_args _ render (callArgs_of_argumentsGive hgive), hm, hrun]
  | callUnregistered hgive henv hm _ ih =>
      subst henv
      refine ih.of_imp fun render hbody => ?_
      simp only [evaluation_call_of_args _ render (callArgs_of_argumentsGive hgive), hm, hbody]
  | callFailed hgive henv hm _ _ ihrun ihbody =>
      subst henv
      refine ihrun.of_imp₂ ihbody fun render hrun hbody => ?_
      simp only [evaluation_call_of_args _ render (callArgs_of_argumentsGive hgive), hm, hrun,
        hbody]
  | callPanicked hgive henv hm _ _ ihrun ihbody =>
      subst henv
      refine ihrun.of_imp₂ ihbody fun render hrun hbody => ?_
      simp only [evaluation_call_of_args _ render (callArgs_of_argumentsGive hgive), hm, hrun,
        hbody]
  | nil => exact settles_of_forall fun render => by rw [evaluation_nodes_nil]; rfl
  | cons _ _ ihnode ihrest =>
      refine ihnode.of_imp₂ ihrest fun render hnode hrest => ?_
      rw [evaluation_nodes_cons_iff]
      exact .inl ⟨_, _, _, hnode, hrest, rfl⟩
  | consPanicked _ ihnode =>
      refine ihnode.of_imp fun render hnode => ?_
      rw [evaluation_nodes_cons_iff]
      exact .inr ⟨hnode, rfl⟩
  | eachNil => exact settles_of_forall fun render => rfl
  | eachCons _ _ ihbody ihrest =>
      refine ihbody.of_imp₂ ihrest fun render hbody hrest => ?_
      rw [evaluation_each_cons_iff]
      exact .inl ⟨_, _, _, hbody, hrest, rfl⟩
  | eachPanicked _ ihbody =>
      refine ihbody.of_imp fun render hbody => ?_
      rw [evaluation_each_cons_iff]
      exact .inr ⟨hbody, rfl⟩
  | runDone => exact settles_of_forall fun render => rfl
  | runFailed => exact settles_of_forall fun render => rfl
  | runPanicked => exact settles_of_forall fun render => rfl
  | runContext _ ih => exact ih.of_imp fun render hrun => hrun
  | runTryKey henv hkey _ ih =>
      subst henv hkey
      exact ih.of_imp fun render hrun => hrun
  | runTryTemplate _ _ ihtemplate ihrun => exact settles_run_tryTemplate ihtemplate ihrun

/-- In one environment an evaluation can end in one way only. -/
theorem Evaluates.unique {outcome' : Outcome (Option Text)} {after' : Value κ}
    (h : Evaluates (· = env) evaluand context outcome after)
    (h' : Evaluates (· = env) evaluand context outcome' after') :
    outcome = outcome' ∧ after = after' := by
  obtain ⟨limit, hlimit⟩ := settles_of_evaluates h
  obtain ⟨limit', hlimit'⟩ := settles_of_evaluates h'
  have hfirst := hlimit (max limit limit') (by omega)
  have hsecond := hlimit' (max limit limit') (by omega)
  rw [hfirst, Option.some.injEq, Prod.mk.injEq] at hsecond
  exact hsecond

end Completeness

/-! ## Agreement -/

variable {env : Environment κ} {nodes : List Node} {context after : Value κ}
  {outcome : Outcome Text}

theorem evaluates_of_renderNodes {depth : Nat}
    (h : renderNodes env depth nodes context = some (outcome, after)) :
    Evaluates (· = env) (.nodes nodes) context (outcome.map some) after :=
  isSound_renderFragment env depth nodes _ _ _ (map_eq_some_iff.mpr ⟨outcome, h, rfl⟩)

theorem exists_limit_of_evaluates
    (h : Evaluates (· = env) (.nodes nodes) context (outcome.map some) after) :
    ∃ limit, ∀ depth, limit ≤ depth →
      renderNodes env depth nodes context = some (outcome, after) := by
  obtain ⟨limit, hlimit⟩ := settles_of_evaluates h
  refine ⟨limit, fun depth hdepth => ?_⟩
  obtain ⟨ending, hending, hmap⟩ := map_eq_some_iff.mp (hlimit depth hdepth)
  obtain rfl : outcome = ending := Outcome.map_some_inj.mp hmap
  exact hending

/-- **The rules and the evaluator agree** on trees. -/
theorem evaluates_iff :
    Evaluates (· = env) (.nodes nodes) context (outcome.map some) after ↔
      ∃ depth, renderNodes env depth nodes context = some (outcome, after) := by
  constructor
  · intro h
    obtain ⟨limit, hlimit⟩ := exists_limit_of_evaluates h
    exact ⟨limit, hlimit limit (Nat.le_refl limit)⟩
  · rintro ⟨depth, h⟩
    exact evaluates_of_renderNodes h

/-- A depth that is enough gives the same answer as any other that is. -/
theorem renderNodes_unique {depth depth' : Nat} {answer answer' : Outcome Text × Value κ}
    (h : renderNodes env depth nodes context = some answer)
    (h' : renderNodes env depth' nodes context = some answer') : answer = answer' := by
  have hsame := (evaluates_of_renderNodes h).unique (evaluates_of_renderNodes h')
  exact Prod.ext (Outcome.map_some_inj.mp hsame.1) hsame.2

end Stencil
