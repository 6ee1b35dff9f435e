import Stencil.Proofs.Evaluation.Adequacy

/-!
# Evaluation keeps the context

Where all macros pass panics on, an evaluation that ends with a text ends in the context it started
from. So the nodes of a tree are shown in one and the same context, and the text of a tree is that
of its parts (`evalNodes_append`, `renderNodes_append_iff`). That the context is kept follows from
the rules alone (`Evaluates.after_eq`), also for macros and computed entries that are no functions.

A macro that catches the panic of text that it has rendered can leave another context behind
(`not_forall_after_eq`).
-/

set_option autoImplicit false

namespace Stencil

open Evaluation

variable {κ : Type}

/-! ## Trees one after the other -/

namespace Evaluation

/-- Nothing shown before an evaluation changes nothing. -/
theorem append_pure_nil (evaluation : Evaluation κ Text) :
    append (pure []) evaluation = evaluation := by
  funext context
  cases h : evaluation context with
  | none => simp [append, bind, pure, h]
  | some answer =>
      obtain ⟨shown | _, after⟩ := answer <;> simp [append, bind, pure, h]

theorem append_assoc (first second third : Evaluation κ Text) :
    append (append first second) third = append first (append second third) := by
  simp only [append, bind_assoc, Evaluation.pure_bind, List.append_assoc]

theorem append_eq_done_iff {first second : Evaluation κ Text} {context after : Value κ}
    {content : Text} :
    append first second context = some (.done content, after) ↔
      ∃ before between rest, first context = some (.done before, between) ∧
        second between = some (.done rest, after) ∧ content = before ++ rest := by
  rw [append, bind_eq_some_iff]
  constructor
  · rintro (⟨before, between, hfirst, h⟩ | ⟨-, h⟩)
    · obtain ⟨rest | _, hsecond, h⟩ := map_eq_some_iff.mp h
      · cases h
        exact ⟨before, between, rest, hfirst, hsecond, rfl⟩
      · cases h
    · cases h
  · rintro ⟨before, between, rest, hfirst, hsecond, rfl⟩
    exact .inl ⟨before, between, hfirst, map_eq_some_iff.mpr ⟨_, hsecond, rfl⟩⟩

end Evaluation

/-- Two trees one after the other are evaluated one after the other. -/
theorem evalNodes_append (env : Environment κ) (render : Text → Evaluation κ Text)
    (first second : List Node) :
    evalNodes env render (first ++ second)
      = append (evalNodes env render first) (evalNodes env render second) := by
  induction first with
  | nil =>
      rw [List.nil_append, evalNodes, append_pure_nil]
  | cons node rest ih =>
      calc evalNodes env render (node :: rest ++ second)
        _ = append (evalNode env render node) (evalNodes env render (rest ++ second)) := by
              rw [List.cons_append, evalNodes]
        _ = append (evalNode env render node)
              (append (evalNodes env render rest) (evalNodes env render second)) := by rw [ih]
        _ = append (evalNodes env render (node :: rest)) (evalNodes env render second) := by
              rw [evalNodes, append_assoc]

/-! ## A panic inside a scope shift -/

/-- A value tag alone shows the text that its key leads to. -/
theorem evaluates_value_text {env : Environment κ} {key content : Text} {context : Value κ}
    (h : resolve env.evaluate context key = .done (.text content)) :
    Evaluates (· = env) (.nodes [.value key false]) context (.done (some content)) context := by
  have hshown : shownValue key false (.text content : Value κ) = content := by
    cases content <;> simp [shownValue, isShown, Value.isTruthy, Value.isZero, Value.toText]
  have hvalue : Evaluates (· = env) (.node (.value key false)) context
      (.done (some (shownValue key false (.text content : Value κ)))) context := .value rfl h
  rw [hshown] at hvalue
  simpa [Outcome.prepend, Outcome.map] using Evaluates.cons hvalue .nil

theorem parseFragment_shift : parseFragment "{{>i}}{{=b}}{{/i}}".toList
    = [.block .scopeShift ['i'] [.value ['b'] false] none] := by with_unfolding_all rfl

/-- A panic inside a scope shift leaves the inner context behind. -/
theorem evaluates_shift_panicked {env : Environment κ} {outer : Value κ}
    {entries : List (Text × Value κ)}
    (hinner : resolve env.evaluate outer ['i'] = .done (.mapping entries))
    (hpanics : resolve env.evaluate (.mapping entries) ['b'] = .panicked) :
    Evaluates (· = env) (.nodes (parseFragment "{{>i}}{{=b}}{{/i}}".toList)) outer
      ((.panicked : Outcome Text).map some) (.mapping entries) := by
  rw [parseFragment_shift]
  exact .consPanicked (.block rfl hinner
    (.eachPanicked (.consPanicked (.valuePanicked rfl hpanics))))

/-! ## The context -/

theorem after_eq_of_renderNodes {env : Environment κ} (hpass : env.PassesPanics) {depth : Nat}
    {nodes : List Node} {context after : Value κ} {content : Text}
    (h : renderNodes env depth nodes context = some (.done content, after)) : after = context :=
  (evaluates_of_renderNodes h).after_eq (fun _ henv => henv ▸ hpass) trivial (by simp [Outcome.map])

/-- The parts of a tree are shown in the same context. -/
theorem renderNodes_append_iff {env : Environment κ} (hpass : env.PassesPanics) {depth : Nat}
    {first second : List Node} {context after : Value κ} {content : Text} :
    renderNodes env depth (first ++ second) context = some (.done content, after) ↔
      after = context ∧ ∃ before rest,
        renderNodes env depth first context = some (.done before, context) ∧
        renderNodes env depth second context = some (.done rest, context) ∧
        content = before ++ rest := by
  rw [renderNodes, evalNodes_append, append_eq_done_iff]
  constructor
  · rintro ⟨before, between, rest, hfirst, hsecond, hcontent⟩
    obtain rfl : between = context := after_eq_of_renderNodes hpass hfirst
    obtain rfl : after = between := after_eq_of_renderNodes hpass hsecond
    exact ⟨rfl, before, rest, hfirst, hsecond, hcontent⟩
  · rintro ⟨rfl, before, rest, hfirst, hsecond, hcontent⟩
    exact ⟨before, after, rest, hfirst, hsecond, hcontent⟩

/-- **Evaluation keeps the context** where macros pass panics on. Whatever else macros do and
computed entries answer, an evaluation of a tree that ends without a panic ends in the context it
started from; the same holds of the loops, scope shifts, calls and runs of macros inside it. Where
their answers are functions, the evaluator gives what the rules allow, and the text of two trees one
after the other is the text of the first and that of the second, both shown in the same context. -/
theorem evaluation_keeps_context {possible : Environment κ → Prop}
    (hpass : ∀ env, possible env → env.PassesPanics) :
    (∀ (evaluand : Evaluand κ) (context after : Value κ) (outcome : Outcome (Option Text)),
      Evaluates possible evaluand context outcome after → evaluand.PassesPanics →
        outcome ≠ .panicked → after = context) ∧
    ∀ env, possible env →
      (∀ (nodes : List Node) (context after : Value κ) (outcome : Outcome Text),
        Evaluates (· = env) (.nodes nodes) context (outcome.map some) after ↔
          ∃ depth, renderNodes env depth nodes context = some (outcome, after)) ∧
      (∀ (depth : Nat) (nodes : List Node) (context after : Value κ) (content : Text),
        renderNodes env depth nodes context = some (.done content, after) → after = context) ∧
      ∀ (depth : Nat) (first second : List Node) (context after : Value κ) (content : Text),
        renderNodes env depth (first ++ second) context = some (.done content, after) ↔
          after = context ∧ ∃ before rest,
            renderNodes env depth first context = some (.done before, context) ∧
            renderNodes env depth second context = some (.done rest, context) ∧
            content = before ++ rest := by
  constructor
  · intro evaluand context after outcome h
    exact h.after_eq hpass
  · intro env henv
    refine ⟨?_, ?_, ?_⟩
    · intro nodes context after outcome
      exact evaluates_iff
    · intro depth nodes context after content h
      exact after_eq_of_renderNodes (hpass env henv) h
    · intro depth first second context after content
      exact renderNodes_append_iff (hpass env henv)

/-- The statement for a panic inside a scope shift that a macro has rendered: the call shows its
body, and what stands after the call sees the outer context. -/
theorem evaluation_keeps_context_fallback :
    let inner : Value Unit := .mapping [(['x'], .text "inner".toList), (['b'], .computed ())]
    let outer : Value Unit := .mapping [(['x'], .text "outer".toList), (['i'], inner)]
    let env : Environment Unit :=
      { evaluate := fun _ _ => .panicked
        macros := [(['m'], fun _ => .template "{{>i}}{{=b}}{{/i}}".toList .done)] }
    (∀ other, other = env → other.PassesPanics) ∧
      ∃ depth, renderNodes env depth (parseFragment "{{m()}}fb{{/m}}:{{=x}}".toList) outer
        = some (.done "fb:outer".toList, outer) := by
  intro inner outer env
  have hpass : ∀ other, other = env → other.PassesPanics := by
    rintro _ rfl name m hm args
    obtain ⟨-, rfl⟩ := Prod.mk.inj (List.mem_singleton.mp (mem_of_lookup? hm))
    exact MacroRun.passesPanics_template fun _ => trivial
  have hnodes : parseFragment "{{m()}}fb{{/m}}:{{=x}}".toList
      = [.call ['m'] [] (some [.text ['f', 'b']]), .text [':'], .value ['x'] false] := by
    with_unfolding_all rfl
  have hpanics : Evaluates (· = env) (.nodes (parseFragment "{{>i}}{{=b}}{{/i}}".toList)) outer
      ((.panicked : Outcome Text).map some) inner := evaluates_shift_panicked rfl rfl
  have hcall : Evaluates (· = env) (.node (.call ['m'] [] (some [.text ['f', 'b']]))) outer
      (.done (some ['f', 'b'])) outer :=
    .callPanicked .nil rfl rfl (.runTryTemplate hpanics .runPanicked) (.cons .text .nil)
  have hvalue : Evaluates (· = env) (.nodes [.value ['x'] false]) outer
      (.done (some "outer".toList)) outer := evaluates_value_text rfl
  refine ⟨hpass, ?_⟩
  obtain ⟨hiff, -⟩ := (evaluation_keeps_context hpass).2 env rfl
  refine (hiff _ outer outer (.done "fb:outer".toList)).mp ?_
  rw [hnodes]
  exact .cons hcall (.cons .text hvalue)

/-- A macro that catches the panic of the text and goes on leaves the inner context behind: what
stands after its call is shown in that. -/
theorem not_forall_after_eq :
    ¬ ∀ (env : Environment Unit) (depth : Nat) (nodes : List Node) (context after : Value Unit)
      (content : Text), renderNodes env depth nodes context = some (.done content, after) →
        after = context := by
  intro h
  let inner : Value Unit := .mapping [(['x'], .text "inner".toList), (['b'], .computed ())]
  let outer : Value Unit := .mapping [(['x'], .text "outer".toList), (['i'], inner)]
  let env : Environment Unit :=
    { evaluate := fun _ _ => .panicked
      macros := [(['m'], fun _ => .tryTemplate "{{>i}}{{=b}}{{/i}}".toList fun _ => .done [])] }
  have hnodes : parseFragment "{{m()}}{{=x}}".toList
      = [.call ['m'] [] none, .value ['x'] false] := by with_unfolding_all rfl
  have hpanics : Evaluates (· = env) (.nodes (parseFragment "{{>i}}{{=b}}{{/i}}".toList)) outer
      ((.panicked : Outcome Text).map some) inner := evaluates_shift_panicked rfl rfl
  have hcall : Evaluates (· = env) (.node (.call ['m'] [] none)) outer (.done (some [])) inner :=
    .callShown .nil rfl rfl (.runTryTemplate hpanics .runDone)
  have hvalue : Evaluates (· = env) (.nodes [.value ['x'] false]) inner
      (.done (some "inner".toList)) inner := evaluates_value_text rfl
  have hshown : Evaluates (· = env) (.nodes (parseFragment "{{m()}}{{=x}}".toList)) outer
      ((Outcome.done "inner".toList).map some) inner := by
    rw [hnodes]
    exact .cons hcall hvalue
  obtain ⟨depth, hrendered⟩ := evaluates_iff.mp hshown
  have hsame := h _ _ _ _ _ _ hrendered
  simp [inner, outer] at hsame

end Stencil
