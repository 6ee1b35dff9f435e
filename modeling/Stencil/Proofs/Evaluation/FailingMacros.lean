import Stencil.Proofs.Evaluation.Answers
import Stencil.Proofs.Evaluation.Context

/-!
# Macros that never give a text

A macro that fails or panics in every call might as well not be registered: all trees are shown as
they are without it (`renderNodes_without_iff`). This is not only about its own calls. Other macros
may have text rendered in which it is called, and their texts and panics stay the same too.

A panic gives the context of the call back, a failure does not. So the calls that fail have to leave
the context as it was, and they do where macros pass panics on
(`Environment.PassesPanics.failsInPlace`). A macro that catches the panic of text that it has
rendered and then fails shows its body in another context than without it
(`not_forall_without_iff`).

The statement is proved for two environments at once that differ in nothing but macros of that kind
(`Alike`). It is a symmetric relation, so one induction on the rules of evaluation gives both
directions.
-/

set_option autoImplicit false

namespace Stencil

open Evaluation

variable {κ : Type}

/-! ## Calls without a text -/

/-- Every call of the macro ends, and not with a text: it fails or it panics. -/
def Macro.GivesNoText (env : Environment κ) (m : Macro κ) : Prop :=
  ∀ args context, ∃ depth ending after,
    (m args).run env (renderFragment env depth) context = some (ending, after) ∧
      ∀ content, ending ≠ .done (.ok content)

/-- Every call of the macro that fails ends in the context of the call. -/
def Macro.FailsInPlace (env : Environment κ) (m : Macro κ) : Prop :=
  ∀ args context depth failure after,
    (m args).run env (renderFragment env depth) context = some (.done (.error failure), after) →
      after = context

/-- No call of the name gives a text. The name may not be registered at all. -/
def Environment.GivesNoText (env : Environment κ) (name : Text) : Prop :=
  ∀ m : Macro κ, lookup? name env.macros = some m → m.GivesNoText env

/-- Calls of the name that fail end in the context of the call. -/
def Environment.FailsInPlace (env : Environment κ) (name : Text) : Prop :=
  ∀ m : Macro κ, lookup? name env.macros = some m → m.FailsInPlace env

/-- Calls of the name show their bodies, in the context of the call. -/
structure Environment.ShowsBodies (env : Environment κ) (name : Text) : Prop where
  givesNoText : env.GivesNoText name
  failsInPlace : env.FailsInPlace name

/-- The environment without the macro of a name. -/
def Environment.without (env : Environment κ) (name : Text) : Environment κ :=
  { env with macros := eraseEntry name env.macros }

/-- The environments differ at most in macros whose calls show their bodies. -/
structure Environment.Alike (first second : Environment κ) : Prop where
  evaluate : first.evaluate = second.evaluate
  macros : ∀ name, lookup? name first.macros = lookup? name second.macros ∨
    (first.ShowsBodies name ∧ second.ShowsBodies name)

theorem Environment.Alike.symm {first second : Environment κ} (h : first.Alike second) :
    second.Alike first := by
  refine ⟨h.evaluate.symm, fun name => ?_⟩
  rcases h.macros name with hsame | ⟨hfirst, hsecond⟩
  · exact Or.inl hsame.symm
  · exact Or.inr ⟨hsecond, hfirst⟩

theorem showsBodies_without (env : Environment κ) (name : Text) :
    (env.without name).ShowsBodies name := by
  have hnone : lookup? name (env.without name).macros = none := by
    rw [Environment.without, lookup?_eraseEntry, if_pos rfl]
  constructor
  · intro m hm
    rw [hnone] at hm
    cases hm
  · intro m hm
    rw [hnone] at hm
    cases hm

theorem alike_without {env : Environment κ} {name : Text} (h : env.ShowsBodies name) :
    env.Alike (env.without name) := by
  refine ⟨rfl, fun other => ?_⟩
  by_cases hother : name = other
  · subst hother
    exact Or.inr ⟨h, showsBodies_without env name⟩
  · refine Or.inl ?_
    rw [Environment.without, lookup?_eraseEntry, if_neg hother]

section Calls

variable {env : Environment κ} {name : Text} {m : Macro κ}

theorem evaluates_of_run {run : MacroRun κ} {depth : Nat} {context after : Value κ}
    {ending : Outcome (Except MacroFailure Text)}
    (h : run.run env (renderFragment env depth) context = some (ending, after)) :
    Evaluates (· = env) (.run run) context (ending.map Except.toOption) after :=
  isSound_run (evaluates_of_renderFragment env depth) run _ _ _
    (map_eq_some_iff.mpr ⟨ending, h, rfl⟩)

/-- Where macros pass panics on, those that fail leave the context as it was. -/
theorem Environment.PassesPanics.failsInPlace (h : env.PassesPanics) (name : Text) :
    env.FailsInPlace name := by
  intro m hm args context depth failure after hrun
  exact (evaluates_of_run hrun).after_eq (fun _ henv => henv ▸ h) (h name m hm args)
    (by simp [Outcome.map])

/-- A macro that has text rendered that calls no macro, and then fails or panics. -/
theorem Macro.givesNoText_of_uncalled {source : Text} {next : Outcome Text → MacroRun κ}
    (h : Uncalled env.macros (parseFragment source))
    (hnext : ∀ answer, next answer = .panicked ∨ ∃ message, next answer = .failed message) :
    Macro.GivesNoText env fun _ => .tryTemplate source next := by
  intro args context
  obtain ⟨answer, between, hshown⟩ := answers_evalNodes h context
  have hrender : renderFragment env 1 source context = some (answer, between) := hshown
  rcases hnext answer with hlast | ⟨message, hlast⟩
  · refine ⟨1, .panicked, between, ?_, by simp⟩
    exact bind_attempt_eq_some_iff.mpr ⟨_, _, hrender, by rw [hlast]; rfl⟩
  · refine ⟨1, .done (.error (.failed message)), between, ?_, by simp⟩
    exact bind_attempt_eq_some_iff.mpr ⟨_, _, hrender, by rw [hlast]; rfl⟩

/-- By the rules a call of the name panics, or fails and leaves the context as it was. -/
theorem Environment.ShowsBodies.cases (h : env.ShowsBodies name)
    (hm : lookup? name env.macros = some m) (args : List (Value κ)) (context : Value κ) :
    (∃ left, Evaluates (· = env) (.run (m args)) context .panicked left) ∨
      Evaluates (· = env) (.run (m args)) context (.done none) context := by
  obtain ⟨depth, ending, after, hrun, hnone⟩ := h.givesNoText m hm args context
  have heval := evaluates_of_run hrun
  rcases ending with (failure | content) | _
  · obtain rfl := h.failsInPlace m hm args context depth failure after hrun
    exact Or.inr heval
  · exact absurd rfl (hnone content)
  · exact Or.inl ⟨after, heval⟩

theorem Environment.ShowsBodies.not_evaluates (h : env.ShowsBodies name)
    (hm : lookup? name env.macros = some m) {args : List (Value κ)} {context after : Value κ}
    {content : Text} :
    ¬ Evaluates (· = env) (.run (m args)) context (.done (some content)) after := by
  intro heval
  rcases h.cases hm args context with ⟨left, hpanicked⟩ | hfailed
  · exact absurd (heval.unique hpanicked).1 (by simp)
  · exact absurd (heval.unique hfailed).1 (by simp)

theorem Environment.ShowsBodies.after_eq (h : env.ShowsBodies name)
    (hm : lookup? name env.macros = some m) {args : List (Value κ)} {context after : Value κ}
    (heval : Evaluates (· = env) (.run (m args)) context (.done none) after) :
    after = context := by
  rcases h.cases hm args context with ⟨left, hpanicked⟩ | hfailed
  · exact absurd (heval.unique hpanicked).1 (by simp)
  · exact (heval.unique hfailed).2

/-- Where calls of the name show their bodies, they do so by the rules. -/
theorem Environment.ShowsBodies.evaluates_call (h : env.ShowsBodies name)
    {arguments : List Argument} {body : Option (List Node)} {args : List (Value κ)}
    {context after : Value κ} {outcome : Outcome (Option Text)}
    (hgive : ArgumentsGive (· = env) context arguments (.done args))
    (hbody : Evaluates (· = env) (.nodes (body.getD [])) context outcome after) :
    Evaluates (· = env) (.node (.call name arguments body)) context outcome after := by
  cases hm : lookup? name env.macros with
  | none => exact .callUnregistered hgive rfl hm hbody
  | some m =>
      rcases h.cases hm args context with ⟨left, hpanicked⟩ | hfailed
      · exact .callPanicked hgive rfl hm hpanicked hbody
      · exact .callFailed hgive rfl hm hfailed hbody

end Calls

/-! ## Alike environments -/

section Alike

variable {first second : Environment κ}

theorem argumentsGive_of_evaluate_eq (h : first.evaluate = second.evaluate) {context : Value κ}
    {arguments : List Argument} {outcome : Outcome (List (Value κ))}
    (hgive : ArgumentsGive (· = first) context arguments outcome) :
    ArgumentsGive (· = second) context arguments outcome := by
  induction hgive with
  | nil => exact .nil
  | literal _ ih => exact .literal ih
  | key henv hkey _ ih =>
      subst henv
      exact .key rfl (h ▸ hkey) ih
  | keyPanicked henv hkey =>
      subst henv
      exact .keyPanicked rfl (h ▸ hkey)

/-- What the rules allow in one of two environments that are alike they allow in the other. -/
theorem Evaluates.of_alike (halike : first.Alike second) {evaluand : Evaluand κ}
    {context after : Value κ} {outcome : Outcome (Option Text)}
    (h : Evaluates (· = first) evaluand context outcome after) :
    Evaluates (· = second) evaluand context outcome after := by
  have heval := halike.evaluate
  induction h with
  | text => exact .text
  | value henv hkey =>
      subst henv
      exact .value rfl (heval ▸ hkey)
  | valuePanicked henv hkey =>
      subst henv
      exact .valuePanicked rfl (heval ▸ hkey)
  | block henv hkey _ ih =>
      subst henv
      exact .block rfl (heval ▸ hkey) ih
  | blockPanicked henv hkey =>
      subst henv
      exact .blockPanicked rfl (heval ▸ hkey)
  | slot _ ih => exact .slot ih
  | inclusion => exact .inclusion
  | callArgumentPanicked hgive =>
      exact .callArgumentPanicked (argumentsGive_of_evaluate_eq heval hgive)
  | @callShown name _ _ _ _ _ _ _ _ hgive henv hm hrun ih =>
      subst henv
      have hgive := argumentsGive_of_evaluate_eq heval hgive
      rcases halike.macros name with hsame | ⟨hbodies, -⟩
      · exact .callShown hgive rfl (hsame ▸ hm) ih
      -- a macro that the other environment does not have shows nothing here either
      · exact absurd hrun (hbodies.not_evaluates hm)
  | @callUnregistered name _ _ _ _ _ _ _ hgive henv hm _ ih =>
      subst henv
      have hgive := argumentsGive_of_evaluate_eq heval hgive
      rcases halike.macros name with hsame | ⟨-, hbodies⟩
      · exact .callUnregistered hgive rfl (hsame ▸ hm) ih
      · exact hbodies.evaluates_call hgive ih
  | @callFailed name _ _ _ _ _ _ _ _ _ hgive henv hm hrun _ ihrun ihbody =>
      subst henv
      have hgive := argumentsGive_of_evaluate_eq heval hgive
      rcases halike.macros name with hsame | ⟨hbodies, hothers⟩
      · exact .callFailed hgive rfl (hsame ▸ hm) ihrun ihbody
      -- a failed run leaves the context of the call, and in it the body is shown
      · obtain rfl := hbodies.after_eq hm hrun
        exact hothers.evaluates_call hgive ihbody
  | @callPanicked name _ _ _ _ _ _ _ _ _ hgive henv hm _ _ ihrun ihbody =>
      subst henv
      have hgive := argumentsGive_of_evaluate_eq heval hgive
      rcases halike.macros name with hsame | ⟨-, hbodies⟩
      · exact .callPanicked hgive rfl (hsame ▸ hm) ihrun ihbody
      · exact hbodies.evaluates_call hgive ihbody
  | nil => exact .nil
  | cons _ _ ihnode ihrest => exact .cons ihnode ihrest
  | consPanicked _ ih => exact .consPanicked ih
  | eachNil => exact .eachNil
  | eachCons _ _ ihbody ihrest => exact .eachCons ihbody ihrest
  | eachPanicked _ ih => exact .eachPanicked ih
  | runDone => exact .runDone
  | runFailed => exact .runFailed
  | runPanicked => exact .runPanicked
  | runContext _ ih => exact .runContext ih
  | runTryKey henv hkey _ ih =>
      subst henv
      exact .runTryKey rfl (heval ▸ hkey) ih
  | runTryTemplate _ _ ihtemplate ihrun => exact .runTryTemplate ihtemplate ihrun

theorem Environment.Alike.evaluates_iff (h : first.Alike second) {evaluand : Evaluand κ}
    {context after : Value κ} {outcome : Outcome (Option Text)} :
    Evaluates (· = first) evaluand context outcome after
      ↔ Evaluates (· = second) evaluand context outcome after :=
  ⟨fun heval => heval.of_alike h, fun heval => heval.of_alike h.symm⟩

end Alike

/-! ## One macro less -/

/-- A tree of one node is evaluated as the node. -/
theorem evaluates_singleton_iff {possible : Environment κ → Prop} {node : Node}
    {context after : Value κ} {outcome : Outcome Text} :
    Evaluates possible (.nodes [node]) context (outcome.map some) after
      ↔ Evaluates possible (.node node) context (outcome.map some) after := by
  constructor
  · intro h
    generalize hending : outcome.map some = ending at h
    cases h with
    | cons hnode hrest =>
        cases hrest
        simpa [Outcome.prepend, Outcome.map] using hnode
    | consPanicked hnode => exact hnode
  · intro h
    cases outcome with
    | panicked => exact .consPanicked h
    | done content =>
        have hboth := Evaluates.cons h .nil
        simpa [Outcome.prepend, Outcome.map] using hboth

theorem Environment.ShowsBodies.evaluates_call_iff {env : Environment κ} {name : Text}
    (h : env.ShowsBodies name) {arguments : List Argument} {body : Option (List Node)}
    {args : List (Value κ)} {context after : Value κ} {outcome : Outcome (Option Text)}
    (hargs : callArgs env arguments context = some (.done args, context)) :
    Evaluates (· = env) (.node (.call name arguments body)) context outcome after
      ↔ Evaluates (· = env) (.nodes (body.getD [])) context outcome after := by
  constructor
  · intro heval
    cases heval with
    | callArgumentPanicked hgive =>
        rw [callArgs_of_argumentsGive hgive] at hargs
        cases hargs
    | callShown _ henv hm hrun =>
        subst henv
        exact absurd hrun (h.not_evaluates hm)
    | callUnregistered _ _ _ hbody => exact hbody
    | callFailed _ henv hm hrun hbody =>
        subst henv
        obtain rfl := h.after_eq hm hrun
        exact hbody
    | callPanicked _ _ _ _ hbody => exact hbody
  · exact h.evaluates_call (argumentsGive_of_callArgs hargs).2

/-- **A macro that never gives a text is as if it were not registered**, as long as its failures
leave the context of the call. Every tree is shown the same in every context with the macro and
without it, and ends in the same context, also if it ends with a panic. The same holds of the loops,
scope shifts, calls and runs of macros inside it. And a call of the macro shows its body and no
more, in the context of the call. -/
theorem renderNodes_without_iff {env : Environment κ} {name : Text} (h : env.GivesNoText name)
    (hplace : env.FailsInPlace name) :
    (∀ nodes context outcome after,
      (∃ depth, renderNodes env depth nodes context = some (outcome, after)) ↔
        ∃ depth, renderNodes (env.without name) depth nodes context = some (outcome, after)) ∧
    (∀ evaluand context outcome after,
      Evaluates (· = env) evaluand context outcome after ↔
        Evaluates (· = env.without name) evaluand context outcome after) ∧
    ∀ arguments body args context outcome after,
      callArgs env arguments context = some (.done args, context) →
        ((∃ depth, renderNodes env depth [.call name arguments body] context
            = some (outcome, after)) ↔
          ∃ depth, renderNodes env depth (body.getD []) context = some (outcome, after)) := by
  have hbodies : env.ShowsBodies name := ⟨h, hplace⟩
  have halike := alike_without hbodies
  refine ⟨?_, ?_, ?_⟩
  · intro nodes context outcome after
    rw [← evaluates_iff, ← evaluates_iff]
    exact halike.evaluates_iff
  · intro evaluand context outcome after
    exact halike.evaluates_iff
  · intro arguments body args context outcome after hargs
    rw [← evaluates_iff, ← evaluates_iff, evaluates_singleton_iff]
    exact hbodies.evaluates_call_iff hargs

/-- The statement for a macro that has text rendered before it fails. Where it is called from text
that another macro has rendered, a computed entry panics inside a scope shift of that text. Where it
is called inside a scope shift of the tree, the macro fails. -/
theorem renderNodes_without_iff_lost :
    let inner : Value Unit := .mapping [(['x'], .text "inner".toList), (['b'], .computed ())]
    let context : Value Unit := .mapping [(['x'], .text "outer".toList), (['i'], inner)]
    let env : Environment Unit :=
      { evaluate := fun _ _ => .panicked
        macros := [
          (['m'], fun _ => .template "lost{{>i}}{{=b}}{{/i}}".toList fun _ => .failed "no".toList),
          (['w'], fun _ => .template "<{{m()}}{{=x}}{{/m}}>".toList .done)] }
    let nodes := parseFragment "{{w()}}{{>i}}{{m(x)}}{{=x}}{{/m}}{{/i}}".toList
    (env.GivesNoText ['m'] ∧ env.FailsInPlace ['m']) ∧
      ∃ depth, renderNodes env depth nodes context
        = some (.done "<outer>inner".toList, context) := by
  intro inner context env nodes
  have hnone : env.GivesNoText ['m'] := by
    intro m hm args here
    obtain rfl := Option.some.inj hm
    have htree : parseFragment "lost{{>i}}{{=b}}{{/i}}".toList
        = [.text "lost".toList, .block .scopeShift ['i'] [.value ['b'] false] none] := by
      with_unfolding_all rfl
    have huncalled : Uncalled env.macros (parseFragment "lost{{>i}}{{=b}}{{/i}}".toList) := by
      rw [htree]
      intro name arguments body hmem
      simp [nodesWithin, nodesOf, nodesIn] at hmem
    refine Macro.givesNoText_of_uncalled huncalled ?_ args here
    rintro (content | _)
    · exact Or.inr ⟨_, rfl⟩
    · exact Or.inl rfl
  have hpass : env.PassesPanics := by
    intro name m hm args
    rcases List.mem_pair.mp (mem_of_lookup? hm) with h | h
    · obtain ⟨-, rfl⟩ := Prod.mk.inj h
      exact MacroRun.passesPanics_template fun _ => trivial
    · obtain ⟨-, rfl⟩ := Prod.mk.inj h
      exact MacroRun.passesPanics_template fun _ => trivial
  have hplace : env.FailsInPlace ['m'] := hpass.failsInPlace ['m']
  refine ⟨⟨hnone, hplace⟩, ?_⟩
  refine ((renderNodes_without_iff hnone hplace).1 nodes context _ context).mpr ?_
  -- without the macro every call of it shows its body
  let others := env.without ['m']
  have hnodes : nodes = [.call ['w'] [] none,
      .block .scopeShift ['i'] [.call ['m'] [.key ['x']] (some [.value ['x'] false])] none] := by
    with_unfolding_all rfl
  have hsource : parseFragment "<{{m()}}{{=x}}{{/m}}>".toList
      = [.text ['<'], .call ['m'] [] (some [.value ['x'] false]), .text ['>']] := by
    with_unfolding_all rfl
  have houter : Evaluates (· = others) (.nodes [.value ['x'] false]) context
      (.done (some "outer".toList)) context := evaluates_value_text rfl
  have hinner : Evaluates (· = others) (.nodes [.value ['x'] false]) inner
      (.done (some "inner".toList)) inner := evaluates_value_text rfl
  have hoverlooked : Evaluates (· = others)
      (.node (.call ['m'] [] (some [.value ['x'] false]))) context
      (.done (some "outer".toList)) context := .callUnregistered .nil rfl rfl houter
  have hrendered : Evaluates (· = others)
      (.nodes (parseFragment "<{{m()}}{{=x}}{{/m}}>".toList)) context
      ((Outcome.done "<outer>".toList).map some) context := by
    rw [hsource]
    exact .cons .text (.cons hoverlooked (.cons .text .nil))
  have hcall : Evaluates (· = others) (.node (.call ['w'] [] none)) context
      (.done (some "<outer>".toList)) context :=
    .callShown .nil rfl rfl (.runTryTemplate hrendered .runDone)
  have hbody : Evaluates (· = others)
      (.node (.call ['m'] [.key ['x']] (some [.value ['x'] false]))) inner
      (.done (some "inner".toList)) inner := by
    have hargs : ArgumentsGive (· = others) inner [.key ['x']]
        ((Outcome.done []).map (.text "inner".toList :: ·)) := .key rfl rfl .nil
    exact .callUnregistered hargs rfl rfl hinner
  have hshift : Evaluates (· = others) (.node (.block .scopeShift ['i']
      [.call ['m'] [.key ['x']] (some [.value ['x'] false])] none)) context
      (.done (some "inner".toList)) context :=
    .block rfl rfl (.eachCons (.cons hbody .nil) .eachNil)
  refine evaluates_iff.mp ?_
  rw [hnodes]
  exact .cons hcall (.cons hshift .nil)

/-- A macro that catches the panic of the text before it fails shows its body in the context that
the panic has left, and without the macro the body is shown in that of the call. -/
theorem not_forall_without_iff :
    ¬ ∀ (env : Environment Unit) (name : Text), env.GivesNoText name →
      ∀ nodes context outcome after,
        (∃ depth, renderNodes env depth nodes context = some (outcome, after)) ↔
          ∃ depth, renderNodes (env.without name) depth nodes context = some (outcome, after) := by
  intro h
  let inner : Value Unit := .mapping [(['x'], .text "inner".toList), (['b'], .computed ())]
  let outer : Value Unit := .mapping [(['x'], .text "outer".toList), (['i'], inner)]
  let env : Environment Unit :=
    { evaluate := fun _ _ => .panicked
      macros := [(['m'], fun _ =>
        .tryTemplate "{{>i}}{{=b}}{{/i}}".toList fun _ => .failed "no".toList)] }
  have hnone : env.GivesNoText ['m'] := by
    intro m hm args here
    obtain rfl := Option.some.inj hm
    have huncalled : Uncalled env.macros (parseFragment "{{>i}}{{=b}}{{/i}}".toList) := by
      rw [parseFragment_shift]
      intro name arguments body hmem
      simp [nodesWithin, nodesOf, nodesIn] at hmem
    exact Macro.givesNoText_of_uncalled huncalled (fun _ => Or.inr ⟨_, rfl⟩) args here
  let nodes := parseFragment "{{m()}}{{=x}}{{/m}}".toList
  have hnodes : nodes = [.call ['m'] [] (some [.value ['x'] false])] := by with_unfolding_all rfl
  have hinner : Evaluates (· = env) (.nodes [.value ['x'] false]) inner
      (.done (some "inner".toList)) inner := evaluates_value_text rfl
  have hwith : Evaluates (· = env) (.nodes nodes) outer
      ((Outcome.done "inner".toList).map some) inner := by
    have hpanics : Evaluates (· = env) (.nodes (parseFragment "{{>i}}{{=b}}{{/i}}".toList)) outer
        ((.panicked : Outcome Text).map some) inner := evaluates_shift_panicked rfl rfl
    have hcall : Evaluates (· = env) (.node (.call ['m'] [] (some [.value ['x'] false]))) outer
        (.done (some "inner".toList)) inner :=
      .callFailed .nil rfl rfl (.runTryTemplate hpanics .runFailed) hinner
    rw [hnodes]
    exact .cons hcall .nil
  have hwithout : renderNodes (env.without ['m']) 0 nodes outer
      = some (.done "outer".toList, outer) := by
    rw [hnodes]
    rfl
  obtain ⟨depth, hshown⟩ := (h env ['m'] hnone nodes outer _ _).mp (evaluates_iff.mp hwith)
  cases renderNodes_unique hwithout hshown

end Stencil
