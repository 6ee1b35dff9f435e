import Stencil.Proofs.Evaluation.Answers

/-!
# What a tree reads of its context

A tree is shown in a context, and the bodies of its loops and scope shifts in others, which come
from the value of their key alone. So the only keys that are resolved in the context of the tree are
those outside such bodies (`outerKeys`). Two contexts in which these keys stand for the same show
the same text, if no macro is called (`renderNodes_eq_of_outerKeys`): what else the contexts hold
does not come into it.

Two runs are followed at once. `SameAt` says that they end in the same way, and that neither has
changed its context unless they panic; it is kept by all that evaluations are made of.
-/

set_option autoImplicit false

namespace Stencil

open Evaluation

variable {κ : Type}

/-! ## Keys of a tree -/

/-- The keys among the arguments of a call. -/
def argumentKeys : List Argument → List Text
  | [] => []
  | .literal _ :: rest => argumentKeys rest
  | .key key :: rest => key :: argumentKeys rest

/-- The keys that a node resolves itself, whatever is inside it. -/
def Node.keys : Node → List Text
  | .value key _ => [key]
  | .block _ key _ _ => [key]
  | .call _ arguments _ => argumentKeys arguments
  | .text _ | .slot _ _ | .inclusion _ => []

/-- Does such a block show its body in other contexts? -/
def BlockKind.leavesContext : BlockKind → Bool
  | .enumerate | .scopeShift => true
  | .conditional | .negated => false

mutual

/-- The keys of a node, at every depth, outside the bodies of loops and scope shifts. What such a
block shows otherwise is outside its body. -/
def outerKeysOf : Node → List Text
  | .block kind key body otherwise =>
      key :: ((if kind.leavesContext then [] else outerKeys body) ++ outerKeysIn otherwise)
  | .slot _ body => outerKeys body
  | .call _ arguments body => argumentKeys arguments ++ outerKeysIn body
  | .value key _ => [key]
  | .text _ | .inclusion _ => []

/-- The keys of a tree outside the bodies of loops and scope shifts. -/
def outerKeys : List Node → List Text
  | [] => []
  | node :: rest => outerKeysOf node ++ outerKeys rest

/-- The keys of a body that may be absent, outside the bodies of loops and scope shifts. -/
def outerKeysIn : Option (List Node) → List Text
  | none => []
  | some body => outerKeys body

end

/-! ## Two runs of an evaluation -/

namespace Evaluation

variable {α β : Type}

/-- From both contexts the evaluation ends in the same way; if that is no panic, each run ends in
the context it started from. -/
def SameAt (first second : Value κ) (evaluation : Evaluation κ α) : Prop :=
  ∃ outcome left right, evaluation first = some (outcome, left) ∧
    evaluation second = some (outcome, right) ∧
    (outcome ≠ .panicked → left = first ∧ right = second)

variable {first second : Value κ}

theorem sameAt_pure (value : α) : SameAt first second (pure value) :=
  ⟨.done value, first, second, rfl, rfl, fun _ => ⟨rfl, rfl⟩⟩

theorem sameAt_ofOutcome {ask : Value κ → Outcome α} (h : ask first = ask second) :
    SameAt first second (ofOutcome ask) :=
  ⟨ask first, first, second, rfl, by rw [h]; rfl, fun _ => ⟨rfl, rfl⟩⟩

theorem SameAt.bind {evaluation : Evaluation κ α} {next : α → Evaluation κ β}
    (h : SameAt first second evaluation) (hnext : ∀ value, SameAt first second (next value)) :
    SameAt first second (bind evaluation next) := by
  obtain ⟨value | _, left, right, hfirst, hsecond, hstays⟩ := h
  · obtain ⟨rfl, rfl⟩ := hstays (by simp)
    obtain ⟨outcome, left', right', hfirst', hsecond', hstays'⟩ := hnext value
    exact ⟨outcome, left', right', (bind_of_done hfirst).trans hfirst',
      (bind_of_done hsecond).trans hsecond', hstays'⟩
  · exact ⟨.panicked, left, right, bind_of_panicked hfirst, bind_of_panicked hsecond,
      fun hne => absurd rfl hne⟩

theorem SameAt.append {before after : Evaluation κ Text} (h : SameAt first second before)
    (h' : SameAt first second after) : SameAt first second (append before after) :=
  h.bind fun _ => h'.bind fun _ => sameAt_pure _

/-- An evaluation in another context does not see the two contexts at all. -/
theorem sameAt_inContext {evaluation : Evaluation κ α} (h : Answers evaluation)
    (inner : Value κ) : SameAt first second (inContext inner evaluation) := by
  obtain ⟨value | _, left, hinner⟩ := h inner
  · exact ⟨.done value, first, second, by simp [inContext, hinner], by simp [inContext, hinner],
      fun _ => ⟨rfl, rfl⟩⟩
  · exact ⟨.panicked, left, left, by simp [inContext, hinner], by simp [inContext, hinner],
      fun hne => absurd rfl hne⟩

theorem sameAt_inContexts {evaluation : Evaluation κ Text} (h : Answers evaluation)
    (contexts : List (Value κ)) : SameAt first second (inContexts evaluation contexts) := by
  induction contexts with
  | nil => exact sameAt_pure []
  | cons inner rest ih => exact (sameAt_inContext h inner).append ih

end Evaluation

/-! ## Two runs of a tree -/

section Trees

variable {env : Environment κ} {render : Text → Evaluation κ Text} {first second : Value κ}

/-- The keys stand for the same in both contexts. -/
def AgreeOn (evaluate : Evaluate κ) (keys : List Text) (first second : Value κ) : Prop :=
  ∀ key ∈ keys, resolve evaluate first key = resolve evaluate second key

theorem AgreeOn.of_subset {evaluate : Evaluate κ} {keys fewer : List Text}
    (h : AgreeOn evaluate keys first second) (hfewer : fewer ⊆ keys) :
    AgreeOn evaluate fewer first second :=
  fun key hkey => h key (hfewer hkey)

theorem sameAt_callArgs {arguments : List Argument}
    (h : AgreeOn env.evaluate (argumentKeys arguments) first second) :
    SameAt first second (callArgs env arguments) := by
  induction arguments with
  | nil => exact sameAt_pure []
  | cons argument rest ih =>
      rw [callArgs]
      cases argument with
      | literal content =>
          exact SameAt.bind (@sameAt_ofOutcome _ _ first second _ rfl) fun _ =>
            (ih h).bind fun _ => sameAt_pure _
      | key key =>
          have hkey : resolve env.evaluate first key = resolve env.evaluate second key :=
            h key List.mem_cons_self
          have hrest := ih (h.of_subset (List.subset_cons_self key _))
          exact (sameAt_ofOutcome hkey).bind fun _ => hrest.bind fun _ => sameAt_pure _

theorem sameAt_evalBody {body : Option (List Node)}
    (h : ∀ inner ∈ body, SameAt first second (evalNodes env render inner)) :
    SameAt first second (evalBody env render body) := by
  cases body with
  | none => exact sameAt_pure []
  | some inner => exact h inner rfl

/-- What a block shows for a value of its key. The body of a loop or scope shift need not have the
same in both contexts. -/
theorem sameAt_block {kind : BlockKind} {key : Text} {body : List Node}
    {otherwise : Option (List Node)}
    (hkey : resolve env.evaluate first key = resolve env.evaluate second key)
    (hanswers : Answers (evalNodes env render body))
    (hbody : kind.leavesContext = false → SameAt first second (evalNodes env render body))
    (hother : SameAt first second (evalBody env render otherwise)) :
    SameAt first second (evalNode env render (.block kind key body otherwise)) := by
  simp only [evalNode]
  refine SameAt.bind (sameAt_ofOutcome hkey) fun value => ?_
  by_cases hvalue : value.isTruthy = true
  · rw [if_pos hvalue]
    cases kind with
    | conditional => exact hbody rfl
    | negated => exact sameAt_pure []
    | enumerate => exact sameAt_inContexts hanswers (loopContexts value)
    | scopeShift => exact sameAt_inContexts hanswers (shiftContexts value)
  · rw [if_neg hvalue]
    cases kind with
    | negated => exact hbody rfl
    | conditional | enumerate | scopeShift => exact hother

/-- A call that finds no macro shows its body. -/
theorem sameAt_call {name : Text} {arguments : List Argument} {body : Option (List Node)}
    (hname : lookup? name env.macros = none)
    (harguments : AgreeOn env.evaluate (argumentKeys arguments) first second)
    (hbody : SameAt first second (evalBody env render body)) :
    SameAt first second (evalNode env render (.call name arguments body)) := by
  rw [evalNode]
  refine (sameAt_callArgs harguments).bind fun args => ?_
  rw [callMacro_of_lookup?_eq_none hname]
  exact hbody

/-- **A tree is shown the same in contexts that agree on its outer keys**, if its calls find no
macro. -/
theorem sameAt_evalNodes {nodes : List Node} (huncalled : Uncalled env.macros nodes)
    (h : AgreeOn env.evaluate (outerKeys nodes) first second) :
    SameAt first second (evalNodes env render nodes) := by
  induction nodes using tree_induction with
  | nil => exact sameAt_pure []
  | text content rest ih =>
      have hrest := ih (huncalled.of_subset (nodesWithin_subset_cons _ rest)) h
      exact (sameAt_pure content).append hrest
  | value key isEscaped rest ih =>
      have hrest := ih (huncalled.of_subset (nodesWithin_subset_cons _ rest))
        (h.of_subset (List.subset_append_right _ _))
      have hkey := h key (by simp [outerKeys, outerKeysOf])
      refine SameAt.append ?_ hrest
      rw [evalNode]
      exact (sameAt_ofOutcome hkey).bind fun _ => sameAt_pure _
  | block kind key body otherwise rest ihbody ihother ih =>
      have hrest := ih (huncalled.of_subset (nodesWithin_subset_cons _ rest))
        (h.of_subset (List.subset_append_right _ _))
      have hkey := h key (by simp [outerKeys, outerKeysOf])
      have huncalledBody := huncalled.of_subset
        (nodesWithin_subset_block kind key body rest otherwise)
      refine SameAt.append (sameAt_block hkey (answers_evalNodes huncalledBody) ?_ ?_) hrest
      · intro hkind
        refine ihbody huncalledBody (h.of_subset ?_)
        intro inner hinner
        simp [outerKeys, outerKeysOf, hkind, hinner]
      · refine sameAt_evalBody ?_
        rintro other rfl
        refine ihother other rfl (huncalled.of_subset
          (nodesWithin_subset_otherwise kind key body rest (some other))) (h.of_subset ?_)
        intro inner hinner
        simp [outerKeys, outerKeysOf, outerKeysIn, hinner]
  | slot name body rest ihbody ih =>
      have hrest := ih (huncalled.of_subset (nodesWithin_subset_cons _ rest))
        (h.of_subset (List.subset_append_right _ _))
      refine SameAt.append ?_ hrest
      rw [evalNode]
      exact ihbody (huncalled.of_subset (nodesWithin_subset_slot name body rest))
        (h.of_subset (List.subset_append_left _ _))
  | inclusion name rest ih =>
      have hrest := ih (huncalled.of_subset (nodesWithin_subset_cons _ rest)) h
      exact (sameAt_pure []).append hrest
  | call name arguments body rest ihbody ih =>
      have hrest := ih (huncalled.of_subset (nodesWithin_subset_cons _ rest))
        (h.of_subset (List.subset_append_right _ _))
      have hname : lookup? name env.macros = none :=
        huncalled name arguments body (mem_nodesWithin_head _ rest)
      refine SameAt.append (sameAt_call hname (h.of_subset ?_) (sameAt_evalBody ?_)) hrest
      · intro key hkey
        simp [outerKeys, outerKeysOf, hkey]
      · rintro inner rfl
        refine ihbody inner rfl (huncalled.of_subset
          (nodesWithin_subset_call name arguments rest (some inner))) (h.of_subset ?_)
        intro key hkey
        simp [outerKeys, outerKeysOf, outerKeysIn, hkey]

end Trees

/-- **What is shown depends on the outer keys alone.** Two contexts in which each key outside the
bodies of loops and scope shifts stands for the same show the same text of a tree that calls no
macro, or panic both. Nothing else of them comes into the text, not even in the bodies of loops and
scope shifts: the keys there are free to differ. -/
theorem renderNodes_eq_of_outerKeys {env : Environment κ} {nodes : List Node}
    {first second : Value κ} (huncalled : Uncalled env.macros nodes)
    (h : ∀ key ∈ outerKeys nodes,
      resolve env.evaluate first key = resolve env.evaluate second key) (depth : Nat) :
    ∃ outcome left right, renderNodes env depth nodes first = some (outcome, left) ∧
      renderNodes env depth nodes second = some (outcome, right) ∧
      ∀ content, outcome = .done content → left = first ∧ right = second := by
  obtain ⟨outcome, left, right, hfirst, hsecond, hstays⟩ :=
    @sameAt_evalNodes κ env (renderFragment env depth) first second nodes huncalled h
  refine ⟨outcome, left, right, hfirst, hsecond, ?_⟩
  rintro content rfl
  exact hstays (by simp)

/-- The statement for a loop with a key in its body that stands for different texts in the two
contexts, and a scope shift to what a computed entry gives. -/
theorem renderNodes_eq_of_outerKeys_secret :
    let env : Environment Text :=
      { evaluate := fun content _ => .done (.mapping [(['x'], .text content)]), macros := [] }
    let source :=
      "{{@l}}{{=val}}{{=k}}{{:l}}{{=n}}{{/l}}{{>c}}{{=x}}{{=k}}{{/c}}{{m(n)}}{{=n}}{{/m}}"
    let nodes := parseFragment source.toList
    let withSecret (secret : Text) : Value Text := .mapping [
      (['l'], .mapping [(['p'], .text "a".toList), (['q'], .text "b".toList)]),
      (['k'], .text secret), (['c'], .computed "c".toList), (['n'], .text "n".toList)]
    let first := withSecret "first".toList
    let second := withSecret "second".toList
    Uncalled env.macros nodes ∧
      (∀ key ∈ outerKeys nodes,
        resolve env.evaluate first key = resolve env.evaluate second key) ∧
      renderNodes env 0 nodes first = some (.done "abcn".toList, first) ∧
      renderNodes env 0 nodes second = some (.done "abcn".toList, second) := by
  intro env source nodes withSecret first second
  have huncalled : Uncalled env.macros nodes := fun name arguments body _ => rfl
  have htree : nodes = [
      .block .enumerate ['l'] [.value ['v', 'a', 'l'] false, .value ['k'] false]
        (some [.value ['n'] false]),
      .block .scopeShift ['c'] [.value ['x'] false, .value ['k'] false] none,
      .call ['m'] [.key ['n']] (some [.value ['n'] false])] := by
    simp only [nodes, source]
    with_unfolding_all rfl
  have hkeys : outerKeys nodes = [['l'], ['n'], ['c'], ['n'], ['n']] := by
    rw [htree]
    rfl
  have hagree : ∀ key ∈ outerKeys nodes,
      resolve env.evaluate first key = resolve env.evaluate second key := by
    rw [hkeys]
    intro key hkey
    simp only [List.mem_cons, List.not_mem_nil, or_false] at hkey
    rcases hkey with rfl | rfl | rfl | rfl | rfl <;> rfl
  have hshown : renderNodes env 0 nodes first = some (.done "abcn".toList, first) := by
    rw [htree]
    rfl
  obtain ⟨outcome, left, right, hfirst, hsecond, hstays⟩ :=
    renderNodes_eq_of_outerKeys huncalled hagree 0
  obtain ⟨rfl, rfl⟩ := Prod.mk.inj (Option.some.inj (hshown.symm.trans hfirst))
  rw [(hstays _ rfl).2] at hsecond
  exact ⟨huncalled, hagree, hshown, hsecond⟩

end Stencil
