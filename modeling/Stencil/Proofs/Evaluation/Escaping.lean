import Stencil.Proofs.Evaluation.Answers

/-!
# Escaped values bring no markup

A tree that shows values only escaped, and calls no macro, shows an angle bracket or a quote only
where one of its own texts has it (`notMem_of_escaped`). What the data are does not matter: every
text that comes from them goes through `escape` on its way, be it the text of a sequence, the JSON
of a mapping, a key of a mapping that a loop goes through, or what a computed entry gives.

The rules of evaluation are followed, for environments that may change (`Evaluates`). So computed
entries may answer differently each time.
-/

set_option autoImplicit false

namespace Stencil

variable {κ : Type}

/-- The characters that are escaped. -/
def markup : Text := ['<', '>', '\x27', '"']

theorem notMem_escapeChar {c : Char} (hc : c ∈ markup) (d : Char) : c ∉ escapeChar d := by
  have hcases : c = '<' ∨ c = '>' ∨ c = '\x27' ∨ c = '"' := by simpa [markup] using hc
  unfold escapeChar
  split
  · rcases hcases with rfl | rfl | rfl | rfl <;> decide
  · rcases hcases with rfl | rfl | rfl | rfl <;> decide
  · rcases hcases with rfl | rfl | rfl | rfl <;> decide
  · rcases hcases with rfl | rfl | rfl | rfl <;> decide
  · next hlt hgt hsingle hdouble =>
      rw [List.mem_singleton]
      rintro rfl
      rcases hcases with rfl | rfl | rfl | rfl
      · exact hlt rfl
      · exact hgt rfl
      · exact hsingle rfl
      · exact hdouble rfl

/-- An escaped text has no markup. -/
theorem notMem_escape {c : Char} (hc : c ∈ markup) (t : Text) : c ∉ escape t := by
  intro hmem
  obtain ⟨d, -, hd⟩ := List.mem_flatMap.mp hmem
  exact notMem_escapeChar hc d hd

theorem notMem_shownValue {c : Char} (hc : c ∈ markup) (key : Text) (value : Value κ) :
    c ∉ shownValue key true value := by
  unfold shownValue
  by_cases hshown : isShown key value = true
  · rw [if_pos hshown, if_pos rfl]
    exact notMem_escape hc value.toText
  · rw [if_neg hshown]
    exact List.not_mem_nil

/-! ## Escaped trees -/

/-- A tree that shows values only escaped, has no call of a macro that is registered in a possible
environment, and does not have the character in its texts. All this holds at every depth. -/
structure Escaped (possible : Environment κ → Prop) (c : Char) (nodes : List Node) : Prop where
  value : ∀ key, .value key false ∉ nodesWithin nodes
  call : ∀ env, possible env → Uncalled env.macros nodes
  text : ∀ content, .text content ∈ nodesWithin nodes → c ∉ content

section Escaped

variable {possible : Environment κ → Prop} {c : Char} {node : Node} {nodes inner rest : List Node}

theorem Escaped.of_subset (h : Escaped possible c nodes)
    (hinner : nodesWithin inner ⊆ nodesWithin nodes) : Escaped possible c inner :=
  ⟨fun key hmem => h.value key (hinner hmem), fun env henv => (h.call env henv).of_subset hinner,
    fun content hmem => h.text content (hinner hmem)⟩

theorem Escaped.head (h : Escaped possible c (node :: rest)) : Escaped possible c [node] :=
  h.of_subset (nodesWithin_subset_head node rest)

theorem Escaped.tail (h : Escaped possible c (node :: rest)) : Escaped possible c rest :=
  h.of_subset (nodesWithin_subset_cons node rest)

/-- An evaluand whose tree is escaped. No run of a macro is met in such a tree. -/
def Evaluand.Escaped (possible : Environment κ → Prop) (c : Char) : Evaluand κ → Prop
  | .node node => Stencil.Escaped possible c [node]
  | .nodes nodes => Stencil.Escaped possible c nodes
  | .each body _ => Stencil.Escaped possible c body
  | .run _ => False

theorem escaped_of_tree {evaluand : Evaluand κ} (houtside : evaluand.IsOutside)
    (h : Escaped possible c evaluand.tree) : evaluand.Escaped possible c := by
  cases evaluand with
  | node _ | nodes _ | each _ _ => exact h
  | run _ => exact houtside.elim

theorem escaped_blockEvaluand {kind : BlockKind} {key : Text} {body : List Node}
    {otherwise : Option (List Node)} (h : Escaped possible c [.block kind key body otherwise])
    (value : Value κ) : (blockEvaluand kind body otherwise value).Escaped possible c :=
  escaped_of_tree (isOutside_blockEvaluand kind body otherwise value)
    (h.of_subset (nodesWithin_tree_blockEvaluand kind key body otherwise value))

theorem notMem_of_prepend {before content : Text} {outcome : Outcome (Option Text)}
    (hbefore : c ∉ before) (hrest : ∀ rest, outcome = .done (some rest) → c ∉ rest)
    (h : outcome.prepend before = .done (some content)) : c ∉ content := by
  cases outcome with
  | panicked => cases h
  | done shown =>
      cases shown with
      | none => cases h
      | some rest =>
          cases h
          rw [List.mem_append, not_or]
          exact ⟨hbefore, hrest rest rfl⟩

/-- What an escaped evaluand shows does not have the character. -/
theorem Evaluates.notMem (hc : c ∈ markup) {evaluand : Evaluand κ} {context after : Value κ}
    {outcome : Outcome (Option Text)} (h : Evaluates possible evaluand context outcome after) :
    evaluand.Escaped possible c → ∀ content, outcome = .done (some content) → c ∉ content := by
  induction h with
  | text =>
      rintro hescaped content ⟨⟩
      exact hescaped.text _ (mem_nodesWithin_head _ [])
  | @value key isEscaped =>
      rintro hescaped content ⟨⟩
      -- the one place where a value comes into the text
      obtain rfl : isEscaped = true := by
        by_contra hraw
        rw [Bool.not_eq_true] at hraw
        subst hraw
        exact hescaped.value key (mem_nodesWithin_head _ [])
      exact notMem_shownValue hc key _
  | block _ _ _ ih => exact fun hescaped => ih (escaped_blockEvaluand hescaped _)
  | slot _ ih => exact fun hescaped => ih (hescaped.of_subset (nodesWithin_subset_slot _ _ []))
  | inclusion | nil | eachNil =>
      rintro _ content ⟨⟩
      exact List.not_mem_nil
  | callUnregistered _ _ _ _ ih =>
      exact fun hescaped => ih (hescaped.of_subset (nodesWithin_subset_call _ _ [] _))
  | callShown _ henv hm _ _ | callFailed _ henv hm _ _ _ _ | callPanicked _ henv hm _ _ _ _ =>
      intro hescaped
      have hnone := hescaped.call _ henv _ _ _ (mem_nodesWithin_head _ [])
      rw [hm] at hnone
      cases hnone
  | cons _ _ ihnode ihrest =>
      intro hescaped content
      exact notMem_of_prepend (ihnode hescaped.head _ rfl) (ihrest hescaped.tail)
  | eachCons _ _ ihbody ihrest =>
      intro hescaped content
      exact notMem_of_prepend (ihbody hescaped _ rfl) (ihrest hescaped)
  | valuePanicked | blockPanicked | callArgumentPanicked | consPanicked | eachPanicked =>
      rintro _ content ⟨⟩
  | runDone | runFailed | runPanicked | runContext | runTryKey | runTryTemplate =>
      exact fun hescaped => hescaped.elim

end Escaped

/-- **Escaped values bring no markup.** A tree that shows values only escaped and calls no macro is
evaluated in every context, to a panic of a computed entry or to a text. For each character that is
escaped: if no text of the tree has it, then neither has the text that is shown. The same holds
where computed entries are no functions. -/
theorem notMem_of_escaped {possible : Environment κ → Prop} {c : Char} {nodes : List Node}
    (hc : c ∈ markup) (h : Escaped possible c nodes) :
    (∀ context content after,
      Evaluates possible (.nodes nodes) context (.done (some content)) after → c ∉ content) ∧
    ∀ env, possible env → ∀ depth context, ∃ outcome after,
      renderNodes env depth nodes context = some (outcome, after) ∧
        ∀ content, outcome = .done content → c ∉ content := by
  constructor
  · intro context content after heval
    exact heval.notMem hc h content rfl
  · intro env henv depth context
    obtain ⟨outcome, after, hanswer⟩ := @answers_evalNodes κ env (renderFragment env depth) nodes
      (h.call env henv) context
    refine ⟨outcome, after, hanswer, ?_⟩
    rintro content rfl
    have hescaped : Escaped (· = env) c nodes := by
      refine ⟨h.value, ?_, h.text⟩
      rintro other rfl
      exact h.call other henv
    exact (evaluates_of_renderNodes hanswer).notMem hc hescaped content rfl

/-- The statement for a tree that shows escaped the keys of a mapping, the JSON of a mapping, and
what a computed entry gives. All of them have markup, and so has the name of a macro that is not
there. -/
theorem notMem_of_escaped_page :
    let env : Environment Text :=
      { evaluate := fun content _ => .done (.text content), macros := [] }
    let nodes : List Node := [
      .block .enumerate ['m'] [.value ['k', 'e', 'y'] true, .value ['v', 'a', 'l'] true]
        (some [.text "none".toList]),
      .slot ['s'] [.value ['m'] true],
      .inclusion ['t'],
      .call "<b>".toList [.literal "<".toList] (some [.value ['c'] true])]
    let context : Value Text := .mapping [
      (['m'], .mapping [("<k>".toList, .sequence [.text "<a>".toList, .bool true])]),
      (['c'], .computed "<script>".toList)]
    let shown := ("&lt;k&gt;&lt;a&gt;,true{&quot;&lt;k&gt;&quot;:[&quot;&lt;a&gt;&quot;,true]}"
      ++ "&lt;script&gt;").toList
    '<' ∈ markup ∧ Escaped (· = env) '<' nodes ∧
      renderNodes env 0 nodes context = some (.done shown, context) ∧ '<' ∉ shown := by
  intro env nodes context shown
  have hmarkup : '<' ∈ markup := by decide
  have hescaped : Escaped (· = env) '<' nodes := by
    refine ⟨?_, ?_, ?_⟩
    · simp [nodes, nodesWithin, nodesOf, nodesIn]
    · rintro _ rfl name arguments body -
      rfl
    · simp [nodes, nodesWithin, nodesOf, nodesIn]
  have hshown : renderNodes env 0 nodes context = some (.done shown, context) := by
    simp only [env, nodes, context, shown]
    rfl
  refine ⟨hmarkup, hescaped, hshown, ?_⟩
  exact (notMem_of_escaped hmarkup hescaped).1 context shown context
    (evaluates_of_renderNodes hshown)

end Stencil
