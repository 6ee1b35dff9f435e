import Stencil.Proofs.Nesting.Settled
import Stencil.Proofs.Resolution.Inclusions

/-!
# Trees stay settled

Parsed trees are settled, and resolving parents and inclusions keeps them so, whatever the documents
come from (`settled_throughout`).

A source of documents is not always the same function of names: a directory keeps what it has read,
and what it finds depends on what was asked before. So a source is taken here with states, and may
also break off. `Ensures` says of an action on such a source what every answer of it has, from
whatever state it starts; each part of a resolution ensures that its answer is settled.
-/

set_option autoImplicit false

namespace Stencil

/-! ## Sources with states -/

/-- An action on a source with states, which may break off without an answer. -/
abbrev SourceAction (σ α : Type) := OptionT (StateM σ) α

section SourceAction

variable {σ α β : Type}

/-- What the action answers from a state, if it does not break off, and the state after it. -/
def answered (action : SourceAction σ α) (state : σ) : Option α × σ :=
  Id.run (action.run.run state)

theorem answered_bind (first : SourceAction σ α) (next : α → SourceAction σ β) (state : σ) :
    answered (first >>= next) state = match answered first state with
      | (none, after) => (none, after)
      | (some value, after) => answered (next value) after := by
  unfold answered
  rw [OptionT.run_bind, Option.elimM, StateT.run_bind]
  rcases first.run.run state with ⟨_ | value, after⟩
  · rfl
  · rfl

/-- Every answer of the action has the property, from whatever state it starts. -/
def Ensures (P : α → Prop) (action : SourceAction σ α) : Prop :=
  ∀ state answer after, answered action state = (some answer, after) → P answer

theorem ensures_pure {P : α → Prop} {value : α} (h : P value) :
    Ensures P (pure value : SourceAction σ α) := by
  intro state answer after hanswer
  cases hanswer
  exact h

theorem Ensures.bind {P : α → Prop} {Q : β → Prop} {first : SourceAction σ α}
    {next : α → SourceAction σ β} (h : Ensures P first)
    (hnext : ∀ value, P value → Ensures Q (next value)) : Ensures Q (first >>= next) := by
  intro state answer after hanswer
  rw [answered_bind] at hanswer
  rcases hfirst : answered first state with ⟨_ | value, middle⟩
  · rw [hfirst] at hanswer
    cases hanswer
  · rw [hfirst] at hanswer
    exact hnext value (h state value middle hfirst) middle answer after hanswer

end SourceAction

/-! ## Resolution -/

section Resolution

variable {σ : Type} {fetch : Text → SourceAction σ (Option Document)}

/-- Every document that is found has a settled tree. -/
def FindsSettled (fetch : Text → SourceAction σ (Option Document)) : Prop :=
  ∀ name, Ensures (fun found => ∀ document ∈ found, Settled document.nodes) (fetch name)

/-- A resolution that gives a tree gives a settled one. -/
def SettledAnswer (answer : Except RenderError (List Node)) : Prop :=
  ∀ tree, answer = .ok tree → Settled tree

theorem settledAnswer_error (error : RenderError) : SettledAnswer (.error error) := by
  rintro tree ⟨⟩

/-- **Following parents keeps trees settled.** -/
theorem ensures_followParents (hfetch : FindsSettled fetch) (limit hops : Nat)
    {overrides : Overrides} (hoverrides : SettledOverrides overrides) {document : Document}
    (hdocument : Settled document.nodes) :
    Ensures (fun answer => SettledAnswer answer.1)
      (followParents fetch limit hops overrides document) := by
  induction hops generalizing overrides document with
  | zero =>
      unfold followParents
      cases document.parentName with
      | none =>
          refine ensures_pure fun tree htree => ?_
          exact settled_of_fillSlots hoverrides hdocument (Prod.ext htree rfl)
      | some parent => exact ensures_pure (settledAnswer_error _)
  | succ hops ih =>
      unfold followParents
      cases document.parentName with
      | none =>
          refine ensures_pure fun tree htree => ?_
          exact settled_of_fillSlots hoverrides hdocument (Prod.ext htree rfl)
      | some parent =>
          refine (hfetch parent).bind fun found hfound => ?_
          cases found with
          | none => exact ensures_pure (settledAnswer_error _)
          | some next =>
              exact ih (settledOverrides_recordSlots hoverrides hdocument) (hfound next rfl)

theorem ensures_fetchBodies (hfetch : FindsSettled fetch) (names : List Text) :
    Ensures (fun bodies => ∀ body ∈ bodies, Settled body.2) (fetchBodies fetch names) := by
  induction names with
  | nil => exact ensures_pure (by simp)
  | cons name rest ih =>
      unfold fetchBodies
      refine (hfetch name).bind fun found hfound => ih.bind fun bodies hbodies => ensures_pure ?_
      rw [List.forall_mem_cons]
      exact ⟨settled_includedBody hfound, hbodies⟩

/-- Putting settled trees in the place of inclusions keeps a tree settled. -/
theorem settled_rebuild_inlining {bodies : Entries (List Node)}
    (hbodies : ∀ body ∈ bodies, Settled body.2) {nodes : List Node} (hnodes : Settled nodes) :
    Settled (rebuild (inlining bodies) nodes) := by
  refine settled_rebuild ?_ ?_ hnodes
  · intro name body rebuilt _ hrebuilt
    simpa [inlining, NodeSettled] using hrebuilt
  · intro name
    simp only [inlining]
    cases hlookup : lookup? name bodies with
    | none => simp
    | some body => exact (hbodies _ (mem_of_lookup? hlookup)).nodeSettled

/-- **Replacing inclusions keeps trees settled.** -/
theorem ensures_inlineInclusions (hfetch : FindsSettled fetch) (limit passes : Nat)
    {nodes : List Node} (hnodes : Settled nodes) :
    Ensures SettledAnswer (inlineInclusions fetch limit passes nodes) := by
  have hok : SettledAnswer (.ok nodes) := by
    rintro tree ⟨⟩
    exact hnodes
  induction passes generalizing nodes with
  | zero =>
      rw [inlineInclusions]
      split
      · exact ensures_pure hok
      · exact ensures_pure (settledAnswer_error _)
  | succ passes ih =>
      rw [inlineInclusions]
      split
      · exact ensures_pure hok
      · refine (ensures_fetchBodies hfetch _).bind fun bodies hbodies => ?_
        have hnext := settled_rebuild_inlining hbodies hnodes
        exact ih hnext (by rintro tree ⟨⟩; exact hnext)

end Resolution

/-- **Trees stay settled through the whole pipeline.** No list of the tree that a source is parsed
to, at any depth, has an empty text or two texts side by side. The same holds of what resolution
gives, for any source of documents and any limits, if the document, the overrides it starts with and
the documents that the source finds are parsed: of the tree that following the parents gives, and of
the tree that replacing the inclusions of that one gives, even if the source is in another state by
then. -/
theorem settled_throughout :
    (∀ source, Settled (Document.parse source).nodes ∧ Settled (parseFragment source)) ∧
    ∀ (σ : Type) (fetch : Text → SourceAction σ (Option Document)) (limits : Limits)
      (overrides : Overrides) (document : Document),
      Parsed document.nodes → (∀ entry ∈ overrides, Parsed entry.2) →
      (∀ name state found after, answered (fetch name) state = (some (some found), after) →
        Parsed found.nodes) →
      ∀ first merged recorded middle second tree after,
        answered (resolveParents fetch limits.parents overrides document) first
          = (some (.ok merged, recorded), middle) →
        answered (resolveInclusions fetch limits.inclusions merged) second
          = (some (.ok tree), after) →
        Settled merged ∧ Settled tree := by
  refine ⟨fun source => ⟨settled_parse source, settled_parseFragment source⟩, ?_⟩
  intro σ fetch limits overrides document hdocument hoverrides hfound first merged recorded middle
    second tree after hmerged htree
  have hfetch : FindsSettled fetch := by
    rintro name state answer after hanswer found rfl
    exact (hfound name state found after hanswer).settled
  have hsettled : SettledOverrides overrides := fun name body hbody =>
    (hoverrides _ (mem_of_lookup? hbody)).settled
  have hparents : Settled merged :=
    ensures_followParents hfetch _ _ hsettled hdocument.settled first _ middle hmerged merged rfl
  have hinclusions : Settled tree :=
    ensures_inlineInclusions hfetch _ _ hparents second _ after htree tree rfl
  exact ⟨hparents, hinclusions⟩

/-- A page whose slot goes between two texts of its parent and ends with a template that is empty.
The source answers by the number of requests before. -/
theorem settled_throughout_page :
    let sources := ["[{{#s}}{{/s}}]".toList, []]
    let fetch : Text → SourceAction Nat (Option Document) := fun _ =>
      OptionT.mk fun requests => (some (sources[requests]?.map Document.parse), requests + 1)
    let page := Document.parse "{{^p}}{{#s}}{{=k}}a{{+i}}{{/s}}".toList
    let overrides : Overrides := [("t".toList, parseFragment "x{{:x}}".toList)]
    ∃ merged recorded tree,
      answered (resolveParents fetch 32 overrides page) 0 = (some (.ok merged, recorded), 1) ∧
      answered (resolveInclusions fetch 32 merged) 1 = (some (.ok tree), 2) ∧
      Settled merged ∧ Settled tree := by
  intro sources fetch page overrides
  have hpage : page = ⟨some ⟨['p'], ⟨0, 6⟩⟩,
      [.slot ['s'] [.value ['k'] false, .text ['a'], .inclusion ['i']]]⟩ := by
    with_unfolding_all rfl
  have hoverrides : overrides = [(['t'], [.text "x{{:x}}".toList])] := by with_unfolding_all rfl
  have hdocuments : sources.map Document.parse
      = [⟨none, [.text ['['], .slot ['s'] [], .text [']']]⟩, ⟨none, []⟩] := by
    with_unfolding_all rfl
  have hfetch : fetch = fun _ => OptionT.mk fun requests =>
      (some (sources.map Document.parse)[requests]?, requests + 1) := by
    simp only [fetch, List.getElem?_map]
  have hmerged : answered (resolveParents fetch 32 overrides page) 0
      = (some (.ok [.text ['['], .value ['k'] false, .text ['a'], .inclusion ['i'], .text [']']],
          [(['t'], [.text "x{{:x}}".toList]),
            (['s'], [.value ['k'] false, .text ['a'], .inclusion ['i']])]), 1) := by
    rw [hfetch, hdocuments, hpage, hoverrides]
    rfl
  have htree : answered (resolveInclusions fetch 32
        [.text ['['], .value ['k'] false, .text ['a'], .inclusion ['i'], .text [']']]) 1
      = (some (.ok [.text ['['], .value ['k'] false, .text ['a', ']']]), 2) := by
    rw [hfetch, hdocuments]
    rfl
  refine ⟨_, _, _, hmerged, htree, ?_⟩
  refine settled_throughout.2 Nat fetch {} overrides page (.template _) ?_ ?_ 0 _ _ 1 1 _ 2
    hmerged htree
  · intro entry hentry
    obtain rfl := List.mem_singleton.mp hentry
    exact .fragment _
  · intro name state found after hanswer
    obtain ⟨hfound, -⟩ := Prod.mk.inj hanswer
    obtain ⟨source, -, rfl⟩ := Option.map_eq_some_iff.mp (Option.some.inj hfound)
    exact .template source

end Stencil
