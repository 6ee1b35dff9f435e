import Stencil.Proofs.Nesting.Frames
import Stencil.Proofs.Tree.Settled

/-!
# Parsed trees are settled

No list of a parsed tree, at any depth, has an empty text or two texts side by side
(`settled_parse`, `settled_parseFragment`). The invariant of the parse says so of the root and of
both branches of every open frame (`SettledFrame`, `SettledState`). The branches are kept apart in
it: the children of a parted frame, as one list, may have two texts side by side where the `:key`
tag stands.
-/

set_option autoImplicit false

namespace Stencil

/-! ## Pieces are not empty -/

theorem source_ne_nil_of_mem_textSegment {content : Text} {piece : Segment}
    (h : piece ∈ textSegment content) : piece.source ≠ [] := by
  cases content with
  | nil => cases h
  | cons c content =>
      obtain rfl := List.mem_singleton.mp h
      simp [Segment.source]

/-- No piece of a source is empty. -/
theorem source_ne_nil_of_mem_segments {source : Text} {piece : Segment}
    (h : piece ∈ segments source) : piece.source ≠ [] := by
  fun_induction segments source with
  | case1 source hcut => exact source_ne_nil_of_mem_textSegment h
  | case2 source before inner after hcut ih =>
      rcases List.mem_append.mp h with h | h
      · exact source_ne_nil_of_mem_textSegment h
      · rcases List.mem_cons.mp h with rfl | h
        · simp [Segment.source]
        · exact ih h

/-! ## The invariant -/

/-- A frame both branches of which are settled, and whose tags have a source. -/
structure SettledFrame (frame : Frame) : Prop where
  sound : frame.Sound
  source : frame.source ≠ []
  parting : ∀ parting ∈ frame.parting, parting.2 ≠ []
  before : Settled frame.before
  after : BodySettled frame.after

/-- A state in which what was read is settled, outside every open frame and in each of them. -/
structure SettledState (state : Nesting) : Prop where
  root : Settled state.root
  stack : ∀ frame ∈ state.stack, SettledFrame frame

theorem settledState_start (whole : Bool) : SettledState (.start whole) :=
  ⟨trivial, by simp [Nesting.start]⟩

theorem SettledFrame.current {frame : Frame} (h : SettledFrame frame) : Settled frame.current := by
  cases hparting : frame.parting with
  | none => simpa [Frame.current, Frame.before, Frame.after, hparting] using h.before
  | some parting =>
      simpa [Frame.current, Frame.after, hparting, BodySettled] using h.after

theorem SettledFrame.push {frame : Frame} (h : SettledFrame frame) {node : Node}
    (hnode : NodeSettled node) : SettledFrame (frame.push node) := by
  have hcurrent : Settled (pushNode frame.current node) := settled_pushNode h.current hnode
  rw [Frame.push_eq h.sound]
  refine ⟨h.sound.withCurrent _, h.source, h.parting, ?_, ?_⟩
  · cases hparting : frame.parting with
    | none => rwa [Frame.before_withCurrent_of_none _ _ hparting]
    | some parting =>
        rw [Frame.before_withCurrent_of_some _ h.sound (by rw [hparting]; rfl)]
        exact h.before
  · rw [Frame.after_withCurrent _ h.sound]
    cases frame.after with
    | none => trivial
    | some after => exact hcurrent

theorem SettledFrame.toNode {frame : Frame} (h : SettledFrame frame) :
    NodeSettled frame.toNode := by
  rw [Frame.toNode_eq h.sound]
  split
  · exact ⟨h.before, h.after⟩
  · exact h.before
  · exact h.before

theorem SettledFrame.flatten {frame : Frame} (h : SettledFrame frame) :
    ∀ node ∈ frame.flatten, NodeSettled node := by
  have hchildren : ∀ node ∈ frame.flatChildren, NodeSettled node := by
    rw [Frame.flatChildren_eq, List.forall_mem_append]
    refine ⟨h.before.nodeSettled, ?_⟩
    cases hparting : frame.parting with
    | none => simp
    | some parting =>
        have hafter : Settled (frame.children.drop parting.1) := by
          simpa [Frame.after, hparting, BodySettled] using h.after
        rw [List.forall_mem_cons]
        exact ⟨h.parting parting hparting, hafter.nodeSettled⟩
  unfold Frame.flatten
  split
  · rw [List.forall_mem_cons]
    exact ⟨trivial, hchildren⟩
  · rw [List.forall_mem_cons]
    exact ⟨h.source, hchildren⟩

namespace SettledState

variable {state : Nesting} (h : SettledState state)

include h

theorem push {node : Node} (hnode : NodeSettled node) : SettledState (state.push node) := by
  unfold Nesting.push
  split
  · exact ⟨settled_pushNode h.root hnode, h.stack⟩
  · next frame outer hstack =>
      have hframes := hstack ▸ h.stack
      rw [List.forall_mem_cons] at hframes
      refine ⟨h.root, ?_⟩
      rw [List.forall_mem_cons]
      exact ⟨hframes.1.push hnode, hframes.2⟩

theorem literal {source : Text} (hsource : source ≠ []) (defect : Defect) (span : Span) :
    SettledState (state.literal source defect span) := by
  have hpush : SettledState (state.push (.text source)) := h.push hsource
  exact ⟨hpush.root, hpush.stack⟩

theorem opened (opener : Opener) {source : Text} (hsource : source ≠ []) (span : Span) :
    SettledState (state.opened opener source span) := by
  refine ⟨h.root, ?_⟩
  simp only [Nesting.opened, List.forall_mem_cons]
  exact ⟨⟨Frame.sound_opened opener source span, hsource, by simp, trivial, trivial⟩, h.stack⟩

theorem unwind {frame : Frame} {outer : List Frame} (hstack : state.stack = frame :: outer) :
    SettledState (state.unwind frame outer) := by
  have hframes := hstack ▸ h.stack
  rw [List.forall_mem_cons] at hframes
  have hfold : ∀ (nodes : List Node) (state : Nesting), SettledState state →
      (∀ node ∈ nodes, NodeSettled node) → SettledState (nodes.foldl Nesting.push state) := by
    intro nodes
    induction nodes with
    | nil => exact fun _ hstate _ => hstate
    | cons node nodes ih =>
        intro state hstate hnodes
        rw [List.forall_mem_cons] at hnodes
        exact ih _ (hstate.push hnodes.1) hnodes.2
  exact hfold _ _ ⟨h.root, hframes.2⟩ hframes.1.flatten

theorem unwindTo (isTarget : Frame → Bool) : SettledState (state.unwindTo isTarget) :=
  Nesting.unwindTo_induction isTarget (fun _ _ _ hstack _ hstate => hstate.unwind hstack) h

theorem part (key : Text) {source : Text} (hsource : source ≠ []) (span : Span) :
    SettledState (state.part key source span) := by
  rcases Nesting.part_cases state key source span with
    ⟨-, heq⟩ | ⟨frame, outer, kind, hstack, hopener, hparting, heq⟩
  · rw [heq]
    exact h.literal hsource _ _
  · have hunwound := h.unwindTo fun frame => !frame.opener.isCall
    have hframes := hstack ▸ hunwound.stack
    rw [List.forall_mem_cons] at hframes
    obtain ⟨hframe, houter⟩ := hframes
    rw [heq]
    refine ⟨hunwound.root, ?_⟩
    rw [List.forall_mem_cons]
    refine ⟨⟨.part hopener source, hframe.source, by simpa using hsource, ?_, ?_⟩, houter⟩
    · simpa [Frame.before, hparting] using hframe.before
    · simp [Frame.after, BodySettled, Settled]

theorem close (name : Option Text) {source : Text} (hsource : source ≠ []) (span : Span) :
    SettledState (state.close name source span) := by
  rcases Nesting.close_cases state name source span with
    ⟨-, heq⟩ | ⟨frame, outer, hstack, -, heq⟩
  · rw [heq]
    exact h.literal hsource _ _
  · have hunwound := h.unwindTo (Nesting.closes name)
    have hframes := hstack ▸ hunwound.stack
    rw [List.forall_mem_cons] at hframes
    have houter : SettledState { state.unwindTo (Nesting.closes name) with stack := outer } :=
      ⟨hunwound.root, hframes.2⟩
    rw [heq]
    exact houter.push hframes.1.toNode

theorem readTag (tag : Tag) {source : Text} (hsource : source ≠ []) (span : Span) :
    SettledState (state.readTag tag source span) := by
  cases tag with
  | value escape key => exact h.push trivial
  | inclusion name => exact h.push trivial
  | parent name =>
      simp only [Nesting.readTag]
      split
      · exact ⟨h.root, h.stack⟩
      · split
        · exact h.literal hsource _ _
        · exact h.push hsource
  | opener kind key => exact h.opened _ hsource _
  | slot name => exact h.opened _ hsource _
  | call name arguments => exact h.opened _ hsource _
  | otherwise key => exact h.part key hsource _
  | closer name => exact h.close name hsource _

/-- **One step keeps the tree settled**: reading a piece that is not empty. -/
theorem read {piece : Located Segment} (hpiece : piece.item.source ≠ []) :
    SettledState (state.read piece) := by
  unfold Nesting.read
  split
  · next content hitem =>
      have hcontent : content ≠ [] := by simpa [hitem, Segment.source] using hpiece
      have hleading : SettledState
          { state with leading := state.leading && isBlankText content } := ⟨h.root, h.stack⟩
      exact hleading.push hcontent
  · split
    · next tag _ =>
        have hread := h.readTag tag hpiece piece.span
        exact ⟨hread.root, hread.stack⟩
    · next cause _ =>
        have hread := h.literal hpiece (.malformed cause) piece.span
        exact ⟨hread.root, hread.stack⟩

end SettledState

/-! ## Whole sources -/

theorem SettledState.foldl_read {state : Nesting} (h : SettledState state)
    {pieces : List (Located Segment)} (hpieces : ∀ piece ∈ pieces, piece.item.source ≠ []) :
    SettledState (pieces.foldl Nesting.read state) := by
  induction pieces generalizing state with
  | nil => exact h
  | cons piece pieces ih =>
      rw [List.forall_mem_cons] at hpieces
      exact ih (h.read hpieces.1) hpieces.2

theorem settledState_readAll (whole : Bool) (source : Text) :
    SettledState (.readAll whole source) := by
  have hpieces : ∀ piece ∈ scan source, piece.item.source ≠ [] := by
    intro piece hpiece
    have hitem : piece.item ∈ segments source := by
      rw [← map_item_located 0 (segments source)]
      exact List.mem_map_of_mem hpiece
    exact source_ne_nil_of_mem_segments hitem
  exact ((settledState_start whole).foldl_read hpieces).unwindTo _

/-- **Parsed templates are settled.** -/
theorem settled_parse (source : Text) : Settled (Document.parse source).nodes :=
  (settledState_readAll true source).root

/-- **Parsed fragments are settled.** -/
theorem settled_parseFragment (source : Text) : Settled (parseFragment source) :=
  (settledState_readAll false source).root

/-- The tree comes from a source: from a whole template or from a fragment. -/
inductive Parsed : List Node → Prop
  | template (source : Text) : Parsed (Document.parse source).nodes
  | fragment (source : Text) : Parsed (parseFragment source)

theorem Parsed.settled {nodes : List Node} (h : Parsed nodes) : Settled nodes := by
  cases h with
  | template source => exact settled_parse source
  | fragment source => exact settled_parseFragment source

end Stencil
