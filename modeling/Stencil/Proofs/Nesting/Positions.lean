import Stencil.Proofs.Nesting.Events

/-!
# Positions do not matter

What a parse does with a piece depends on what the piece says, not on where it stands. So sources
with the same pieces are read as the same tree, although the spans in the open frames differ
(`SameShape`). Whether a parent may be named matters for one kind of tag only: the pieces have to
name no parent where one may be named (`SameShape.foldl_read`).
-/

set_option autoImplicit false

namespace Stencil

/-! ## Frames but for their spans -/

/-- The frames were opened by the same tag and have read the same. The places of their tags may
differ. -/
structure Frame.SameShape (frame other : Frame) : Prop where
  opener : frame.opener = other.opener
  source : frame.source = other.source
  children : frame.children = other.children
  parting : frame.parting = other.parting

namespace Frame.SameShape

variable {frame other : Frame}

theorem push (h : frame.SameShape other) (node : Node) :
    (frame.push node).SameShape (other.push node) := by
  unfold Frame.push
  rw [h.children, h.parting]
  split
  · exact ⟨h.opener, h.source, rfl, rfl⟩
  · exact ⟨h.opener, h.source, rfl, rfl⟩

theorem toNode_eq (h : frame.SameShape other) : frame.toNode = other.toNode := by
  unfold Frame.toNode
  rw [h.opener, h.children, h.parting]

theorem flatten_eq (h : frame.SameShape other) : frame.flatten = other.flatten := by
  unfold Frame.flatten flatChildren
  rw [h.opener, h.source, h.children, h.parting]

end Frame.SameShape

namespace Nesting

/-- The states have read the same tree, outside every open frame and in each of them. -/
structure SameShape (state other : Nesting) : Prop where
  root : state.root = other.root
  stack : List.Forall₂ Frame.SameShape state.stack other.stack

namespace SameShape

variable {state other : Nesting}

theorem push (h : SameShape state other) (node : Node) :
    SameShape (state.push node) (other.push node) := by
  obtain ⟨hroot, hstack⟩ := h
  unfold Nesting.push
  generalize state.stack = stack at hstack
  generalize other.stack = stack' at hstack
  cases hstack with
  | nil => exact ⟨congrArg (pushNode · node) hroot, .nil⟩
  | cons hframe houter => exact ⟨hroot, .cons (hframe.push node) houter⟩

theorem foldl_push (h : SameShape state other) (nodes : List Node) :
    SameShape (nodes.foldl Nesting.push state) (nodes.foldl Nesting.push other) := by
  induction nodes generalizing state other with
  | nil => exact h
  | cons node nodes ih => exact ih (h.push node)

theorem literal (h : SameShape state other) (source : Text) (defect : Defect)
    (span span' : Span) :
    SameShape (state.literal source defect span) (other.literal source defect span') := by
  have hpush := h.push (.text source)
  exact ⟨hpush.root, hpush.stack⟩

theorem opened (h : SameShape state other) (opener : Opener) (source : Text) (span span' : Span) :
    SameShape (state.opened opener source span) (other.opened opener source span') :=
  ⟨h.root, .cons ⟨rfl, rfl, rfl, rfl⟩ h.stack⟩

theorem unwind (h : SameShape state other) {frame frame' : Frame} {outer outer' : List Frame}
    (hframe : frame.SameShape frame') (houter : List.Forall₂ Frame.SameShape outer outer') :
    SameShape (state.unwind frame outer) (other.unwind frame' outer') := by
  have hstart : SameShape
      { state with stack := outer, warnings := state.warnings ++ frame.unclosed }
      { other with stack := outer', warnings := other.warnings ++ frame'.unclosed } :=
    ⟨h.root, houter⟩
  unfold Nesting.unwind
  rw [hframe.flatten_eq]
  exact hstart.foldl_push _

/-! ### Unwinding -/

/-- The test is passed by both of two frames or by none. -/
def SeesShape (isTarget : Frame → Bool) : Prop :=
  ∀ frame other, frame.SameShape other → isTarget frame = isTarget other

theorem seesShape_isCall : SeesShape fun frame => !frame.opener.isCall := by
  intro frame other h
  simp only [h.opener]

theorem seesShape_closes (name : Option Text) : SeesShape (closes name) := by
  intro frame other h
  unfold closes
  rw [h.opener]

theorem seesShape_none : SeesShape fun _ => false := fun _ _ _ => rfl

theorem unwindTo (h : SameShape state other) {isTarget : Frame → Bool}
    (htarget : SeesShape isTarget) :
    SameShape (state.unwindTo isTarget) (other.unwindTo isTarget) := by
  fun_induction Nesting.unwindTo isTarget state generalizing other with
  | case1 state hnil =>
      have hstack := h.stack
      rw [hnil] at hstack
      cases hother : other.stack with
      | nil =>
          rw [unwindTo_of_nil _ hother]
          exact h
      | cons frame outer =>
          rw [hother] at hstack
          cases hstack
  | case2 state frame outer hcons hstops =>
      have hstack := h.stack
      rw [hcons] at hstack
      cases hother : other.stack with
      | nil =>
          rw [hother] at hstack
          cases hstack
      | cons frame' outer' =>
          rw [hother] at hstack
          cases hstack with
          | cons hframe houter =>
              rw [unwindTo_of_cons _ hother, if_pos ((htarget _ _ hframe).symm.trans hstops)]
              exact h
  | case3 state frame outer hcons hpasses ih =>
      have hstack := h.stack
      rw [hcons] at hstack
      cases hother : other.stack with
      | nil =>
          rw [hother] at hstack
          cases hstack
      | cons frame' outer' =>
          rw [hother] at hstack
          cases hstack with
          | cons hframe houter =>
              have hpasses' : ¬ isTarget frame' = true := by
                rw [← htarget _ _ hframe]
                exact hpasses
              rw [unwindTo_of_cons _ hother, if_neg hpasses']
              exact ih (h.unwind hframe houter)

/-! ### Tags -/

theorem any_eq {isTarget : Frame → Bool} (htarget : SeesShape isTarget) {stack stack' : List Frame}
    (h : List.Forall₂ Frame.SameShape stack stack') :
    stack.any isTarget = stack'.any isTarget := by
  induction h with
  | nil => rfl
  | cons hframe _ ih => rw [List.any_cons, List.any_cons, htarget _ _ hframe, ih]

theorem partable_eq (key : Text) {stack stack' : List Frame}
    (h : List.Forall₂ Frame.SameShape stack stack') :
    partable key stack = partable key stack' := by
  induction h with
  | nil => rfl
  | @cons frame other outer outer' hframe _ ih =>
      unfold partable at ih ⊢
      rw [List.find?_cons, List.find?_cons, hframe.opener]
      cases !other.opener.isCall with
      | false => exact ih
      | true =>
          simp only
          rw [hframe.opener, hframe.parting]

theorem part (h : SameShape state other) (key source : Text) (span span' : Span) :
    SameShape (state.part key source span) (other.part key source span') := by
  unfold Nesting.part
  rw [partable_eq key h.stack]
  split
  · obtain ⟨hroot, hstack⟩ := h.unwindTo seesShape_isCall
    generalize (state.unwindTo fun frame => !frame.opener.isCall) = unwound at hroot hstack
    generalize (other.unwindTo fun frame => !frame.opener.isCall) = unwound' at hroot hstack
    obtain ⟨whole, leading, parent, root, stack, warnings⟩ := unwound
    obtain ⟨whole', leading', parent', root', stack', warnings'⟩ := unwound'
    cases hstack with
    | nil => exact ⟨hroot, .nil⟩
    | cons hframe houter =>
        have hlength := congrArg List.length hframe.children
        exact ⟨hroot, .cons ⟨hframe.opener, hframe.source, hframe.children, by rw [hlength]⟩ houter⟩
  · exact h.literal _ _ _ _

theorem close (h : SameShape state other) (name : Option Text) (source : Text)
    (span span' : Span) :
    SameShape (state.close name source span) (other.close name source span') := by
  unfold Nesting.close
  rw [any_eq (seesShape_closes name) h.stack]
  split
  · obtain ⟨hroot, hstack⟩ := h.unwindTo (seesShape_closes name)
    generalize state.unwindTo (closes name) = unwound at hroot hstack
    generalize other.unwindTo (closes name) = unwound' at hroot hstack
    obtain ⟨whole, leading, parent, root, stack, warnings⟩ := unwound
    obtain ⟨whole', leading', parent', root', stack', warnings'⟩ := unwound'
    cases hstack with
    | nil => exact ⟨hroot, .nil⟩
    | @cons frame frame' outer outer' hframe houter =>
        have hrest : SameShape ⟨whole, leading, parent, root, outer, warnings⟩
            ⟨whole', leading', parent', root', outer', warnings'⟩ := ⟨hroot, houter⟩
        simp only
        rw [hframe.toNode_eq]
        exact hrest.push _
  · exact h.literal _ _ _ _

/-- A tag is read the same way, unless it names a parent where one may be named. -/
theorem readTag (h : SameShape state other) {tag : Tag}
    (hparent : ∀ name, tag = .parent name →
      (state.whole && state.leading) = false ∧ (other.whole && other.leading) = false)
    (source : Text) (span span' : Span) :
    SameShape (state.readTag tag source span) (other.readTag tag source span') := by
  cases tag with
  | value escape key => exact h.push _
  | inclusion name => exact h.push _
  | parent name =>
      -- with or without a warning, the tag is pushed as it is written
      have hpush : ∀ (next : Nesting) (place : Span), (next.whole && next.leading) = false →
          (next.readTag (.parent name) source place).root = (next.push (.text source)).root ∧
          (next.readTag (.parent name) source place).stack = (next.push (.text source)).stack := by
        intro next place hnext
        simp only [Nesting.readTag, hnext, Bool.false_eq_true, if_false]
        split
        · exact ⟨rfl, rfl⟩
        · exact ⟨rfl, rfl⟩
      obtain ⟨hstate, hother⟩ := hparent name rfl
      obtain ⟨hroot, hstack⟩ := hpush state span hstate
      obtain ⟨hroot', hstack'⟩ := hpush other span' hother
      have hboth := h.push (.text source)
      exact ⟨by rw [hroot, hroot', hboth.root], by rw [hstack, hstack']; exact hboth.stack⟩
  | opener kind key => exact h.opened _ _ _ _
  | slot name => exact h.opened _ _ _ _
  | call name arguments => exact h.opened _ _ _ _
  | otherwise key => exact h.part _ _ _ _
  | closer name => exact h.close _ _ _ _

/-- **One step**: the same piece is read the same way in either place. -/
theorem read (h : SameShape state other) {piece piece' : Located Segment}
    (hitem : piece'.item = piece.item)
    (hstate : namedParent (state.whole && state.leading, piece.item) = none)
    (hother : namedParent (other.whole && other.leading, piece.item) = none) :
    SameShape (state.read piece) (other.read piece') := by
  unfold Nesting.read
  rw [hitem]
  cases hsegment : piece.item with
  | text content =>
      have hleading : SameShape { state with leading := state.leading && isBlankText content }
          { other with leading := other.leading && isBlankText content } := ⟨h.root, h.stack⟩
      exact hleading.push (.text content)
  | tag inner =>
      rw [hsegment] at hstate hother
      have hplace : ∀ first name, namedParent (first, .tag inner) = none →
          Tag.parse inner = .ok (.parent name) → first = false := by
        intro first name hnone hparse
        rcases namedParent_tag first inner with ⟨named, -, -, hsome⟩ | ⟨hfirst, -⟩
        · rw [hnone] at hsome
          cases hsome
        · exact hfirst name hparse
      simp only
      cases hparse : Tag.parse inner with
      | error cause =>
          have hread := h.literal (Segment.tag inner).source (.malformed cause) piece.span
            piece'.span
          exact ⟨hread.root, hread.stack⟩
      | ok tag =>
          have hread := @readTag _ _ h tag (fun name hname => by
            subst hname
            exact ⟨hplace _ name hstate hparse, hplace _ name hother hparse⟩)
            (Segment.tag inner).source piece.span piece'.span
          exact ⟨hread.root, hread.stack⟩

/-- **A run**: the same pieces are read as the same tree, as far as they name no parent where one
may be named. -/
theorem foldl_read (h : SameShape state other) (items : List Segment) (start start' : Nat)
    (hstate : ∀ piece ∈ marked (state.whole && state.leading) items, namedParent piece = none)
    (hother : ∀ piece ∈ marked (other.whole && other.leading) items, namedParent piece = none) :
    SameShape ((located start items).foldl Nesting.read state)
      ((located start' items).foldl Nesting.read other) := by
  -- where the next piece is read, a parent may be named only after blank text
  have hmarked : ∀ (next : Nesting) (piece : Located Segment),
      ((next.read piece).whole && (next.read piece).leading)
        = (next.whole && next.leading && piece.item.isBlank) := by
    intro next piece
    have hheading := heading_read next piece
    simp only [heading, Prod.mk.injEq] at hheading
    rw [hheading.1, hheading.2.1, Bool.and_assoc]
  induction items generalizing state other start start' with
  | nil => exact h
  | cons item items ih =>
      rw [marked, List.forall_mem_cons] at hstate hother
      have hread := @read _ _ h ⟨item, ⟨start, start + byteSize item.source⟩⟩
        ⟨item, ⟨start', start' + byteSize item.source⟩⟩ rfl hstate.1 hother.1
      refine ih hread _ _ ?_ ?_
      · rw [hmarked]
        exact hstate.2
      · rw [hmarked]
        exact hother.2

end SameShape

end Nesting

end Stencil
