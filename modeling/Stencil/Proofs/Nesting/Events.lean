import Stencil.Proofs.Nesting.Frames

/-!
# Nothing is lost

The tree of a source, written out from left to right as events, is what the pieces of the source
give, each piece once and in order (`readAs_parse`). A piece of text gives its characters. A tag
gives the event it stands for, or stays literal and gives the characters of its source; which of the
two is up to the rest of the source, and `Gives` says where there is no choice.

The frames that are open share the pieces read so far among them: each has the tag that opened it
and what was read inside, and the root has the rest (`ReadsFrame`, `ReadsStack`). A frame that is
closed or flattened hands its pieces to the next one.
-/

set_option autoImplicit false

namespace Stencil

/-! ## Events -/

/-- What is met when a tree is gone through from left to right. -/
inductive Event where
  | char (c : Char)
  | value (key : Text) (escape : Bool)
  | inclusion (name : Text)
  /-- A block, a slot or a call begins. -/
  | opening (opener : Opener)
  /-- The second branch of a block begins. -/
  | otherwise (key : Text)
  /-- The directive of that name ends. -/
  | closing (name : Text)
deriving DecidableEq

mutual

/-- The events of a node. A call without a body only begins. -/
def eventsOf : Node → List Event
  | .text content => content.map .char
  | .value key escape => [.value key escape]
  | .block kind key body otherwise =>
      .opening (.block kind key) :: (events body ++ eventsOtherwise key otherwise ++ [.closing key])
  | .slot name body => .opening (.slot name) :: (events body ++ [.closing name])
  | .inclusion name => [.inclusion name]
  | .call name arguments body => .opening (.call name arguments) :: eventsClosed name body

/-- The events of a tree, in order. -/
def events : List Node → List Event
  | [] => []
  | node :: rest => eventsOf node ++ events rest

/-- The events of what follows the `:key` tag of a block, if there is one. -/
def eventsOtherwise (key : Text) : Option (List Node) → List Event
  | none => []
  | some other => .otherwise key :: events other

/-- The events of a call from its body on, if it was closed. -/
def eventsClosed (name : Text) : Option (List Node) → List Event
  | none => []
  | some body => events body ++ [.closing name]

end

theorem events_eq_flatMap (nodes : List Node) : events nodes = nodes.flatMap eventsOf := by
  induction nodes with
  | nil => rfl
  | cons node rest ih => rw [events, ih, List.flatMap_cons]

theorem events_append (nodes more : List Node) :
    events (nodes ++ more) = events nodes ++ events more := by
  simp [events_eq_flatMap]

/-- Joining texts changes no event. -/
theorem events_pushNodes (nodes more : List Node) :
    events (pushNodes nodes more) = events nodes ++ events more := by
  simp only [events_eq_flatMap]
  exact flatMap_pushNodes (fun first second => by simp [eventsOf]) nodes more

theorem events_singleton (node : Node) : events [node] = eventsOf node := by
  simp [events]

/-! ## What a piece gives -/

/-- The event that a tag stands for. A closer without a name ends a directive of any name. -/
inductive Tag.Says : Tag → Event → Prop
  | value (escape : Bool) (key : Text) : Says (.value escape key) (.value key escape)
  | inclusion (name : Text) : Says (.inclusion name) (.inclusion name)
  | opener (kind : BlockKind) (key : Text) : Says (.opener kind key) (.opening (.block kind key))
  | slot (name : Text) : Says (.slot name) (.opening (.slot name))
  | call (name : Text) (arguments : List Argument) :
      Says (.call name arguments) (.opening (.call name arguments))
  | otherwise (key : Text) : Says (.otherwise key) (.otherwise key)
  | closer (name : Text) : Says (.closer (some name)) (.closing name)
  | bareCloser (name : Text) : Says (.closer none) (.closing name)

/-- May the tag be without effect, and stay literal? Only what opens, parts or closes a directive
that needs its closer can be. -/
def Tag.mayStayLiteral : Tag → Bool
  | .opener _ _ | .slot _ | .otherwise _ | .closer _ => true
  | .value _ _ | .inclusion _ | .call _ _ | .parent _ => false

/-- The events that a piece of source gives; `first` says whether a parent may be named in its
place. -/
inductive Gives : Bool → Segment → List Event → Prop
  | text (first : Bool) (content : Text) : Gives first (.text content) (content.map .char)
  | malformed (first : Bool) {inner : Text} {rejection : Rejection}
      (hparse : Tag.parse inner = .error rejection) :
      Gives first (.tag inner) ((Segment.tag inner).source.map .char)
  | parent {inner name : Text} (hparse : Tag.parse inner = .ok (.parent name)) :
      Gives true (.tag inner) []
  | misplaced {inner name : Text} (hparse : Tag.parse inner = .ok (.parent name)) :
      Gives false (.tag inner) ((Segment.tag inner).source.map .char)
  | literal (first : Bool) {inner : Text} {tag : Tag} (hparse : Tag.parse inner = .ok tag)
      (hliteral : tag.mayStayLiteral = true) :
      Gives first (.tag inner) ((Segment.tag inner).source.map .char)
  | consumed (first : Bool) {inner : Text} {tag : Tag} {event : Event}
      (hparse : Tag.parse inner = .ok tag) (hevent : tag.Says event) :
      Gives first (.tag inner) [event]

/-- Can a parent still be named after the piece? Only blank text may stand before it. -/
def Segment.isBlank : Segment → Bool
  | .text content => isBlankText content
  | .tag _ => false

/-- The pieces of a source, each with whether a parent may be named in its place. -/
def marked (first : Bool) : List Segment → List (Bool × Segment)
  | [] => []
  | piece :: rest => (first, piece) :: marked (first && piece.isBlank) rest

theorem map_snd_marked (first : Bool) (pieces : List Segment) :
    (marked first pieces).map (·.2) = pieces := by
  induction pieces generalizing first with
  | nil => rfl
  | cons piece rest ih => rw [marked, List.map_cons, ih]

/-- The pieces give the events, each piece its share and one after the other. -/
inductive ReadAs : List (Bool × Segment) → List Event → Prop
  | nil : ReadAs [] []
  | cons {first : Bool} {piece : Segment} {rest : List (Bool × Segment)} {given more : List Event}
      (hpiece : Gives first piece given) (hrest : ReadAs rest more) :
      ReadAs ((first, piece) :: rest) (given ++ more)

/-- The parent that is named by a piece, in a place where one may be named. -/
def namedParent : Bool × Segment → Option Text
  | (true, .tag inner) =>
      match Tag.parse inner with
      | .ok (.parent name) => some name
      | _ => none
  | _ => none

namespace ReadAs

theorem single {first : Bool} {piece : Segment} {given : List Event}
    (h : Gives first piece given) : ReadAs [(first, piece)] given := by
  have hcons := ReadAs.cons h .nil
  rwa [List.append_nil] at hcons

theorem append {pieces more : List (Bool × Segment)} {given rest : List Event}
    (h : ReadAs pieces given) (hmore : ReadAs more rest) :
    ReadAs (pieces ++ more) (given ++ rest) := by
  induction h with
  | nil => exact hmore
  | cons hpiece _ ih =>
      rw [List.cons_append, List.append_assoc]
      exact .cons hpiece ih

end ReadAs

/-! ## What the open frames have read -/

/-- The piece is the tag of an opener, with that source: it gives the beginning of a directive, or
its source unless it is a call. -/
structure OpenedBy (opener : Opener) (source : Text) (piece : Segment) : Prop where
  consumed : ∀ first, Gives first piece [.opening opener]
  literal : opener.isCall = false → ∀ first, Gives first piece (source.map .char)

/-- The piece is a `:key` tag with that source. -/
structure PartedBy (key source : Text) (piece : Segment) : Prop where
  consumed : ∀ first, Gives first piece [.otherwise key]
  literal : ∀ first, Gives first piece (source.map .char)

theorem openedBy_tag {inner : Text} {tag : Tag} {opener : Opener}
    (hparse : Tag.parse inner = .ok tag) (hevent : tag.Says (.opening opener)) :
    OpenedBy opener (Segment.tag inner).source (.tag inner) := by
  refine ⟨fun first => .consumed first hparse hevent, fun hcall first => .literal first hparse ?_⟩
  cases hevent <;> simp [Opener.isCall, Tag.mayStayLiteral] at hcall ⊢

theorem partedBy_tag {inner key : Text} (hparse : Tag.parse inner = .ok (.otherwise key)) :
    PartedBy key (Segment.tag inner).source (.tag inner) :=
  ⟨fun first => .consumed first hparse (.otherwise key), fun first => .literal first hparse rfl⟩

/-- The pieces are what was read for a frame: the tag that opened it, what stands inside, and after
a `:key` tag what stands after that. -/
inductive ReadsFrame : List (Bool × Segment) → Frame → Prop
  | unparted {frame : Frame} (first : Bool) {opening : Segment} {pieces : List (Bool × Segment)}
      (hopening : OpenedBy frame.opener frame.source opening) (hparting : frame.parting = none)
      (hbefore : ReadAs pieces (events frame.before)) :
      ReadsFrame ((first, opening) :: pieces) frame
  | parted {frame : Frame} (first : Bool) (mark : Nat) (firstElse : Bool)
      (after : List Node) {opening parting : Segment} {source : Text}
      {pieces more : List (Bool × Segment)} (hopening : OpenedBy frame.opener frame.source opening)
      (hbefore : ReadAs pieces (events frame.before))
      (hparting : frame.parting = some (mark, source))
      (hpiece : PartedBy frame.opener.name source parting) (hafter : frame.after = some after)
      (hmore : ReadAs more (events after)) :
      ReadsFrame ((first, opening) :: (pieces ++ (firstElse, parting) :: more)) frame

/-- The pieces are what was read so far, shared out among the root and the open frames. -/
inductive ReadsStack : List (Bool × Segment) → List Node → List Frame → Prop
  | root {pieces : List (Bool × Segment)} {nodes : List Node} (h : ReadAs pieces (events nodes)) :
      ReadsStack pieces nodes []
  | frame {pieces more : List (Bool × Segment)} {nodes : List Node} {frame : Frame}
      {outer : List Frame} (houter : ReadsStack pieces nodes outer) (hsound : frame.Sound)
      (hframe : ReadsFrame more frame) : ReadsStack (pieces ++ more) nodes (frame :: outer)

namespace ReadsFrame

variable {pieces more : List (Bool × Segment)} {frame : Frame}

/-- Nodes read in a frame add their pieces to the current branch. -/
theorem foldl_push (h : ReadsFrame pieces frame) (hsound : frame.Sound) {nodes : List Node}
    (hnodes : ReadAs more (events nodes)) :
    ReadsFrame (pieces ++ more) (nodes.foldl Frame.push frame) := by
  rw [Frame.foldl_push_eq hsound]
  cases h with
  | unparted first hopening hparting hbefore =>
      have hcurrent : frame.current = frame.before := by
        simp [Frame.current, Frame.after, Frame.before, hparting]
      rw [List.cons_append]
      refine .unparted first hopening hparting ?_
      rw [Frame.before_withCurrent_of_none _ _ hparting, hcurrent, events_pushNodes]
      exact hbefore.append hnodes
  | parted first mark firstElse after hopening hbefore hparting hpiece hafter hmore =>
      have hcurrent : frame.current = after := by simp [Frame.current, hafter]
      rw [List.cons_append, List.append_assoc, List.cons_append]
      refine .parted first mark firstElse (pushNodes after nodes) hopening ?_ hparting hpiece ?_ ?_
      · rw [Frame.before_withCurrent_of_some _ hsound (by rw [hparting]; rfl)]
        exact hbefore
      · rw [Frame.after_withCurrent _ hsound, hafter, hcurrent]
        rfl
      · rw [events_pushNodes]
        exact hmore.append hnodes

/-- A frame that is flattened gives its pieces; its tags stay literal, but for that of a call. -/
theorem flatten (h : ReadsFrame pieces frame) : ReadAs pieces (events frame.flatten) := by
  -- the tag that opened the frame, before whatever the children give
  have hcons : ∀ {first opening} {rest : List (Bool × Segment)},
      OpenedBy frame.opener frame.source opening → ReadAs rest (events frame.flatChildren) →
      ReadAs ((first, opening) :: rest) (events frame.flatten) := by
    intro first opening rest hopening hrest
    cases hopener : frame.opener with
    | call name arguments =>
        have hflatten : frame.flatten = .call name arguments none :: frame.flatChildren := by
          simp [Frame.flatten, hopener]
        have hfirst : Gives first opening [.opening (.call name arguments)] :=
          hopener ▸ hopening.consumed first
        rw [hflatten]
        exact .cons hfirst hrest
    | block kind key =>
        have hflatten : frame.flatten = .text frame.source :: frame.flatChildren := by
          simp [Frame.flatten, hopener]
        rw [hflatten]
        exact .cons (hopening.literal (by rw [hopener]; rfl) first) hrest
    | slot name =>
        have hflatten : frame.flatten = .text frame.source :: frame.flatChildren := by
          simp [Frame.flatten, hopener]
        rw [hflatten]
        exact .cons (hopening.literal (by rw [hopener]; rfl) first) hrest
  cases h with
  | unparted first hopening hparting hbefore =>
      refine hcons hopening ?_
      rw [Frame.flatChildren_eq, hparting, List.append_nil]
      exact hbefore
  | parted first mark firstElse after hopening hbefore hparting hpiece hafter hmore =>
      refine hcons hopening ?_
      simp only [Frame.after, hparting, Option.map_some, Option.some.injEq] at hafter
      rw [Frame.flatChildren_eq, hparting, events_append]
      simp only [hafter]
      exact hbefore.append (.cons (hpiece.literal firstElse) hmore)

/-- The events of a closed frame, in terms of its branches. -/
theorem events_toNode (hsound : frame.Sound) :
    eventsOf frame.toNode = .opening frame.opener :: (events frame.before
      ++ eventsOtherwise frame.opener.name frame.after ++ [.closing frame.opener.name]) := by
  have hafter : (∀ kind key, frame.opener ≠ .block kind key) → frame.after = none := by
    intro hblock
    cases hparting : frame.parting with
    | none => simp [Frame.after, hparting]
    | some parting =>
        obtain ⟨kind, key, hopener⟩ := hsound.isBlock (by rw [hparting]; rfl)
        exact absurd hopener (hblock kind key)
  rw [Frame.toNode_eq hsound]
  cases hopener : frame.opener with
  | block kind key => rfl
  | slot name => simp [hafter (by simp [hopener]), eventsOf, eventsOtherwise, Opener.name]
  | call name arguments =>
      simp [hafter (by simp [hopener]), eventsOf, eventsClosed, eventsOtherwise, Opener.name]

/-- A frame that is closed gives its pieces and the closer, all of them consumed. -/
theorem toNode (h : ReadsFrame pieces frame) (hsound : frame.Sound) {first : Bool}
    {closer : Segment} (hcloser : Gives first closer [.closing frame.opener.name]) :
    ReadAs (pieces ++ [(first, closer)]) (events [frame.toNode]) := by
  rw [events_singleton, events_toNode hsound]
  cases h with
  | unparted first hopening hparting hbefore =>
      have hafter : frame.after = none := by simp [Frame.after, hparting]
      rw [hafter, eventsOtherwise, List.append_nil]
      exact .cons (hopening.consumed first) (hbefore.append (.single hcloser))
  | parted first mark firstElse after hopening hbefore hparting hpiece hafter hmore =>
      rw [hafter, eventsOtherwise]
      exact .cons (hopening.consumed first)
        ((hbefore.append (.cons (hpiece.consumed firstElse) hmore)).append (.single hcloser))

end ReadsFrame

/-! ## What a step does to the heading -/

namespace Nesting

theorem heading_readTag (state : Nesting) (tag : Tag) (source : Text) (span : Span)
    (h : ∀ name, tag = .parent name → (state.whole && state.leading) = false) :
    (state.readTag tag source span).heading = state.heading := by
  cases tag with
  | value escape key => exact heading_push state _
  | inclusion name => exact heading_push state _
  | parent name =>
      simp only [readTag, h name rfl, Bool.false_eq_true, if_false]
      split
      · exact heading_literal _ _ _ _
      · exact heading_push state _
  | opener kind key => rfl
  | slot name => rfl
  | call name arguments => rfl
  | otherwise key => exact heading_part _ _ _ _
  | closer name => exact heading_close _ _ _ _

theorem namedParent_text (first : Bool) (content : Text) :
    namedParent (first, .text content) = none := by
  cases first <;> rfl

/-- The tag names a parent in a place where one may be named, or it does not. -/
theorem namedParent_tag (first : Bool) (inner : Text) :
    (∃ name, first = true ∧ Tag.parse inner = .ok (.parent name) ∧
      namedParent (first, .tag inner) = some name) ∨
    (∀ name, Tag.parse inner = .ok (.parent name) → first = false) ∧
      namedParent (first, .tag inner) = none := by
  cases first with
  | false => exact Or.inr ⟨fun _ _ => rfl, rfl⟩
  | true =>
      have heq : namedParent (true, .tag inner) = match Tag.parse inner with
          | .ok (.parent name) => some name
          | _ => none := rfl
      rw [heq]
      split
      · next name hparse => exact Or.inl ⟨name, rfl, hparse, rfl⟩
      · next hparse => exact Or.inr ⟨fun name h => absurd h (hparse name), rfl⟩

/-- **What a step does to the heading**: blank text leaves the place where a parent may be named
open, and the tag that names a parent there is the only one that changes the parent. -/
theorem heading_read (state : Nesting) (piece : Located Segment) :
    (state.read piece).heading = (state.whole, state.leading && piece.item.isBlank,
      match namedParent (state.whole && state.leading, piece.item) with
      | some name => some ⟨name, piece.span⟩
      | none => state.parent) := by
  unfold read
  cases hitem : piece.item with
  | text content =>
      simp only [heading_push, namedParent_text]
      rfl
  | tag inner =>
      -- what a tag leaves of the heading, before the place for a parent is closed
      have hend : ∀ (next : Nesting) (parent : Option (Located Text)),
          next.heading = (state.whole, state.leading, parent) →
          ({ next with leading := false } : Nesting).heading = (state.whole, false, parent) :=
        fun next parent h => congrArg (fun heading => (heading.1, false, heading.2.2)) h
      rw [Segment.isBlank, Bool.and_false]
      refine hend _ _ ?_
      rcases namedParent_tag (state.whole && state.leading) inner with
        ⟨name, hfirst, hparse, hnamed⟩ | ⟨hfirst, hnamed⟩
      · rw [hnamed]
        simp only [hparse, readTag, hfirst, if_true]
        rfl
      · rw [hnamed]
        cases hparse : Tag.parse inner with
        | error rejection => exact heading_literal _ _ _ _
        | ok tag =>
            exact heading_readTag _ _ _ _ fun name hname => hfirst name (hname ▸ hparse)

end Nesting

/-! ## What the steps of a parse keep -/

/-- The pieces are what the state has read. -/
def Reads (pieces : List (Bool × Segment)) (state : Nesting) : Prop :=
  ReadsStack pieces state.root state.stack

namespace Reads

variable {pieces more : List (Bool × Segment)} {state : Nesting}

theorem root (h : Reads pieces state) (hstack : state.stack = []) :
    ReadAs pieces (events state.root) := by
  unfold Reads at h
  rw [hstack] at h
  cases h with
  | root hroot => exact hroot

theorem foldl_push (h : Reads pieces state) {nodes : List Node}
    (hmore : ReadAs more (events nodes)) :
    Reads (pieces ++ more) (nodes.foldl Nesting.push state) := by
  unfold Reads at h ⊢
  cases hstack : state.stack with
  | nil =>
      rw [hstack] at h
      cases h with
      | root hroot =>
          rw [Nesting.foldl_push_of_nil hstack]
          simp only [hstack]
          refine .root ?_
          rw [events_pushNodes]
          exact hroot.append hmore
  | cons frame outer =>
      rw [hstack] at h
      cases h with
      | frame houter hsound hframe =>
          rw [Nesting.foldl_push_of_cons hstack, List.append_assoc]
          refine .frame houter ?_ (hframe.foldl_push hsound hmore)
          rw [Frame.foldl_push_eq hsound]
          exact hsound.withCurrent _

theorem push (h : Reads pieces state) {node : Node} {first : Bool} {piece : Segment}
    (hpiece : Gives first piece (eventsOf node)) :
    Reads (pieces ++ [(first, piece)]) (state.push node) := by
  refine @foldl_push _ _ _ h [node] ?_
  rw [events_singleton]
  exact .single hpiece

theorem opened (h : Reads pieces state) {opener : Opener} {source : Text} {piece : Segment}
    (hpiece : OpenedBy opener source piece) (first : Bool) (span : Span) :
    Reads (pieces ++ [(first, piece)]) (state.opened opener source span) :=
  .frame h (Frame.sound_opened opener source span) (.unparted first hpiece rfl .nil)

theorem unwind (h : Reads pieces state) {frame : Frame} {outer : List Frame}
    (hstack : state.stack = frame :: outer) : Reads pieces (state.unwind frame outer) := by
  unfold Reads at h
  rw [hstack] at h
  cases h with
  | frame houter hsound hframe =>
      have hrest : Reads _ { state with
          stack := outer, warnings := state.warnings ++ frame.unclosed } := houter
      exact hrest.foldl_push hframe.flatten

theorem unwindTo (h : Reads pieces state) (isTarget : Frame → Bool) :
    Reads pieces (state.unwindTo isTarget) :=
  Nesting.unwindTo_induction isTarget (fun _ _ _ hstack _ hstate => hstate.unwind hstack) h

theorem part (h : Reads pieces state) {key source : Text} {piece : Segment}
    (hpiece : PartedBy key source piece) (first : Bool) (span : Span) :
    Reads (pieces ++ [(first, piece)]) (state.part key source span) := by
  rcases Nesting.part_cases state key source span with
    ⟨-, heq⟩ | ⟨frame, outer, kind, hstack, hopener, hparting, heq⟩
  · rw [heq]
    exact h.push (hpiece.literal first)
  · have hunwound : Reads pieces (state.unwindTo fun frame => !frame.opener.isCall) := h.unwindTo _
    rw [heq]
    unfold Reads at hunwound ⊢
    rw [hstack] at hunwound
    cases hunwound with
    | frame houter hsound hframe =>
        rw [List.append_assoc]
        refine .frame houter (.part hopener source) ?_
        cases hframe with
        | unparted firstOpening hopening _ hbefore =>
            refine .parted firstOpening frame.children.length first [] hopening ?_ rfl ?_ ?_ .nil
            · simpa [Frame.before, hparting] using hbefore
            · simpa [hopener, Opener.name] using hpiece
            · simp [Frame.after]
        | parted _ _ _ _ _ _ hsome => simp [hparting] at hsome

theorem close (h : Reads pieces state) {name : Option Text} {source : Text} {piece : Segment}
    (hliteral : ∀ first, Gives first piece (source.map .char))
    (hconsumed : ∀ first frame, Nesting.closes name frame = true →
      Gives first piece [.closing frame.opener.name]) (first : Bool) (span : Span) :
    Reads (pieces ++ [(first, piece)]) (state.close name source span) := by
  rcases Nesting.close_cases state name source span with
    ⟨-, heq⟩ | ⟨frame, outer, hstack, hcloses, heq⟩
  · rw [heq]
    exact h.push (hliteral first)
  · have hunwound : Reads pieces (state.unwindTo (Nesting.closes name)) := h.unwindTo _
    rw [heq]
    unfold Reads at hunwound
    rw [hstack] at hunwound
    cases hunwound with
    | frame houter hsound hframe =>
        have hrest : Reads _ { state.unwindTo (Nesting.closes name) with stack := outer } := houter
        rw [List.append_assoc]
        exact @foldl_push _ _ _ hrest [frame.toNode]
          (hframe.toNode hsound (hconsumed first frame hcloses))

/-- **One step**: a piece that is read joins the pieces that were read before it. -/
theorem read (h : Reads pieces state) (piece : Located Segment) :
    Reads (pieces ++ [(state.whole && state.leading, piece.item)]) (state.read piece) := by
  unfold Nesting.read
  cases hitem : piece.item with
  | text content =>
      have hstate : Reads pieces { state with leading := state.leading && isBlankText content } := h
      exact hstate.push (.text _ content)
  | tag inner =>
      simp only
      have hmalformed : ∀ rejection first, Tag.parse inner = .error rejection →
          Gives first (.tag inner) ((Segment.tag inner).source.map .char) :=
        fun _ first hparse => .malformed first hparse
      cases hparse : Tag.parse inner with
      | error rejection => exact h.push (hmalformed rejection _ hparse)
      | ok tag =>
          cases tag with
          | value escape key => exact h.push (.consumed _ hparse (.value escape key))
          | inclusion name => exact h.push (.consumed _ hparse (.inclusion name))
          | opener kind key => exact h.opened (openedBy_tag hparse (.opener kind key)) _ _
          | slot name => exact h.opened (openedBy_tag hparse (.slot name)) _ _
          | call name arguments => exact h.opened (openedBy_tag hparse (.call name arguments)) _ _
          | otherwise key => exact h.part (partedBy_tag hparse) _ _
          | closer name =>
              refine h.close (fun first => .literal first hparse rfl) ?_ _ _
              intro first frame hcloses
              cases name with
              | none => exact .consumed first hparse (.bareCloser _)
              | some name =>
                  obtain rfl : frame.opener.name = name := by simpa [Nesting.closes] using hcloses
                  exact .consumed first hparse (.closer _)
          | parent name =>
              by_cases hfirst : (state.whole && state.leading) = true
              · have hsame : Reads (pieces ++ [(true, .tag inner)]) state :=
                  @foldl_push _ _ _ h [] (.single (.parent hparse))
                simp only [Nesting.readTag, hfirst, if_true]
                exact hsame
              · rw [Bool.not_eq_true] at hfirst
                have hpush : Reads (pieces ++ [(false, .tag inner)])
                    (state.push (.text (Segment.tag inner).source)) := h.push (.misplaced hparse)
                simp only [Nesting.readTag, hfirst, Bool.false_eq_true, if_false]
                split
                · exact hpush
                · exact hpush

theorem foldl_read (pieces : List (Located Segment)) {taken : List (Bool × Segment)}
    {state : Nesting} (h : Reads taken state) :
    Reads (taken ++ marked (state.whole && state.leading) (pieces.map (·.item)))
      (pieces.foldl Nesting.read state) := by
  induction pieces generalizing taken state with
  | nil => simpa [marked] using h
  | cons piece rest ih =>
      have hread := Nesting.heading_read state piece
      simp only [Nesting.heading, Prod.mk.injEq] at hread
      obtain ⟨hwhole, hleading, -⟩ := hread
      have hrest := ih (h.read piece)
      rw [hwhole, hleading, ← Bool.and_assoc] at hrest
      rw [List.map_cons, marked, List.foldl_cons, List.append_cons]
      exact hrest

end Reads

theorem reads_start (whole : Bool) : Reads [] (.start whole) :=
  ReadsStack.root .nil

/-! ## Whole sources -/

theorem parentName_foldl_read (pieces : List (Located Segment)) {state : Nesting}
    (h : state.leading = true → state.parent = none) :
    (pieces.foldl Nesting.read state).parent.map (·.item)
      = (state.parent.map (·.item)).or
          ((marked (state.whole && state.leading) (pieces.map (·.item))).findSome?
            namedParent) := by
  induction pieces generalizing state with
  | nil => simp [marked]
  | cons piece rest ih =>
      have hread := Nesting.heading_read state piece
      simp only [Nesting.heading, Prod.mk.injEq] at hread
      obtain ⟨hwhole, hleading, hparent⟩ := hread
      rw [List.foldl_cons, List.map_cons, marked, List.findSome?_cons]
      cases hnamed : namedParent (state.whole && state.leading, piece.item) with
      | none =>
          rw [hnamed] at hparent
          have hnext : (state.read piece).leading = true → (state.read piece).parent = none := by
            intro hfirst
            rw [hleading, Bool.and_eq_true] at hfirst
            rw [hparent]
            exact h hfirst.1
          rw [ih hnext, hwhole, hleading, hparent, ← Bool.and_assoc]
      | some name =>
          -- a parent is named in a place where none was named before, and it is named by a tag
          have hplace : state.leading = true ∧ piece.item.isBlank = false := by
            unfold namedParent at hnamed
            split at hnamed
            · next heq =>
                obtain ⟨hfirst, hitem⟩ := Prod.mk.inj heq
                rw [Bool.and_eq_true] at hfirst
                exact ⟨hfirst.2, by rw [hitem]; rfl⟩
            · cases hnamed
          rw [hnamed] at hparent
          have hnext : (state.read piece).leading = true → (state.read piece).parent = none := by
            intro hfirst
            simp [hleading, hplace.2] at hfirst
          rw [ih hnext, hparent, h hplace.1]
          rfl

/-- **The tree of a template or a fragment is what the pieces of its source give.** -/
theorem readAs_readAll (whole : Bool) (source : Text) :
    ReadAs (marked whole ((scan source).map (·.item)))
      (events (Nesting.readAll whole source).root) := by
  have hread : Reads (marked whole ((scan source).map (·.item)))
      ((scan source).foldl Nesting.read (.start whole)) := by
    have h := (reads_start whole).foldl_read (scan source)
    simpa [Nesting.start] using h
  have hall : Reads (marked whole ((scan source).map (·.item))) (Nesting.readAll whole source) :=
    hread.unwindTo _
  exact hall.root (Nesting.stack_unwindTo_none _)

/-- **Parsing loses nothing, duplicates nothing, and keeps the order.** The tree of a template gives
the events that the pieces of the source give, its parent is the one that is named where a parent
may be named, and the pieces are the whole source. -/
theorem readAs_parse (source : Text) :
    let document := (Document.parseWithWarnings source).1
    let pieces := marked true ((scan source).map (·.item))
    ReadAs pieces (events document.nodes) ∧
      document.parentName = pieces.findSome? namedParent ∧
      (pieces.flatMap fun piece => piece.2.source) = source := by
  intro document pieces
  refine ⟨readAs_readAll true source, ?_, ?_⟩
  · have hparent : document.parent = ((scan source).foldl Nesting.read (.start true)).parent :=
      Nesting.parent_unwindTo _ _
    rw [Document.parentName, hparent, parentName_foldl_read _ (fun _ => rfl)]
    rfl
  · calc (pieces.flatMap fun piece => piece.2.source)
        = ((pieces.map (·.2)).flatMap Segment.source) := by rw [List.flatMap_map]
      _ = (segments source).flatMap Segment.source := by
          rw [map_snd_marked, scan, map_item_located]
      _ = source := flatMap_source_segments source

end Stencil
