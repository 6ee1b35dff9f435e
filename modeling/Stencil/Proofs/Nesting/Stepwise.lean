import Stencil.Proofs.Nesting.Frames
import Stencil.Proofs.Segment.Slicing

/-!
# A parse in small steps

`Nesting.read` reads a whole piece, and for that it may flatten any number of frames. Here one step
reads one piece or flattens one frame, so that something can be said of the frames between any two
of these. A step has no answer where a list would be split behind its end (`splitAt?`) or a source
would be cut inside a character or outside of it (`slice?`).

Beside each open frame stands its `History`: the nodes that were read in it, one by one, before its
`:key` tag and after it. No step looks at a history.
-/

set_option autoImplicit false

namespace Stencil

/-! ## Splitting at the mark -/

/-- A list in two parts, if the place is one in the list. -/
def splitAt? (place : Nat) (nodes : List Node) : Option (List Node × List Node) :=
  if place ≤ nodes.length then some (nodes.take place, nodes.drop place) else none

namespace Frame

/-- The directive, once its closer is read. -/
def toNode? (frame : Frame) : Option Node :=
  match frame.opener with
  | .block kind key =>
    match frame.parting with
    | some (mark, _) =>
      (splitAt? mark frame.children).map fun parts => .block kind key parts.1 (some parts.2)
    | none => some (.block kind key frame.children none)
  | .slot name => some (.slot name frame.children)
  | .call name arguments => some (.call name arguments (some frame.children))

/-- The children with the source text of the `:key` tag in its place. -/
def flatChildren? (frame : Frame) : Option (List Node) :=
  match frame.parting with
  | some (mark, source) =>
    (splitAt? mark frame.children).map fun parts => parts.1 ++ .text source :: parts.2
  | none => some frame.children

/-- What is left of a directive that is never closed. -/
def flatten? (frame : Frame) : Option (List Node) :=
  frame.flatChildren?.map fun children =>
    match frame.opener with
    | .call name arguments => .call name arguments none :: children
    | _ => .text frame.source :: children

section Split

variable {frame : Frame} (hs : frame.Sound)

include hs

theorem splitAt?_mark {mark : Nat} {source : Text} (h : frame.parting = some (mark, source)) :
    splitAt? mark frame.children = some (frame.children.take mark, frame.children.drop mark) :=
  if_pos (hs.mark_le (mark, source) h)

theorem toNode?_eq : frame.toNode? = some frame.toNode := by
  unfold toNode? toNode
  cases hopener : frame.opener with
  | block kind key =>
      cases hparting : frame.parting with
      | none => rfl
      | some parting => simp only [splitAt?_mark hs hparting, Option.map_some]
  | slot name => rfl
  | call name arguments => rfl

theorem flatten?_eq : frame.flatten? = some frame.flatten := by
  have hchildren : frame.flatChildren? = some frame.flatChildren := by
    unfold flatChildren? flatChildren
    cases hparting : frame.parting with
    | none => rfl
    | some parting => simp only [splitAt?_mark hs hparting, Option.map_some]
  rw [flatten?, hchildren, flatten]
  cases frame.opener <;> rfl

end Split

end Frame

/-! ## What was read in a frame -/

/-- The nodes that were read in a frame: those before its `:key` tag, and those after it if there is
one. -/
structure History where
  before : List Node
  after : Option (List Node)

namespace History

/-- Nothing is read yet. -/
def start : History := ⟨[], none⟩

/-- The history with one more node. -/
def push (history : History) (node : Node) : History :=
  match history.after with
  | none => { history with before := history.before ++ [node] }
  | some after => { history with after := some (after ++ [node]) }

/-- The history once the `:key` tag is read. -/
def part (history : History) : History := { history with after := some [] }

end History

namespace Nesting

/-! ## Stages of a parse -/

/-- A tag that waits until the frames inside the one it is about are flattened. -/
inductive Pending where
  | part (key source : Text)
  | close (name : Option Text)

/-- Is the tag about the frame? -/
def Pending.isFor : Pending → Frame → Bool
  | .part _ _ => fun frame => !frame.opener.isCall
  | .close name => closes name

/-- The state once the tag has done what it does to the innermost frame. -/
def settle (state : Nesting) (pending : Pending) : Nesting :=
  match state.stack with
  | [] => state
  | frame :: outer =>
    match pending with
    | .part _ source =>
      { state with
        stack := { frame with parting := some (frame.children.length, source) } :: outer }
    | .close _ => { state with stack := outer }.push frame.toNode

/-- A parse between two steps. -/
structure Stage where
  state : Nesting
  /-- What was read in the open frames, the innermost first. -/
  histories : List History
  /-- The tag that is being read, if frames are flattened for it. -/
  pending : Option Pending
  /-- The pieces that are not read yet. -/
  rest : List (Located Segment)

namespace Stage

/-- The stage with nodes read in the innermost frame. -/
def pushAll (stage : Stage) (nodes : List Node) : Stage :=
  { stage with
    state := nodes.foldl Nesting.push stage.state
    histories := stage.histories.modifyHead fun history => nodes.foldl History.push history }

/-- The stage with a tag read as literal text. -/
def literal (stage : Stage) (source : Text) (defect : Defect) (span : Span) : Stage :=
  let stage := stage.pushAll [.text source]
  { stage with state := stage.state.warn defect span }

/-- The stage with one more open frame. -/
def opened (stage : Stage) (opener : Opener) (source : Text) (span : Span) : Stage :=
  { stage with
    state := stage.state.opened opener source span
    histories := .start :: stage.histories }

/-- The stage without its innermost frame. -/
def popped (stage : Stage) (outer : List Frame) : Stage :=
  { stage with
    state := { stage.state with stack := outer }
    histories := stage.histories.tail }

/-- The stage once a tag is read. -/
def tagRead (stage : Stage) : Stage :=
  { stage with
    state := { stage.state with leading := false }
    pending := none }

/-- The stage without its innermost frame, which was never closed. -/
def unwind (stage : Stage) (frame : Frame) (outer : List Frame) : Option Stage :=
  frame.flatten?.map fun nodes =>
    let stage := stage.popped outer
    let warnings := stage.state.warnings ++ frame.unclosed
    pushAll { stage with state := { stage.state with warnings := warnings } } nodes

/-- The stage once the tag that waits has done what it does to its frame. -/
def finish (stage : Stage) (pending : Pending) (frame : Frame) (outer : List Frame) :
    Option Stage :=
  match pending with
  | .part _ source =>
    let parted := { frame with parting := some (frame.children.length, source) }
    some (tagRead
      { stage with
        state := { stage.state with stack := parted :: outer }
        histories := stage.histories.modifyHead History.part })
  | .close _ => frame.toNode?.map fun node => ((stage.popped outer).pushAll [node]).tagRead

/-- The stage after a tag, or with the tag waiting. -/
def readTag (stage : Stage) (tag : Tag) (source : Text) (span : Span) : Stage :=
  match tag with
  | .value escape key => (stage.pushAll [.value key escape]).tagRead
  | .inclusion name => (stage.pushAll [.inclusion name]).tagRead
  | .parent name =>
    if stage.state.whole && stage.state.leading then
      tagRead { stage with state := { stage.state with parent := some ⟨name, span⟩ } }
    else if stage.state.whole then (stage.literal source (.misplacedParent name) span).tagRead
    else (stage.pushAll [.text source]).tagRead
  | .opener kind key => (stage.opened (.block kind key) source span).tagRead
  | .slot name => (stage.opened (.slot name) source span).tagRead
  | .call name arguments => (stage.opened (.call name arguments) source span).tagRead
  | .otherwise key =>
    if partable key stage.state.stack then { stage with pending := some (.part key source) }
    else (stage.literal source (.unmatchedElse key) span).tagRead
  | .closer name =>
    if stage.state.stack.any (closes name) then { stage with pending := some (.close name) }
    else (stage.literal source (.unmatchedClose name) span).tagRead

/-- The stage after a text. -/
def readText (stage : Stage) (text : Text) : Stage :=
  let leading := stage.state.leading && isBlankText text
  pushAll { stage with state := { stage.state with leading } } [.text text]

/-- The stage after one more piece of source, or with its tag waiting. -/
def read (source : Text) (stage : Stage) (piece : Located Segment) : Option Stage := do
  let text ← slice? source piece.span
  match piece.item with
  | .text _ => return stage.readText text
  | .tag _ =>
    let inner ← slice? source piece.span.inner
    match Tag.parse inner with
    | .ok tag => return stage.readTag tag text piece.span
    | .error cause => return (stage.literal text (.malformed cause) piece.span).tagRead

/-- One step: a tag that waits is read or a frame inside its own is flattened; else one more piece
is read; at the end of the source a frame that is still open is flattened. -/
def step (source : Text) (stage : Stage) : Option Stage :=
  match stage.pending, stage.rest, stage.state.stack with
  | some pending, _, frame :: outer =>
    if pending.isFor frame then stage.finish pending frame outer else stage.unwind frame outer
  | some _, _, [] => some stage.tagRead
  | none, piece :: rest, _ => read source { stage with rest } piece
  | none, [], frame :: outer => stage.unwind frame outer
  | none, [], [] => some stage

section Step

variable {source : Text} {stage : Stage}

theorem step_of_pending {pending : Pending} {frame : Frame} {outer : List Frame}
    (hpending : stage.pending = some pending) (hstack : stage.state.stack = frame :: outer) :
    stage.step source
      = if pending.isFor frame then stage.finish pending frame outer
        else stage.unwind frame outer := by
  rw [step, hpending, hstack]

theorem step_of_pending_of_nil {pending : Pending} (hpending : stage.pending = some pending)
    (hstack : stage.state.stack = []) : stage.step source = some stage.tagRead := by
  rw [step, hpending, hstack]

theorem step_of_rest {piece : Located Segment} {more : List (Located Segment)}
    (hpending : stage.pending = none) (hrest : stage.rest = piece :: more) :
    stage.step source = read source { stage with rest := more } piece := by
  obtain ⟨state, histories, pending, rest⟩ := stage
  cases hpending
  cases hrest
  rfl

theorem step_of_open {frame : Frame} {outer : List Frame} (hpending : stage.pending = none)
    (hrest : stage.rest = []) (hstack : stage.state.stack = frame :: outer) :
    stage.step source = stage.unwind frame outer := by
  simp only [step, hpending, hrest, hstack]

theorem step_of_done (hpending : stage.pending = none) (hrest : stage.rest = [])
    (hstack : stage.state.stack = []) : stage.step source = some stage := by
  simp only [step, hpending, hrest, hstack]

end Step

/-- The stage after so many steps. -/
def steps (source : Text) : Nat → Stage → Option Stage
  | 0, stage => some stage
  | n + 1, stage => (stage.step source).bind (steps source n)

end Stage

/-- A parse after so many steps, from the scan on. -/
def stageAfter (whole : Bool) (source : Text) (n : Nat) : Option Stage :=
  (scan? source).bind fun pieces => Stage.steps source n ⟨.start whole, [], none, pieces⟩

end Nesting

end Stencil
