import Stencil.Document
import Stencil.Segment
import Stencil.Text.Blank
import Stencil.Warning

/-!
# From tags to a tree

Tags are matched with a stack of open frames. A closer binds to the nearest frame of its name, a
bare closer to the innermost frame, and a `:key` tag to the innermost block, looking through open
calls. Frames inside the one that is closed or parted were never closed themselves and are
flattened into it: an open call becomes a call without a body, the opener of a block or slot
becomes literal text, and their children follow. Whatever cannot be matched is literal text, with
a warning.

`Document.parse` reads a whole template, which may name a parent before anything else.
`parseFragment` reads text that cannot have a parent.
-/

set_option autoImplicit false

namespace Stencil

/-! ## Frames -/

/-- What a directive that waits for its closer was opened by. -/
inductive Opener where
  | block (kind : BlockKind) (key : Text)
  | slot (name : Text)
  | call (name : Text) (arguments : List Argument)
deriving DecidableEq

namespace Opener

/-- The name that closes the directive. -/
def name : Opener → Text
  | .block _ key => key
  | .slot name => name
  | .call name _ => name

/-- Is it a call? Calls need no closer. -/
def isCall : Opener → Bool
  | .call _ _ => true
  | _ => false

/-- Is it a block over the key? -/
def isBlockOver (key : Text) : Opener → Bool
  | .block _ k => k == key
  | _ => false

end Opener

/-- A directive that waits for its closer. -/
structure Frame where
  opener : Opener
  /-- The source text of the opening tag. -/
  source : Text
  span : Span
  /-- What was read inside so far. -/
  children : List Node
  /-- How many children stood before the `:key` tag, and the source text of that tag. -/
  parting : Option (Nat × Text)

namespace Frame

/-- The frame with a node read inside it. The first node after a `:key` tag stays apart from what
stands before that tag. -/
def push (frame : Frame) (node : Node) : Frame :=
  if frame.parting.map (·.1) = some frame.children.length then
    { frame with children := frame.children ++ [node] }
  else
    { frame with children := pushNode frame.children node }

/-- The directive, once its closer is read. -/
def toNode (frame : Frame) : Node :=
  match frame.opener with
  | .block kind key =>
    match frame.parting with
    | some (mark, _) =>
      .block kind key (frame.children.take mark) (some (frame.children.drop mark))
    | none => .block kind key frame.children none
  | .slot name => .slot name frame.children
  | .call name arguments => .call name arguments (some frame.children)

/-- The children with the source text of the `:key` tag in its place. -/
def flatChildren (frame : Frame) : List Node :=
  match frame.parting with
  | some (mark, source) =>
    frame.children.take mark ++ .text source :: frame.children.drop mark
  | none => frame.children

/-- What is left of a directive that is never closed. -/
def flatten (frame : Frame) : List Node :=
  match frame.opener with
  | .call name arguments => .call name arguments none :: frame.flatChildren
  | _ => .text frame.source :: frame.flatChildren

/-- The warning for a directive that is never closed; a call needs no closer. -/
def unclosed (frame : Frame) : List Warning :=
  match frame.opener with
  | .call _ _ => []
  | opener => [⟨.unclosed opener.name, frame.span⟩]

end Frame

/-! ## The state of a parse -/

/-- A template read up to some place. -/
structure Nesting where
  /-- Whether a parent may be named; warnings about misplaced parents are given only then. -/
  whole : Bool
  /-- Whether nothing but blanks was read so far. -/
  leading : Bool
  parent : Option (Located Text)
  /-- What was read outside every open frame. -/
  root : List Node
  /-- The open frames, the innermost first. -/
  stack : List Frame
  warnings : List Warning

namespace Nesting

/-- Nothing is read yet. -/
def start (whole : Bool) : Nesting := ⟨whole, true, none, [], [], []⟩

/-- The state with a node read in the innermost frame. -/
def push (state : Nesting) (node : Node) : Nesting :=
  match state.stack with
  | [] => { state with root := pushNode state.root node }
  | frame :: outer => { state with stack := frame.push node :: outer }

/-- The state with one more warning. -/
def warn (state : Nesting) (defect : Defect) (span : Span) : Nesting :=
  { state with warnings := state.warnings ++ [⟨defect, span⟩] }

/-- The state with a tag read as literal text. -/
def literal (state : Nesting) (source : Text) (defect : Defect) (span : Span) : Nesting :=
  (state.push (.text source)).warn defect span

/-- The state with one more open frame. -/
def opened (state : Nesting) (opener : Opener) (source : Text) (span : Span) : Nesting :=
  { state with stack := ⟨opener, source, span, [], none⟩ :: state.stack }

/-- The state without its innermost frame, which was never closed. -/
def unwind (state : Nesting) (frame : Frame) (outer : List Frame) : Nesting :=
  frame.flatten.foldl push
    { state with stack := outer, warnings := state.warnings ++ frame.unclosed }

theorem stack_length_push (state : Nesting) (node : Node) :
    (state.push node).stack.length = state.stack.length := by
  unfold push
  split
  · rfl
  · next h => rw [h]; rfl

theorem stack_length_foldl_push (nodes : List Node) (state : Nesting) :
    (nodes.foldl push state).stack.length = state.stack.length := by
  induction nodes generalizing state with
  | nil => rfl
  | cons node nodes ih => rw [List.foldl_cons, ih, stack_length_push]

theorem stack_length_unwind (state : Nesting) (frame : Frame) (outer : List Frame) :
    (state.unwind frame outer).stack.length = outer.length :=
  stack_length_foldl_push _ _

/-- The state with frames flattened, from the innermost on, up to the first that passes the
test. -/
def unwindTo (isTarget : Frame → Bool) (state : Nesting) : Nesting :=
  match _h : state.stack with
  | [] => state
  | frame :: outer =>
    if isTarget frame then state else unwindTo isTarget (state.unwind frame outer)
termination_by state.stack.length
decreasing_by rw [stack_length_unwind, _h]; exact Nat.lt_succ_self _

/-- The frame that a `:key` tag parts: the innermost one that is no call, if it is a block over
the key and not parted yet. -/
def partable (key : Text) (stack : List Frame) : Bool :=
  match stack.find? fun frame => !frame.opener.isCall with
  | some frame => frame.opener.isBlockOver key && frame.parting.isNone
  | none => false

/-- The state after a `:key` tag. -/
def part (state : Nesting) (key source : Text) (span : Span) : Nesting :=
  if partable key state.stack then
    let state := state.unwindTo fun frame => !frame.opener.isCall
    match state.stack with
    -- a partable frame is on the stack, so unwinding stops at it
    | [] => state
    | frame :: outer =>
      { state with
        stack := { frame with parting := some (frame.children.length, source) } :: outer }
  else state.literal source (.unmatchedElse key) span

/-- Does a closer with this name close the frame? -/
def closes (name : Option Text) (frame : Frame) : Bool :=
  match name with
  | some name => frame.opener.name == name
  | none => true

/-- The state after a closer. -/
def close (state : Nesting) (name : Option Text) (source : Text) (span : Span) : Nesting :=
  if state.stack.any (closes name) then
    let state := state.unwindTo (closes name)
    match state.stack with
    | [] => state
    | frame :: outer => { state with stack := outer }.push frame.toNode
  else state.literal source (.unmatchedClose name) span

/-- The state after a tag. -/
def readTag (state : Nesting) (tag : Tag) (source : Text) (span : Span) : Nesting :=
  match tag with
  | .value escape key => state.push (.value key escape)
  | .inclusion name => state.push (.inclusion name)
  | .parent name =>
    if state.whole && state.leading then { state with parent := some ⟨name, span⟩ }
    -- text that cannot have a parent may show such a tag, so only whole templates are warned about
    else if state.whole then state.literal source (.misplacedParent name) span
    else state.push (.text source)
  | .opener kind key => state.opened (.block kind key) source span
  | .slot name => state.opened (.slot name) source span
  | .call name arguments => state.opened (.call name arguments) source span
  | .otherwise key => state.part key source span
  | .closer name => state.close name source span

/-- The state after one more piece of source. -/
def read (state : Nesting) (piece : Located Segment) : Nesting :=
  match piece.item with
  | .text content =>
    { state with leading := state.leading && isBlankText content }.push (.text content)
  | .tag inner =>
    let next := match Tag.parse inner with
      | .ok tag => state.readTag tag piece.item.source piece.span
      | .error cause => state.literal piece.item.source (.malformed cause) piece.span
    -- any tag ends the place where a parent can be named, a malformed one too
    { next with leading := false }

/-- The state after a source, with every frame that is still open flattened. -/
def readAll (whole : Bool) (source : Text) : Nesting :=
  ((scan source).foldl read (start whole)).unwindTo fun _ => false

end Nesting

/-! ## Parsing -/

/-- The document of a template source, and a warning for each tag that stays literal text, in the
order in which they are noticed. -/
def Document.parseWithWarnings (source : Text) : Document × List Warning :=
  let state := Nesting.readAll true source
  (⟨state.parent, state.root⟩, state.warnings)

/-- The document of a template source. -/
def Document.parse (source : Text) : Document := (Document.parseWithWarnings source).1

/-- The tree of template text that cannot have a parent; a `^name` tag in it is literal text. -/
def parseFragment (source : Text) : List Node := (Nesting.readAll false source).root

/-- The warnings about a template source. -/
def lint (source : Text) : List Warning := (Document.parseWithWarnings source).2

end Stencil
