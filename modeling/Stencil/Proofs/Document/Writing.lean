import Stencil.Proofs.Nesting.Events
import Stencil.Proofs.Nesting.PendingCalls
import Stencil.Proofs.Nesting.Settled
import Stencil.Proofs.Tag.Spelling

/-!
# Parsing undoes writing

`written` writes a tree in the syntax of templates, every directive with its closer but a call
without a body. Parsed, it is the tree again (`parse_written`), for trees that can be written at
all: `Node.Writable` says which nodes can, and settled lists are those that no parse would join.

A call without a body stays open while what follows it is read, so the state of the parse is not
the state one would expect; it trails that one (`readsAsNodes`).
-/

set_option autoImplicit false

namespace Stencil

/-! ## Writing -/

/-- The tag as a piece of source. -/
def Tag.piece (tag : Tag) : Segment := .tag tag.spelling

mutual

/-- The pieces a node is written as. -/
def piecesOf : Node → List Segment
  | .text content => [.text content]
  | .value key escape => [(Tag.value escape key).piece]
  | .block kind key body otherwise =>
      (Tag.opener kind key).piece
        :: (pieces body ++ (piecesOtherwise key otherwise ++ [(Tag.closer (some key)).piece]))
  | .slot name body =>
      (Tag.slot name).piece :: (pieces body ++ [(Tag.closer (some name)).piece])
  | .inclusion name => [(Tag.inclusion name).piece]
  | .call name arguments body => (Tag.call name arguments).piece :: piecesClosed name body

/-- The pieces a tree is written as, in order. -/
def pieces : List Node → List Segment
  | [] => []
  | node :: rest => piecesOf node ++ pieces rest

/-- The pieces of the second branch of a block, if there is one. -/
def piecesOtherwise (key : Text) : Option (List Node) → List Segment
  | none => []
  | some other => (Tag.otherwise key).piece :: pieces other

/-- The pieces of a call from its body on, if it has one. -/
def piecesClosed (name : Text) : Option (List Node) → List Segment
  | none => []
  | some body => pieces body ++ [(Tag.closer (some name)).piece]

end

/-- A tree as the source of a template. -/
def written (nodes : List Node) : Text := (pieces nodes).flatMap Segment.source

/-! ## What can be written -/

/-- No call of the name without a body stands in the list itself. After such a call the closer of
the name would close the call. -/
def NoOpenCall (name : Text) (nodes : List Node) : Prop :=
  ∀ arguments, .call name arguments none ∉ nodes

/-- A node that can be written, whatever it has inside: its names and keys are paths, its text has
no whole tag in it, and its closer closes no call in its last branch. -/
def Node.Writable : Node → Prop
  | .text content => ∀ inner, ¬ (Segment.tag inner).source <:+: content
  | .value key _ => isPath key = true
  | .block _ key body otherwise => isPath key = true ∧ NoOpenCall key (otherwise.getD body)
  | .slot name body => isPath name = true ∧ NoOpenCall name body
  | .inclusion name => isPath name = true
  | .call name arguments body =>
      isPath name = true ∧ (∀ argument ∈ arguments, argument.Writable) ∧
        ∀ inner ∈ body, NoOpenCall name inner

/-- A tree that can be written: a settled one all whose nodes can. -/
structure Writable (nodes : List Node) : Prop where
  settled : Settled nodes
  nodes : ∀ node ∈ nodesWithin nodes, node.Writable

section Writable

variable {node : Node} {rest : List Node}

theorem Writable.head (h : Writable (node :: rest)) : node.Writable := by
  exact h.nodes node (mem_nodesWithin_head node rest)

theorem Writable.tail (h : Writable (node :: rest)) : Writable rest :=
  ⟨h.settled.2.2, fun other hother => h.nodes other (nodesWithin_subset_cons node rest hother)⟩

theorem Writable.block {kind : BlockKind} {key : Text} {body : List Node}
    {otherwise : Option (List Node)} (h : Writable (.block kind key body otherwise :: rest)) :
    Writable body ∧ ∀ other ∈ otherwise, Writable other := by
  obtain ⟨⟨hbody, hother⟩, -⟩ := h.settled
  refine ⟨⟨hbody, fun node hnode => h.nodes node ?_⟩, ?_⟩
  · exact nodesWithin_subset_block kind key body rest otherwise hnode
  · rintro other rfl
    refine ⟨hother, fun node hnode => h.nodes node ?_⟩
    exact nodesWithin_subset_otherwise kind key body rest (some other) hnode

theorem Writable.slot {name : Text} {body : List Node} (h : Writable (.slot name body :: rest)) :
    Writable body := by
  refine ⟨h.settled.1, fun node hnode => h.nodes node ?_⟩
  exact nodesWithin_subset_slot name body rest hnode

theorem Writable.call {name : Text} {arguments : List Argument} {body : Option (List Node)}
    (h : Writable (.call name arguments body :: rest)) : ∀ inner ∈ body, Writable inner := by
  rintro inner rfl
  refine ⟨h.settled.1, fun node hnode => h.nodes node ?_⟩
  exact nodesWithin_subset_call name arguments rest (some inner) hnode

end Writable

/-! ## The pieces are clean -/

theorem clean_pieces {nodes : List Node} (h : Writable nodes) :
    ∀ piece ∈ pieces nodes, piece.Clean := by
  induction nodes using tree_induction with
  | nil => simp [pieces]
  | text content rest ih =>
      simp only [pieces, piecesOf, List.singleton_append, List.forall_mem_cons]
      exact ⟨⟨h.settled.1, h.head⟩, ih h.tail⟩
  | value key escape rest ih =>
      simp only [pieces, piecesOf, List.singleton_append, List.forall_mem_cons]
      exact ⟨clean_spelling (.value escape key) h.head, ih h.tail⟩
  | block kind key body otherwise rest ihbody ihother ih =>
      obtain ⟨hkey, -⟩ := h.head
      obtain ⟨hbody, hother⟩ := h.block
      have hclose : (Tag.closer (some key)).piece.Clean := clean_spelling (.closer (some key)) hkey
      have hsecond : ∀ piece ∈ piecesOtherwise key otherwise, piece.Clean := by
        cases otherwise with
        | none => simp [piecesOtherwise]
        | some other =>
            simp only [piecesOtherwise, List.forall_mem_cons]
            exact ⟨clean_spelling (.otherwise key) hkey, ihother other rfl (hother other rfl)⟩
      simp only [pieces, piecesOf, List.cons_append, List.forall_mem_cons, List.forall_mem_append]
      exact ⟨clean_spelling (.opener kind key) hkey,
        ⟨ihbody hbody, hsecond, hclose, by simp⟩, ih h.tail⟩
  | slot name body rest ihbody ih =>
      obtain ⟨hname, -⟩ := h.head
      simp only [pieces, piecesOf, List.cons_append, List.forall_mem_cons, List.forall_mem_append]
      exact ⟨clean_spelling (.slot name) hname,
        ⟨ihbody h.slot, clean_spelling (.closer (some name)) hname, by simp⟩, ih h.tail⟩
  | inclusion name rest ih =>
      simp only [pieces, piecesOf, List.singleton_append, List.forall_mem_cons]
      exact ⟨clean_spelling (.inclusion name) h.head, ih h.tail⟩
  | call name arguments body rest ihbody ih =>
      obtain ⟨hname, harguments, -⟩ := h.head
      have hclosed : ∀ piece ∈ piecesClosed name body, piece.Clean := by
        cases body with
        | none => simp [piecesClosed]
        | some inner =>
            simp only [piecesClosed, List.forall_mem_append]
            exact ⟨ihbody inner rfl (h.call inner rfl),
              List.forall_mem_singleton.mpr (clean_spelling (.closer (some name)) hname)⟩
      simp only [pieces, piecesOf, List.cons_append, List.forall_mem_cons, List.forall_mem_append]
      exact ⟨clean_spelling (.call name arguments) ⟨hname, harguments⟩, hclosed, ih h.tail⟩

theorem isChain_cons_piece (tag : Tag) (more : List Segment) :
    (tag.piece :: more).IsChain Segment.Apart ↔ more.IsChain Segment.Apart :=
  isChain_cons_tag tag.spelling more

theorem isChain_append_piece (before : List Segment) (tag : Tag) (more : List Segment) :
    (before ++ tag.piece :: more).IsChain Segment.Apart
      ↔ before.IsChain Segment.Apart ∧ more.IsChain Segment.Apart :=
  isChain_append_tag before tag.spelling more

theorem isChain_pieces {nodes : List Node} (h : Settled nodes) :
    (pieces nodes).IsChain Segment.Apart := by
  induction nodes using tree_induction with
  | nil => exact .nil
  | text content rest ih =>
      obtain ⟨-, hnext, hrest⟩ := h
      refine List.isChain_cons.mpr ⟨?_, ih hrest⟩
      intro next hmem
      cases rest with
      | nil => cases hmem
      | cons node rest =>
          have hnode : Apart (.text content) node := hnext node rfl
          cases node with
          | text other => exact absurd ⟨rfl, rfl⟩ hnode
          | _ => cases hmem; trivial
  | value key escape rest ih => exact (isChain_cons_piece _ _).mpr (ih h.2.2)
  | block kind key body otherwise rest ihbody ihother ih =>
      obtain ⟨⟨hbody, hother⟩, -, hrest⟩ := h
      simp only [pieces, piecesOf, List.cons_append, List.append_assoc, List.nil_append,
        isChain_cons_piece]
      cases otherwise with
      | none => exact (isChain_append_piece _ _ _).mpr ⟨ihbody hbody, ih hrest⟩
      | some other =>
          rw [piecesOtherwise, List.cons_append, isChain_append_piece, isChain_append_piece]
          exact ⟨ihbody hbody, ihother other rfl hother, ih hrest⟩
  | slot name body rest ihbody ih =>
      simp only [pieces, piecesOf, List.cons_append, List.append_assoc, List.nil_append,
        isChain_cons_piece, isChain_append_piece]
      exact ⟨ihbody h.1, ih h.2.2⟩
  | inclusion name rest ih => exact (isChain_cons_piece _ _).mpr (ih h.2.2)
  | call name arguments body rest ihbody ih =>
      obtain ⟨hbody, -, hrest⟩ := h
      rw [pieces, piecesOf, List.cons_append, isChain_cons_piece]
      cases body with
      | none => exact ih hrest
      | some inner =>
          rw [piecesClosed, List.append_assoc, List.singleton_append, isChain_append_piece]
          exact ⟨ihbody inner rfl hbody, ih hrest⟩

/-- The pieces of a written tree are the pieces it was written as. -/
theorem segments_written {nodes : List Node} (h : Writable nodes) :
    segments (written nodes) = pieces nodes :=
  segments_flatMap_source (clean_pieces h) (isChain_pieces h.settled)

/-! ## Reading the pieces -/

/-- Reading the written tag is what the tag says. -/
theorem sameTree_read_piece (tag : Tag) (h : tag.Writable) (state : Nesting) (span : Span) :
    (state.read ⟨tag.piece, span⟩).SameTree (state.readTag tag tag.piece.source span) := by
  simp only [Nesting.read, Tag.piece, Tag.parse_spelling h]
  exact ⟨rfl, rfl⟩

theorem source_ne_nil_of_mem_pieces {nodes : List Node} (h : Writable nodes) {piece : Segment}
    (hpiece : piece ∈ pieces nodes) : piece.source ≠ [] := by
  cases hcase : piece with
  | text content =>
      have hclean := clean_pieces h piece hpiece
      rw [hcase] at hclean
      exact hclean.1
  | tag inner => simp [Segment.source]

theorem SettledState.foldl_read_pieces {state : Nesting} (h : SettledState state)
    {items : List Segment} (hitems : ∀ piece ∈ items, piece.source ≠ []) (start : Nat) :
    SettledState ((located start items).foldl Nesting.read state) := by
  refine h.foldl_read fun piece hpiece => hitems piece.item ?_
  rw [← map_item_located start items]
  exact List.mem_map_of_mem hpiece

theorem SettledState.isSound {state : Nesting} (h : SettledState state) : state.Sound :=
  fun frame hframe => (h.stack frame hframe).sound

/-- The children of a frame that was just opened are what is read in it. -/
theorem foldl_push_opened (opener : Opener) (source : Text) (span : Span) {nodes : List Node}
    (h : Settled nodes) : nodes.foldl Frame.push ⟨opener, source, span, [], none⟩
      = ⟨opener, source, span, nodes, none⟩ := by
  rw [Frame.foldl_push_eq (Frame.sound_opened opener source span)]
  have hcurrent : Frame.current ⟨opener, source, span, [], none⟩ = [] := rfl
  have hmerged : pushNodes [] nodes = nodes := merged_of_settled h
  rw [hcurrent, hmerged]
  rfl

/-- The calls without a body that stand in the list itself. -/
def OpenCall (nodes : List Node) (name : Text) : Prop :=
  ∃ arguments, .call name arguments none ∈ nodes

/-- Reading the pieces of a tree is reading its nodes, up to calls that are still open. -/
def ReadsAsNodes (nodes : List Node) : Prop :=
  ∀ (state : Nesting) (start : Nat), SettledState state →
    Nesting.Trails (OpenCall nodes) ((located start (pieces nodes)).foldl Nesting.read state)
      (nodes.foldl Nesting.push state)

/-- An opener with the tree that is read after it. -/
theorem trails_opened (opener : Opener) (tag : Tag) (htag : tag.Writable)
    (hopened : ∀ (state : Nesting) source span,
      state.readTag tag source span = state.opened opener source span)
    {body : List Node} (hbody : Writable body) (hreads : ReadsAsNodes body) {state : Nesting}
    (hstate : SettledState state) (start : Nat) :
    ∃ other span, other.root = state.root ∧
      other.stack = ⟨opener, tag.piece.source, span, body, none⟩ :: state.stack ∧
      Nesting.Trails (OpenCall body)
        ((located start (tag.piece :: pieces body)).foldl Nesting.read state) other := by
  have hnext : ∀ span, (state.read ⟨tag.piece, span⟩).SameTree
      (state.opened opener tag.piece.source span) := by
    intro span
    rw [← hopened]
    exact sameTree_read_piece tag htag state span
  rw [located, List.foldl_cons]
  generalize hspan : Span.mk start (start + byteSize tag.piece.source) = span
  have hsettled : SettledState (state.read ⟨tag.piece, span⟩) :=
    hstate.read (by simp [Tag.piece, Segment.source])
  refine ⟨body.foldl Nesting.push (state.read ⟨tag.piece, span⟩), span, ?_, ?_,
    hreads _ _ hsettled⟩
  · rw [Nesting.foldl_push_of_cons (hnext span).stack]
    exact (hnext span).root
  · rw [Nesting.foldl_push_of_cons (hnext span).stack,
      foldl_push_opened opener tag.piece.source span hbody.settled]

/-- A closer after a frame that was read, with calls that are still open in it. -/
theorem sameTree_read_closer {state other : Nesting} {nodes : List Node} {frame : Frame}
    {outer : List Frame} {name : Text} (h : Nesting.Trails (OpenCall nodes) state other)
    (hstack : other.stack = frame :: outer) (hopener : frame.opener.name = name)
    (hname : isPath name = true) (hnone : NoOpenCall name nodes) (span : Span) :
    (state.read ⟨(Tag.closer (some name)).piece, span⟩).SameTree
      (({ other with stack := outer } : Nesting).push frame.toNode) := by
  have hpending : ∀ call, OpenCall nodes call → call ≠ name := by
    rintro call ⟨arguments, hmem⟩ rfl
    exact hnone arguments hmem
  exact (sameTree_read_piece (.closer (some name)) hname state span).trans
    (h.close hstack hopener hpending _ span)

/-- A directive with one body, from its opener to its closer. -/
theorem sameTree_read_directive (opener : Opener) (tag : Tag) (htag : tag.Writable)
    (hopened : ∀ (state : Nesting) source span,
      state.readTag tag source span = state.opened opener source span)
    (hname : isPath opener.name = true) {body : List Node} (hbody : Writable body)
    (hreads : ReadsAsNodes body) (hnone : NoOpenCall opener.name body) {state : Nesting}
    (hstate : SettledState state) (start : Nat) :
    ((located start (tag.piece :: (pieces body ++ [(Tag.closer (some opener.name)).piece]))).foldl
        Nesting.read state).SameTree
      (state.push (Frame.toNode ⟨opener, tag.piece.source, ⟨0, 0⟩, body, none⟩)) := by
  obtain ⟨other, span, hroot, hstack, htrails⟩ :=
    trails_opened opener tag htag hopened hbody hreads hstate start
  rw [← List.cons_append, located_append, List.foldl_append]
  have houter : Nesting.SameTree { other with stack := state.stack } state := ⟨hroot, rfl⟩
  exact (sameTree_read_closer htrails hstack rfl hname hnone _).trans (houter.push _)

/-- A frame that was parted after its body and has read the second branch since. -/
theorem toNode_foldl_push_parted {kind : BlockKind} {key source sourceElse : Text} {span : Span}
    {body other : List Node} (hother : Settled other) :
    (other.foldl Frame.push
        ⟨.block kind key, source, span, body, some (body.length, sourceElse)⟩).toNode
      = .block kind key body (some other) := by
  have hsound : Frame.Sound ⟨.block kind key, source, span, body, some (body.length, sourceElse)⟩ :=
    ⟨by simp, fun _ => ⟨kind, key, rfl⟩⟩
  have hmerged : pushNodes [] other = other := merged_of_settled hother
  rw [Frame.foldl_push_eq hsound]
  simp [Frame.toNode, Frame.withCurrent, Frame.current, Frame.after, hmerged]

/-- The tag that parts a block with the second branch after it. What is still open in the first
branch is flattened. -/
theorem trails_parted {kind : BlockKind} {key source : Text} (hkey : isPath key = true)
    {span : Span} {body other : List Node} {outer : List Frame} {state reached : Nesting}
    (hstate : SettledState state) (h : Nesting.Trails (OpenCall body) state reached)
    (hstack : reached.stack = ⟨.block kind key, source, span, body, none⟩ :: outer)
    (hreads : ReadsAsNodes other) (start : Nat) :
    ∃ last : Nesting, last.root = reached.root ∧
      last.stack = other.foldl Frame.push ⟨.block kind key, source, span, body,
        some (body.length, (Tag.otherwise key).piece.source)⟩ :: outer ∧
      Nesting.Trails (OpenCall other)
        ((located start ((Tag.otherwise key).piece :: pieces other)).foldl Nesting.read state)
        last := by
  rw [located, List.foldl_cons]
  generalize Span.mk start (start + byteSize (Tag.otherwise key).piece.source) = spanElse
  have hparted : (state.read ⟨(Tag.otherwise key).piece, spanElse⟩).SameTree { reached with
      stack := ⟨.block kind key, source, span, body,
        some (body.length, (Tag.otherwise key).piece.source)⟩ :: outer } :=
    (sameTree_read_piece (.otherwise key) hkey state spanElse).trans
      (h.part hstack rfl rfl _ spanElse)
  have hsettled : SettledState (state.read ⟨(Tag.otherwise key).piece, spanElse⟩) :=
    hstate.read (by simp [Tag.piece, Segment.source])
  refine ⟨_, ?_, ?_, hreads _ _ hsettled⟩
  · rw [Nesting.foldl_push_of_cons hparted.stack]
    exact hparted.root
  · rw [Nesting.foldl_push_of_cons hparted.stack]

/-- A block with two branches, from its opener to its closer. -/
theorem sameTree_read_parted {kind : BlockKind} {key : Text} (hkey : isPath key = true)
    {body other : List Node} (hbody : Writable body) (hreads : ReadsAsNodes body)
    (hother : Writable other) (hreadsOther : ReadsAsNodes other) (hnone : NoOpenCall key other)
    {state : Nesting} (hstate : SettledState state) (start : Nat) :
    ((located start (piecesOf (.block kind key body (some other)))).foldl
        Nesting.read state).SameTree (state.push (.block kind key body (some other))) := by
  have hpieces : piecesOf (.block kind key body (some other))
      = ((Tag.opener kind key).piece :: pieces body)
        ++ (((Tag.otherwise key).piece :: pieces other) ++ [(Tag.closer (some key)).piece]) := by
    simp [piecesOf, piecesOtherwise]
  have hstop := located_append start ((Tag.opener kind key).piece :: pieces body)
    (((Tag.otherwise key).piece :: pieces other) ++ [(Tag.closer (some key)).piece])
  generalize start + byteSize _ = stop at hstop
  have hlast := located_append stop ((Tag.otherwise key).piece :: pieces other)
    [(Tag.closer (some key)).piece]
  generalize stop + byteSize _ = last at hlast
  have hsettled : SettledState
      ((located start ((Tag.opener kind key).piece :: pieces body)).foldl Nesting.read state) := by
    refine hstate.foldl_read_pieces ?_ start
    rw [List.forall_mem_cons]
    exact ⟨by simp [Tag.piece, Segment.source], fun _ => source_ne_nil_of_mem_pieces hbody⟩
  obtain ⟨first, span, hroot, hstack, htrails⟩ := trails_opened (.block kind key)
    (.opener kind key) hkey (fun _ _ _ => rfl) hbody hreads hstate start
  obtain ⟨second, hrootElse, hstackElse, htrailsElse⟩ :=
    trails_parted hkey hsettled htrails hstack hreadsOther stop
  have hname : (other.foldl Frame.push ⟨.block kind key, (Tag.opener kind key).piece.source, span,
      body, some (body.length, (Tag.otherwise key).piece.source)⟩).opener.name = key := by
    simp [Opener.name]
  rw [hpieces, hstop, List.foldl_append, hlast, List.foldl_append]
  have hclosed := sameTree_read_closer htrailsElse hstackElse hname hkey hnone
    ⟨last, last + byteSize (Tag.closer (some key)).piece.source⟩
  rw [toNode_foldl_push_parted hother.settled] at hclosed
  have houter : Nesting.SameTree { second with stack := state.stack } state :=
    ⟨hrootElse.trans hroot, rfl⟩
  exact hclosed.trans (houter.push _)

theorem readsAsNodes_cons {node : Node} {rest : List Node} (h : Writable (node :: rest))
    (hnode : ∀ (state : Nesting) (start : Nat), SettledState state →
      Nesting.Trails (OpenCall [node]) ((located start (piecesOf node)).foldl Nesting.read state)
        (state.push node))
    (hrest : ReadsAsNodes rest) : ReadsAsNodes (node :: rest) := by
  intro state start hstate
  have hnext : SettledState ((located start (piecesOf node)).foldl Nesting.read state) := by
    refine hstate.foldl_read_pieces (fun piece hpiece => ?_) start
    exact source_ne_nil_of_mem_pieces h (List.mem_append_left _ hpiece)
  have hfirst : ∀ name, OpenCall [node] name → OpenCall (node :: rest) name := by
    rintro name ⟨arguments, hmem⟩
    exact ⟨arguments, by simp [List.mem_singleton.mp hmem]⟩
  have hmore : ∀ name, OpenCall rest name → OpenCall (node :: rest) name := by
    rintro name ⟨arguments, hmem⟩
    exact ⟨arguments, List.mem_cons_of_mem _ hmem⟩
  rw [pieces, located_append, List.foldl_append, List.foldl_cons]
  exact ((hrest _ _ hnext).mono hmore).trans
    (((hnode state start hstate).mono hfirst).foldl_push hnext.isSound rest)

/-- **Reading the pieces of a tree is reading its nodes**, up to calls that are still open. -/
theorem readsAsNodes {nodes : List Node} (h : Writable nodes) : ReadsAsNodes nodes := by
  induction nodes using tree_induction with
  | nil => exact fun state _ _ => .same (.refl state)
  | text content rest ih =>
      refine readsAsNodes_cons h (fun state start _ => .same ?_) (ih h.tail)
      have hleading : Nesting.SameTree
          { state with leading := state.leading && isBlankText content } state := ⟨rfl, rfl⟩
      exact hleading.push _
  | value key escape rest ih =>
      refine readsAsNodes_cons h (fun state start _ => .same ?_) (ih h.tail)
      exact sameTree_read_piece (.value escape key) h.head state _
  | block kind key body otherwise rest ihbody ihother ih =>
      obtain ⟨hkey, hnone⟩ := h.head
      obtain ⟨hbody, hother⟩ := h.block
      refine readsAsNodes_cons h (fun state start hstate => .same ?_) (ih h.tail)
      cases otherwise with
      | none =>
          exact sameTree_read_directive (.block kind key) (.opener kind key) hkey
            (fun _ _ _ => rfl) hkey hbody (ihbody hbody) hnone hstate start
      | some other =>
          exact sameTree_read_parted hkey hbody (ihbody hbody) (hother other rfl)
            (ihother other rfl (hother other rfl)) hnone hstate start
  | slot name body rest ihbody ih =>
      obtain ⟨hname, hnone⟩ := h.head
      refine readsAsNodes_cons h (fun state start hstate => .same ?_) (ih h.tail)
      exact sameTree_read_directive (.slot name) (.slot name) hname (fun _ _ _ => rfl) hname
        h.slot (ihbody h.slot) hnone hstate start
  | inclusion name rest ih =>
      refine readsAsNodes_cons h (fun state start _ => .same ?_) (ih h.tail)
      exact sameTree_read_piece (.inclusion name) h.head state _
  | call name arguments body rest ihbody ih =>
      obtain ⟨hname, harguments, hnone⟩ := h.head
      refine readsAsNodes_cons h (fun state start hstate => ?_) (ih h.tail)
      cases body with
      | none =>
          have hread := sameTree_read_piece (.call name arguments) ⟨hname, harguments⟩ state
            ⟨start, start + byteSize (Tag.call name arguments).piece.source⟩
          have hopen : OpenCall [.call name arguments none] name :=
            ⟨arguments, List.mem_singleton.mpr rfl⟩
          exact (Nesting.Trails.opened hopen state arguments _ _).congr_left hread
      | some inner =>
          exact .same (sameTree_read_directive (.call name arguments) (.call name arguments)
            ⟨hname, harguments⟩ (fun _ _ _ => rfl) hname (h.call inner rfl)
            (ihbody inner rfl (h.call inner rfl)) (hnone inner rfl) hstate start)

/-! ## Whole trees -/

/-- The tree that is left when a written tree was read from the beginning and the calls that are
still open are flattened. -/
theorem root_unwindTo_read {nodes : List Node} (h : Writable nodes) {state : Nesting}
    (hstate : SettledState state) (hroot : state.root = []) (hstack : state.stack = [])
    (start : Nat) : (((located start (pieces nodes)).foldl Nesting.read state).unwindTo
      fun _ => false).root = nodes := by
  have hpush : nodes.foldl Nesting.push state = { state with root := pushNodes state.root nodes } :=
    Nesting.foldl_push_of_nil hstack nodes
  have hsame := (readsAsNodes h state start hstate).unwindTo (fun _ _ _ _ _ => rfl)
    (by simp [hpush, hstack])
  rw [hsame.root, hpush, hroot]
  exact merged_of_settled h.settled

/-- **Parsing undoes writing.** A tree that can be written is the tree of what is written, and so it
is after a tag that names a parent, which is then the parent of the document. -/
theorem parse_written {nodes : List Node} (h : Writable nodes) :
    parseFragment (written nodes) = nodes ∧
      ∀ parent, isPath parent = true →
        let document := Document.parse ((Segment.tag ('^' :: parent)).source ++ written nodes)
        document.parentName = some parent ∧ document.nodes = nodes := by
  constructor
  · have hscan : scan (written nodes) = located 0 (pieces nodes) := by
      rw [scan, segments_written h]
    unfold parseFragment Nesting.readAll
    rw [hscan]
    exact root_unwindTo_read h (settledState_start false) rfl rfl 0
  · intro parent hparent document
    have htag : (Tag.parent parent).Writable := hparent
    have hsource : (Segment.tag ('^' :: parent)).source ++ written nodes
        = ((Tag.parent parent).piece :: pieces nodes).flatMap Segment.source := by
      rw [List.flatMap_cons]
      rfl
    have hsegments : segments ((Segment.tag ('^' :: parent)).source ++ written nodes)
        = (Tag.parent parent).piece :: pieces nodes := by
      rw [hsource]
      refine segments_flatMap_source ?_ ((isChain_cons_piece _ _).mpr (isChain_pieces h.settled))
      rw [List.forall_mem_cons]
      exact ⟨clean_spelling _ htag, clean_pieces h⟩
    have hread : ∀ span, (Nesting.start true).read ⟨(Tag.parent parent).piece, span⟩
        = ⟨true, false, some ⟨parent, span⟩, [], [], []⟩ := by
      intro span
      simp only [Nesting.read, Tag.piece, Tag.parse_spelling htag]
      rfl
    have hsettled : ∀ span, SettledState ⟨true, false, some ⟨parent, span⟩, [], [], []⟩ :=
      fun span => ⟨trivial, by simp⟩
    show (Nesting.readAll true _).parent.map (·.item) = some parent ∧
      (Nesting.readAll true _).root = nodes
    unfold Nesting.readAll
    rw [scan, hsegments, located, List.foldl_cons, hread, Nesting.parent_unwindTo,
      parentName_foldl_read _ (by simp)]
    exact ⟨rfl, root_unwindTo_read h (hsettled _) rfl rfl _⟩

/-- The statement for a tree of every kind of node: texts that end with a brace and begin with one,
and a call that is never closed before directives of other names. -/
theorem parse_written_page :
    let page : List Node :=
      [.text ['H', 'i', '{'], .call ['m'] [.literal ['"', '{'], .key ['k']] none, .text ['}', ' '],
        .block .enumerate ['k'] [.value ['a', '.', 'b'] true]
          (some [.call ['n'] [] none, .text ['-']]),
        .slot ['s'] [.inclusion ['t'], .call ['c'] [] (some [.text ['!']])]]
    parseFragment (written page) = page ∧
      (Document.parse ((Segment.tag ['^', 'p']).source ++ written page)).parentName
        = some ['p'] := by
  intro page
  have htext : ∀ content, NoPair '{' content → (Node.text content).Writable := by
    rintro content hpair inner ⟨before, after, heq⟩
    refine (noPair_iff _ _).mp hpair ⟨before, inner ++ ['}', '}'] ++ after, ?_⟩
    rw [← heq]
    simp [Segment.source]
  have hsettled : Settled page := by
    simp [page, Settled, NodeSettled, BodySettled, Apart, Node.isText]
  have hnodes : ∀ node ∈ nodesWithin page, node.Writable := by
    have hpairs : NoPair '{' ['H', 'i', '{'] ∧ NoPair '{' ['}', ' '] ∧ NoPair '{' ['-'] ∧
        NoPair '{' ['!'] := by
      unfold NoPair
      decide
    have hliteral : (Argument.literal ['"', '{']).Writable := by
      unfold Argument.Writable
      decide
    have hkey : isPath ['k'] = true := by decide
    simp only [page, nodesWithin, nodesOf, nodesIn, Node.Writable, NoOpenCall, List.cons_append,
      List.nil_append, List.append_nil, List.forall_mem_cons]
    exact ⟨htext _ hpairs.1, ⟨by decide, ⟨hliteral, hkey, by simp⟩, by simp⟩, htext _ hpairs.2.1,
      ⟨hkey, by simp⟩, by decide, ⟨by decide, by simp, by simp⟩, htext _ hpairs.2.2.1,
      ⟨by decide, by simp⟩, by decide, ⟨by decide, by simp, by simp⟩, htext _ hpairs.2.2.2, by simp⟩
  obtain ⟨hfragment, hparent⟩ := parse_written ⟨hsettled, hnodes⟩
  exact ⟨hfragment, (hparent ['p'] (by decide)).1⟩

end Stencil
