import Stencil.Proofs.Nesting.Frames

/-!
# Calls that are still open

A call that is never closed stays open until a tag of another directive, or the end of the source,
flattens it. What is read after it goes into its frame meanwhile. A state with such calls on top
trails the state in which they were read as calls without a body at once (`Trails`), and the two do
the same with whatever is read next: nodes that are pushed (`Trails.foldl_push`), and tags that
close or part a directive outside of the calls (`Trails.close`, `Trails.part`).
-/

set_option autoImplicit false

namespace Stencil

namespace Nesting

/-! ## States with the same tree -/

/-- The states have read the same tree; they may differ in what they know of a parent and in their
warnings. -/
structure SameTree (state other : Nesting) : Prop where
  root : state.root = other.root
  stack : state.stack = other.stack

theorem SameTree.refl (state : Nesting) : SameTree state state := ⟨rfl, rfl⟩

theorem SameTree.trans {first second third : Nesting} (h : SameTree first second)
    (h' : SameTree second third) : SameTree first third :=
  ⟨h.root.trans h'.root, h.stack.trans h'.stack⟩

theorem SameTree.foldl_push {state other : Nesting} (h : SameTree state other)
    (nodes : List Node) : SameTree (nodes.foldl push state) (nodes.foldl push other) := by
  cases hstack : other.stack with
  | nil =>
      rw [foldl_push_of_nil hstack, foldl_push_of_nil (h.stack.trans hstack)]
      exact ⟨congrArg (pushNodes · nodes) h.root, h.stack⟩
  | cons frame outer =>
      rw [foldl_push_of_cons hstack, foldl_push_of_cons (h.stack.trans hstack)]
      exact ⟨h.root, rfl⟩

theorem SameTree.push {state other : Nesting} (h : SameTree state other) (node : Node) :
    SameTree (state.push node) (other.push node) :=
  h.foldl_push [node]

theorem SameTree.unwind {state other : Nesting} (h : SameTree state other) (frame : Frame)
    (outer : List Frame) : SameTree (state.unwind frame outer) (other.unwind frame outer) := by
  have hstart : SameTree { state with stack := outer, warnings := state.warnings ++ frame.unclosed }
      { other with stack := outer, warnings := other.warnings ++ frame.unclosed } := ⟨h.root, rfl⟩
  exact hstart.foldl_push frame.flatten

/-! ## Sound states -/

/-- Every open frame is one that a parse builds. -/
def Sound (state : Nesting) : Prop := ∀ frame ∈ state.stack, frame.Sound

theorem Sound.foldl_push {state : Nesting} (h : state.Sound) (nodes : List Node) :
    (nodes.foldl Nesting.push state).Sound := by
  cases hstack : state.stack with
  | nil =>
      rw [foldl_push_of_nil hstack]
      exact h
  | cons frame outer =>
      have hframes : ∀ other ∈ frame :: outer, other.Sound := hstack ▸ h
      rw [List.forall_mem_cons] at hframes
      rw [foldl_push_of_cons hstack, Sound, List.forall_mem_cons, Frame.foldl_push_eq hframes.1]
      exact ⟨hframes.1.withCurrent _, hframes.2⟩

theorem Sound.unwind {state : Nesting} (h : state.Sound) {frame : Frame} {outer : List Frame}
    (hstack : state.stack = frame :: outer) : (state.unwind frame outer).Sound := by
  have hframes : ∀ other ∈ frame :: outer, other.Sound := hstack ▸ h
  rw [List.forall_mem_cons] at hframes
  have hstart : Sound { state with
      stack := outer, warnings := state.warnings ++ frame.unclosed } := hframes.2
  exact hstart.foldl_push frame.flatten

/-- A node may be joined to the nodes before these are pushed, or pushed after them. -/
theorem foldl_push_pushNode {state : Nesting} (h : state.Sound) (nodes : List Node)
    (node : Node) :
    (pushNode nodes node).foldl push state = (nodes.foldl push state).push node := by
  have hlast : (nodes.foldl push state).push node = (nodes ++ [node]).foldl push state := by
    rw [List.foldl_append]
    rfl
  have hjoin : ∀ start,
      pushNodes start (pushNode nodes node) = pushNodes start (nodes ++ [node]) := by
    intro start
    rw [pushNodes_pushNode, pushNodes_append]
    rfl
  rw [hlast]
  cases hstack : state.stack with
  | nil => rw [foldl_push_of_nil hstack, foldl_push_of_nil hstack, hjoin]
  | cons frame outer =>
      have hframe : frame.Sound := h frame (by rw [hstack]; exact List.mem_cons_self)
      rw [foldl_push_of_cons hstack, foldl_push_of_cons hstack, Frame.foldl_push_eq hframe,
        Frame.foldl_push_eq hframe, hjoin]

/-! ## Trailing -/

/-- An open call that is flattened is read as a call without a body, and then its children are. -/
theorem unwind_call {frame : Frame} {name : Text} {arguments : List Argument}
    (hopener : frame.opener = .call name arguments) (hparting : frame.parting = none)
    (state : Nesting) (outer : List Frame) : state.unwind frame outer
      = frame.children.foldl push
          (({ state with stack := outer } : Nesting).push (.call name arguments none)) := by
  simp [unwind, Frame.flatten, Frame.flatChildren, Frame.unclosed, hopener, hparting]

/-- The first state is the second with some calls on top of it that are still open. What was read
since is in their frames. The names of the calls satisfy `pending`. -/
inductive Trails (pending : Text → Prop) : Nesting → Nesting → Prop
  | same {state other : Nesting} (h : SameTree state other) : Trails pending state other
  | call {state other : Nesting} {frame : Frame} {outer : List Frame} {name : Text}
      {arguments : List Argument} (hstack : state.stack = frame :: outer)
      (hopener : frame.opener = .call name arguments) (hparting : frame.parting = none)
      (hname : pending name) (h : Trails pending (state.unwind frame outer) other) :
      Trails pending state other

namespace Trails

variable {pending : Text → Prop} {state other : Nesting}

theorem mono {more : Text → Prop} (h : Trails pending state other)
    (hmore : ∀ name, pending name → more name) : Trails more state other := by
  induction h with
  | same h => exact .same h
  | call hstack hopener hparting hname _ ih =>
      exact .call hstack hopener hparting (hmore _ hname) ih

theorem congr_left {next : Nesting} (hnext : SameTree next state) (h : Trails pending state other) :
    Trails pending next other := by
  induction h generalizing next with
  | same h => exact .same (hnext.trans h)
  | call hstack hopener hparting hname _ ih =>
      exact .call (hnext.stack.trans hstack) hopener hparting hname (ih (hnext.unwind _ _))

theorem trans {third : Nesting} (h : Trails pending state other) (h' : Trails pending other third) :
    Trails pending state third := by
  induction h with
  | same h => exact h'.congr_left h
  | call hstack hopener hparting hname _ ih => exact .call hstack hopener hparting hname (ih h')

/-- What an open call has read is read after the call, once it is flattened. -/
theorem push (h : Trails pending state other) (hsound : state.Sound) (node : Node) :
    Trails pending (state.push node) (other.push node) := by
  induction h with
  | same h => exact .same (h.push node)
  | @call state other frame outer name arguments hstack hopener hparting hname _ ih =>
      have hpush : state.push node = { state with
          stack := { frame with children := pushNode frame.children node } :: outer } := by
        simp [Nesting.push, hstack, Frame.push, hparting]
      have hstack' : (state.push node).stack
          = { frame with children := pushNode frame.children node } :: outer := by rw [hpush]
      have hstart : Nesting.Sound
          (({ state with stack := outer } : Nesting).push (.call name arguments none)) := by
        have houter : Nesting.Sound { state with stack := outer } := by
          intro inner hinner
          exact hsound inner (by rw [hstack]; exact List.mem_cons_of_mem _ hinner)
        exact houter.foldl_push [.call name arguments none]
      -- the node is the last of the children that are flattened, or comes after them
      have hsame : (state.push node).unwind
            { frame with children := pushNode frame.children node } outer
          = (state.unwind frame outer).push node := by
        rw [unwind_call hopener hparting, ← foldl_push_pushNode hstart, hpush]
        exact @unwind_call { frame with children := pushNode frame.children node } name arguments
          hopener hparting _ outer
      refine .call hstack' hopener hparting hname ?_
      rw [hsame]
      exact ih (hsound.unwind hstack)

theorem foldl_push (h : Trails pending state other) (hsound : state.Sound) (nodes : List Node) :
    Trails pending (nodes.foldl Nesting.push state) (nodes.foldl Nesting.push other) := by
  induction nodes generalizing state other with
  | nil => exact h
  | cons node nodes ih => exact ih (h.push hsound node) (hsound.foldl_push [node])

/-- A call that is opened is one more that is still open. -/
theorem opened {name : Text} (hname : pending name) (state : Nesting) (arguments : List Argument)
    (source : Text) (span : Span) :
    Trails pending (state.opened (.call name arguments) source span)
      (state.push (.call name arguments none)) := by
  refine .call rfl rfl rfl hname ?_
  rw [@unwind_call _ name arguments rfl rfl]
  exact .same (SameTree.push ⟨rfl, rfl⟩ _)

/-! ## What comes after -/

/-- Unwinding to a frame that is no open call flattens the open calls. -/
theorem unwindTo (h : Trails pending state other) {isTarget : Frame → Bool}
    (hcalls : ∀ frame name arguments, frame.opener = .call name arguments → pending name →
      isTarget frame = false)
    (htop : ∀ frame ∈ other.stack.head?, isTarget frame = true) :
    SameTree (state.unwindTo isTarget) other := by
  induction h with
  | @same state other h =>
      cases hstack : other.stack with
      | nil => rwa [unwindTo_of_nil isTarget (h.stack.trans hstack)]
      | cons frame outer =>
          have hframe : isTarget frame = true := htop frame (by rw [hstack]; rfl)
          rwa [unwindTo_of_cons isTarget (h.stack.trans hstack), if_pos hframe]
  | @call state other frame outer name arguments hstack hopener _ hname _ ih =>
      have hframe : isTarget frame = false := hcalls frame name arguments hopener hname
      rw [unwindTo_of_cons isTarget hstack, if_neg (by simp [hframe])]
      exact ih htop

theorem any_closes_foldl_push (name : Option Text) (nodes : List Node) (state : Nesting) :
    (nodes.foldl Nesting.push state).stack.any (closes name) = state.stack.any (closes name) := by
  cases hstack : state.stack with
  | nil => rw [foldl_push_of_nil hstack, hstack]
  | cons frame outer =>
      rw [foldl_push_of_cons hstack]
      cases name <;> simp [closes]

/-- **A closer closes through open calls** of other names. -/
theorem close (h : Trails pending state other) {frame : Frame} {outer : List Frame}
    (hstack : other.stack = frame :: outer) {name : Text} (hopener : frame.opener.name = name)
    (hpending : ∀ call, pending call → call ≠ name) (source : Text) (span : Span) :
    SameTree (state.close (some name) source span)
      (({ other with stack := outer } : Nesting).push frame.toNode) := by
  have hcloses : closes (some name) frame = true := by simp [closes, hopener]
  have hsame : SameTree (state.unwindTo (closes (some name))) other := by
    refine h.unwindTo ?_ ?_
    · intro inner call arguments hcall hname
      have hne : call ≠ name := hpending call hname
      simp [closes, hcall, Opener.name, hne]
    · simpa [hstack] using hcloses
  rcases close_cases state (some name) source span with
    ⟨hnone, -⟩ | ⟨target, rest, htarget, -, heq⟩
  · -- unwinding does not remove the frame that the closer closes
    have hany : (state.unwindTo (closes (some name))).stack.any (closes (some name))
        = state.stack.any (closes (some name)) := by
      refine @unwindTo_induction (fun next => next.stack.any (closes (some name))
        = state.stack.any (closes (some name))) _ ?_ state rfl
      intro next inner rest hnext hinner ih
      rw [← ih, unwind, any_closes_foldl_push, hnext, List.any_cons, hinner, Bool.false_or]
    rw [hsame.stack, hstack, List.any_cons, hcloses, Bool.true_or, eq_comm,
      List.any_eq_true] at hany
    obtain ⟨inner, hmem, hinner⟩ := hany
    simp [hnone inner hmem] at hinner
  · obtain ⟨rfl, rfl⟩ := List.cons.inj ((htarget.symm.trans hsame.stack).trans hstack)
    have hrest : SameTree { state.unwindTo (closes (some name)) with stack := rest }
        { other with stack := rest } := ⟨hsame.root, rfl⟩
    rw [heq]
    exact hrest.push _

/-- **A `:key` tag parts a block through open calls.** -/
theorem part (h : Trails pending state other) {frame : Frame} {outer : List Frame}
    {kind : BlockKind} {key : Text} (hstack : other.stack = frame :: outer)
    (hopener : frame.opener = .block kind key) (hparting : frame.parting = none) (source : Text)
    (span : Span) : SameTree (state.part key source span) { other with
      stack := { frame with parting := some (frame.children.length, source) } :: outer } := by
  have hsame : SameTree (state.unwindTo fun frame => !frame.opener.isCall) other := by
    refine h.unwindTo ?_ ?_
    · intro call name arguments hcall _
      simp [hcall, Opener.isCall]
    · simp [hstack, hopener, Opener.isCall]
  rcases part_cases state key source span with
    ⟨hnone, -⟩ | ⟨target, rest, _, htarget, -, -, heq⟩
  · -- unwinding does not remove the block that the tag parts
    have hpartable : partable key (state.unwindTo fun frame => !frame.opener.isCall).stack
        = partable key state.stack := by
      refine @unwindTo_induction (fun next => partable key next.stack = partable key state.stack)
        _ ?_ state rfl
      intro next inner rest hnext hinner ih
      rw [← ih, unwind, partable_foldl_push, hnext]
      simp [partable, hinner]
    rw [hsame.stack, hstack, hnone] at hpartable
    simp [partable, hopener, hparting, Opener.isCall, Opener.isBlockOver] at hpartable
  · obtain ⟨rfl, rfl⟩ := List.cons.inj ((htarget.symm.trans hsame.stack).trans hstack)
    rw [heq]
    exact ⟨hsame.root, rfl⟩

end Trails

end Nesting

end Stencil
