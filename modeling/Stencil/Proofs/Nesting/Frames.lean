import Stencil.Document.Nesting
import Stencil.Proofs.Tree.Merging

/-!
# The open frames

What the steps of a parse do to a frame and to the stack. The children of a frame are kept in one
list with a mark where the `:key` tag stands; `Frame.before` and `Frame.after` are the two branches
that list is read as. What is read goes to the end of the current branch, which is the second one if
there is one (`push_eq`).

Flattening the frames above a given one only pushes nodes onto that one
(`exists_stack_unwindTo`), so its opener and its mark stay. `unwindTo_induction` is the principle by
which every invariant of the stack passes through an unwinding.
-/

set_option autoImplicit false

namespace Stencil

theorem Opener.isBlockOver_iff {key : Text} {opener : Opener} :
    opener.isBlockOver key = true ↔ ∃ kind, opener = .block kind key := by
  cases opener <;> simp [Opener.isBlockOver]

/-! ## The branches of a frame -/

namespace Frame

/-- What was read before the `:key` tag, or everything if there is none. -/
def before (frame : Frame) : List Node :=
  match frame.parting with
  | some (mark, _) => frame.children.take mark
  | none => frame.children

/-- What was read after the `:key` tag, if there is one. -/
def after (frame : Frame) : Option (List Node) :=
  frame.parting.map fun parting => frame.children.drop parting.1

/-- The branch that is being read: what stands after the `:key` tag, or everything. -/
def current (frame : Frame) : List Node := frame.after.getD frame.children

/-- The frame with another branch in the place of the one that is being read. -/
def withCurrent (frame : Frame) (nodes : List Node) : Frame :=
  { frame with
    children := match frame.parting with
      | some (mark, _) => frame.children.take mark ++ nodes
      | none => nodes }

/-- A frame as a parse builds it: only a block is parted, and the mark is a place among the
children. -/
structure Sound (frame : Frame) : Prop where
  mark_le : ∀ parting ∈ frame.parting, parting.1 ≤ frame.children.length
  isBlock : frame.parting.isSome = true → ∃ kind key, frame.opener = .block kind key

theorem sound_opened (opener : Opener) (source : Text) (span : Span) :
    Sound ⟨opener, source, span, [], none⟩ :=
  ⟨by simp, by simp⟩

theorem Sound.part {frame : Frame} {kind : BlockKind} {key : Text}
    (h : frame.opener = .block kind key) (source : Text) :
    Sound { frame with parting := some (frame.children.length, source) } :=
  ⟨by simp, fun _ => ⟨kind, key, h⟩⟩

/-! ### Another current branch -/

section WithCurrent

variable (frame : Frame) (nodes : List Node)

@[simp]
theorem opener_withCurrent : (frame.withCurrent nodes).opener = frame.opener := rfl

@[simp]
theorem parting_withCurrent : (frame.withCurrent nodes).parting = frame.parting := rfl

theorem withCurrent_current : frame.withCurrent frame.current = frame := by
  have hchildren : (frame.withCurrent frame.current).children = frame.children := by
    cases h : frame.parting <;> simp [withCurrent, current, after, h]
  exact congrArg (fun children => { frame with children := children }) hchildren

theorem before_withCurrent_of_none (h : frame.parting = none) :
    (frame.withCurrent nodes).before = nodes := by
  simp [before, withCurrent, h]

variable {frame} (hs : frame.Sound)

include hs

theorem length_take_mark {mark : Nat} {source : Text} (h : frame.parting = some (mark, source)) :
    (frame.children.take mark).length = mark := by
  have hmark : mark ≤ frame.children.length := hs.mark_le (mark, source) h
  simp [hmark]

theorem before_withCurrent_of_some (h : frame.parting.isSome = true) :
    (frame.withCurrent nodes).before = frame.before := by
  obtain ⟨⟨mark, source⟩, hmark⟩ := Option.isSome_iff_exists.mp h
  simp only [before, withCurrent, hmark]
  exact List.take_left' (length_take_mark hs hmark)

theorem after_withCurrent :
    (frame.withCurrent nodes).after = frame.after.map fun _ => nodes := by
  cases h : frame.parting with
  | none => simp [after, h]
  | some parting =>
      obtain ⟨mark, source⟩ := parting
      simp only [after, withCurrent, h, Option.map_some]
      rw [List.drop_left' (length_take_mark hs h)]

theorem current_withCurrent : (frame.withCurrent nodes).current = nodes := by
  rw [current, after_withCurrent nodes hs]
  cases h : frame.parting <;> simp [after, withCurrent, h]

theorem withCurrent_withCurrent (more : List Node) :
    (frame.withCurrent nodes).withCurrent more = frame.withCurrent more := by
  cases h : frame.parting with
  | none => simp [withCurrent, h]
  | some parting =>
      obtain ⟨mark, source⟩ := parting
      simp only [withCurrent, h]
      rw [List.take_left' (length_take_mark hs h)]

theorem Sound.withCurrent : (frame.withCurrent nodes).Sound := by
  refine ⟨?_, by simpa using hs.isBlock⟩
  rintro ⟨mark, source⟩ hmark
  have hparting : frame.parting = some (mark, source) := hmark
  have htake := length_take_mark hs hparting
  simp only [Frame.withCurrent, hparting, List.length_append, htake]
  exact Nat.le_add_right _ _

end WithCurrent

/-! ### Pushing -/

@[simp]
theorem opener_push (frame : Frame) (node : Node) : (frame.push node).opener = frame.opener := by
  unfold push; split <;> rfl

@[simp]
theorem parting_push (frame : Frame) (node : Node) :
    (frame.push node).parting = frame.parting := by
  unfold push; split <;> rfl

@[simp]
theorem opener_foldl_push (nodes : List Node) (frame : Frame) :
    (nodes.foldl push frame).opener = frame.opener := by
  induction nodes generalizing frame with
  | nil => rfl
  | cons node nodes ih => rw [List.foldl_cons, ih, opener_push]

@[simp]
theorem parting_foldl_push (nodes : List Node) (frame : Frame) :
    (nodes.foldl push frame).parting = frame.parting := by
  induction nodes generalizing frame with
  | nil => rfl
  | cons node nodes ih => rw [List.foldl_cons, ih, parting_push]

/-- **What is read in a frame goes to the end of the current branch**, and does not see what stands
before that. -/
theorem push_eq {frame : Frame} (hs : frame.Sound) (node : Node) :
    frame.push node = frame.withCurrent (pushNode frame.current node) := by
  cases h : frame.parting with
  | none => simp [push, withCurrent, current, after, h]
  | some parting =>
      obtain ⟨mark, source⟩ := parting
      have hmark : mark ≤ frame.children.length := hs.mark_le (mark, source) h
      have hcurrent : frame.current = frame.children.drop mark := by simp [current, after, h]
      simp only [push, withCurrent, h, hcurrent, Option.map_some, Option.some.injEq]
      split
      · next heq =>
          rw [heq, List.take_length, List.drop_length]
          rfl
      · next hne =>
          have hrest : frame.children.drop mark ≠ [] := by
            rw [ne_eq, List.drop_eq_nil_iff]
            omega
          rw [← pushNode_append _ _ hrest, List.take_append_drop]

theorem foldl_push_eq {frame : Frame} (hs : frame.Sound) (nodes : List Node) :
    nodes.foldl push frame = frame.withCurrent (pushNodes frame.current nodes) := by
  induction nodes generalizing frame with
  | nil => exact (withCurrent_current frame).symm
  | cons node nodes ih =>
      rw [List.foldl_cons, push_eq hs, ih (hs.withCurrent _), current_withCurrent _ hs,
        withCurrent_withCurrent _ hs, pushNodes_cons]

/-! ### What becomes of a frame -/

theorem before_of_none {frame : Frame} (h : frame.parting = none) :
    frame.before = frame.children := by
  simp [before, h]

/-- A closed frame as a node, in terms of its branches. -/
theorem toNode_eq {frame : Frame} (hs : frame.Sound) :
    frame.toNode = match frame.opener with
      | .block kind key => .block kind key frame.before frame.after
      | .slot name => .slot name frame.before
      | .call name arguments => .call name arguments (some frame.before) := by
  have hparting : ∀ opener, frame.opener = opener → opener.isBlockOver opener.name = false →
      frame.parting = none := by
    intro opener hopener hblock
    by_contra hsome
    obtain ⟨kind, key, hkind⟩ := hs.isBlock (Option.isSome_iff_ne_none.mpr hsome)
    rw [← hopener, hkind] at hblock
    simp [Opener.isBlockOver, Opener.name] at hblock
  unfold toNode
  cases hopener : frame.opener with
  | block kind key => cases h : frame.parting <;> simp [before, after, h]
  | slot name => simp only [before_of_none (hparting _ hopener rfl)]
  | call name arguments => simp only [before_of_none (hparting _ hopener rfl)]

/-- The children of a flattened frame, in terms of its branches. -/
theorem flatChildren_eq (frame : Frame) :
    frame.flatChildren = frame.before ++ match frame.parting with
      | some (mark, source) => .text source :: frame.children.drop mark
      | none => [] := by
  unfold flatChildren before
  cases frame.parting <;> simp

end Frame

/-! ## Pushing onto the stack -/

namespace Nesting

theorem foldl_push_of_nil {state : Nesting} (h : state.stack = []) (nodes : List Node) :
    nodes.foldl push state = { state with root := pushNodes state.root nodes } := by
  induction nodes generalizing state with
  | nil => rfl
  | cons node nodes ih =>
      have hpush : state.push node = { state with root := pushNode state.root node } := by
        simp [push, h]
      rw [List.foldl_cons, ih (by rw [hpush, h]), hpush]
      rfl

theorem foldl_push_of_cons {state : Nesting} {frame : Frame} {outer : List Frame}
    (h : state.stack = frame :: outer) (nodes : List Node) :
    nodes.foldl push state = { state with stack := nodes.foldl Frame.push frame :: outer } := by
  induction nodes generalizing state frame with
  | nil => rw [List.foldl_nil, List.foldl_nil, ← h]
  | cons node nodes ih =>
      have hpush : state.push node = { state with stack := frame.push node :: outer } := by
        simp [push, h]
      rw [List.foldl_cons, ih (by rw [hpush]), hpush]
      rfl

/-! ## What the tree does not touch -/

/-- What is known of a parent: whether one may be named at all, whether one may still be named, and
the one that was named. -/
def heading (state : Nesting) : Bool × Bool × Option (Located Text) :=
  (state.whole, state.leading, state.parent)

@[simp]
theorem heading_push (state : Nesting) (node : Node) :
    (state.push node).heading = state.heading := by
  unfold push; split <;> rfl

@[simp]
theorem heading_foldl_push (nodes : List Node) (state : Nesting) :
    (nodes.foldl push state).heading = state.heading := by
  induction nodes generalizing state with
  | nil => rfl
  | cons node nodes ih => rw [List.foldl_cons, ih, heading_push]

/-! ## Unwinding -/

theorem unwindTo_of_nil {state : Nesting} (isTarget : Frame → Bool) (h : state.stack = []) :
    state.unwindTo isTarget = state := by
  unfold unwindTo
  split
  · rfl
  · next heq => rw [h] at heq; cases heq

theorem unwindTo_of_cons {state : Nesting} {frame : Frame} {outer : List Frame}
    (isTarget : Frame → Bool) (h : state.stack = frame :: outer) :
    state.unwindTo isTarget
      = if isTarget frame then state else (state.unwind frame outer).unwindTo isTarget := by
  conv_lhs => unfold unwindTo
  split
  · next heq => rw [h] at heq; cases heq
  · next heq => rw [h] at heq; cases heq; rfl

/-- **What holds through an unwinding**: a property that holds still when the innermost frame is
flattened holds of the state to which frames are unwound. -/
theorem unwindTo_induction {motive : Nesting → Prop} (isTarget : Frame → Bool)
    (hunwind : ∀ state frame outer, state.stack = frame :: outer → isTarget frame = false →
      motive state → motive (state.unwind frame outer))
    {state : Nesting} (h : motive state) : motive (state.unwindTo isTarget) := by
  fun_induction unwindTo isTarget state with
  | case1 state hstack => exact h
  | case2 state frame outer hstack htarget => exact h
  | case3 state frame outer hstack htarget ih =>
      exact ih (hunwind state frame outer hstack (by simpa using htarget) h)

/-- With a test that no frame passes, every frame is flattened. -/
theorem stack_unwindTo_none (state : Nesting) : (state.unwindTo fun _ => false).stack = [] := by
  generalize htest : (fun _ : Frame => false) = isTarget
  fun_induction unwindTo isTarget state with
  | case1 state hstack => exact hstack
  | case2 state frame outer hstack htarget => simp [← htest] at htarget
  | case3 state frame outer hstack htarget ih => exact ih

/-- Unwinding stops at the first frame that passes the test, and to that frame nodes were pushed:
those of the frames that were inside it. -/
theorem exists_stack_unwindTo (isTarget : Frame → Bool)
    (hpush : ∀ frame node, isTarget (Frame.push frame node) = isTarget frame) {state : Nesting}
    {inner outer : List Frame} {frame : Frame} (hstack : state.stack = inner ++ frame :: outer)
    (hinner : ∀ other ∈ inner, isTarget other = false) (hframe : isTarget frame = true) :
    ∃ nodes : List Node,
      (state.unwindTo isTarget).stack = nodes.foldl Frame.push frame :: outer := by
  have hfold : ∀ (nodes : List Node) (frame : Frame),
      isTarget (nodes.foldl Frame.push frame) = isTarget frame := by
    intro nodes
    induction nodes with
    | nil => intro frame; rfl
    | cons node nodes ih => intro frame; rw [List.foldl_cons, ih, hpush]
  fun_induction unwindTo isTarget state generalizing inner frame with
  | case1 state hempty => simp [hempty] at hstack
  | case2 state first rest hcons htarget =>
      -- a frame inside the one that stays does not pass, so the innermost one is the one that stays
      cases inner with
      | nil => exact ⟨[], hstack⟩
      | cons other inner =>
          obtain ⟨rfl, -⟩ := List.cons.inj (hcons.symm.trans hstack)
          simp [hinner first List.mem_cons_self] at htarget
  | case3 state first rest hcons htarget ih =>
      cases inner with
      | nil =>
          obtain ⟨rfl, -⟩ := List.cons.inj (hcons.symm.trans hstack)
          exact absurd hframe htarget
      | cons other inner =>
          obtain ⟨rfl, rfl⟩ := List.cons.inj (hcons.symm.trans hstack)
          rw [List.forall_mem_cons] at hinner
          cases inner with
          | nil =>
              have hnext : (state.unwind first (frame :: outer)).stack
                  = [] ++ first.flatten.foldl Frame.push frame :: outer := by
                rw [unwind, @foldl_push_of_cons _ frame outer rfl]
                rfl
              obtain ⟨nodes, hnodes⟩ := ih hnext (by simp) (by rw [hfold, hframe])
              exact ⟨first.flatten ++ nodes, by rw [hnodes, List.foldl_append]⟩
          | cons second inner =>
              have hnext : (state.unwind first (second :: (inner ++ frame :: outer))).stack
                  = (first.flatten.foldl Frame.push second :: inner) ++ frame :: outer := by
                rw [unwind, @foldl_push_of_cons _ second (inner ++ frame :: outer) rfl]
                rfl
              refine ih hnext ?_ hframe
              rw [List.forall_mem_cons] at hinner ⊢
              rw [hfold]
              exact hinner.2

theorem heading_unwind (state : Nesting) (frame : Frame) (outer : List Frame) :
    (state.unwind frame outer).heading = state.heading := by
  rw [unwind, heading_foldl_push]
  rfl

@[simp]
theorem heading_unwindTo (state : Nesting) (isTarget : Frame → Bool) :
    (state.unwindTo isTarget).heading = state.heading := by
  refine @unwindTo_induction (fun other => other.heading = state.heading) isTarget ?_ state rfl
  intro other frame outer _ _ h
  rw [heading_unwind, h]

theorem parent_unwindTo (state : Nesting) (isTarget : Frame → Bool) :
    (state.unwindTo isTarget).parent = state.parent :=
  congrArg (fun heading => heading.2.2) (heading_unwindTo state isTarget)

/-! ## What a `:key` tag and a closer do -/

theorem partable_iff (key : Text) (stack : List Frame) :
    partable key stack = true ↔ ∃ inner frame outer kind, stack = inner ++ frame :: outer ∧
      (∀ other ∈ inner, other.opener.isCall = true) ∧ frame.opener = .block kind key ∧
      frame.parting = none := by
  constructor
  · intro h
    unfold partable at h
    split at h
    · next frame hfind =>
        obtain ⟨-, inner, outer, rfl, hinner⟩ := List.find?_eq_some_iff_append.mp hfind
        simp only [Bool.and_eq_true, Option.isNone_iff_eq_none, Opener.isBlockOver_iff] at h
        obtain ⟨⟨kind, hkind⟩, hparting⟩ := h
        exact ⟨inner, frame, outer, kind, rfl, by simpa using hinner, hkind, hparting⟩
    · cases h
  · rintro ⟨inner, frame, outer, kind, rfl, hinner, hkind, hparting⟩
    have hfind : (inner ++ frame :: outer).find? (fun frame => !frame.opener.isCall) = some frame :=
      List.find?_eq_some_iff_append.mpr
        ⟨by simp [hkind, Opener.isCall], inner, outer, rfl, by simpa using hinner⟩
    simp [partable, hfind, hkind, hparting, Opener.isBlockOver]

theorem partable_foldl_push (key : Text) (nodes : List Node) (state : Nesting) :
    partable key (nodes.foldl push state).stack = partable key state.stack := by
  cases hstack : state.stack with
  | nil => rw [foldl_push_of_nil hstack, hstack]
  | cons frame outer =>
      rw [foldl_push_of_cons hstack]
      cases hcall : frame.opener.isCall <;> simp [partable, hcall]

/-- **What a `:key` tag does**: it is read as literal text, or it parts an open block over its key
that was not parted before, after the calls inside that block were flattened. -/
theorem part_cases (state : Nesting) (key source : Text) (span : Span) :
    (partable key state.stack = false ∧
      state.part key source span = state.literal source (.unmatchedElse key) span) ∨
    ∃ frame outer kind, (state.unwindTo fun frame => !frame.opener.isCall).stack = frame :: outer ∧
      frame.opener = .block kind key ∧ frame.parting = none ∧
      state.part key source span
        = { state.unwindTo fun frame => !frame.opener.isCall with
            stack := { frame with parting := some (frame.children.length, source) } :: outer } := by
  cases h : partable key state.stack with
  | false => exact Or.inl ⟨rfl, by simp [part, h]⟩
  | true =>
      obtain ⟨inner, frame, outer, kind, hstack, hinner, hkind, hparting⟩ := (partable_iff _ _).mp h
      obtain ⟨nodes, hnodes⟩ := exists_stack_unwindTo
        (fun frame => !frame.opener.isCall) (by simp) hstack (by simpa using hinner)
        (by simp [hkind, Opener.isCall])
      refine Or.inr ⟨_, outer, kind, hnodes, by simp [hkind], by simp [hparting], ?_⟩
      simp only [part, h, if_true, hnodes]

/-- **What a closer does**: it is read as literal text if it closes no open frame, or it closes the
innermost frame that it can close, after the frames inside that one were flattened. -/
theorem close_cases (state : Nesting) (name : Option Text) (source : Text) (span : Span) :
    ((∀ frame ∈ state.stack, closes name frame = false) ∧
      state.close name source span = state.literal source (.unmatchedClose name) span) ∨
    ∃ frame outer, (state.unwindTo (closes name)).stack = frame :: outer ∧
      closes name frame = true ∧
      state.close name source span
        = { state.unwindTo (closes name) with stack := outer }.push frame.toNode := by
  cases h : state.stack.any (closes name) with
  | false =>
      refine Or.inl ⟨fun frame hframe => ?_, by simp [close, h]⟩
      rw [List.any_eq_false] at h
      simpa using h frame hframe
  | true =>
      have hpush : ∀ frame node, closes name (Frame.push frame node) = closes name frame := by
        intro frame node
        cases name <;> simp [closes]
      obtain ⟨frame, hfind⟩ := Option.isSome_iff_exists.mp
        (List.find?_isSome.mpr (List.any_eq_true.mp h))
      obtain ⟨hframe, inner, outer, hstack, hinner⟩ := List.find?_eq_some_iff_append.mp hfind
      obtain ⟨nodes, hnodes⟩ := exists_stack_unwindTo (closes name) hpush hstack
        (by simpa using hinner) hframe
      refine Or.inr ⟨_, outer, hnodes, ?_, ?_⟩
      · cases name with
        | none => rfl
        | some name => simpa [closes] using hframe
      · simp only [close, h, if_true, hnodes]

@[simp]
theorem heading_literal (state : Nesting) (source : Text) (defect : Defect) (span : Span) :
    (state.literal source defect span).heading = state.heading :=
  heading_push state _

@[simp]
theorem heading_part (state : Nesting) (key source : Text) (span : Span) :
    (state.part key source span).heading = state.heading := by
  rcases part_cases state key source span with ⟨-, h⟩ | ⟨frame, outer, kind, -, -, -, h⟩
  · rw [h, heading_literal]
  · rw [h]
    exact heading_unwindTo state _

@[simp]
theorem heading_close (state : Nesting) (name : Option Text) (source : Text) (span : Span) :
    (state.close name source span).heading = state.heading := by
  rcases close_cases state name source span with ⟨-, h⟩ | ⟨frame, outer, -, -, h⟩
  · rw [h, heading_literal]
  · rw [h, heading_push]
    exact heading_unwindTo state _

end Nesting

end Stencil
