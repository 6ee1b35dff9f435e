import Stencil.Proofs.Nesting.Stepwise

/-!
# The marks of parted frames

Through every step of a parse each open frame tells its history (`Tells`): only a block is parted,
the mark is a place among its children, and what stands before and behind the mark is what was read
before and after the `:key` tag, adjacent texts joined. What a frame reads after its tag may be
joined to anything but to what stands before the mark, so the mark stays where it was.

A list is therefore never split behind its end, and every step has an answer (`Stage.Sound.step`).
The steps pass through all states of the parse (`Stage.Sound.exists_steps_read`).
-/

set_option autoImplicit false

namespace Stencil

/-! ## Frames that tell their history -/

/-- The two branches of a frame hold what was read before and after its `:key` tag. -/
structure Tells (history : History) (frame : Frame) : Prop where
  sound : frame.Sound
  before_eq : frame.before = merged history.before
  after_eq : frame.after = history.after.map merged

namespace Tells

theorem start (opener : Opener) (source : Text) (span : Span) :
    Tells .start ⟨opener, source, span, [], none⟩ :=
  ⟨Frame.sound_opened opener source span, rfl, rfl⟩

variable {history : History} {frame : Frame}

/-- **What is pushed goes to the branch that is read**, and joins what is at its end. -/
theorem push (h : Tells history frame) (node : Node) :
    Tells (history.push node) (frame.push node) := by
  have hmerged : ∀ nodes, pushNode (merged nodes) node = merged (nodes ++ [node]) := by
    intro nodes
    rw [merged_append]
    rfl
  rw [Frame.push_eq h.sound]
  cases hafter : history.after with
  | none =>
      have hframe : frame.after = none := by rw [h.after_eq, hafter, Option.map_none]
      have hparting : frame.parting = none := Option.map_eq_none_iff.mp hframe
      have hcurrent : frame.current = merged history.before := by
        rw [Frame.current, hframe, Option.getD_none, ← Frame.before_of_none hparting, h.before_eq]
      refine ⟨h.sound.withCurrent _, ?_, ?_⟩
      · rw [Frame.before_withCurrent_of_none _ _ hparting, hcurrent, hmerged, History.push, hafter]
      · rw [Frame.after_withCurrent _ h.sound, hframe, History.push, hafter]
        rfl
  | some after =>
      have hframe : frame.after = some (merged after) := by rw [h.after_eq, hafter, Option.map_some]
      have hparting : frame.parting.isSome = true := by
        have hsame : frame.after.isSome = frame.parting.isSome := Option.isSome_map
        rw [← hsame, hframe, Option.isSome_some]
      have hcurrent : frame.current = merged after := by
        rw [Frame.current, hframe, Option.getD_some]
      refine ⟨h.sound.withCurrent _, ?_, ?_⟩
      · rw [Frame.before_withCurrent_of_some _ h.sound hparting, h.before_eq, History.push, hafter]
      · rw [Frame.after_withCurrent _ h.sound, hframe, hcurrent, hmerged, History.push, hafter]
        rfl

theorem pushAll (h : Tells history frame) (nodes : List Node) :
    Tells (nodes.foldl History.push history) (nodes.foldl Frame.push frame) := by
  induction nodes generalizing history frame with
  | nil => exact h
  | cons node nodes ih => exact ih (h.push node)

/-- A `:key` tag sets the mark behind everything that was read. -/
theorem part (h : Tells history frame) {kind : BlockKind} {key : Text}
    (hblock : frame.opener = .block kind key) (hparting : frame.parting = none) (source : Text) :
    Tells history.part { frame with parting := some (frame.children.length, source) } := by
  refine ⟨Frame.Sound.part hblock source, ?_, ?_⟩
  · show frame.children.take frame.children.length = merged history.before
    rw [List.take_length, ← h.before_eq, Frame.before_of_none hparting]
  · show some (frame.children.drop frame.children.length) = some []
    rw [List.drop_length]

end Tells

namespace Nesting

theorem tells_foldl_push {histories : List History} {state : Nesting}
    (h : List.Forall₂ Tells histories state.stack) (nodes : List Node) :
    List.Forall₂ Tells (histories.modifyHead fun history => nodes.foldl History.push history)
      (nodes.foldl push state).stack := by
  cases hstack : state.stack with
  | nil =>
      rw [hstack, List.forall₂_nil_right_iff] at h
      rw [foldl_push_of_nil hstack, h]
      exact hstack ▸ .nil
  | cons frame outer =>
      rw [hstack] at h
      cases h with
      | cons hframe houter =>
          rw [foldl_push_of_cons hstack]
          exact .cons (hframe.pushAll nodes) houter

/-- Whether a `:key` tag parts a frame is not changed when a call inside that frame is flattened. -/
theorem partable_unwind {state : Nesting} {frame : Frame} {outer : List Frame} {key : Text}
    (hcall : frame.opener.isCall = true) :
    partable key (state.unwind frame outer).stack = partable key (frame :: outer) := by
  have hskip : partable key (frame :: outer) = partable key outer := by
    rw [partable, partable, List.find?_cons_of_neg (by simp [hcall])]
  rw [hskip, unwind, partable_foldl_push]

/-! ## Unwinding, then settling -/

theorem part_eq_settle {state : Nesting} {key source : Text} {span : Span}
    (h : partable key state.stack = true) :
    state.part key source span
      = (state.unwindTo (Pending.part key source).isFor).settle (.part key source) := by
  rw [part, if_pos h]
  rfl

theorem close_eq_settle {state : Nesting} {name : Option Text} {source : Text} {span : Span}
    (h : state.stack.any (closes name) = true) :
    state.close name source span
      = (state.unwindTo (Pending.close name).isFor).settle (.close name) := by
  rw [close, if_pos h]
  rfl

/-- Unwinding leaves a frame that passes the test, or none. -/
theorem isTarget_of_stack_unwindTo {isTarget : Frame → Bool} {state : Nesting} {frame : Frame}
    {outer : List Frame} (h : (state.unwindTo isTarget).stack = frame :: outer) :
    isTarget frame = true := by
  fun_induction unwindTo isTarget state with
  | case1 state hstack => rw [hstack] at h; cases h
  | case2 state first rest hstack htarget => rw [hstack] at h; cases h; exact htarget
  | case3 state first rest hstack htarget ih => exact ih h

/-! ## Sound stages -/

namespace Stage

variable {source : Text}

/-- The state once the tag that waits is read. -/
def target (stage : Stage) : Nesting :=
  match stage.pending with
  | none => stage.state
  | some pending =>
    { (stage.state.unwindTo pending.isFor).settle pending with leading := false }

/-- A stage that a parse passes through: the open frames tell their histories, a `:key` tag that
waits has a frame to part, and the pieces that are not read yet stand in the source. -/
structure Sound (source : Text) (stage : Stage) : Prop where
  tells : List.Forall₂ Tells stage.histories stage.state.stack
  partable : ∀ key text, stage.pending = some (.part key text) →
    Nesting.partable key stage.state.stack = true
  stands : ∀ piece ∈ stage.rest, StandsAt source piece.span piece.item.source

namespace Sound

variable {stage : Stage}

theorem tagRead (htells : List.Forall₂ Tells stage.histories stage.state.stack)
    (hstands : ∀ piece ∈ stage.rest, StandsAt source piece.span piece.item.source) :
    stage.tagRead.Sound source :=
  ⟨htells, nofun, hstands⟩

theorem innermost (hs : stage.Sound source) {frame : Frame} {outer : List Frame}
    (hstack : stage.state.stack = frame :: outer) :
    ∃ history, stage.histories = history :: stage.histories.tail ∧ Tells history frame ∧
      List.Forall₂ Tells stage.histories.tail outer := by
  obtain ⟨history, histories, hframe, houter, hhistories⟩ :=
    List.forall₂_cons_right_iff.mp (hstack ▸ hs.tells)
  rw [hhistories]
  exact ⟨history, rfl, hframe, houter⟩

/-- The frames inside the one a tag is about are flattened one by one. -/
theorem unwind (hs : stage.Sound source) {frame : Frame} {outer : List Frame}
    (hstack : stage.state.stack = frame :: outer)
    (hpending : ∀ pending ∈ stage.pending, pending.isFor frame = false) :
    ∃ next, stage.unwind frame outer = some next ∧ next.Sound source ∧
      next.pending = stage.pending ∧ next.rest = stage.rest ∧
      next.state = stage.state.unwind frame outer := by
  obtain ⟨history, -, hframe, houter⟩ := hs.innermost hstack
  have hflat : frame.flatten? = some frame.flatten := Frame.flatten?_eq hframe.sound
  refine ⟨_, Option.map_eq_some_iff.mpr ⟨_, hflat, rfl⟩, ⟨?_, ?_, hs.stands⟩, rfl, rfl, rfl⟩
  · -- the frame outside gets nodes, and its history gets the same ones
    refine tells_foldl_push ?_ frame.flatten
    exact houter
  · -- only calls are flattened for a `:key` tag, and it looks through these anyway
    intro key text hpart
    have hcall : frame.opener.isCall = true := by
      simpa [Pending.isFor] using hpending _ hpart
    have hpartable := hs.partable key text hpart
    rw [hstack] at hpartable
    exact (partable_unwind hcall).trans hpartable

/-- A tag that waits is read once its frame is the innermost one. -/
theorem finish (hs : stage.Sound source) {pending : Pending} {frame : Frame} {outer : List Frame}
    (hpending : stage.pending = some pending) (hstack : stage.state.stack = frame :: outer)
    (hfor : pending.isFor frame = true) :
    ∃ next, stage.finish pending frame outer = some next ∧ next.Sound source ∧
      next.pending = none ∧ next.rest = stage.rest ∧
      next.state = { stage.state.settle pending with leading := false } := by
  obtain ⟨history, hhistories, hframe, houter⟩ := hs.innermost hstack
  cases pending with
  | part key text =>
      have hfind : (frame :: outer).find? (fun frame => !frame.opener.isCall) = some frame :=
        List.find?_cons_of_pos hfor
      have hpart := hs.partable key text hpending
      simp only [Nesting.partable, hstack, hfind, Bool.and_eq_true, Option.isNone_iff_eq_none,
        Opener.isBlockOver_iff] at hpart
      obtain ⟨⟨kind, hkind⟩, hparting⟩ := hpart
      refine ⟨_, rfl, tagRead ?_ hs.stands, rfl, rfl, ?_⟩
      · show List.Forall₂ Tells (stage.histories.modifyHead History.part) _
        rw [hhistories]
        exact .cons (hframe.part hkind hparting text) houter
      · simp only [settle, hstack]
        rfl
  | close name =>
      have hnode : frame.toNode? = some frame.toNode := Frame.toNode?_eq hframe.sound
      refine ⟨_, Option.map_eq_some_iff.mpr ⟨_, hnode, rfl⟩, tagRead ?_ hs.stands, rfl, rfl, ?_⟩
      · refine tells_foldl_push ?_ [frame.toNode]
        exact houter
      · simp only [settle, hstack]
        rfl

theorem literal (hs : stage.Sound source) (text : Text) (defect : Defect) (span : Span) :
    (stage.literal text defect span).tagRead.Sound source :=
  tagRead (tells_foldl_push hs.tells [.text text]) hs.stands

theorem opened (hs : stage.Sound source) (opener : Opener) (text : Text) (span : Span) :
    (stage.opened opener text span).tagRead.Sound source :=
  tagRead (.cons (Tells.start opener text span) hs.tells) hs.stands

theorem readTag (hs : stage.Sound source) (tag : Tag) (text : Text) (span : Span) :
    (stage.readTag tag text span).Sound source ∧
      (stage.readTag tag text span).rest = stage.rest ∧
      (stage.readTag tag text span).target
        = { stage.state.readTag tag text span with leading := false } := by
  cases tag with
  | value escape key => exact ⟨tagRead (tells_foldl_push hs.tells _) hs.stands, rfl, rfl⟩
  | inclusion name => exact ⟨tagRead (tells_foldl_push hs.tells _) hs.stands, rfl, rfl⟩
  | opener kind key => exact ⟨hs.opened _ text span, rfl, rfl⟩
  | slot name => exact ⟨hs.opened _ text span, rfl, rfl⟩
  | call name arguments => exact ⟨hs.opened _ text span, rfl, rfl⟩
  | parent name =>
      simp only [Stage.readTag, Nesting.readTag]
      split
      · exact ⟨tagRead hs.tells hs.stands, rfl, rfl⟩
      · split
        · exact ⟨hs.literal text _ span, rfl, rfl⟩
        · exact ⟨tagRead (tells_foldl_push hs.tells _) hs.stands, rfl, rfl⟩
  | otherwise key =>
      cases hpart : Nesting.partable key stage.state.stack with
      | false =>
          simp only [Stage.readTag, Nesting.readTag, Nesting.part, hpart]
          exact ⟨hs.literal text _ span, rfl, rfl⟩
      | true =>
          simp only [Nesting.readTag, part_eq_settle hpart]
          simp only [Stage.readTag, hpart, if_true]
          refine ⟨⟨hs.tells, ?_, hs.stands⟩, trivial, rfl⟩
          intro other source hother
          cases hother
          exact hpart
  | closer name =>
      cases hclose : stage.state.stack.any (closes name) with
      | false =>
          simp only [Stage.readTag, Nesting.readTag, Nesting.close, hclose]
          exact ⟨hs.literal text _ span, rfl, rfl⟩
      | true =>
          simp only [Nesting.readTag, close_eq_settle hclose]
          simp only [Stage.readTag, hclose, if_true]
          refine ⟨⟨hs.tells, ?_, hs.stands⟩, trivial, rfl⟩
          intro key text hpart
          cases hpart

/-- **A piece is read**: the scan says where its text stands, so it can be cut out of the
source. -/
theorem read (hs : stage.Sound source) (hpending : stage.pending = none)
    {piece : Located Segment} (hpiece : StandsAt source piece.span piece.item.source) :
    ∃ next, stage.read source piece = some next ∧ next.Sound source ∧
      next.rest = stage.rest ∧ next.target = stage.state.read piece := by
  obtain ⟨item, span⟩ := piece
  have htext : slice? source span = some item.source := slice?_eq_some_iff.mpr hpiece
  cases item with
  | text content =>
      have hread : stage.read source ⟨.text content, span⟩ = some (stage.readText content) := by
        simp [Stage.read, htext, Segment.source]
      have hnone : (stage.readText content).pending = none := hpending
      have htells := @tells_foldl_push stage.histories
        { stage.state with leading := stage.state.leading && isBlankText content } hs.tells
        [.text content]
      refine ⟨_, hread, ⟨htells, ?_, hs.stands⟩, rfl, ?_⟩
      · intro key text hpart
        rw [hnone] at hpart
        cases hpart
      · rw [target, hnone]
        rfl
  | tag inner =>
      have hinner : slice? source span.inner = some inner := slice?_eq_some_iff.mpr hpiece.inner
      cases hparse : Tag.parse inner with
      | ok tag =>
          have hread : stage.read source ⟨.tag inner, span⟩
              = some (stage.readTag tag (Segment.tag inner).source span) := by
            simp [Stage.read, htext, hinner, hparse]
          obtain ⟨hsound, hrest, htarget⟩ := hs.readTag tag (Segment.tag inner).source span
          refine ⟨_, hread, hsound, hrest, ?_⟩
          simp only [htarget, Nesting.read, hparse]
      | error cause =>
          have hread : stage.read source ⟨.tag inner, span⟩
              = some
                  (stage.literal (Segment.tag inner).source (.malformed cause) span).tagRead := by
            simp [Stage.read, htext, hinner, hparse]
          refine ⟨_, hread, hs.literal _ _ span, rfl, ?_⟩
          simp only [Nesting.read, hparse]
          rfl

/-- The next piece is read. -/
theorem read_cons (hs : stage.Sound source) (hpending : stage.pending = none)
    {piece : Located Segment} {more : List (Located Segment)} (hrest : stage.rest = piece :: more) :
    ∃ next, stage.step source = some next ∧ next.Sound source ∧ next.rest = more ∧
      next.target = stage.state.read piece := by
  have hstands := hs.stands
  rw [hrest, List.forall_mem_cons] at hstands
  have hmore : Sound source { stage with rest := more } := ⟨hs.tells, hs.partable, hstands.2⟩
  obtain ⟨next, hnext, hsound, hnextRest, htarget⟩ := hmore.read hpending hstands.1
  exact ⟨next, by rw [step_of_rest hpending hrest, hnext], hsound, hnextRest, htarget⟩

/-- **Every step has an answer**, and leads to a sound stage again. -/
theorem step (hs : stage.Sound source) :
    ∃ next, stage.step source = some next ∧ next.Sound source := by
  cases hpending : stage.pending with
  | some pending =>
      cases hstack : stage.state.stack with
      | nil =>
          exact ⟨_, step_of_pending_of_nil hpending hstack, tagRead hs.tells hs.stands⟩
      | cons frame outer =>
          rw [step_of_pending hpending hstack]
          cases hfor : pending.isFor frame with
          | false =>
              have hother : ∀ other ∈ stage.pending, other.isFor frame = false := by
                simpa [hpending] using hfor
              obtain ⟨next, hnext, hsound, -⟩ := hs.unwind hstack hother
              exact ⟨next, hnext, hsound⟩
          | true =>
              obtain ⟨next, hnext, hsound, -⟩ := hs.finish hpending hstack hfor
              exact ⟨next, hnext, hsound⟩
  | none =>
      cases hrest : stage.rest with
      | cons piece more =>
          obtain ⟨next, hnext, hsound, -⟩ := hs.read_cons hpending hrest
          exact ⟨next, hnext, hsound⟩
      | nil =>
          cases hstack : stage.state.stack with
          | nil => exact ⟨stage, step_of_done hpending hrest hstack, hs⟩
          | cons frame outer =>
              have hother : ∀ other ∈ stage.pending, other.isFor frame = false := by
                simp [hpending]
              obtain ⟨next, hnext, hsound, -⟩ := hs.unwind hstack hother
              exact ⟨next, by rw [step_of_open hpending hrest hstack, hnext], hsound⟩

/-- So do any number of steps. -/
theorem steps (hs : stage.Sound source) (n : Nat) :
    ∃ next, stage.steps source n = some next ∧ next.Sound source := by
  induction n generalizing stage with
  | zero => exact ⟨stage, rfl, hs⟩
  | succ n ih =>
      obtain ⟨between, hbetween, hsound⟩ := hs.step
      obtain ⟨next, hnext, hlast⟩ := ih hsound
      exact ⟨next, by rw [Stage.steps, hbetween, Option.bind_some, hnext], hlast⟩

end Sound

/-! ## The states of a parse -/

theorem steps_trans {first second third : Stage} {m n : Nat}
    (h : first.steps source m = some second) (h' : second.steps source n = some third) :
    first.steps source (m + n) = some third := by
  induction m generalizing first with
  | zero =>
      cases h
      rw [Nat.zero_add, h']
  | succ m ih =>
      obtain ⟨next, hnext, hrest⟩ := Option.bind_eq_some_iff.mp h
      rw [Nat.succ_add, steps, hnext]
      exact ih hrest

theorem steps_one {first second : Stage} (h : first.step source = some second) :
    first.steps source 1 = some second := by
  rw [steps, h]
  rfl

/-- Steps with this tag waiting, or none, and these pieces left flatten every frame that does not
pass the test. -/
def Flattens (source : Text) (isTarget : Frame → Bool) (pending : Option Pending)
    (rest : List (Located Segment)) : Prop :=
  ∀ stage : Stage, stage.pending = pending → stage.rest = rest → ∀ frame outer,
    stage.state.stack = frame :: outer → isTarget frame = false →
      stage.step source = stage.unwind frame outer ∧ ∀ tag ∈ pending, tag.isFor frame = false

theorem flattens_pending (pending : Pending) (rest : List (Located Segment)) :
    Flattens source pending.isFor (some pending) rest := by
  intro stage hpending _ frame outer hstack hfor
  refine ⟨?_, by simpa using hfor⟩
  rw [step_of_pending hpending hstack, hfor]
  rfl

theorem flattens_end : Flattens source (fun _ => false) none [] :=
  fun _ hpending hrest _ _ hstack _ => ⟨step_of_open hpending hrest hstack, by simp⟩

/-- Steps that flatten frames come to the state to which the frames are unwound. -/
theorem Sound.exists_steps_unwindTo {stage : Stage} (hs : stage.Sound source)
    {isTarget : Frame → Bool} (hflat : Flattens source isTarget stage.pending stage.rest) :
    ∃ n next, stage.steps source n = some next ∧ next.Sound source ∧
      next.pending = stage.pending ∧ next.rest = stage.rest ∧
      next.state = stage.state.unwindTo isTarget := by
  generalize hstate : stage.state = state
  -- one step for each frame that the recursion of `unwindTo` flattens
  fun_induction unwindTo isTarget state generalizing stage with
  | case1 state hstack => exact ⟨0, stage, rfl, hs, rfl, rfl, hstate⟩
  | case2 state frame outer hstack htarget => exact ⟨0, stage, rfl, hs, rfl, rfl, hstate⟩
  | case3 state frame outer hstack htarget ih =>
      subst hstate
      obtain ⟨hstep, hother⟩ := hflat stage rfl rfl frame outer hstack (by simpa using htarget)
      obtain ⟨next, hnext, hsound, hpending, hrest, hnextState⟩ := hs.unwind hstack hother
      rw [← hpending, ← hrest] at hflat ⊢
      obtain ⟨n, last, hlast, hlastSound, hlastPending, hlastRest, hlastState⟩ :=
        ih hsound hflat hnextState
      have hfirst : stage.steps source 1 = some next := steps_one (hstep.trans hnext)
      exact ⟨1 + n, last, steps_trans hfirst hlast, hlastSound, hlastPending, hlastRest, hlastState⟩

/-- A tag that waits is read after a number of steps. -/
theorem Sound.exists_steps_target {stage : Stage} (hs : stage.Sound source) :
    ∃ n next, stage.steps source n = some next ∧ next.Sound source ∧ next.pending = none ∧
      next.rest = stage.rest ∧ next.state = stage.target := by
  cases hpending : stage.pending with
  | none => exact ⟨0, stage, rfl, hs, hpending, rfl, by rw [target, hpending]⟩
  | some pending =>
      obtain ⟨n, next, hnext, hsound, hnextPending, hnextRest, hnextState⟩ :=
        hs.exists_steps_unwindTo (hpending ▸ flattens_pending pending stage.rest)
      rw [hpending] at hnextPending
      have htarget : stage.target = { next.state.settle pending with leading := false } := by
        rw [target, hpending, hnextState]
      cases hstack : next.state.stack with
      | nil =>
          have hsettle : next.state.settle pending = next.state := by rw [settle, hstack]
          refine ⟨n + 1, next.tagRead, steps_trans hnext (steps_one ?_),
            tagRead hsound.tells hsound.stands, rfl, hnextRest, ?_⟩
          · exact step_of_pending_of_nil hnextPending hstack
          · rw [htarget, hsettle]
            rfl
      | cons frame outer =>
          have hfor : pending.isFor frame = true :=
            isTarget_of_stack_unwindTo (hnextState ▸ hstack)
          obtain ⟨last, hlast, hlastSound, hlastPending, hlastRest, hlastState⟩ :=
            hsound.finish hnextPending hstack hfor
          refine ⟨n + 1, last, steps_trans hnext (steps_one ?_), hlastSound, hlastPending,
            hlastRest.trans hnextRest, hlastState.trans htarget.symm⟩
          rw [step_of_pending hnextPending hstack, if_pos hfor, hlast]

/-- **The steps pass through the states between two pieces.** -/
theorem Sound.exists_steps_read {stage : Stage} (hs : stage.Sound source)
    (hpending : stage.pending = none) (k : Nat) :
    ∃ n next, stage.steps source n = some next ∧ next.Sound source ∧ next.pending = none ∧
      next.rest = stage.rest.drop k ∧
      next.state = (stage.rest.take k).foldl Nesting.read stage.state := by
  induction k generalizing stage with
  | zero => exact ⟨0, stage, rfl, hs, hpending, rfl, rfl⟩
  | succ k ih =>
      cases hrest : stage.rest with
      | nil => exact ⟨0, stage, rfl, hs, hpending, hrest, rfl⟩
      | cons piece more =>
          obtain ⟨first, hfirst, hfirstSound, hfirstRest, hfirstTarget⟩ :=
            hs.read_cons hpending hrest
          obtain ⟨m, second, hsecond, hsecondSound, hsecondPending, hsecondRest, hsecondState⟩ :=
            hfirstSound.exists_steps_target
          obtain ⟨n, last, hlast, hlastSound, hlastPending, hlastRest, hlastState⟩ :=
            ih hsecondSound hsecondPending
          refine ⟨1 + m + n, last, steps_trans (steps_trans (steps_one hfirst) hsecond) hlast,
            hlastSound, hlastPending, ?_, ?_⟩
          · rw [hlastRest, hsecondRest, hfirstRest, List.drop_succ_cons]
          · rw [hlastState, hsecondRest, hsecondState, hfirstRest, hfirstTarget,
              List.take_succ_cons, List.foldl_cons]

end Stage

theorem sound_start (whole : Bool) (source : Text) :
    Stage.Sound source ⟨.start whole, [], none, scan source⟩ := by
  refine ⟨.nil, nofun, ?_⟩
  exact @standsAt_located source (segments source) [] (flatMap_source_segments source).symm

/-- A parse after so many steps: the scan has an answer, so the first step has its pieces. -/
theorem stageAfter_eq (whole : Bool) (source : Text) (n : Nat) :
    stageAfter whole source n
      = Stage.steps source n ⟨.start whole, [], none, scan source⟩ := by
  rw [stageAfter, scan?_eq]
  rfl

/-- **The marks of parted frames are always valid.** In a parse by steps, each of which reads one
piece or flattens one frame, every step has an answer: no list is split behind its end, and the
source is cut only between characters. After each step every open frame tells its history. The steps
pass through the states after each of the pieces, and come to rest in the state of the parse. -/
theorem forall_stageAfter_tells (whole : Bool) (source : Text) :
    (∀ n, ∃ stage, stageAfter whole source n = some stage ∧
      List.Forall₂ Tells stage.histories stage.state.stack) ∧
    (∀ k, ∃ n stage, stageAfter whole source n = some stage ∧ stage.pending = none ∧
      stage.rest = (scan source).drop k ∧
      stage.state = ((scan source).take k).foldl read (start whole)) ∧
    ∃ n stage, stageAfter whole source n = some stage ∧ stage.step source = some stage ∧
      stage.pending = none ∧ stage.rest = [] ∧ stage.state = readAll whole source := by
  have hstart := sound_start whole source
  simp only [stageAfter_eq]
  refine ⟨fun n => ?_, fun k => ?_, ?_⟩
  · obtain ⟨stage, hstage, hsound⟩ := hstart.steps n
    exact ⟨stage, hstage, hsound.tells⟩
  · obtain ⟨n, stage, hstage, -, hpending, hrest, hstate⟩ := hstart.exists_steps_read rfl k
    exact ⟨n, stage, hstage, hpending, hrest, hstate⟩
  · obtain ⟨m, stage, hstage, hsound, hpending, hrest, hstate⟩ :=
      hstart.exists_steps_read rfl (scan source).length
    rw [List.drop_length] at hrest
    rw [List.take_length] at hstate
    have hflat : Stage.Flattens source (fun _ => false) stage.pending stage.rest := by
      rw [hpending, hrest]
      exact Stage.flattens_end
    obtain ⟨n, last, hlast, -, hlastPending, hlastRest, hlastState⟩ :=
      hsound.exists_steps_unwindTo hflat
    have hempty : last.state.stack = [] := by rw [hlastState, stack_unwindTo_none]
    refine ⟨m + n, last, Stage.steps_trans hstage hlast, ?_, hlastPending.trans hpending,
      hlastRest.trans hrest, ?_⟩
    · exact Stage.step_of_done (hlastPending.trans hpending) (hlastRest.trans hrest) hempty
    · rw [hlastState, hstate]
      rfl

/-- What follows a `:key` tag stays apart from what stands before it, also where both are texts. -/
example :
    (stageAfter true "{{a}}x{{:a}}y".toList 5).map (fun stage =>
      stage.state.stack.map fun frame => (frame.parting.map Prod.fst, frame.children.length))
      = some [(some 1, 2)] := by
  decide +kernel

end Nesting

end Stencil
