import Stencil.Proofs.Nesting.Events

/-!
# What becomes of each tag

A parse keeps account of every piece it reads. An `Account` is a piece with the state in which it
was read and with its fate: the events it gives to the tree, or that it stays literal, reported or
not. Fates are those the pieces have if the source ends here: the tag of an open block is reported
as never closed, and the `:key` tag of an open block is literal and not reported. A later closer
changes these two fates and no other, and flattening a frame changes none.

So the accounts of a source say what its tree is and what its warnings are, at once
(`exists_accounts`). Pieces and states are those of the run (`visits`), in order.
-/

set_option autoImplicit false

namespace Stencil

/-! ## Accounts -/

/-- What becomes of a piece. -/
inductive Fate where
  /-- It gives events to the tree: a text its characters, a tag the event it stands for, and the tag
  that names the parent none. -/
  | given (events : List Event)
  /-- The tag stays literal, and is reported. -/
  | reported (defect : Defect)
  /-- The `:key` tag of a block that is never closed stays literal, and is not reported. -/
  | silent (key : Text)

/-- A piece, the state in which it was read, and what becomes of it. -/
structure Account where
  state : Nesting
  piece : Located Segment
  fate : Fate

namespace Account

/-- The events that the piece gives. -/
def events (account : Account) : List Event :=
  match account.fate with
  | .given events => events
  | .reported _ | .silent _ => account.piece.item.source.map .char

/-- The warning about the piece. -/
def warning? (account : Account) : Option Warning :=
  match account.fate with
  | .reported defect => some ⟨defect, account.piece.span⟩
  | .given _ | .silent _ => none

/-- The piece with the state in which it was read. -/
def visit (account : Account) : Nesting × Located Segment := (account.state, account.piece)

end Account

/-- The warnings about the pieces, in order. -/
def warningsOf (accounts : List Account) : List Warning :=
  accounts.flatMap fun account => account.warning?.toList

@[simp]
theorem warningsOf_nil : warningsOf [] = [] := rfl

@[simp]
theorem warningsOf_cons (account : Account) (accounts : List Account) :
    warningsOf (account :: accounts) = account.warning?.toList ++ warningsOf accounts :=
  List.flatMap_cons

@[simp]
theorem warningsOf_append (accounts more : List Account) :
    warningsOf (accounts ++ more) = warningsOf accounts ++ warningsOf more :=
  List.flatMap_append

/-- The defect that a tag is reported for when it stays literal. -/
def Tag.defect? : Tag → Option Defect
  | .opener _ key => some (.unclosed key)
  | .slot name => some (.unclosed name)
  | .otherwise key => some (.unmatchedElse key)
  | .closer name => some (.unmatchedClose name)
  | .parent name => some (.misplacedParent name)
  | .value _ _ | .inclusion _ | .call _ _ => none

/-- The defect that a tag with this inside is reported for when it stays literal; a tag that is no
tag always does. -/
def defectOf? (inner : Text) : Option Defect :=
  match Tag.parse inner with
  | .ok tag => tag.defect?
  | .error rejection => some (.malformed rejection)

/-- A fate that a piece can have when it is read in the state. -/
inductive Fate.Allowed (state : Nesting) : Segment → Fate → Prop
  | text (content : Text) : Allowed state (.text content) (.given (content.map .char))
  | parent {inner name : Text} (hparse : Tag.parse inner = .ok (.parent name))
      (hplace : (state.whole && state.leading) = true) : Allowed state (.tag inner) (.given [])
  | consumed {inner : Text} {tag : Tag} {event : Event} (hparse : Tag.parse inner = .ok tag)
      (hevent : tag.Says event) : Allowed state (.tag inner) (.given [event])
  | reported {inner : Text} {defect : Defect} (hdefect : defectOf? inner = some defect)
      (hplace : ∀ name, defect = .misplacedParent name → (state.whole && state.leading) = false)
      (hpart : ∀ key, defect = .unmatchedElse key → Nesting.partable key state.stack = false) :
      Allowed state (.tag inner) (.reported defect)
  | silent {inner key : Text} (hparse : Tag.parse inner = .ok (.otherwise key))
      (hpart : Nesting.partable key state.stack = true) : Allowed state (.tag inner) (.silent key)

/-- The accounts say what these events are. A block whose `:key` tag is literal and not reported is
itself reported as never closed. -/
structure AccountFor (accounts : List Account) (given : List Event) : Prop where
  events_eq : given = accounts.flatMap Account.events
  allowed : ∀ account ∈ accounts, account.fate.Allowed account.state account.piece.item
  answered : ∀ account ∈ accounts, ∀ key, account.fate = .silent key →
    ∃ opening ∈ accounts, opening.fate = .reported (.unclosed key)

namespace AccountFor

variable {accounts more : List Account} {given others : List Event}

theorem nil : AccountFor [] [] := ⟨rfl, by simp, by simp⟩

theorem append (h : AccountFor accounts given) (hmore : AccountFor more others) :
    AccountFor (accounts ++ more) (given ++ others) := by
  refine ⟨?_, List.forall_mem_append.mpr ⟨h.allowed, hmore.allowed⟩, ?_⟩
  · rw [List.flatMap_append, ← h.events_eq, ← hmore.events_eq]
  · intro account haccount key hfate
    rcases List.mem_append.mp haccount with hmem | hmem
    · obtain ⟨opening, hopening, heq⟩ := h.answered account hmem key hfate
      exact ⟨opening, List.mem_append_left _ hopening, heq⟩
    · obtain ⟨opening, hopening, heq⟩ := hmore.answered account hmem key hfate
      exact ⟨opening, List.mem_append_right _ hopening, heq⟩

theorem single {account : Account}
    (hallowed : account.fate.Allowed account.state account.piece.item)
    (hfate : ∀ key, account.fate ≠ .silent key) : AccountFor [account] account.events := by
  refine ⟨(List.flatMap_singleton _ _).symm, by simpa using hallowed, ?_⟩
  intro other hother key hsilent
  obtain rfl := List.mem_singleton.mp hother
  exact absurd hsilent (hfate key)

/-- The account of a piece that gives its events for good. -/
theorem of_given {state : Nesting} {piece : Located Segment} {events : List Event}
    (h : (Fate.given events).Allowed state piece.item) :
    AccountFor [⟨state, piece, .given events⟩] events :=
  single h (by simp)

end AccountFor

/-! ## Accounts of the open frames -/

/-- What becomes of the tag of an opener, if the directive is never closed. -/
def Opener.unclosedFate : Opener → Fate
  | .call name arguments => .given [.opening (.call name arguments)]
  | .block _ key => .reported (.unclosed key)
  | .slot name => .reported (.unclosed name)

/-- The account of the tag that opened the frame. -/
structure OpenedWith (frame : Frame) (opening : Account) : Prop where
  source : opening.piece.item.source = frame.source
  span : opening.piece.span = frame.span
  fate : opening.fate = frame.opener.unclosedFate
  tag : ∃ inner tag, opening.piece.item = .tag inner ∧ Tag.parse inner = .ok tag ∧
    tag.Says (.opening frame.opener)

/-- The account of the `:key` tag that parted the frame. -/
structure PartedWith (key source : Text) (parting : Account) : Prop where
  source : parting.piece.item.source = source
  fate : parting.fate = .silent key
  tag : ∃ inner, parting.piece.item = .tag inner ∧ Tag.parse inner = .ok (.otherwise key)
  part : Nesting.partable key parting.state.stack = true

/-- The accounts of what was read for a frame, should it never be closed: the tag that opened it,
what stands inside, and after a `:key` tag what stands after that. -/
inductive FrameAccounts (frame : Frame) : List Account → Prop
  | unparted {opening : Account} {before : List Account} (hopening : OpenedWith frame opening)
      (hparting : frame.parting = none) (hbefore : AccountFor before (events frame.before)) :
      FrameAccounts frame (opening :: before)
  | parted {opening parting : Account} {before after : List Account} {mark : Nat} {source : Text}
      {nodes : List Node} (hopening : OpenedWith frame opening)
      (hparting : frame.parting = some (mark, source))
      (htag : PartedWith frame.opener.name source parting)
      (hbefore : AccountFor before (events frame.before)) (hafter : frame.after = some nodes)
      (hnodes : AccountFor after (events nodes)) :
      FrameAccounts frame (opening :: (before ++ parting :: after))

/-- The accounts of what was read so far, first outside of every open frame and then in each of
them. -/
inductive StackAccounts (root : List Node) : List Frame → List Account → Prop
  | root {accounts : List Account} (h : AccountFor accounts (events root)) :
      StackAccounts root [] accounts
  | frame {accounts inside : List Account} {frame : Frame} {outer : List Frame}
      (houter : StackAccounts root outer accounts) (hsound : frame.Sound)
      (hframe : FrameAccounts frame inside) :
      StackAccounts root (frame :: outer) (accounts ++ inside)

/-! ### One frame -/

namespace OpenedWith

variable {frame : Frame} {opening : Account}

theorem allowed (h : OpenedWith frame opening) :
    opening.fate.Allowed opening.state opening.piece.item := by
  obtain ⟨inner, tag, hitem, hparse, hevent⟩ := h.tag
  rw [h.fate, hitem]
  cases hopener : frame.opener with
  | call name arguments => exact .consumed hparse (hopener ▸ hevent)
  | block kind key =>
      rw [hopener] at hevent
      cases hevent
      exact .reported (by simp [defectOf?, hparse, Tag.defect?]) (by simp) (by simp)
  | slot name =>
      rw [hopener] at hevent
      cases hevent
      exact .reported (by simp [defectOf?, hparse, Tag.defect?]) (by simp) (by simp)

theorem fate_ne_silent (h : OpenedWith frame opening) (key : Text) :
    opening.fate ≠ .silent key := by
  rw [h.fate]
  cases frame.opener <;> simp [Opener.unclosedFate]

/-- The tag of a frame gives the first event of the frame, once that is closed. -/
theorem consumed (h : OpenedWith frame opening) :
    (Fate.given [.opening frame.opener]).Allowed opening.state opening.piece.item := by
  obtain ⟨inner, tag, hitem, hparse, hevent⟩ := h.tag
  rw [hitem]
  exact .consumed hparse hevent

/-- A frame that is flattened begins with what its tag gives. -/
theorem events_flatten (h : OpenedWith frame opening) :
    events frame.flatten = opening.events ++ events frame.flatChildren := by
  cases hopener : frame.opener with
  | call name arguments =>
      simp [Frame.flatten, Account.events, h.fate, hopener, Opener.unclosedFate, events, eventsOf,
        eventsClosed]
  | block kind key =>
      simp [Frame.flatten, Account.events, h.fate, h.source, hopener, Opener.unclosedFate, events,
        eventsOf]
  | slot name =>
      simp [Frame.flatten, Account.events, h.fate, h.source, hopener, Opener.unclosedFate, events,
        eventsOf]

/-- The frame is reported as never closed if its tag is. -/
theorem toList_warning? (h : OpenedWith frame opening) :
    opening.warning?.toList = frame.unclosed := by
  cases hopener : frame.opener <;>
    simp [Account.warning?, Frame.unclosed, h.fate, h.span, hopener, Opener.unclosedFate,
      Opener.name]

end OpenedWith

namespace PartedWith

variable {key source : Text} {parting : Account}

theorem allowed (h : PartedWith key source parting) :
    parting.fate.Allowed parting.state parting.piece.item := by
  obtain ⟨inner, hitem, hparse⟩ := h.tag
  rw [h.fate, hitem]
  exact .silent hparse h.part

theorem consumed (h : PartedWith key source parting) :
    (Fate.given [.otherwise key]).Allowed parting.state parting.piece.item := by
  obtain ⟨inner, hitem, hparse⟩ := h.tag
  rw [hitem]
  exact .consumed hparse (.otherwise key)

theorem events (h : PartedWith key source parting) : parting.events = source.map .char := by
  simp [Account.events, h.fate, h.source]

end PartedWith

namespace FrameAccounts

variable {frame : Frame} {inside more : List Account}

/-- What is read in a frame joins its accounts. -/
theorem foldl_push (h : FrameAccounts frame inside) (hsound : frame.Sound) {nodes : List Node}
    (hnodes : AccountFor more (events nodes)) :
    FrameAccounts (nodes.foldl Frame.push frame) (inside ++ more) := by
  rw [Frame.foldl_push_eq hsound]
  have hopened : ∀ {opening}, OpenedWith frame opening →
      OpenedWith (frame.withCurrent (pushNodes frame.current nodes)) opening :=
    fun hopening => ⟨hopening.source, hopening.span, hopening.fate, hopening.tag⟩
  cases h with
  | unparted hopening hparting hbefore =>
      have hcurrent : frame.current = frame.before := by
        simp [Frame.current, Frame.after, Frame.before, hparting]
      refine .unparted (hopened hopening) hparting ?_
      rw [Frame.before_withCurrent_of_none _ _ hparting, hcurrent, events_pushNodes]
      exact hbefore.append hnodes
  | @parted _ _ _ _ _ _ after hopening hparting htag hbefore hafter hrest =>
      have hcurrent : frame.current = after := by simp [Frame.current, hafter]
      have hafter' : (frame.withCurrent (pushNodes frame.current nodes)).after
          = some (pushNodes after nodes) := by
        rw [Frame.after_withCurrent _ hsound, hafter, hcurrent]
        rfl
      rw [List.cons_append, List.append_assoc, List.cons_append]
      refine .parted (hopened hopening) hparting htag ?_ hafter' ?_
      · rw [Frame.before_withCurrent_of_some _ hsound (by rw [hparting]; rfl)]
        exact hbefore
      · rw [events_pushNodes]
        exact hrest.append hnodes

/-- **A frame that is flattened** gives what its accounts say. -/
theorem flatten (h : FrameAccounts frame inside) (hsound : frame.Sound) :
    AccountFor inside (events frame.flatten) := by
  cases h with
  | unparted hopening hparting hbefore =>
      rw [hopening.events_flatten, Frame.flatChildren_eq, hparting, List.append_nil]
      exact (AccountFor.single hopening.allowed hopening.fate_ne_silent).append hbefore
  | @parted opening parting before after mark source nodes hopening hparting htag hbefore hafter
      hnodes =>
      obtain ⟨kind, key, hopener⟩ := hsound.isBlock (by rw [hparting]; rfl)
      simp only [Frame.after, hparting, Option.map_some, Option.some.injEq] at hafter
      refine ⟨?_, ?_, ?_⟩
      · rw [hopening.events_flatten, Frame.flatChildren_eq, hparting, events_append]
        simp only [hafter, events, eventsOf, List.flatMap_cons, List.flatMap_append]
        rw [← hbefore.events_eq, ← hnodes.events_eq, htag.events]
      · simp only [List.forall_mem_cons, List.forall_mem_append]
        exact ⟨hopening.allowed, hbefore.allowed, htag.allowed, hnodes.allowed⟩
      · -- the tag that opened the block answers for its own `:key` tag
        have hreported : opening.fate = .reported (.unclosed key) := by
          rw [hopening.fate, hopener]
          rfl
        intro account hmem other hfate
        simp only [List.mem_cons, List.mem_append] at hmem
        rcases hmem with rfl | hmem | rfl | hmem
        · exact absurd hfate (hopening.fate_ne_silent other)
        · obtain ⟨answer, hanswer, heq⟩ := hbefore.answered account hmem other hfate
          exact ⟨answer, by simp [hanswer], heq⟩
        · have hkey : frame.opener.name = other := by simpa [htag.fate] using hfate
          rw [hopener] at hkey
          exact ⟨opening, List.mem_cons_self, hreported.trans (by rw [← hkey]; rfl)⟩
        · obtain ⟨answer, hanswer, heq⟩ := hnodes.answered account hmem other hfate
          exact ⟨answer, by simp [hanswer], heq⟩

/-- **A frame that is closed** gives its events, and its tags are not reported. Nothing else changes
in its accounts. -/
theorem close (h : FrameAccounts frame inside) (hsound : frame.Sound) {closer : Account}
    (hcloser : AccountFor [closer] [.closing frame.opener.name]) :
    ∃ closed, AccountFor (closed ++ [closer]) (events [frame.toNode]) ∧
      closed.map Account.visit = inside.map Account.visit ∧
      warningsOf inside = frame.unclosed ++ warningsOf closed := by
  rw [events_singleton, ReadsFrame.events_toNode hsound]
  cases h with
  | @unparted opening before hopening hparting hbefore =>
      have hafter : frame.after = none := by simp [Frame.after, hparting]
      refine ⟨⟨opening.state, opening.piece, .given [.opening frame.opener]⟩ :: before, ?_, ?_, ?_⟩
      · rw [hafter, eventsOtherwise, List.append_nil]
        exact (AccountFor.of_given hopening.consumed).append (hbefore.append hcloser)
      · rfl
      · rw [warningsOf_cons, warningsOf_cons, hopening.toList_warning?]
        rfl
  | @parted opening parting before after mark source nodes hopening hparting htag hbefore hafter
      hnodes =>
      refine ⟨⟨opening.state, opening.piece, .given [.opening frame.opener]⟩ :: (before ++
        ⟨parting.state, parting.piece, .given [.otherwise frame.opener.name]⟩ :: after), ?_, ?_, ?_⟩
      · have hall := (AccountFor.of_given hopening.consumed).append ((hbefore.append
          ((AccountFor.of_given htag.consumed).append hnodes)).append hcloser)
        rw [hafter, eventsOtherwise]
        simpa using hall
      · simp [Account.visit]
      · have hsilent : parting.warning? = none := by simp [Account.warning?, htag.fate]
        simp only [warningsOf_cons, warningsOf_append, hopening.toList_warning?, hsilent]
        rfl

end FrameAccounts

/-! ## Accounts of a state -/

namespace Nesting

/-- The warnings of the state, if the source ends here. -/
def finalWarnings (state : Nesting) : List Warning :=
  state.warnings ++ state.stack.flatMap Frame.unclosed

@[simp]
theorem unclosed_foldl_push (nodes : List Node) (frame : Frame) :
    (nodes.foldl Frame.push frame).unclosed = frame.unclosed := by
  induction nodes generalizing frame with
  | nil => rfl
  | cons node nodes ih =>
      rw [List.foldl_cons, ih]
      unfold Frame.push
      split <;> rfl

theorem finalWarnings_foldl_push (nodes : List Node) (state : Nesting) :
    (nodes.foldl push state).finalWarnings = state.finalWarnings := by
  cases hstack : state.stack with
  | nil =>
      rw [foldl_push_of_nil hstack]
      rfl
  | cons frame outer =>
      rw [foldl_push_of_cons hstack]
      simp [finalWarnings, hstack]

/-- Flattening a frame gives the warning that it would have given at the end. -/
theorem finalWarnings_unwind {state : Nesting} {frame : Frame} {outer : List Frame}
    (hstack : state.stack = frame :: outer) :
    (state.unwind frame outer).finalWarnings = state.finalWarnings := by
  rw [unwind, finalWarnings_foldl_push]
  simp [finalWarnings, hstack]

end Nesting

/-- The accounts of a state: they say what was read outside of every open frame and in each of them,
and which warnings there are if the source ends here. -/
structure Ledger (accounts : List Account) (state : Nesting) : Prop where
  stack : StackAccounts state.root state.stack accounts
  warnings : state.finalWarnings.Perm (warningsOf accounts)

theorem StackAccounts.foldl_push {accounts more : List Account} {state : Nesting}
    (h : StackAccounts state.root state.stack accounts) {nodes : List Node}
    (hnodes : AccountFor more (events nodes)) :
    StackAccounts (nodes.foldl Nesting.push state).root (nodes.foldl Nesting.push state).stack
      (accounts ++ more) := by
  cases hstack : state.stack with
  | nil =>
      rw [hstack] at h
      cases h with
      | root hroot =>
          rw [Nesting.foldl_push_of_nil hstack]
          simp only [hstack]
          refine .root ?_
          rw [events_pushNodes]
          exact hroot.append hnodes
  | cons frame outer =>
      rw [hstack] at h
      cases h with
      | frame houter hsound hframe =>
          rw [Nesting.foldl_push_of_cons hstack, List.append_assoc]
          refine .frame houter ?_ (hframe.foldl_push hsound hnodes)
          rw [Frame.foldl_push_eq hsound]
          exact hsound.withCurrent _

namespace Ledger

variable {accounts : List Account} {state : Nesting}

theorem unwind (h : Ledger accounts state) {frame : Frame} {outer : List Frame}
    (hstack : state.stack = frame :: outer) : Ledger accounts (state.unwind frame outer) := by
  refine ⟨?_, by rw [Nesting.finalWarnings_unwind hstack]; exact h.warnings⟩
  have hframes := h.stack
  rw [hstack] at hframes
  cases hframes with
  | frame houter hsound hframe =>
      have hrest : StackAccounts _ { state with
          stack := outer, warnings := state.warnings ++ frame.unclosed }.stack _ := houter
      exact hrest.foldl_push (hframe.flatten hsound)

theorem unwindTo (h : Ledger accounts state) (isTarget : Frame → Bool) :
    Ledger accounts (state.unwindTo isTarget) :=
  Nesting.unwindTo_induction isTarget (fun _ _ _ hstack _ hstate => hstate.unwind hstack) h

/-! ### One piece -/

theorem push (h : Ledger accounts state) {account : Account} {node : Node}
    (haccount : AccountFor [account] (eventsOf node)) (hwarning : account.warning? = none) :
    Ledger (accounts ++ [account]) (state.push node) := by
  have hnodes : AccountFor [account] (events [node]) := by rwa [events_singleton]
  refine ⟨@StackAccounts.foldl_push _ _ _ h.stack [node] hnodes, ?_⟩
  have hsame : (state.push node).finalWarnings = state.finalWarnings :=
    Nesting.finalWarnings_foldl_push [node] state
  rw [hsame, warningsOf_append]
  simpa [hwarning] using h.warnings

/-- A tag that is read as literal text is reported. -/
theorem literal (h : Ledger accounts state) {piece : Located Segment} {defect : Defect}
    (hallowed : (Fate.reported defect).Allowed state piece.item) :
    Ledger (accounts ++ [⟨state, piece, .reported defect⟩])
      (state.literal piece.item.source defect piece.span) := by
  have haccount := @AccountFor.single ⟨state, piece, .reported defect⟩ hallowed (by simp)
  have hnodes : AccountFor [⟨state, piece, .reported defect⟩]
      (events [.text piece.item.source]) := by
    rw [events_singleton]
    exact haccount
  have hpush := @StackAccounts.foldl_push _ _ _ h.stack [.text piece.item.source] hnodes
  refine ⟨hpush, ?_⟩
  have hsame : (state.push (.text piece.item.source)).finalWarnings = state.finalWarnings :=
    Nesting.finalWarnings_foldl_push [_] state
  rw [warningsOf_append]
  refine List.Perm.trans ?_ (h.warnings.append_right _)
  rw [← hsame]
  simp only [Nesting.literal, Nesting.warn, Nesting.finalWarnings, List.append_assoc]
  exact List.perm_append_comm.append_left _

/-- The tag of an opener is reported as never closed, for now. -/
theorem opened (h : Ledger accounts state) {opener : Opener} {inner : Text} {tag : Tag}
    {piece : Located Segment} (hitem : piece.item = .tag inner)
    (hparse : Tag.parse inner = .ok tag) (hevent : tag.Says (.opening opener)) :
    Ledger (accounts ++ [⟨state, piece, opener.unclosedFate⟩])
      (state.opened opener piece.item.source piece.span) := by
  have hopening : OpenedWith ⟨opener, piece.item.source, piece.span, [], none⟩
      ⟨state, piece, opener.unclosedFate⟩ :=
    ⟨rfl, rfl, rfl, inner, tag, hitem, hparse, hevent⟩
  refine ⟨.frame h.stack (Frame.sound_opened _ _ _) (.unparted hopening rfl .nil), ?_⟩
  have hwarning := hopening.toList_warning?
  rw [warningsOf_append, warningsOf_cons, hwarning, warningsOf_nil, List.append_nil]
  refine List.Perm.trans ?_ (h.warnings.append_right _)
  simp only [Nesting.opened, Nesting.finalWarnings, List.flatMap_cons, List.append_assoc]
  exact List.perm_append_comm.append_left _

/-- A `:key` tag is reported, or it parts an open block; then it is literal and not reported, for
now. -/
theorem part (h : Ledger accounts state) {inner key : Text} {piece : Located Segment}
    (hitem : piece.item = .tag inner) (hparse : Tag.parse inner = .ok (.otherwise key)) :
    ∃ fate, Ledger (accounts ++ [⟨state, piece, fate⟩])
      (state.part key piece.item.source piece.span) := by
  cases hpart : Nesting.partable key state.stack with
  | false =>
      have hallowed : (Fate.reported (.unmatchedElse key)).Allowed state piece.item := by
        rw [hitem]
        refine .reported (by simp [defectOf?, hparse, Tag.defect?]) (by simp) ?_
        rintro _ ⟨⟩
        exact hpart
      have heq : state.part key piece.item.source piece.span
          = state.literal piece.item.source (.unmatchedElse key) piece.span := by
        simp [Nesting.part, hpart]
      rw [heq]
      exact ⟨_, h.literal hallowed⟩
  | true =>
      have hunwound := h.unwindTo fun frame => !frame.opener.isCall
      obtain ⟨frame, outer, kind, hstack, hopener, hparting, heq⟩ :=
        (Nesting.part_cases state key piece.item.source piece.span).resolve_left (by simp [hpart])
      refine ⟨.silent key, ?_, ?_⟩
      · have hframes := hunwound.stack
        rw [hstack] at hframes
        cases hframes with
        | frame houter hsound hframe =>
            cases hframe with
            | parted _ hsome => simp [hparting] at hsome
            | unparted hopening _ hbefore =>
                have htag : PartedWith frame.opener.name piece.item.source
                    ⟨state, piece, .silent key⟩ := by
                  rw [hopener]
                  exact ⟨rfl, rfl, ⟨inner, hitem, hparse⟩, hpart⟩
                rw [heq, List.append_assoc]
                refine .frame houter (.part hopener piece.item.source) ?_
                refine .parted ⟨hopening.source, hopening.span, hopening.fate, hopening.tag⟩ rfl
                  htag
                  ?_ (congrArg some List.drop_length) .nil
                simpa [Frame.before, hparting] using hbefore
      · have hsame : (state.part key piece.item.source piece.span).finalWarnings
            = (state.unwindTo fun frame => !frame.opener.isCall).finalWarnings := by
          rw [heq]
          simp only [Nesting.finalWarnings, hstack]
          rfl
        rw [hsame, warningsOf_append]
        simpa [Account.warning?] using hunwound.warnings

/-- A closer is reported, or it closes an open frame; then it gives an event, and so do the tags of
that frame. -/
theorem close (h : Ledger accounts state) {inner : Text} {name : Option Text}
    {piece : Located Segment} (hitem : piece.item = .tag inner)
    (hparse : Tag.parse inner = .ok (.closer name)) :
    ∃ next, next.map Account.visit = accounts.map Account.visit ++ [(state, piece)] ∧
      Ledger next (state.close name piece.item.source piece.span) := by
  rcases Nesting.close_cases state name piece.item.source piece.span with
    ⟨-, heq⟩ | ⟨frame, outer, hstack, hcloses, heq⟩
  · have hallowed : (Fate.reported (.unmatchedClose name)).Allowed state piece.item :=
      hitem ▸ .reported (by simp [defectOf?, hparse, Tag.defect?]) (by simp) (by simp)
    rw [heq]
    exact ⟨_, by simp [Account.visit], h.literal hallowed⟩
  · have hunwound := h.unwindTo (Nesting.closes name)
    have hevent : (Tag.closer name).Says (.closing frame.opener.name) := by
      cases name with
      | none => exact .bareCloser _
      | some name =>
          obtain rfl : frame.opener.name = name := by simpa [Nesting.closes] using hcloses
          exact .closer _
    have hcloser : AccountFor [⟨state, piece, .given [.closing frame.opener.name]⟩]
        [.closing frame.opener.name] := .of_given (hitem ▸ .consumed hparse hevent)
    obtain ⟨hframes, hwarnings⟩ := hunwound
    rw [hstack] at hframes
    cases hframes with
    | @frame before inside _ _ houter hsound hframe =>
        obtain ⟨closed, hclosed, hvisits, hinside⟩ := hframe.close hsound hcloser
        refine ⟨before ++ (closed ++ [⟨state, piece, .given [.closing frame.opener.name]⟩]),
          ?_, ?_, ?_⟩
        · simp [hvisits, Account.visit]
        · have hrest : StackAccounts _ { state.unwindTo (Nesting.closes name) with
              stack := outer }.stack _ := houter
          rw [heq]
          exact @StackAccounts.foldl_push _ _ _ hrest [frame.toNode] hclosed
        · have hsame : (state.close name piece.item.source piece.span).finalWarnings
              = (state.unwindTo (Nesting.closes name)).warnings
                ++ outer.flatMap Frame.unclosed := by
            rw [heq]
            exact Nesting.finalWarnings_foldl_push [_] _
          rw [Nesting.finalWarnings, hstack, List.flatMap_cons, warningsOf_append, hinside]
            at hwarnings
          rw [hsame]
          rw [List.perm_iff_count] at hwarnings ⊢
          intro warning
          have hcount := hwarnings warning
          simp [List.count_append, Account.warning?] at hcount ⊢
          omega

/-- The account of a tag that is no opener and always gives its event. -/
theorem consumed (h : Ledger accounts state) {inner : Text} {tag : Tag} {event : Event}
    {node : Node} {piece : Located Segment} (hitem : piece.item = .tag inner)
    (hparse : Tag.parse inner = .ok tag) (hevent : tag.Says event)
    (hnode : eventsOf node = [event]) :
    Ledger (accounts ++ [⟨state, piece, .given [event]⟩]) (state.push node) := by
  refine h.push ?_ rfl
  rw [hnode]
  exact .of_given (hitem ▸ .consumed hparse hevent)

/-- **One tag**: its account joins the others, of which a closer may change the fates. -/
theorem readTag (h : Ledger accounts state) (hwhole : state.whole = true) {inner : Text} {tag : Tag}
    {piece : Located Segment} (hitem : piece.item = .tag inner)
    (hparse : Tag.parse inner = .ok tag) :
    ∃ next, next.map Account.visit = accounts.map Account.visit ++ [(state, piece)] ∧
      Ledger next (state.readTag tag piece.item.source piece.span) := by
  have hjoined : ∀ {fate next}, Ledger (accounts ++ [⟨state, piece, fate⟩]) next →
      ∃ more, more.map Account.visit = accounts.map Account.visit ++ [(state, piece)] ∧
        Ledger more next :=
    fun hnext => ⟨_, List.map_append, hnext⟩
  cases tag with
  | value escape key => exact hjoined (h.consumed hitem hparse (.value escape key) rfl)
  | inclusion name => exact hjoined (h.consumed hitem hparse (.inclusion name) rfl)
  | opener kind key => exact hjoined (h.opened hitem hparse (.opener kind key))
  | slot name => exact hjoined (h.opened hitem hparse (.slot name))
  | call name arguments => exact hjoined (h.opened hitem hparse (.call name arguments))
  | otherwise key =>
      obtain ⟨fate, hnext⟩ := h.part hitem hparse
      exact hjoined hnext
  | closer name => exact h.close hitem hparse
  | parent name =>
      cases hplace : state.whole && state.leading with
      | true =>
          have haccount : AccountFor [⟨state, piece, .given []⟩] [] :=
            .of_given (hitem ▸ .parent hparse hplace)
          simp only [Nesting.readTag, hplace, if_true]
          have hwarnings : state.finalWarnings.Perm
              (warningsOf (accounts ++ [⟨state, piece, .given []⟩])) := by
            rw [warningsOf_append]
            simpa [Account.warning?] using h.warnings
          exact hjoined ⟨@StackAccounts.foldl_push _ _ _ h.stack [] haccount, hwarnings⟩
      | false =>
          have hallowed : (Fate.reported (.misplacedParent name)).Allowed state piece.item :=
            hitem ▸ .reported (by simp [defectOf?, hparse, Tag.defect?])
              (fun _ _ => hplace) (by simp)
          have heq : state.readTag (.parent name) piece.item.source piece.span
              = state.literal piece.item.source (.misplacedParent name) piece.span := by
            rw [Nesting.readTag, hplace, hwhole]
            rfl
          rw [heq]
          exact hjoined (h.literal hallowed)

/-- **One piece.** -/
theorem read (h : Ledger accounts state) (hwhole : state.whole = true) (piece : Located Segment) :
    ∃ next, next.map Account.visit = accounts.map Account.visit ++ [(state, piece)] ∧
      Ledger next (state.read piece) := by
  unfold Nesting.read
  cases hitem : piece.item with
  | text content =>
      have hstate :
          Ledger accounts { state with leading := state.leading && isBlankText content } :=
        ⟨h.stack, h.warnings⟩
      have haccount : AccountFor [⟨state, piece, .given (content.map .char)⟩]
          (eventsOf (.text content)) := .of_given (hitem ▸ .text content)
      exact ⟨_, List.map_append, hstate.push haccount rfl⟩
  | tag inner =>
      -- the place for a parent is no part of the ledger
      suffices hnext : ∃ next,
          next.map Account.visit = accounts.map Account.visit ++ [(state, piece)] ∧
          Ledger next (match Tag.parse inner with
            | .ok tag => state.readTag tag piece.item.source piece.span
            | .error cause => state.literal piece.item.source (.malformed cause) piece.span) by
        obtain ⟨next, hvisits, hledger⟩ := hnext
        rw [hitem] at hledger
        exact ⟨next, hvisits, hledger.stack, hledger.warnings⟩
      cases hparse : Tag.parse inner with
      | error cause =>
          have hallowed : (Fate.reported (.malformed cause)).Allowed state piece.item :=
            hitem ▸ .reported (by simp [defectOf?, hparse]) (by simp) (by simp)
          exact ⟨_, List.map_append, h.literal hallowed⟩
      | ok tag => exact h.readTag hwhole hitem hparse

end Ledger

/-! ## Whole sources -/

/-- The pieces, each with the state in which it is read. -/
def visits (state : Nesting) : List (Located Segment) → List (Nesting × Located Segment)
  | [] => []
  | piece :: rest => (state, piece) :: visits (state.read piece) rest

theorem ledger_start (whole : Bool) : Ledger [] (.start whole) :=
  ⟨.root .nil, .refl _⟩

theorem Ledger.foldl_read (pieces : List (Located Segment)) {accounts : List Account}
    {state : Nesting} (h : Ledger accounts state) (hwhole : state.whole = true) :
    ∃ next, next.map Account.visit = accounts.map Account.visit ++ visits state pieces ∧
      Ledger next (pieces.foldl Nesting.read state) := by
  induction pieces generalizing accounts state with
  | nil => exact ⟨accounts, by simp [visits], h⟩
  | cons piece rest ih =>
      obtain ⟨next, hvisits, hnext⟩ := h.read hwhole piece
      have hwhole' : (state.read piece).whole = true :=
        (congrArg (·.1) (Nesting.heading_read state piece)).trans hwhole
      obtain ⟨last, hlast, hledger⟩ := ih hnext hwhole'
      exact ⟨last, by rw [hlast, hvisits, List.append_assoc]; rfl, hledger⟩

/-- **The accounts of a source** are those of its pieces in order. They say what its tree is and
which warnings there are about it. -/
theorem exists_accounts (source : Text) :
    ∃ accounts, accounts.map Account.visit = visits (.start true) (scan source) ∧
      AccountFor accounts (events (Document.parse source).nodes) ∧
      (lint source).Perm (warningsOf accounts) := by
  obtain ⟨accounts, hvisits, hledger⟩ := (ledger_start true).foldl_read (scan source) rfl
  obtain ⟨hframes, hwarnings⟩ := hledger.unwindTo fun _ => false
  have hstack := Nesting.stack_unwindTo_none ((scan source).foldl Nesting.read (.start true))
  rw [Nesting.finalWarnings, hstack, List.flatMap_nil, List.append_nil] at hwarnings
  rw [hstack] at hframes
  cases hframes with
  | root hroot => exact ⟨accounts, hvisits, hroot, hwarnings⟩

end Stencil
