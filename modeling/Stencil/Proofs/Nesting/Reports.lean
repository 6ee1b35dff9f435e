import Mathlib.Data.List.Nodup
import Stencil.Proofs.Nesting.Ledger
import Stencil.Proofs.Segment.Scanning

/-!
# Which tags are reported

A tag stays literal if its source stands in the tree where its turn is (`StaysLiteral`). The events
of the tree leave no choice about that: read from left to right, each piece has one share of them
(`ReadAs.unique`). So the accounts of a source say which tags stay literal
(`staysLiteral_iff_mem_accounts`), and two things follow.

Warnings are sound (`lint_sound`): each is about a tag that stays literal, for the defect that such
a tag has, and no tag is reported twice. Without a warning no tag stays literal.

Warnings are complete but for one kind of tag (`reported_iff_not_partsBlock`): a `:key` tag that
parts a block is not reported when the block turns out to be never closed. The opener of that block
is.
-/

set_option autoImplicit false

namespace Stencil

/-! ## Each piece has one share of the events -/

theorem Tag.Says.ne_char {tag : Tag} {event : Event} (h : tag.Says event) (c : Char) :
    event ≠ .char c := by
  cases h <;> simp

/-- The share that a piece has of the events from its own on. -/
def share (first : Bool) (piece : Segment) (following : List Event) : List Event :=
  match namedParent (first, piece), piece, following with
  | some _, _, _ => []
  | none, .text content, _ => content.map .char
  | none, .tag inner, .char _ :: _ => (Segment.tag inner).source.map .char
  | none, .tag _, event :: _ => [event]
  | none, .tag _, [] => []

theorem share_literal {first : Bool} {inner : Text} (h : namedParent (first, .tag inner) = none)
    (rest : List Event) :
    share first (.tag inner) ((Segment.tag inner).source.map .char ++ rest)
      = (Segment.tag inner).source.map .char := by
  simp [share, h, Segment.source]

theorem share_consumed {first : Bool} {inner : Text} {event : Event}
    (h : namedParent (first, .tag inner) = none) (hevent : ∀ c, event ≠ .char c)
    (rest : List Event) : share first (.tag inner) ([event] ++ rest) = [event] := by
  cases event with
  | char c => exact absurd rfl (hevent c)
  | _ => simp [share, h]

theorem namedParent_eq_none {first : Bool} {inner : Text}
    (h : ∀ name, Tag.parse inner = .ok (.parent name) → first = false) :
    namedParent (first, .tag inner) = none := by
  rcases Nesting.namedParent_tag first inner with ⟨name, hfirst, hparse, -⟩ | ⟨-, hnone⟩
  · rw [h name hparse] at hfirst
    cases hfirst
  · exact hnone

/-- What a piece gives is its share of the events from there on. -/
theorem Gives.share_eq {first : Bool} {piece : Segment} {given : List Event}
    (h : Gives first piece given) (rest : List Event) :
    share first piece (given ++ rest) = given := by
  cases h with
  | text content => simp [share, Nesting.namedParent_text]
  | malformed first hparse => exact share_literal (namedParent_eq_none (by simp [hparse])) rest
  | parent hparse => simp [share, namedParent, hparse]
  | misplaced hparse => exact share_literal (namedParent_eq_none fun _ _ => rfl) rest
  | literal first hparse hliteral =>
      refine share_literal (namedParent_eq_none fun name hname => ?_) rest
      obtain rfl := Except.ok.inj (hparse.symm.trans hname)
      cases hliteral
  | consumed first hparse hevent =>
      refine share_consumed (namedParent_eq_none fun name hname => ?_) hevent.ne_char rest
      obtain rfl := Except.ok.inj (hparse.symm.trans hname)
      cases hevent

theorem Gives.unique {first : Bool} {piece : Segment} {given other rest more : List Event}
    (h : Gives first piece given) (hother : Gives first piece other)
    (heq : given ++ rest = other ++ more) : given = other := by
  rw [← h.share_eq rest, heq, hother.share_eq]

/-- **The events of a tree leave no choice** about what each piece gives. -/
theorem ReadAs.unique {pieces : List (Bool × Segment)} {given other rest more : List Event}
    (h : ReadAs pieces given) (hother : ReadAs pieces other)
    (heq : given ++ rest = other ++ more) : given = other := by
  induction h generalizing other with
  | nil =>
      cases hother
      rfl
  | cons hpiece _ ih =>
      cases hother with
      | cons hpiece' hrest' =>
          rw [List.append_assoc, List.append_assoc] at heq
          obtain rfl := hpiece.unique hpiece' heq
          rw [ih hrest' (List.append_cancel_left heq)]

/-! ## Tags that stay literal -/

/-- The tag stays literal: its source stands in the tree, between what the pieces before it give and
what the pieces after it give. -/
def StaysLiteral (source : Text) (tag : Located Text) : Prop :=
  ∃ before after given more,
    scan source = before ++ ⟨.tag tag.item, tag.span⟩ :: after ∧
    ReadAs (marked true (before.map (·.item))) given ∧
    Gives (before.all (·.item.isBlank)) (.tag tag.item) ((Segment.tag tag.item).source.map .char) ∧
    ReadAs (marked false (after.map (·.item))) more ∧
    events (Document.parse source).nodes
      = given ++ ((Segment.tag tag.item).source.map .char ++ more)

/-- Does the piece stay literal? -/
def Account.isLiteral (account : Account) : Bool :=
  match account.fate with
  | .given _ => false
  | .reported _ | .silent _ => true

theorem Fate.Allowed.gives {account : Account}
    (h : account.fate.Allowed account.state account.piece.item) :
    Gives (account.state.whole && account.state.leading) account.piece.item account.events := by
  obtain ⟨state, ⟨item, span⟩, fate⟩ := account
  cases h with
  | text content => exact .text _ content
  | parent hparse hplace =>
      simp only [hplace]
      exact .parent hparse
  | consumed hparse hevent => exact .consumed _ hparse hevent
  | silent hparse hpart => exact .literal _ hparse rfl
  | @reported inner defect hdefect hplace hpart =>
      change Gives _ (.tag inner) ((Segment.tag inner).source.map .char)
      cases hparse : Tag.parse inner with
      | error cause => exact .malformed _ hparse
      | ok tag =>
          simp only [defectOf?, hparse] at hdefect
          cases tag with
          | opener kind key => exact .literal _ hparse rfl
          | slot name => exact .literal _ hparse rfl
          | otherwise key => exact .literal _ hparse rfl
          | closer name => exact .literal _ hparse rfl
          | parent name =>
              cases hdefect
              simp only [hplace name rfl]
              exact .misplaced hparse
          | value escape key => cases hdefect
          | inclusion name => cases hdefect
          | call name arguments => cases hdefect

/-! ## Accounts and pieces -/

theorem visits_append (state : Nesting) (before after : List (Located Segment)) :
    visits state (before ++ after)
      = visits state before ++ visits (before.foldl Nesting.read state) after := by
  induction before generalizing state with
  | nil => rfl
  | cons piece rest ih => simp [visits, ih]

theorem map_snd_visits (state : Nesting) (pieces : List (Located Segment)) :
    (visits state pieces).map (·.2) = pieces := by
  induction pieces generalizing state with
  | nil => rfl
  | cons piece rest ih => simp [visits, ih]

/-- The accounts of consecutive pieces give what these pieces may give. -/
theorem readAs_accounts {accounts : List Account} {state : Nesting}
    {pieces : List (Located Segment)} (hvisits : accounts.map Account.visit = visits state pieces)
    (hallowed : ∀ account ∈ accounts, account.fate.Allowed account.state account.piece.item) :
    ReadAs (marked (state.whole && state.leading) (pieces.map (·.item)))
      (accounts.flatMap Account.events) := by
  induction accounts generalizing state pieces with
  | nil =>
      cases pieces with
      | nil => exact .nil
      | cons piece rest => cases hvisits
  | cons account accounts ih =>
      cases pieces with
      | nil => cases hvisits
      | cons piece rest =>
          obtain ⟨hvisit, hrest⟩ := List.cons.inj hvisits
          obtain ⟨rfl, rfl⟩ := Prod.mk.inj hvisit
          rw [List.forall_mem_cons] at hallowed
          have hread := Nesting.heading_read account.state account.piece
          simp only [Nesting.heading, Prod.mk.injEq] at hread
          have hmore := ih hrest hallowed.2
          rw [hread.1, hread.2.1, ← Bool.and_assoc] at hmore
          rw [List.flatMap_cons]
          exact .cons hallowed.1.gives hmore

/-- A parent may be named after pieces that are all blank, if it may be named before them. -/
theorem place_foldl_read (pieces : List (Located Segment)) (state : Nesting) :
    ((pieces.foldl Nesting.read state).whole && (pieces.foldl Nesting.read state).leading)
      = (state.whole && state.leading && pieces.all (·.item.isBlank)) := by
  induction pieces generalizing state with
  | nil => simp
  | cons piece rest ih =>
      have hread := Nesting.heading_read state piece
      simp only [Nesting.heading, Prod.mk.injEq] at hread
      rw [List.foldl_cons, ih, hread.1, hread.2.1, List.all_cons]
      simp only [Bool.and_assoc]

theorem map_piece_eq {accounts : List Account} {state : Nesting} {pieces : List (Located Segment)}
    (hvisits : accounts.map Account.visit = visits state pieces) :
    accounts.map (·.piece) = pieces := by
  rw [← map_snd_visits state pieces, ← hvisits, List.map_map]
  rfl

/-- The accounts before and after that of a piece are those of the pieces before and after it. -/
theorem visits_split {first last : List Account} {account : Account} {state : Nesting}
    {pieces : List (Located Segment)}
    (hvisits : (first ++ account :: last).map Account.visit = visits state pieces) :
    first.map Account.visit = visits state (first.map (·.piece)) ∧
      account.state = (first.map (·.piece)).foldl Nesting.read state ∧
      last.map Account.visit = visits (account.state.read account.piece) (last.map (·.piece)) := by
  have hpieces := map_piece_eq hvisits
  rw [← hpieces, List.map_append, List.map_append, List.map_cons, List.map_cons, visits_append]
    at hvisits
  have hlength : ∀ state (pieces : List (Located Segment)),
      (visits state pieces).length = pieces.length := fun state pieces => by
    rw [← List.length_map (·.2), map_snd_visits]
  obtain ⟨hfirst, hrest⟩ := List.append_inj hvisits (by simp [hlength])
  obtain ⟨haccount, hlast⟩ := List.cons.inj hrest
  obtain ⟨hstate, -⟩ := Prod.mk.inj haccount
  exact ⟨hfirst, hstate, by rw [hlast, hstate]⟩

/-- What the pieces before a tag, the tag, and the pieces after it give. -/
theorem readAs_split {first last : List Account} {account : Account} {inner : Text}
    {pieces : List (Located Segment)}
    (hvisits : (first ++ account :: last).map Account.visit = visits (.start true) pieces)
    (hitem : account.piece.item = .tag inner)
    (hallowed : ∀ other ∈ first ++ account :: last,
      other.fate.Allowed other.state other.piece.item) :
    ReadAs (marked true ((first.map (·.piece)).map (·.item))) (first.flatMap Account.events) ∧
      Gives ((first.map (·.piece)).all (·.item.isBlank)) (.tag inner) account.events ∧
      ReadAs (marked false ((last.map (·.piece)).map (·.item)))
        (last.flatMap Account.events) := by
  obtain ⟨hfirst, hstate, hlast⟩ := visits_split hvisits
  rw [List.forall_mem_append, List.forall_mem_cons] at hallowed
  refine ⟨readAs_accounts hfirst hallowed.1, ?_, ?_⟩
  · have hgives := hallowed.2.1.gives
    rw [hstate, place_foldl_read, hitem] at hgives
    exact hgives
  · have hread := readAs_accounts hlast hallowed.2.2
    have hheading := Nesting.heading_read account.state account.piece
    simp only [Nesting.heading, Prod.mk.injEq, hitem, Segment.isBlank, Bool.and_false] at hheading
    rwa [hheading.2.1, Bool.and_false] at hread

/-- The text of a tag is no share of a tag that is not literal. -/
theorem Account.isLiteral_of_events {account : Account} {inner : Text}
    (hallowed : account.fate.Allowed account.state account.piece.item)
    (hitem : account.piece.item = .tag inner)
    (hevents : account.events = (Segment.tag inner).source.map .char) :
    account.isLiteral = true := by
  obtain ⟨state, ⟨item, span⟩, fate⟩ := account
  cases hitem
  cases hallowed with
  | parent hparse hplace => simp [events, Segment.source] at hevents
  | consumed hparse hevent =>
      have hhead : _ = Event.char '{' := (List.cons.inj hevents).1
      exact absurd hhead (hevent.ne_char _)
  | reported hdefect hplace hpart => rfl
  | silent hparse hpart => rfl

theorem Account.events_of_isLiteral {account : Account} (h : account.isLiteral = true) :
    account.events = account.piece.item.source.map .char := by
  obtain ⟨state, piece, fate⟩ := account
  cases fate with
  | given events => cases h
  | reported defect => rfl
  | silent key => rfl

/-- **The accounts of a source say which tags stay literal.** -/
theorem staysLiteral_iff_mem_accounts {source : Text} {accounts : List Account}
    (hvisits : accounts.map Account.visit = visits (.start true) (scan source))
    (haccounts : AccountFor accounts (events (Document.parse source).nodes)) (tag : Located Text) :
    StaysLiteral source tag ↔ ∃ account ∈ accounts,
      account.piece = ⟨.tag tag.item, tag.span⟩ ∧ account.isLiteral = true := by
  constructor
  · rintro ⟨before, after, given, more, hscan, hgiven, hchars, -, hevents⟩
    have hpieces := (map_piece_eq hvisits).trans hscan
    obtain ⟨first, others, rfl, rfl, hothers⟩ := List.map_eq_append_iff.mp hpieces
    obtain ⟨account, last, rfl, hpiece, rfl⟩ := List.map_eq_cons_iff.mp hothers
    have hitem : account.piece.item = .tag tag.item := by rw [hpiece]
    obtain ⟨hfirst, haccount, -⟩ := readAs_split hvisits hitem haccounts.allowed
    refine ⟨account, by simp, hpiece, ?_⟩
    rw [haccounts.events_eq, List.flatMap_append, List.flatMap_cons] at hevents
    obtain rfl := hfirst.unique hgiven hevents
    have hshare := haccount.unique hchars (List.append_cancel_left hevents)
    exact Account.isLiteral_of_events (haccounts.allowed account (by simp)) hitem hshare
  · rintro ⟨account, hmem, hpiece, hliteral⟩
    obtain ⟨first, last, rfl⟩ := List.append_of_mem hmem
    have hitem : account.piece.item = .tag tag.item := by rw [hpiece]
    obtain ⟨hfirst, haccount, hlast⟩ := readAs_split hvisits hitem haccounts.allowed
    have hscan := (map_piece_eq hvisits).symm
    rw [List.map_append, List.map_cons, hpiece] at hscan
    have hchars := Account.events_of_isLiteral hliteral
    rw [hitem] at hchars
    refine ⟨_, _, _, _, hscan, hfirst, hchars ▸ haccount, hlast, ?_⟩
    rw [haccounts.events_eq, List.flatMap_append, List.flatMap_cons, hchars]

/-! ## The warnings of a source -/

theorem mem_warningsOf {accounts : List Account} {warning : Warning} :
    warning ∈ warningsOf accounts ↔ ∃ account ∈ accounts,
      account.fate = .reported warning.defect ∧ account.piece.span = warning.span := by
  rw [warningsOf, List.mem_flatMap]
  refine exists_congr fun account => and_congr_right fun _ => ?_
  obtain ⟨state, piece, fate⟩ := account
  obtain ⟨defect, span⟩ := warning
  cases fate <;> simp [Account.warning?, eq_comm]

/-- No piece is reported twice. -/
theorem warningsOf_sublist (accounts : List Account) :
    ((warningsOf accounts).map (·.span)).Sublist (accounts.map (·.piece.span)) := by
  induction accounts with
  | nil => exact .slnil
  | cons account accounts ih =>
      rw [warningsOf_cons, List.map_append, List.map_cons]
      cases hfate : account.fate with
      | reported defect => simpa [Account.warning?, hfate] using ih
      | given events => simpa [Account.warning?, hfate] using ih.cons _
      | silent key => simpa [Account.warning?, hfate] using ih.cons _

theorem nodup_span_accounts {source : Text} {accounts : List Account}
    (hvisits : accounts.map Account.visit = visits (.start true) (scan source)) :
    (accounts.map (·.piece.span)).Nodup := by
  have hspans := (segmentation_scan source).tiles.nodup_span
  rw [← map_piece_eq hvisits, List.map_map] at hspans
  exact hspans

/-- **Warnings are sound.** Each warning is about a tag that stays literal, and it names the defect
of that tag: that it is no tag, or what kind of tag cannot be placed. No two warnings are about the
same tag. There is no warning exactly when no tag stays literal. -/
theorem lint_sound (source : Text) :
    (∀ warning ∈ lint source, ∃ inner, ⟨.tag inner, warning.span⟩ ∈ scan source ∧
      StaysLiteral source ⟨inner, warning.span⟩ ∧ defectOf? inner = some warning.defect) ∧
    ((lint source).map (·.span)).Nodup ∧
    (lint source = [] ↔ ∀ tag, ¬ StaysLiteral source tag) := by
  obtain ⟨accounts, hvisits, haccounts, hperm⟩ := exists_accounts source
  have hliteral := staysLiteral_iff_mem_accounts hvisits haccounts
  have hlint : ∀ {warning}, warning ∈ lint source ↔ ∃ account ∈ accounts,
      account.fate = .reported warning.defect ∧ account.piece.span = warning.span :=
    hperm.mem_iff.trans mem_warningsOf
  have hsound : ∀ warning ∈ lint source, ∃ inner, ⟨.tag inner, warning.span⟩ ∈ scan source ∧
      StaysLiteral source ⟨inner, warning.span⟩ ∧ defectOf? inner = some warning.defect := by
    intro warning hwarning
    obtain ⟨⟨state, ⟨item, span⟩, fate⟩, hmem, rfl, rfl⟩ := hlint.mp hwarning
    have hallowed := haccounts.allowed _ hmem
    cases hallowed with
    | @reported inner defect hdefect hplace hpart =>
        have hscan := List.mem_map_of_mem (f := fun account : Account => account.piece) hmem
        rw [map_piece_eq hvisits] at hscan
        exact ⟨inner, hscan, (hliteral _).mpr ⟨_, hmem, rfl, rfl⟩, hdefect⟩
  refine ⟨hsound, ?_, ?_⟩
  · have hspans := (nodup_span_accounts hvisits).sublist (warningsOf_sublist accounts)
    exact (hperm.map (·.span)).nodup_iff.mpr hspans
  · constructor
    · intro hnone tag htag
      -- a tag that stays literal is reported, or another one is reported for it
      obtain ⟨account, hmem, hpiece, hisLiteral⟩ := (hliteral tag).mp htag
      have hreported : ∃ reported ∈ accounts, ∃ defect, reported.fate = .reported defect := by
        cases hfate : account.fate with
        | given events => simp [Account.isLiteral, hfate] at hisLiteral
        | reported defect => exact ⟨account, hmem, defect, hfate⟩
        | silent key =>
            obtain ⟨opening, hopening, heq⟩ := haccounts.answered account hmem key hfate
            exact ⟨opening, hopening, _, heq⟩
      obtain ⟨reported, hmem', defect, hfate⟩ := hreported
      have hwarning : ⟨defect, reported.piece.span⟩ ∈ lint source :=
        hlint.mpr ⟨reported, hmem', hfate, rfl⟩
      rw [hnone] at hwarning
      cases hwarning
    · intro hnone
      refine List.eq_nil_iff_forall_not_mem.mpr fun warning hwarning => ?_
      obtain ⟨inner, -, htag, -⟩ := hsound warning hwarning
      exact hnone _ htag

/-- The warning at the opener of a block that is never closed. The `:key` tag of the block is
literal too, without a warning of its own. -/
theorem lint_sound_unclosed :
    ⟨.unclosed ['a'], ⟨0, 5⟩⟩ ∈ lint "{{a}}x{{:a}}y".toList ∧
      ∃ inner, ⟨.tag inner, ⟨0, 5⟩⟩ ∈ scan "{{a}}x{{:a}}y".toList ∧
        StaysLiteral "{{a}}x{{:a}}y".toList ⟨inner, ⟨0, 5⟩⟩ ∧
        defectOf? inner = some (.unclosed ['a']) := by
  have hwarning : ⟨.unclosed ['a'], ⟨0, 5⟩⟩ ∈ lint "{{a}}x{{:a}}y".toList := by decide +kernel
  exact ⟨hwarning, (lint_sound _).1 _ hwarning⟩

/-! ## Tags that are not reported -/

/-- The tag is a `:key` tag, and where it is read it parts an open block over its key. -/
def PartsBlock (source : Text) (tag : Located Text) : Prop :=
  ∃ state key, (state, ⟨.tag tag.item, tag.span⟩) ∈ visits (.start true) (scan source) ∧
    Tag.parse tag.item = .ok (.otherwise key) ∧ Nesting.partable key state.stack = true

/-- A tag that stays literal parts a block exactly if its account is silent. -/
theorem partsBlock_iff_silent {source : Text} {accounts : List Account}
    (hvisits : accounts.map Account.visit = visits (.start true) (scan source))
    (haccounts : AccountFor accounts (events (Document.parse source).nodes)) {account : Account}
    (hmem : account ∈ accounts) (hliteral : account.isLiteral = true) {tag : Located Text}
    (hpiece : account.piece = ⟨.tag tag.item, tag.span⟩) :
    PartsBlock source tag ↔ ∃ key, account.fate = .silent key := by
  have hallowed := haccounts.allowed account hmem
  rw [hpiece] at hallowed
  constructor
  · rintro ⟨state, key, hvisit, hparse, hpart⟩
    -- the spans of the pieces differ, so this is the visit of the account
    rw [← hvisits] at hvisit
    obtain ⟨other, hother, heq⟩ := List.mem_map.mp hvisit
    obtain ⟨rfl, hitem⟩ := Prod.mk.inj heq
    obtain rfl : other = account :=
      List.inj_on_of_nodup_map (nodup_span_accounts hvisits) hother hmem (by rw [hitem, hpiece])
    cases hfate : other.fate with
    | given events => simp [Account.isLiteral, hfate] at hliteral
    | silent key => exact ⟨key, rfl⟩
    | reported defect =>
        rw [hfate] at hallowed
        cases hallowed with
        | reported hdefect hplace hunmatched =>
            obtain rfl : Defect.unmatchedElse key = defect := by
              simpa [defectOf?, hparse, Tag.defect?] using hdefect
            exact absurd hpart (by simp [hunmatched key rfl])
  · rintro ⟨key, hfate⟩
    rw [hfate] at hallowed
    cases hallowed with
    | silent hparse hpart =>
        exact ⟨account.state, key, hvisits ▸ hpiece ▸ List.mem_map_of_mem hmem, hparse, hpart⟩

/-- **Warnings are complete but for one kind of tag.** A tag that stays literal is reported, unless
it parts a block. The block that it parts is never closed then, and its opener is reported. -/
theorem reported_iff_not_partsBlock {source : Text} {tag : Located Text}
    (h : StaysLiteral source tag) :
    ((∃ warning ∈ lint source, warning.span = tag.span) ↔ ¬ PartsBlock source tag) ∧
      (PartsBlock source tag → ∃ warning ∈ lint source, ∃ key,
        Tag.parse tag.item = .ok (.otherwise key) ∧ warning.defect = .unclosed key) := by
  obtain ⟨accounts, hvisits, haccounts, hperm⟩ := exists_accounts source
  have hlint : ∀ {warning}, warning ∈ lint source ↔ ∃ account ∈ accounts,
      account.fate = .reported warning.defect ∧ account.piece.span = warning.span :=
    hperm.mem_iff.trans mem_warningsOf
  obtain ⟨account, hmem, hpiece, hliteral⟩ :=
    (staysLiteral_iff_mem_accounts hvisits haccounts tag).mp h
  rw [partsBlock_iff_silent hvisits haccounts hmem hliteral hpiece]
  refine ⟨⟨?_, fun hnot => ?_⟩, ?_⟩
  · rintro ⟨warning, hwarning, hspan⟩ ⟨key, hsilent⟩
    obtain ⟨other, hother, hreported, hplace⟩ := hlint.mp hwarning
    obtain rfl : other = account := List.inj_on_of_nodup_map (nodup_span_accounts hvisits)
      hother hmem (by rw [hplace, hspan, hpiece])
    cases hreported.symm.trans hsilent
  · cases hfate : account.fate with
    | given events => simp [Account.isLiteral, hfate] at hliteral
    | silent key => exact absurd ⟨key, hfate⟩ hnot
    | reported defect =>
        have hwarning : ⟨defect, account.piece.span⟩ ∈ lint source :=
          hlint.mpr ⟨account, hmem, hfate, rfl⟩
        exact ⟨_, hwarning, by rw [hpiece]⟩
  · rintro ⟨key, hsilent⟩
    have hallowed := haccounts.allowed account hmem
    rw [hpiece, hsilent] at hallowed
    obtain ⟨opening, hopening, hanswer⟩ := haccounts.answered account hmem key hsilent
    have hwarning : ⟨.unclosed key, opening.piece.span⟩ ∈ lint source :=
      hlint.mpr ⟨opening, hopening, hanswer, rfl⟩
    cases hallowed with
    | silent hparse hpart => exact ⟨_, hwarning, key, hparse, rfl⟩

/-- The opener of a block that is parted and never closed is reported. -/
theorem reported_iff_not_partsBlock_opener :
    StaysLiteral "{{a}}x{{:a}}y".toList ⟨['a'], ⟨0, 5⟩⟩ ∧
      ¬ PartsBlock "{{a}}x{{:a}}y".toList ⟨['a'], ⟨0, 5⟩⟩ ∧
      ∃ warning ∈ lint "{{a}}x{{:a}}y".toList, warning.span = ⟨0, 5⟩ := by
  have hopener : Tag.parse ['a'] = .ok (.opener .conditional ['a']) := by decide +kernel
  have hparting : Tag.parse [':', 'a'] = .ok (.otherwise ['a']) := by decide +kernel
  have hliteral : StaysLiteral "{{a}}x{{:a}}y".toList ⟨['a'], ⟨0, 5⟩⟩ := by
    refine ⟨[], [⟨.text ['x'], ⟨5, 6⟩⟩, ⟨.tag [':', 'a'], ⟨6, 12⟩⟩, ⟨.text ['y'], ⟨12, 13⟩⟩], [],
      _, by decide +kernel, .nil, .literal _ hopener rfl, .cons (.text _ _)
        (.cons (.literal _ hparting rfl) (.single (.text _ _))), by decide +kernel⟩
  have hnot : ¬ PartsBlock "{{a}}x{{:a}}y".toList ⟨['a'], ⟨0, 5⟩⟩ := by
    rintro ⟨state, key, -, hparse, -⟩
    cases hopener.symm.trans hparse
  exact ⟨hliteral, hnot, (reported_iff_not_partsBlock hliteral).1.mpr hnot⟩

/-- A tag may stay literal without a warning: the `:key` tag of a block that is never closed. -/
theorem not_forall_literal_reported :
    ¬ ∀ source tag, StaysLiteral source tag →
      ∃ warning ∈ lint source, warning.span = tag.span := by
  intro h
  have hopener : Tag.parse ['a'] = .ok (.opener .conditional ['a']) := by decide +kernel
  have hparting : Tag.parse [':', 'a'] = .ok (.otherwise ['a']) := by decide +kernel
  have hliteral : StaysLiteral "{{a}}x{{:a}}y".toList ⟨[':', 'a'], ⟨6, 12⟩⟩ := by
    refine ⟨[⟨.tag ['a'], ⟨0, 5⟩⟩, ⟨.text ['x'], ⟨5, 6⟩⟩], [⟨.text ['y'], ⟨12, 13⟩⟩], _, _,
      by decide +kernel, .cons (.literal _ hopener rfl) (.single (.text _ _)),
      .literal _ hparting rfl, .single (.text _ _), by decide +kernel⟩
  have hlint : lint "{{a}}x{{:a}}y".toList = [⟨.unclosed ['a'], ⟨0, 5⟩⟩] := by decide +kernel
  obtain ⟨warning, hwarning, hspan⟩ := h _ _ hliteral
  rw [hlint, List.mem_singleton] at hwarning
  rw [hwarning] at hspan
  cases hspan

end Stencil
