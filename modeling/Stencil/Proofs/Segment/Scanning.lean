import Stencil.Proofs.Segment.Cutting
import Stencil.Proofs.Text.Places

/-!
# The tags of a source

A tag stands at a stretch of a source if two braces open it, two braces close it, and what is
between them neither has such a pair in it nor lengthens one at its ends (`TagAt`). `scan` finds the
tags that stand in the source and no others: it is the only way to tile the source with tags that
stand there and texts that are not side by side (`segmentation_iff_eq_scan`).

That no tag is missed is not seen from the search, which may begin at a `{{` long before the tag.
It follows from cutting being undone by putting together: the pieces before a tag, the tag, and the
pieces after it are clean, so they are the pieces of the whole source.
-/

set_option autoImplicit false

namespace Stencil

/-! ## Where the searches end -/

theorem NoPair.inside {c : Char} {s t : Text} (h : NoPair c t) (hst : s <:+: t) : NoPair c s :=
  List.IsChain.infix h hst

/-- Another character before a text makes no pair. -/
theorem noPair_cons_of_ne {c a : Char} {t : Text} (ha : a ≠ c) :
    NoPair c (a :: t) ↔ NoPair c t := by
  rw [noPair_cons]
  exact and_iff_right fun b _ hpair => ha hpair.1

theorem not_noPair_append (c : Char) (before after : Text) :
    ¬ NoPair c (before ++ c :: c :: after) := by
  rw [noPair_iff, not_not]
  exact ⟨before, after, by simp⟩

theorem noPair_of_cutAtPair_eq_none {c : Char} {t : Text} (h : cutAtPair c t = none) :
    NoPair c t := by
  induction t with
  | nil => exact noPair_nil c
  | cons a t ih =>
      cases t with
      | nil => exact noPair_singleton c a
      | cons b rest =>
          rw [cutAtPair] at h
          by_cases hab : a = c ∧ b = c
          · rw [if_pos hab] at h
            cases h
          · rw [if_neg hab, Option.map_eq_none_iff] at h
            refine noPair_cons.mpr ⟨?_, ih h⟩
            rintro d ⟨⟩
            exact hab

/-- Before the first pair there is none, not even one that overlaps it. -/
theorem noPair_of_cutAtPair {c : Char} {t before after : Text}
    (h : cutAtPair c t = some (before, after)) : NoPair c (before ++ [c]) := by
  induction t generalizing before with
  | nil => cases h
  | cons a t ih =>
      cases t with
      | nil => cases h
      | cons b rest =>
          rw [cutAtPair] at h
          by_cases hab : a = c ∧ b = c
          · rw [if_pos hab] at h
            cases h
            exact noPair_singleton c c
          · rw [if_neg hab] at h
            obtain ⟨⟨front, back⟩, hcut, heq⟩ := Option.map_eq_some_iff.mp h
            cases heq
            have hsplit : b :: rest = front ++ c :: c :: back := eq_of_cutAtPair hcut
            have hhead : (front ++ [c]).head? = some b := by
              have hfirst := congrArg List.head? hsplit
              cases front with
              | nil => simpa using hfirst.symm
              | cons d front => simpa using hfirst.symm
            rw [List.cons_append, noPair_cons, hhead]
            refine ⟨?_, ih hcut⟩
            rintro d ⟨⟩
            exact hab

theorem noPair_of_cutAtLastPair_eq_none {c : Char} {t : Text} (h : cutAtLastPair c t = none) :
    NoPair c t := by
  induction t with
  | nil => exact noPair_nil c
  | cons a t ih =>
      cases t with
      | nil => exact noPair_singleton c a
      | cons b rest =>
          rw [cutAtLastPair] at h
          cases hcut : cutAtLastPair c (b :: rest) with
          | some cut => simp [hcut] at h
          | none =>
              have hab : ¬ (a = c ∧ b = c) := by simpa [hcut] using h
              refine noPair_cons.mpr ⟨?_, ih hcut⟩
              rintro d ⟨⟩
              exact hab

/-- After the last pair there is none, not even one that overlaps it. -/
theorem noPair_of_cutAtLastPair {c : Char} {t before after : Text}
    (h : cutAtLastPair c t = some (before, after)) : NoPair c (c :: after) := by
  induction t generalizing before with
  | nil => cases h
  | cons a t ih =>
      cases t with
      | nil => cases h
      | cons b rest =>
          rw [cutAtLastPair] at h
          cases hcut : cutAtLastPair c (b :: rest) with
          | some cut =>
              obtain ⟨front, back⟩ := cut
              simp only [hcut, Option.some.injEq, Prod.mk.injEq] at h
              obtain ⟨-, rfl⟩ := h
              exact ih hcut
          | none =>
              simp only [hcut] at h
              by_cases hab : a = c ∧ b = c
              · rw [if_pos hab] at h
                cases h
                obtain rfl : b = c := hab.2
                exact noPair_of_cutAtLastPair_eq_none hcut
              · rw [if_neg hab] at h
                cases h

/-- No pair begins before the first one. -/
theorem prefix_of_cutAtPair {c : Char} {t before after other more : Text}
    (h : cutAtPair c t = some (before, after)) (ht : t = other ++ c :: c :: more) :
    before <+: other := by
  have hbefore : before ++ [c] <+: t := ⟨c :: after, by rw [eq_of_cutAtPair h]; simp⟩
  have hother : other ++ [c, c] <+: t := ⟨more, by rw [ht]; simp⟩
  have hlength : before.length ≤ other.length := by
    by_contra hlt
    have hle : (other ++ [c, c]).length ≤ (before ++ [c]).length := by
      simp only [List.length_append, List.length_cons, List.length_nil]
      omega
    have hpair : other ++ [c, c] <+: before ++ [c] :=
      List.prefix_of_prefix_length_le hother hbefore hle
    exact not_noPair_append c other [] ((noPair_of_cutAtPair h).inside hpair.isInfix)
  exact List.prefix_of_prefix_length_le ((List.prefix_append before [c]).trans hbefore)
    ((List.prefix_append other [c, c]).trans hother) hlength

/-! ## Pieces that are cut out are clean -/

/-- The text has no whole tag in it: no `{{` with a `}}` after it. -/
def NoTag (t : Text) : Prop := ∀ inner, ¬ (Segment.tag inner).source <:+: t

/-- Where no tag is found there is none. -/
theorem noTag_of_cutTag_eq_none {t : Text} (h : cutTag t = none) : NoTag t := by
  rintro inner ⟨other, more, hsplit⟩
  have ht : t = other ++ '{' :: '{' :: (inner ++ '}' :: '}' :: more) := by
    rw [← hsplit]
    simp [Segment.source]
  cases hopen : cutAtPair '{' t with
  | none =>
      have hnone := noPair_of_cutAtPair_eq_none hopen
      rw [ht] at hnone
      exact not_noPair_append _ _ _ hnone
  | some cut =>
      obtain ⟨before, opened⟩ := cut
      obtain ⟨skipped, rfl⟩ := prefix_of_cutAtPair hopen ht
      have heq : '{' :: '{' :: opened
          = (skipped ++ '{' :: '{' :: inner) ++ '}' :: '}' :: more := by
        have hboth := (eq_of_cutAtPair hopen).symm.trans ht
        rw [List.append_assoc] at hboth
        simpa using List.append_cancel_left hboth
      cases hclose : cutAtPair '}' opened with
      | none =>
          have hnone : NoPair '}' ('{' :: '{' :: opened) := by
            rw [noPair_cons_of_ne (by decide), noPair_cons_of_ne (by decide)]
            exact noPair_of_cutAtPair_eq_none hclose
          rw [heq] at hnone
          exact not_noPair_append _ _ _ hnone
      | some cut =>
          -- both braces are found, so the search does give a tag
          obtain ⟨toCloser, after⟩ := cut
          cases hlast : cutAtLastPair '{' ('{' :: '{' :: toCloser) with
          | none => exact not_noPair_append '{' [] _ (noPair_of_cutAtLastPair_eq_none hlast)
          | some cut => simp [cutTag, hopen, hclose, hlast] at h

/-- The first tag is clean, and before it there is no other. -/
theorem clean_of_cutTag {t before inner after : Text}
    (h : cutTag t = some (before, inner, after)) :
    (Segment.tag inner).Clean ∧ NoTag before := by
  simp only [cutTag, Option.bind_eq_bind, Option.pure_def, Option.bind_eq_some_iff] at h
  obtain ⟨⟨front, opened⟩, hopen, ⟨toCloser, rest⟩, hclose, ⟨skipped, last⟩, hlast, heq⟩ := h
  obtain ⟨rfl, rfl, rfl⟩ := by simpa using heq
  simp only at hopen hclose hlast
  have hskipped : '{' :: '{' :: toCloser = skipped ++ '{' :: '{' :: last :=
    eq_of_cutAtLastPair hlast
  have hnone : NoPair '}' ('{' :: '{' :: toCloser ++ ['}']) := by
    rw [List.cons_append, List.cons_append, noPair_cons_of_ne (by decide),
      noPair_cons_of_ne (by decide)]
    exact noPair_of_cutAtPair hclose
  refine ⟨⟨noPair_of_cutAtLastPair hlast, ?_⟩, ?_⟩
  · refine hnone.inside ?_
    rw [hskipped]
    exact ⟨skipped ++ ['{', '{'], [], by simp⟩
  · -- the closer of a tag before this one would have been found first
    rintro other ⟨first, more, hsplit⟩
    have ht : t = first ++ '{' :: '{' ::
        (other ++ '}' :: '}' :: (more ++ '{' :: '{' :: (last ++ '}' :: '}' :: rest))) := by
      calc t = front ++ ('{' :: '{' :: toCloser) ++ '}' :: '}' :: rest := by
              rw [eq_of_cutAtPair hopen, eq_of_cutAtPair hclose]
              simp
        _ = (front ++ skipped) ++ '{' :: '{' :: (last ++ '}' :: '}' :: rest) := by
              rw [hskipped]
              simp
        _ = _ := by
              rw [← hsplit]
              simp [Segment.source]
    obtain ⟨between, rfl⟩ := prefix_of_cutAtPair hopen ht
    have hbetween : skipped = (between ++ '{' :: '{' :: other) ++ '}' :: '}' :: more := by
      rw [List.append_assoc, List.append_assoc] at hsplit
      simpa [Segment.source] using (List.append_cancel_left hsplit).symm
    rw [hskipped, hbetween, List.append_assoc, List.append_assoc] at hnone
    exact not_noPair_append _ _ _ hnone

theorem clean_of_mem_textSegment {content : Text} {piece : Segment} (h : NoTag content)
    (hpiece : piece ∈ textSegment content) : piece.Clean := by
  cases content with
  | nil => cases hpiece
  | cons c content =>
      obtain rfl := List.mem_singleton.mp hpiece
      exact ⟨List.cons_ne_nil c content, h⟩

/-- The pieces of any source are clean. -/
theorem clean_segments (source : Text) : ∀ piece ∈ segments source, piece.Clean := by
  fun_induction segments source with
  | case1 source hcut =>
      exact fun piece => clean_of_mem_textSegment (noTag_of_cutTag_eq_none hcut)
  | case2 source before inner after hcut ih =>
      obtain ⟨htag, hbefore⟩ := clean_of_cutTag hcut
      rw [List.forall_mem_append, List.forall_mem_cons]
      exact ⟨fun piece => clean_of_mem_textSegment hbefore, htag, ih⟩

theorem isChain_textSegment (content : Text) :
    (textSegment content).IsChain Segment.Apart := by
  cases content with
  | nil => exact .nil
  | cons c content => exact .singleton _

/-- No two texts of a source stand side by side. -/
theorem isChain_segments (source : Text) : (segments source).IsChain Segment.Apart := by
  fun_induction segments source with
  | case1 source hcut => exact isChain_textSegment source
  | case2 source before inner after hcut ih =>
      exact (isChain_append_tag _ _ _).mpr ⟨isChain_textSegment before, ih⟩

/-- **No tag is missed**: wherever a clean tag stands, it is one of the pieces, and the others are
the pieces before it and those after it. -/
theorem segments_append_tag {inner : Text} (h : (Segment.tag inner).Clean) (before after : Text) :
    segments (before ++ (Segment.tag inner).source ++ after)
      = segments before ++ .tag inner :: segments after := by
  have hclean : ∀ piece ∈ segments before ++ .tag inner :: segments after, piece.Clean := by
    rw [List.forall_mem_append, List.forall_mem_cons]
    exact ⟨clean_segments before, h, clean_segments after⟩
  have hapart : (segments before ++ .tag inner :: segments after).IsChain Segment.Apart :=
    (isChain_append_tag _ _ _).mpr ⟨isChain_segments before, isChain_segments after⟩
  have hcut := segments_flatMap_source hclean hapart
  rw [List.flatMap_append, List.flatMap_cons, flatMap_source_segments, flatMap_source_segments,
    ← List.append_assoc] at hcut
  exact hcut

/-! ## Segmentations -/

/-- The pieces cover the bytes from `start` up to `stop`, each from where the one before it ended,
and none of them is empty. -/
def Tiles : Nat → List (Located Segment) → Nat → Prop
  | start, [], stop => start = stop
  | start, piece :: rest, stop =>
      piece.span.start = start ∧ start < piece.span.stop ∧ Tiles piece.span.stop rest stop

/-- A tag stands in the source at the stretch: two braces, a text, and two braces. The text has no
pair of opening or closing braces in it, does not begin with an opening brace and does not end with
a closing one. -/
structure TagAt (source : Text) (span : Span) (inner : Text) : Prop where
  stands : StandsAt source span (['{', '{'] ++ inner ++ ['}', '}'])
  opener : ¬ ['{', '{'] <:+: inner
  closer : ¬ ['}', '}'] <:+: inner
  first : inner.head? ≠ some '{'
  last : inner.getLast? ≠ some '}'

/-- The pieces tile the source, each standing where it says, with no two texts side by side, and its
tags are the tags that stand in the source. -/
structure Segmentation (source : Text) (pieces : List (Located Segment)) : Prop where
  tiles : Tiles 0 pieces (byteSize source)
  stands : ∀ piece ∈ pieces, StandsAt source piece.span piece.item.source
  apart : (pieces.map (·.item)).IsChain Segment.Apart
  tags : ∀ inner span, ⟨.tag inner, span⟩ ∈ pieces ↔ TagAt source span inner

theorem tagAt_iff {source inner : Text} {span : Span} :
    TagAt source span inner
      ↔ StandsAt source span (Segment.tag inner).source ∧ (Segment.tag inner).Clean := by
  have hopener : NoPair '{' ('{' :: inner)
      ↔ inner.head? ≠ some '{' ∧ ¬ ['{', '{'] <:+: inner := by
    rw [noPair_cons, noPair_iff]
    cases inner.head? <;> simp
  have hcloser : NoPair '}' (inner ++ ['}'])
      ↔ ¬ ['}', '}'] <:+: inner ∧ inner.getLast? ≠ some '}' := by
    rw [noPair_append, noPair_iff]
    cases inner.getLast? <;> simp [noPair_singleton]
  rw [Segment.Clean, hopener, hcloser]
  constructor
  · intro h
    exact ⟨h.stands, ⟨h.first, h.opener⟩, h.closer, h.last⟩
  · rintro ⟨hstands, ⟨hfirst, hopen⟩, hclose, hlast⟩
    exact ⟨hstands, hopen, hclose, hfirst, hlast⟩

/-! ## Tilings -/

section Tilings

variable {start stop : Nat} {source : Text} {pieces : List (Located Segment)}

theorem Tiles.bounds (h : Tiles start pieces stop) :
    ∀ piece ∈ pieces, start ≤ piece.span.start ∧ piece.span.start < piece.span.stop := by
  induction pieces generalizing start with
  | nil => simp
  | cons piece rest ih =>
      obtain ⟨hstart, hlt, hrest⟩ := h
      rw [List.forall_mem_cons]
      refine ⟨by omega, fun other hother => ?_⟩
      have hbounds := ih hrest other hother
      omega

/-- Two pieces of a tiling have no byte in common. -/
theorem Tiles.disjoint (h : Tiles start pieces stop) {first second : Located Segment}
    (hfirst : first ∈ pieces) (hsecond : second ∈ pieces) (hne : first ≠ second) :
    first.span.stop ≤ second.span.start ∨ second.span.stop ≤ first.span.start := by
  induction pieces generalizing start with
  | nil => cases hfirst
  | cons piece rest ih =>
      obtain ⟨-, -, hrest⟩ := h
      rcases List.mem_cons.mp hfirst with rfl | hfirst'
      · rcases List.mem_cons.mp hsecond with rfl | hsecond'
        · exact absurd rfl hne
        · exact Or.inl (hrest.bounds second hsecond').1
      · rcases List.mem_cons.mp hsecond with rfl | hsecond'
        · exact Or.inr (hrest.bounds first hfirst').1
        · exact ih hrest hfirst' hsecond'

/-- No two pieces of a tiling cover the same bytes. -/
theorem Tiles.nodup_span (h : Tiles start pieces stop) : (pieces.map (·.span)).Nodup := by
  induction pieces generalizing start with
  | nil => exact List.nodup_nil
  | cons piece rest ih =>
      obtain ⟨hstart, hlt, hrest⟩ := h
      rw [List.map_cons, List.nodup_cons]
      refine ⟨fun hmem => ?_, ih hrest⟩
      obtain ⟨other, hother, hspan⟩ := List.mem_map.mp hmem
      have hbounds := (hrest.bounds other hother).1
      rw [hspan] at hbounds
      omega

theorem tiles_located {items : List Segment} (h : ∀ piece ∈ items, piece.source ≠ []) :
    Tiles start (located start items) (start + byteSize (items.flatMap Segment.source)) := by
  induction items generalizing start with
  | nil => rfl
  | cons piece rest ih =>
      rw [List.forall_mem_cons] at h
      have hpos := byteSize_pos h.1
      have hrest := @ih (start + byteSize piece.source) h.2
      rw [Nat.add_assoc, ← byteSize_append] at hrest
      exact ⟨rfl, Nat.lt_add_of_pos_right hpos, hrest⟩

/-- Pieces that are put together stand where they are located. -/
theorem standsAt_located {items : List Segment} {before : Text}
    (h : source = before ++ items.flatMap Segment.source) :
    ∀ piece ∈ located (byteSize before) items, StandsAt source piece.span piece.item.source := by
  induction items generalizing before with
  | nil => simp [located]
  | cons piece rest ih =>
      rw [List.flatMap_cons, ← List.append_assoc] at h
      rw [located, List.forall_mem_cons]
      refine ⟨⟨before, rest.flatMap Segment.source, h, rfl⟩, ?_⟩
      have hrest := ih h
      rw [byteSize_append] at hrest
      exact hrest

/-- A tiling of a source is made of pieces that are located one after the other, and these give the
source when they are put together. -/
theorem eq_located_of_tiles {before rest : Text} (hsource : source = before ++ rest)
    (htiles : Tiles (byteSize before) pieces (byteSize source))
    (hstands : ∀ piece ∈ pieces, StandsAt source piece.span piece.item.source) :
    pieces = located (byteSize before) (pieces.map (·.item)) ∧
      (pieces.map (·.item)).flatMap Segment.source = rest := by
  induction pieces generalizing before rest with
  | nil =>
      have hsize : byteSize before = byteSize source := htiles
      have hrest := append_inj_of_byteSize_eq ((List.append_nil source).trans hsource) hsize.symm
      exact ⟨rfl, hrest.2⟩
  | cons piece more ih =>
      obtain ⟨hstart, -, htiles⟩ := htiles
      rw [List.forall_mem_cons] at hstands
      obtain ⟨⟨first, last, hsplit, hspan⟩, hstands⟩ := hstands
      -- the piece begins at the byte where what is before it ends, so it is cut off there
      have hfirst : byteSize first = byteSize before := by rw [← hstart, hspan]
      have hboth : first ++ (piece.item.source ++ last) = before ++ rest := by
        rw [← List.append_assoc, ← hsplit, hsource]
      obtain ⟨rfl, rfl⟩ := append_inj_of_byteSize_eq hboth hfirst
      rw [← byteSize_append] at hspan
      rw [hspan] at htiles
      obtain ⟨hmore, hflat⟩ := ih hsplit htiles hstands
      refine ⟨?_, by rw [List.map_cons, List.flatMap_cons, hflat]⟩
      rw [List.map_cons, located, ← byteSize_append, ← hmore, ← hspan]

end Tilings

/-! ## The one segmentation -/

theorem mem_scan_tag_iff {source inner : Text} {span : Span} :
    ⟨.tag inner, span⟩ ∈ scan source ↔ TagAt source span inner := by
  have hstands : ∀ piece ∈ scan source, StandsAt source piece.span piece.item.source :=
    @standsAt_located source (segments source) [] (flatMap_source_segments source).symm
  rw [tagAt_iff]
  constructor
  · intro h
    have hmem : .tag inner ∈ (scan source).map (·.item) := List.mem_map_of_mem h
    rw [scan, map_item_located] at hmem
    exact ⟨hstands _ h, clean_segments source _ hmem⟩
  · rintro ⟨⟨before, after, rfl, rfl⟩, hclean⟩
    rw [scan, segments_append_tag hclean, located_append, flatMap_source_segments, Nat.zero_add]
    exact List.mem_append_right _ List.mem_cons_self

/-- The pieces that `scan` finds are a segmentation. -/
theorem segmentation_scan (source : Text) : Segmentation source (scan source) := by
  have hflat : source = [] ++ (segments source).flatMap Segment.source :=
    (flatMap_source_segments source).symm
  refine ⟨?_, standsAt_located hflat, ?_, fun inner span => mem_scan_tag_iff⟩
  · have htiles := @tiles_located 0 (segments source) fun piece hpiece => by
      have hclean := clean_segments source piece hpiece
      cases piece with
      | text content => exact hclean.1
      | tag inner => simp [Segment.source]
    rw [flatMap_source_segments, Nat.zero_add] at htiles
    exact htiles
  · rw [scan, map_item_located]
    exact isChain_segments source

/-- In a segmentation no text has a whole tag in it: the first one inside it would be a piece of its
own. -/
theorem Segmentation.noTag {source content : Text} {pieces : List (Located Segment)} {span : Span}
    (h : Segmentation source pieces) (hmem : ⟨.text content, span⟩ ∈ pieces) : NoTag content := by
  refine noTag_of_cutTag_eq_none (Option.eq_none_iff_forall_ne_some.mpr ?_)
  rintro ⟨before, inner, after⟩ hcut
  have hstands : StandsAt source span content := h.stands _ hmem
  rw [eq_of_cutTag hcut] at hstands
  have htag := (h.tags inner _).mpr (tagAt_iff.mpr ⟨hstands.inside, (clean_of_cutTag hcut).1⟩)
  have hdisjoint := h.tiles.disjoint hmem htag (by simp)
  obtain ⟨first, last, -, rfl⟩ := hstands
  -- the tag lies inside the text, and it is not empty
  have hpos : 0 < byteSize (Segment.tag inner).source := byteSize_pos (by simp [Segment.source])
  simp only [byteSize_append] at hdisjoint
  omega

/-- A segmentation has clean pieces. -/
theorem Segmentation.clean {source : Text} {pieces : List (Located Segment)}
    (h : Segmentation source pieces) : ∀ piece ∈ pieces.map (·.item), piece.Clean := by
  intro item hitem
  obtain ⟨⟨item, span⟩, hmem, rfl⟩ := List.mem_map.mp hitem
  cases item with
  | text content =>
      refine ⟨?_, h.noTag hmem⟩
      rintro rfl
      obtain ⟨before, after, -, hspan⟩ := h.stands _ hmem
      have hlt := (h.tiles.bounds _ hmem).2
      rw [hspan] at hlt
      simp [Segment.source, byteSize] at hlt
  | tag inner => exact (tagAt_iff.mp ((h.tags inner span).mp hmem)).2

/-- **The tags of a source are found, and nothing else.** The pieces that `scan` gives are the one
segmentation of the source. Each tag is reported with the stretch between its braces, no two tags
overlap, and no text has a `{{` in it with a `}}` after that. -/
theorem segmentation_iff_eq_scan (source : Text) :
    (∀ pieces, Segmentation source pieces ↔ pieces = scan source) ∧
    (∀ inner span, ⟨.tag inner, span⟩ ∈ scan source → StandsAt source span.inner inner) ∧
    (∀ inner span other otherSpan, TagAt source span inner → TagAt source otherSpan other →
      span ≠ otherSpan → span.stop ≤ otherSpan.start ∨ otherSpan.stop ≤ span.start) ∧
    ∀ content span, ⟨.text content, span⟩ ∈ scan source →
      ¬ ∃ before between after,
        content = before ++ ['{', '{'] ++ between ++ ['}', '}'] ++ after := by
  refine ⟨fun pieces => ⟨fun h => ?_, ?_⟩, ?_, ?_, ?_⟩
  · obtain ⟨hpieces, hflat⟩ := @eq_located_of_tiles source pieces [] source rfl h.tiles h.stands
    have hitems : segments source = pieces.map (·.item) := by
      rw [← segments_flatMap_source h.clean h.apart, hflat]
    rw [hpieces, ← hitems]
    rfl
  · rintro rfl
    exact segmentation_scan source
  · intro inner span hmem
    have hstands := (mem_scan_tag_iff.mp hmem).stands
    obtain ⟨before, after, -, rfl⟩ := id hstands
    have hinner := hstands.inside
    have hbraces : byteSize ['{', '{'] = 2 ∧ byteSize ['}', '}'] = 2 := by decide
    simp only [Span.inner, byteSize_append, hbraces] at hinner ⊢
    convert hinner using 2
    omega
  · intro inner span other otherSpan htag hother hne
    refine (segmentation_scan source).tiles.disjoint (mem_scan_tag_iff.mpr htag)
      (mem_scan_tag_iff.mpr hother) ?_
    rintro ⟨⟩
    exact hne rfl
  · rintro content span hmem ⟨before, between, after, hsplit⟩
    exact (segmentation_scan source).noTag hmem between ⟨before, after, by
      rw [hsplit]
      simp [Segment.source]⟩

end Stencil
