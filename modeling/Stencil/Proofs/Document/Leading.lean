import Stencil.Proofs.Nesting.Positions
import Stencil.Proofs.Segment.Scanning

/-!
# A parent named at the beginning

A template names a parent exactly if its first tag does and only blanks stand before that tag
(`FirstTag`). But for that tag, a template is read as a fragment is: the tree of the template is
that of the fragment that remains when the tag is taken out. Taking it out joins the blanks before
it to the text after it, and no tag comes of that, because blanks have no braces
(`segments_append_of_notMem`).
-/

set_option autoImplicit false

namespace Stencil

/-! ## Text before a source -/

theorem cutAtPair_append_of_notMem {c : Char} {before : Text} (h : c ∉ before) (t : Text) :
    cutAtPair c (before ++ t) = (cutAtPair c t).map fun cut => (before ++ cut.1, cut.2) := by
  induction before with
  | nil => cases h : cutAtPair c t <;> simp [h]
  | cons a before ih =>
      rw [List.mem_cons, not_or] at h
      rw [List.cons_append]
      cases hrest : before ++ t with
      | nil =>
          obtain ⟨-, rfl⟩ := List.append_eq_nil_iff.mp hrest
          rfl
      | cons b rest =>
          have hab : ¬ (a = c ∧ b = c) := fun hpair => h.1 hpair.1.symm
          rw [cutAtPair, if_neg hab, ← hrest, ih h.2, Option.map_map]
          rfl

/-- Text without an opening brace before a source becomes part of the text before its first tag. -/
theorem cutTag_append_of_notMem {before : Text} (h : '{' ∉ before) (source : Text) :
    cutTag (before ++ source)
      = (cutTag source).map fun cut => (before ++ cut.1, cut.2.1, cut.2.2) := by
  simp only [cutTag, Option.bind_eq_bind, Option.pure_def, cutAtPair_append_of_notMem h]
  cases cutAtPair '{' source with
  | none => rfl
  | some opened =>
      simp only [Option.map_some, Option.bind_some]
      cases cutAtPair '}' opened.2 with
      | none => rfl
      | some closed =>
          simp only [Option.bind_some]
          cases cutAtLastPair '{' ('{' :: '{' :: closed.1) with
          | none => rfl
          | some last =>
              simp only [Option.bind_some, Option.map_some, List.append_assoc]

/-- The pieces of a source with such a text before it: but for the text that the first one begins
with they are those of the source. -/
theorem segments_append_of_notMem {before : Text} (h : '{' ∉ before) (source : Text) :
    ∃ first rest, segments source = textSegment first ++ rest ∧
      segments (before ++ source) = textSegment (before ++ first) ++ rest := by
  have hcut := cutTag_append_of_notMem h source
  cases hsource : cutTag source with
  | none =>
      rw [hsource] at hcut
      refine ⟨source, [], ?_, ?_⟩
      · rw [segments_of_none hsource, List.append_nil]
      · rw [segments_of_none hcut, List.append_nil]
  | some cut =>
      obtain ⟨first, inner, after⟩ := cut
      rw [hsource] at hcut
      exact ⟨first, .tag inner :: segments after, segments_of_some hsource,
        segments_of_some hcut⟩

theorem notMem_of_isBlankText {t : Text} (h : isBlankText t = true) : '{' ∉ t := by
  intro hmem
  have hbrace : isBlank '{' = true := List.all_eq_true.mp h '{' hmem
  exact absurd hbrace (by decide)

/-! ## The first tag -/

/-- Is the piece a tag? -/
def Segment.isTag : Segment → Bool
  | .tag _ => true
  | .text _ => false

/-- The first tag of a source: what is before it, between its braces and after it, and the stretch
it covers. -/
structure FirstTag (source before inner after : Text) (span : Span) : Prop where
  found : (scan source).find? (·.item.isTag) = some ⟨.tag inner, span⟩
  source_eq : source = before ++ (Segment.tag inner).source ++ after
  start_eq : span.start = byteSize before

theorem find?_isTag_located (start : Nat) (content inner : Text) (rest : List Segment) :
    (located start (textSegment content ++ .tag inner :: rest)).find? (·.item.isTag)
      = some ⟨.tag inner, ⟨start + byteSize content,
          start + byteSize content + byteSize (Segment.tag inner).source⟩⟩ := by
  cases content with
  | nil => rfl
  | cons c content => rfl

theorem firstTag_of_cutTag {source before inner after : Text}
    (h : cutTag source = some (before, inner, after)) :
    FirstTag source before inner after
      ⟨byteSize before, byteSize before + byteSize (Segment.tag inner).source⟩ := by
  refine ⟨?_, eq_of_cutTag h, rfl⟩
  rw [scan, segments_of_some h, find?_isTag_located, Nat.zero_add]

/-- The first tag of a source is the one that is cut out first. -/
theorem FirstTag.cutTag_eq {source before inner after : Text} {span : Span}
    (h : FirstTag source before inner after span) :
    cutTag source = some (before, inner, after) ∧
      span = ⟨byteSize before, byteSize before + byteSize (Segment.tag inner).source⟩ := by
  cases hcut : cutTag source with
  | none =>
      have hnone : (scan source).find? (·.item.isTag) = none := by
        rw [scan, segments_of_none hcut]
        cases source <;> rfl
      rw [h.found] at hnone
      cases hnone
  | some cut =>
      obtain ⟨before', inner', after'⟩ := cut
      have hfirst := firstTag_of_cutTag hcut
      have heq := h.found.symm.trans hfirst.found
      simp only [Option.some.injEq, Located.mk.injEq, Segment.tag.injEq] at heq
      obtain ⟨rfl, rfl⟩ := heq
      have hboth : before ++ ((Segment.tag inner).source ++ after)
          = before' ++ ((Segment.tag inner).source ++ after') := by
        rw [← List.append_assoc, ← List.append_assoc, ← h.source_eq, ← hfirst.source_eq]
      obtain ⟨rfl, hafter⟩ := append_inj_of_byteSize_eq hboth h.start_eq.symm
      rw [List.append_cancel_left hafter]
      exact ⟨rfl, rfl⟩

/-! ## Reading up to the first tag -/

/-- The nodes with a text read after them. -/
def pushText (nodes : List Node) : Text → List Node
  | [] => nodes
  | content => pushNode nodes (.text content)

theorem pushText_pushText (nodes : List Node) (first second : Text) :
    pushText (pushText nodes first) second = pushText nodes (first ++ second) := by
  cases first with
  | nil => rfl
  | cons c first =>
      cases second with
      | nil => rw [List.append_nil]; rfl
      | cons d second => exact pushNode_text_text nodes (c :: first) (d :: second)

namespace Nesting

theorem foldl_read_textSegment {state : Nesting} (h : state.stack = []) (start : Nat)
    (content : Text) :
    (located start (textSegment content)).foldl read state
      = { state with
          leading := state.leading && isBlankText content
          root := pushText state.root content } := by
  cases content with
  | nil =>
      have hblank : isBlankText [] = true := rfl
      rw [hblank, Bool.and_true]
      rfl
  | cons c content =>
      simp only [textSegment, located, List.foldl_cons, List.foldl_nil, read, push, h]
      rfl

/-- The state in which the first tag of a source is read. -/
theorem foldl_read_scan {source before inner after : Text}
    (h : cutTag source = some (before, inner, after)) (state : Nesting)
    (hstack : state.stack = []) :
    (scan source).foldl read state
      = (located (byteSize before + byteSize (Segment.tag inner).source)
          (segments after)).foldl read
          (read { state with
              leading := state.leading && isBlankText before
              root := pushText state.root before }
            ⟨.tag inner,
              ⟨byteSize before, byteSize before + byteSize (Segment.tag inner).source⟩⟩) := by
  rw [scan, segments_of_some h, located_append, List.foldl_append,
    foldl_read_textSegment hstack, flatMap_source_textSegment, Nat.zero_add]
  rfl

end Nesting

open Nesting

/-! ## The parent -/

/-- Where no parent may be named none is. -/
theorem namedParent_of_mem_marked_false {items : List Segment} :
    ∀ piece ∈ marked false items, namedParent piece = none := by
  induction items with
  | nil => simp [marked]
  | cons item items ih =>
      rw [marked, List.forall_mem_cons]
      exact ⟨rfl, ih⟩

/-- Once a parent may not be named any more, the one that was named stays. -/
theorem parent_foldl_read_of_not_leading (pieces : List (Located Segment)) {state : Nesting}
    (h : state.leading = false) : (pieces.foldl read state).parent = state.parent := by
  induction pieces generalizing state with
  | nil => rfl
  | cons piece pieces ih =>
      have hread := heading_read state piece
      rw [h, Bool.and_false, Bool.false_and] at hread
      simp only [heading, Prod.mk.injEq] at hread
      rw [List.foldl_cons, ih hread.2.1, hread.2.2]
      rfl

theorem parent_parse (source : Text) :
    (Document.parse source).parent = ((scan source).foldl read (.start true)).parent :=
  parent_unwindTo _ _

/-- The parent of a template is the one that its first tag names, if a parent may be named there. -/
theorem parent_parse_of_cutTag {source before inner after : Text}
    (h : cutTag source = some (before, inner, after)) :
    (Document.parse source).parent
      = (namedParent (isBlankText before, .tag inner)).map fun name => ⟨name,
          ⟨byteSize before, byteSize before + byteSize (Segment.tag inner).source⟩⟩ := by
  have hread := heading_read
    { Nesting.start true with
      leading := (Nesting.start true).leading && isBlankText before
      root := pushText (Nesting.start true).root before }
    ⟨.tag inner, ⟨byteSize before, byteSize before + byteSize (Segment.tag inner).source⟩⟩
  simp only [heading, Prod.mk.injEq] at hread
  obtain ⟨-, hleading, hparent⟩ := hread
  have hclosed := hleading.trans (Bool.and_false _)
  rw [parent_parse, foldl_read_scan h (.start true) rfl,
    parent_foldl_read_of_not_leading _ hclosed, hparent]
  cases hnamed : namedParent (isBlankText before, .tag inner) with
  | none => simp [Nesting.start, hnamed]
  | some name => simp [Nesting.start, hnamed]

theorem parent_parse_of_noTag {source : Text} (h : cutTag source = none) :
    (Document.parse source).parent = none := by
  have hread := @foldl_read_textSegment (.start true) rfl 0 source
  rw [parent_parse, scan, segments_of_none h, hread]
  rfl

/-- **The place of a parent**: a template names a parent exactly if its first tag names one and only
blanks stand before it. -/
theorem parent_parse_eq_some_iff {source name : Text} {span : Span} :
    (Document.parse source).parent = some ⟨name, span⟩ ↔
      ∃ before inner after, FirstTag source before inner after span ∧
        isBlankText before = true ∧ Tag.parse inner = .ok (.parent name) := by
  constructor
  · intro h
    cases hcut : cutTag source with
    | none =>
        rw [parent_parse_of_noTag hcut] at h
        cases h
    | some cut =>
        obtain ⟨before, inner, after⟩ := cut
        rw [parent_parse_of_cutTag hcut] at h
        rcases namedParent_tag (isBlankText before) inner with
          ⟨named, hblank, hparse, hnamed⟩ | ⟨-, hnamed⟩
        · rw [hnamed] at h
          obtain ⟨rfl, rfl⟩ := by simpa using h
          exact ⟨before, inner, after, firstTag_of_cutTag hcut, hblank, hparse⟩
        · rw [hnamed] at h
          cases h
  · rintro ⟨before, inner, after, hfirst, hblank, hparse⟩
    obtain ⟨hcut, rfl⟩ := hfirst.cutTag_eq
    have hnamed : namedParent (true, .tag inner) = some name := by
      simp only [namedParent, hparse]
    rw [parent_parse_of_cutTag hcut, hblank, hnamed]
    rfl

/-! ## The tree -/

/-- Runs that end in the same tree give the same tree. -/
theorem root_readAll_eq {whole whole' : Bool} {source source' : Text}
    (h : SameShape ((scan source).foldl read (.start whole))
      ((scan source').foldl read (.start whole'))) :
    (readAll whole source).root = (readAll whole' source').root :=
  (h.unwindTo SameShape.seesShape_none).root

/-- A template that names no parent is read as a fragment is. -/
theorem nodes_parse_of_parent_eq_none {source : Text}
    (h : (Document.parse source).parent = none) :
    (Document.parse source).nodes = parseFragment source := by
  have hstart : SameShape (.start true) (.start false) := ⟨rfl, .nil⟩
  refine root_readAll_eq (hstart.foldl_read (segments source) 0 0 ?_
    namedParent_of_mem_marked_false)
  have hparent := @parentName_foldl_read (scan source) (.start true) (fun _ => rfl)
  rw [← parent_parse, h, scan, map_item_located] at hparent
  exact List.findSome?_eq_none_iff.mp hparent.symm

/-- A template that names a parent is read as the fragment that remains without the tag that does.
-/
theorem nodes_parse_of_firstTag {source before inner after name : Text} {span : Span}
    (hfirst : FirstTag source before inner after span) (hblank : isBlankText before = true)
    (hparse : Tag.parse inner = .ok (.parent name)) :
    (Document.parse source).nodes = parseFragment (before ++ after) := by
  obtain ⟨hcut, -⟩ := hfirst.cutTag_eq
  obtain ⟨first, rest, hafter, hjoined⟩ :=
    segments_append_of_notMem (notMem_of_isBlankText hblank) after
  have hread : read { Nesting.start true with
        leading := (Nesting.start true).leading && isBlankText before
        root := pushText (Nesting.start true).root before }
      ⟨.tag inner, ⟨byteSize before, byteSize before + byteSize (Segment.tag inner).source⟩⟩
      = { Nesting.start true with
          leading := false
          parent := some ⟨name,
            ⟨byteSize before, byteSize before + byteSize (Segment.tag inner).source⟩⟩
          root := pushText [] before } := by
    simp [Nesting.read, hparse, readTag, Nesting.start, hblank]
  refine root_readAll_eq ?_
  rw [foldl_read_scan hcut (.start true) rfl, hread, scan, hjoined, hafter, located_append,
    located_append, List.foldl_append, List.foldl_append, foldl_read_textSegment rfl,
    foldl_read_textSegment rfl]
  -- the text after the tag joins the blanks before it, and what follows is read after both
  exact SameShape.foldl_read ⟨pushText_pushText [] before first, .nil⟩ rest _ _
    namedParent_of_mem_marked_false namedParent_of_mem_marked_false

/-- **Templates and fragments are read alike.** A template has a parent exactly if its first tag
names one, with nothing but blanks before it; the parent is then located where that tag stands, and
the tree is that of the fragment without the tag. Otherwise the tree is that of the fragment. -/
theorem parse_eq_parseFragment (source : Text) :
    let document := Document.parse source
    (∀ name span, document.parent = some ⟨name, span⟩ ↔
      ∃ before inner after, FirstTag source before inner after span ∧
        isBlankText before = true ∧ Tag.parse inner = .ok (.parent name)) ∧
    (∀ before inner after name span, FirstTag source before inner after span →
      isBlankText before = true → Tag.parse inner = .ok (.parent name) →
      document.nodes = parseFragment (before ++ after)) ∧
    (document.parent = none → document.nodes = parseFragment source) := by
  intro document
  refine ⟨?_, ?_, nodes_parse_of_parent_eq_none⟩
  · intro name span
    exact parent_parse_eq_some_iff
  · intro before inner after name span hfirst hblank hparse
    exact nodes_parse_of_firstTag hfirst hblank hparse

/-- Two parents that are named one after the other: the second is text, joined to what stands around
it. -/
example :
    let document := Document.parse " {{^p}}x{{^q}}y".toList
    document.parentName = some ['p'] ∧ document.nodes = [.text " x{{^q}}y".toList] ∧
      parseFragment " x{{^q}}y".toList = [.text " x{{^q}}y".toList] := by
  cbv

end Stencil
