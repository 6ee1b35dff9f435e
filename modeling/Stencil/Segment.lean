import Stencil.Text

/-!
# Segments

A template source is literal text with tags in it. A tag runs from `{{` to the nearest `}}` after
it; when several `{{` stand before that `}}`, the last of them opens the tag and what precedes it
is text. `segments` cuts a source into texts and tags, and `located` adds the stretch of source
that each piece covers. Nothing is lost: `flatMap_source_segments` puts the source together again.
-/

set_option autoImplicit false

namespace Stencil

/-- A piece of a template source. -/
inductive Segment where
  /-- Literal text. -/
  | text (content : Text)
  /-- A tag, by what stands between its braces. -/
  | tag (inner : Text)
deriving DecidableEq, Repr

/-- The source text of a piece, braces included. -/
def Segment.source : Segment → Text
  | .text content => content
  | .tag inner => ['{', '{'] ++ inner ++ ['}', '}']

/-! ## Finding the braces -/

/-- A text cut at the first place where a character stands twice in a row: what is before the
pair and what is after it. -/
def cutAtPair (c : Char) : Text → Option (Text × Text)
  | a :: b :: rest =>
    if a = c ∧ b = c then some ([], rest)
    else (cutAtPair c (b :: rest)).map fun cut => (a :: cut.1, cut.2)
  | _ => none

/-- A text cut at the last place where a character stands twice in a row. -/
def cutAtLastPair (c : Char) : Text → Option (Text × Text)
  | a :: b :: rest =>
    match cutAtLastPair c (b :: rest) with
    | some cut => some (a :: cut.1, cut.2)
    | none => if a = c ∧ b = c then some ([], rest) else none
  | _ => none

theorem eq_of_cutAtPair {c : Char} {t before after : Text}
    (h : cutAtPair c t = some (before, after)) : t = before ++ c :: c :: after := by
  induction t generalizing before with
  | nil => simp [cutAtPair] at h
  | cons a t ih =>
    cases t with
    | nil => simp [cutAtPair] at h
    | cons b rest =>
      rw [cutAtPair] at h
      split at h
      · next hab =>
        obtain ⟨rfl, rfl⟩ := hab
        obtain ⟨rfl, rfl⟩ := by simpa using h
        rfl
      · obtain ⟨⟨l, r⟩, hl, hcut⟩ := Option.map_eq_some_iff.mp h
        obtain ⟨rfl, rfl⟩ := by simpa using hcut
        rw [ih hl, List.cons_append]

theorem eq_of_cutAtLastPair {c : Char} {t before after : Text}
    (h : cutAtLastPair c t = some (before, after)) : t = before ++ c :: c :: after := by
  induction t generalizing before with
  | nil => simp [cutAtLastPair] at h
  | cons a t ih =>
    cases t with
    | nil => simp [cutAtLastPair] at h
    | cons b rest =>
      rw [cutAtLastPair] at h
      split at h
      · next cut hl =>
        obtain ⟨rfl, rfl⟩ := by simpa using h
        rw [ih hl, List.cons_append]
      · split at h
        · next hab =>
          obtain ⟨rfl, rfl⟩ := hab
          obtain ⟨rfl, rfl⟩ := by simpa using h
          rfl
        · simp at h

/-! ## Cutting a source -/

/-- The first tag of a source: the text before it, what stands between its braces, and the source
after it. -/
def cutTag (source : Text) : Option (Text × Text × Text) := do
  let (before, opened) ← cutAtPair '{' source
  let (toCloser, after) ← cutAtPair '}' opened
  -- the search for the last opener begins with the one found first, so it always succeeds
  let (skipped, inner) ← cutAtLastPair '{' ('{' :: '{' :: toCloser)
  return (before ++ skipped, inner, after)

theorem eq_of_cutTag {source before inner after : Text}
    (h : cutTag source = some (before, inner, after)) :
    source = before ++ (Segment.tag inner).source ++ after := by
  simp only [cutTag, Option.bind_eq_bind, Option.pure_def, Option.bind_eq_some_iff] at h
  obtain ⟨⟨b, opened⟩, hb, ⟨toCloser, a⟩, hc, ⟨skipped, i⟩, hs, heq⟩ := h
  obtain ⟨rfl, rfl, rfl⟩ := by simpa using heq
  have e1 := eq_of_cutAtPair hb
  have e2 := eq_of_cutAtPair hc
  have e3 := eq_of_cutAtLastPair hs
  simp only at e1 e2 e3
  rw [e1, e2, Segment.source]
  calc b ++ '{' :: '{' :: (toCloser ++ '}' :: '}' :: a)
      = b ++ ('{' :: '{' :: toCloser) ++ '}' :: '}' :: a := by simp
    _ = b ++ (skipped ++ '{' :: '{' :: i) ++ '}' :: '}' :: a := by rw [e3]
    _ = _ := by simp

theorem length_lt_of_cutTag {source before inner after : Text}
    (h : cutTag source = some (before, inner, after)) : after.length < source.length := by
  have e := congrArg List.length (eq_of_cutTag h)
  simp [Segment.source] at e
  omega

/-- A text as a segment; no segment for the empty text. -/
def textSegment : Text → List Segment
  | [] => []
  | content => [.text content]

theorem flatMap_source_textSegment (content : Text) :
    (textSegment content).flatMap Segment.source = content := by
  cases content with
  | nil => rfl
  | cons c content => simp [textSegment, Segment.source]

/-- The texts and tags of a source, in order. -/
def segments (source : Text) : List Segment :=
  match _h : cutTag source with
  | none => textSegment source
  | some (before, inner, after) => textSegment before ++ .tag inner :: segments after
termination_by source.length
decreasing_by exact length_lt_of_cutTag _h

/-- The pieces of a source, put together, are the source. -/
theorem flatMap_source_segments (source : Text) :
    (segments source).flatMap Segment.source = source := by
  fun_induction segments source with
  | case1 source h => exact flatMap_source_textSegment source
  | case2 source before inner after h ih =>
    rw [List.flatMap_append, List.flatMap_cons, flatMap_source_textSegment, ih, eq_of_cutTag h,
      List.append_assoc]

/-! ## Positions -/

/-- Pieces that follow one another from a position on, each with the stretch it covers. -/
def located (start : Nat) : List Segment → List (Located Segment)
  | [] => []
  | segment :: rest =>
    let stop := start + byteSize segment.source
    ⟨segment, ⟨start, stop⟩⟩ :: located stop rest

/-- What stands between the braces of a tag that covers the span. -/
def Span.inner (span : Span) : Span := ⟨span.start + 2, span.stop - 2⟩

/-- The texts and tags of a source with the stretches they cover. -/
def scan (source : Text) : List (Located Segment) := located 0 (segments source)

theorem map_item_located (start : Nat) (pieces : List Segment) :
    (located start pieces).map (·.item) = pieces := by
  induction pieces generalizing start with
  | nil => rfl
  | cons piece rest ih => simp [located, ih]

theorem located_append (start : Nat) (first second : List Segment) :
    located start (first ++ second)
      = located start first
        ++ located (start + byteSize (first.flatMap Segment.source)) second := by
  induction first generalizing start with
  | nil => rfl
  | cons piece first ih =>
    rw [List.cons_append, located, located, ih, List.flatMap_cons, byteSize_append,
      Nat.add_assoc, List.cons_append]

end Stencil
