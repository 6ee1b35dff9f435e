import Stencil.Proofs.Segment.Scanning

/-!
# Cutting a source by bytes

A span counts bytes, and a source can be cut only between two of its characters. `slice?` cuts out
the text of a span and has no answer if the span is out of range, reversed, or ends inside a
character. A text that stands in the source at a span is what `slice?` cuts out
(`slice?_eq_some_iff`).

`scanFrom?` is the scan by byte positions: it cuts the source again and again, at positions that it
finds by searching what was cut out before. It has an answer for every source, the pieces of `scan`
(`scan?_eq`).
-/

set_option autoImplicit false

namespace Stencil

/-! ## Slices -/

/-- A text without its first bytes, if these are whole characters. -/
def dropBytes? : Nat → Text → Option Text
  | n, [] => if n = 0 then some [] else none
  | n, c :: rest =>
    if n = 0 then some (c :: rest)
    else if n < c.utf8Size then none
    else dropBytes? (n - c.utf8Size) rest

/-- The first bytes of a text, if these are whole characters. -/
def takeBytes? : Nat → Text → Option Text
  | n, [] => if n = 0 then some [] else none
  | n, c :: rest =>
    if n = 0 then some []
    else if n < c.utf8Size then none
    else (takeBytes? (n - c.utf8Size) rest).map (c :: ·)

/-- The text of a span. -/
def slice? (source : Text) (span : Span) : Option Text :=
  if span.start ≤ span.stop then
    (dropBytes? span.start source).bind (takeBytes? (span.stop - span.start))
  else none

theorem dropBytes?_eq_some_iff {n : Nat} {source rest : Text} :
    dropBytes? n source = some rest ↔ ∃ before, source = before ++ rest ∧ n = byteSize before := by
  constructor
  · intro h
    induction source generalizing n with
    | nil =>
        by_cases hn : n = 0
        · rw [dropBytes?, if_pos hn, Option.some.injEq] at h
          exact ⟨[], by rw [← h]; rfl, hn⟩
        · rw [dropBytes?, if_neg hn] at h
          cases h
    | cons c source ih =>
        by_cases hn : n = 0
        · rw [dropBytes?, if_pos hn, Option.some.injEq] at h
          exact ⟨[], by rw [← h]; rfl, hn⟩
        · by_cases hwhole : n < c.utf8Size
          · rw [dropBytes?, if_neg hn, if_pos hwhole] at h
            cases h
          · rw [dropBytes?, if_neg hn, if_neg hwhole] at h
            obtain ⟨before, rfl, hsize⟩ := ih h
            exact ⟨c :: before, rfl, by rw [byteSize]; omega⟩
  · rintro ⟨before, rfl, rfl⟩
    induction before with
    | nil => cases rest <;> simp [dropBytes?, byteSize]
    | cons c before ih =>
        have hpos := c.utf8Size_pos
        have hsize : byteSize (c :: before) - c.utf8Size = byteSize before := by simp [byteSize]
        have hzero : ¬ byteSize (c :: before) = 0 := by rw [byteSize]; omega
        have hwhole : ¬ byteSize (c :: before) < c.utf8Size := by rw [byteSize]; omega
        rw [List.cons_append, dropBytes?, if_neg hzero, if_neg hwhole, hsize, ih]

theorem takeBytes?_eq_some_iff {n : Nat} {source t : Text} :
    takeBytes? n source = some t ↔ ∃ after, source = t ++ after ∧ n = byteSize t := by
  constructor
  · intro h
    induction source generalizing n t with
    | nil =>
        by_cases hn : n = 0
        · rw [takeBytes?, if_pos hn, Option.some.injEq] at h
          subst h
          exact ⟨[], rfl, hn⟩
        · rw [takeBytes?, if_neg hn] at h
          cases h
    | cons c source ih =>
        by_cases hn : n = 0
        · rw [takeBytes?, if_pos hn, Option.some.injEq] at h
          subst h
          exact ⟨c :: source, rfl, hn⟩
        · by_cases hwhole : n < c.utf8Size
          · rw [takeBytes?, if_neg hn, if_pos hwhole] at h
            cases h
          · rw [takeBytes?, if_neg hn, if_neg hwhole, Option.map_eq_some_iff] at h
            obtain ⟨t, ht, rfl⟩ := h
            obtain ⟨after, rfl, hsize⟩ := ih ht
            exact ⟨after, rfl, by rw [byteSize]; omega⟩
  · rintro ⟨after, rfl, rfl⟩
    induction t with
    | nil => cases after <;> simp [takeBytes?, byteSize]
    | cons c t ih =>
        have hpos := c.utf8Size_pos
        have hsize : byteSize (c :: t) - c.utf8Size = byteSize t := by simp [byteSize]
        have hzero : ¬ byteSize (c :: t) = 0 := by rw [byteSize]; omega
        have hwhole : ¬ byteSize (c :: t) < c.utf8Size := by rw [byteSize]; omega
        rw [List.cons_append, takeBytes?, if_neg hzero, if_neg hwhole, hsize, ih, Option.map_some]

/-- **What can be cut out at a span is what stands there**, and nothing else can be. -/
theorem slice?_eq_some_iff {source t : Text} {span : Span} :
    slice? source span = some t ↔ StandsAt source span t := by
  obtain ⟨start, stop⟩ := span
  constructor
  · intro h
    by_cases hle : start ≤ stop
    · simp only [slice?, if_pos hle, Option.bind_eq_some_iff] at h
      obtain ⟨rest, hdrop, htake⟩ := h
      obtain ⟨before, rfl, rfl⟩ := dropBytes?_eq_some_iff.mp hdrop
      obtain ⟨after, rfl, hsize⟩ := takeBytes?_eq_some_iff.mp htake
      refine ⟨before, after, (List.append_assoc _ _ _).symm, ?_⟩
      rw [Span.mk.injEq]
      exact ⟨rfl, by omega⟩
    · simp only [slice?, if_neg hle] at h
      cases h
  · rintro ⟨before, after, rfl, hspan⟩
    obtain ⟨rfl, rfl⟩ := Span.mk.inj hspan
    have hdrop : dropBytes? (byteSize before) (before ++ t ++ after) = some (t ++ after) :=
      dropBytes?_eq_some_iff.mpr ⟨before, List.append_assoc _ _ _, rfl⟩
    have htake : takeBytes? (byteSize before + byteSize t - byteSize before) (t ++ after)
        = some t :=
      takeBytes?_eq_some_iff.mpr ⟨after, rfl, by omega⟩
    simp only [slice?, if_pos (Nat.le_add_right _ _), hdrop, Option.bind_some, htake]

/-! ## The scan by byte positions -/

/-- Where a character first stands twice in a row, in bytes. -/
def findPair? (c : Char) (t : Text) : Option Nat := (cutAtPair c t).map fun cut => byteSize cut.1

/-- Where a character last stands twice in a row, in bytes. -/
def findLastPair? (c : Char) (t : Text) : Option Nat :=
  (cutAtLastPair c t).map fun cut => byteSize cut.1

/-- The text of a span as a piece; no piece for an empty span. -/
def textAt? (source : Text) (span : Span) : Option (List (Located Segment)) :=
  if span.start < span.stop then
    (slice? source span).map fun content => [⟨.text content, span⟩]
  else some []

/-- The next tag from a position on: where its opener and its closer stand. -/
def nextTag? (source : Text) (position : Nat) : Option (Option (Nat × Nat)) := do
  let rest ← slice? source ⟨position, byteSize source⟩
  match findPair? '{' rest with
  | none => return none
  | some toOpener =>
    let first := position + toOpener
    let opened ← slice? source ⟨first + 2, byteSize source⟩
    match findPair? '}' opened with
    | none => return none
    | some toCloser =>
      let closer := first + 2 + toCloser
      let between ← slice? source ⟨first, closer⟩
      return some (first + (findLastPair? '{' between).getD 0, closer)

/-- The pieces of a source from a position on, at most so many tags and a text behind them. -/
def scanFrom? (source : Text) : Nat → Nat → Option (List (Located Segment))
  | 0, _ => none
  | tags + 1, position => do
    match ← nextTag? source position with
    | none => textAt? source ⟨position, byteSize source⟩
    | some (opener, closer) =>
      let before ← textAt? source ⟨position, opener⟩
      let inner ← slice? source ⟨opener + 2, closer⟩
      let more ← scanFrom? source tags (closer + 2)
      return before ++ ⟨.tag inner, ⟨opener, closer + 2⟩⟩ :: more

/-- The pieces of a source; it has fewer tags than characters, and one for the text behind them. -/
def scan? (source : Text) : Option (List (Located Segment)) :=
  scanFrom? source (source.length + 1) 0

section Scan

variable {source : Text}

theorem textAt?_of_standsAt {span : Span} {content : Text} (h : StandsAt source span content) :
    textAt? source span = some (located span.start (textSegment content)) := by
  have hslice := slice?_eq_some_iff.mpr h
  obtain ⟨before, after, -, rfl⟩ := h
  cases content with
  | nil => simp [textAt?, textSegment, located, byteSize]
  | cons c content =>
      have hpos : 0 < byteSize (c :: content) := byteSize_pos (by simp)
      rw [textAt?, if_pos (by simp only; omega), hslice]
      rfl

/-- What stands between two positions, found by what is before it and behind it. -/
theorem slice?_of_append {start stop : Nat} (before t after : Text)
    (hsource : source = before ++ t ++ after) (hstart : start = byteSize before)
    (hstop : stop = start + byteSize t) : slice? source ⟨start, stop⟩ = some t := by
  subst hstart hstop
  exact slice?_eq_some_iff.mpr ⟨before, after, hsource, rfl⟩

/-- The search for the last opener begins with one, so it finds one. -/
theorem exists_cutAtLastPair (c : Char) (t : Text) :
    ∃ skipped inner, cutAtLastPair c (c :: c :: t) = some (skipped, inner) := by
  cases h : cutAtLastPair c (c :: c :: t) with
  | none => exact absurd (noPair_of_cutAtLastPair_eq_none h) (not_noPair_append c [] t)
  | some cut => exact ⟨cut.1, cut.2, rfl⟩

theorem byteSize_openers (t : Text) : byteSize ('{' :: '{' :: t) = 2 + byteSize t := by
  have hbrace : '{'.utf8Size = 1 := by decide
  rw [byteSize, byteSize, hbrace]
  omega

theorem byteSize_source_tag (inner : Text) :
    byteSize (Segment.tag inner).source = 2 + byteSize inner + 2 := by
  have hcloser : byteSize ['}', '}'] = 2 := by decide
  rw [Segment.source, List.append_assoc, List.cons_append, List.cons_append, List.nil_append,
    byteSize_openers, byteSize_append, hcloser, Nat.add_assoc]

/-- What stands between the braces of a tag. -/
theorem StandsAt.inner {inner : Text} {span : Span}
    (h : StandsAt source span (Segment.tag inner).source) : StandsAt source span.inner inner := by
  obtain ⟨before, after, rfl, rfl⟩ := h
  refine ⟨before ++ ['{', '{'], ['}', '}'] ++ after, by simp [Segment.source], ?_⟩
  have hopener : byteSize ['{', '{'] = 2 := by decide
  simp only [Span.inner, byteSize_source_tag, byteSize_append, hopener]
  rw [Span.mk.injEq]
  exact ⟨rfl, by omega⟩

theorem nextTag?_eq {before rest : Text} (hsource : source = before ++ rest) :
    nextTag? source (byteSize before)
      = some ((cutTag rest).map fun cut =>
          (byteSize before + byteSize cut.1,
            byteSize before + byteSize cut.1 + 2 + byteSize cut.2.1)) := by
  have hsize : byteSize source = byteSize before + byteSize rest := by
    rw [hsource, byteSize_append]
  have hrest : slice? source ⟨byteSize before, byteSize source⟩ = some rest :=
    slice?_of_append before rest [] (by rw [hsource, List.append_nil]) rfl hsize
  cases hopener : cutAtPair '{' rest with
  | none => simp [nextTag?, hrest, findPair?, hopener, cutTag]
  | some cut =>
      obtain ⟨front, opened⟩ := cut
      have hfront : rest = front ++ '{' :: '{' :: opened := eq_of_cutAtPair hopener
      have hopened : slice? source ⟨byteSize before + byteSize front + 2, byteSize source⟩
          = some opened := by
        refine slice?_of_append (before ++ front ++ ['{', '{']) opened [] ?_ ?_ ?_
        · simp [hsource, hfront]
        · rw [byteSize_append, byteSize_append, byteSize_openers, byteSize]
        · rw [hsize, hfront, byteSize_append, byteSize_openers]
          omega
      cases hcloser : cutAtPair '}' opened with
      | none => simp [nextTag?, hrest, findPair?, hopener, hopened, hcloser, cutTag]
      | some cut =>
          obtain ⟨toCloser, after⟩ := cut
          have hclosed : opened = toCloser ++ '}' :: '}' :: after := eq_of_cutAtPair hcloser
          have hbetween : slice? source ⟨byteSize before + byteSize front,
              byteSize before + byteSize front + 2 + byteSize toCloser⟩
                = some ('{' :: '{' :: toCloser) := by
            refine slice?_of_append (before ++ front) _ ('}' :: '}' :: after) ?_ ?_ ?_
            · simp [hsource, hfront, hclosed]
            · rw [byteSize_append]
            · rw [byteSize_openers, Nat.add_assoc]
          obtain ⟨skipped, inner, hlast⟩ := exists_cutAtLastPair '{' toCloser
          -- both cuts at the last opener leave the closer where it is
          have hcloserAt : 2 + byteSize toCloser = byteSize skipped + (2 + byteSize inner) := by
            rw [← byteSize_openers toCloser, ← byteSize_openers inner, ← byteSize_append,
              ← eq_of_cutAtLastPair hlast]
          simp only [nextTag?, hrest, findPair?, hopener, hopened, hcloser, hbetween, findLastPair?,
            hlast, cutTag, byteSize_append, Option.bind_eq_bind, Option.bind_some, Option.map_some,
            Option.getD_some, Option.pure_def, Option.some.injEq, Prod.mk.injEq]
          omega

/-- **The scan by byte positions has an answer for every source**, the pieces of the scan. -/
theorem scanFrom?_eq {tags : Nat} {before rest : Text} (hsource : source = before ++ rest)
    (htags : rest.length < tags) :
    scanFrom? source tags (byteSize before)
      = some (located (byteSize before) (segments rest)) := by
  induction tags generalizing before rest with
  | zero => omega
  | succ tags ih =>
      have hnext := nextTag?_eq hsource
      cases hcut : cutTag rest with
      | none =>
          have hlast : textAt? source ⟨byteSize before, byteSize source⟩
              = some (located (byteSize before) (textSegment rest)) := by
            refine textAt?_of_standsAt ⟨before, [], by rw [hsource, List.append_nil], ?_⟩
            rw [hsource, byteSize_append]
          simp [scanFrom?, hnext, hcut, hlast, segments_of_none hcut]
      | some cut =>
          obtain ⟨text, inner, after⟩ := cut
          have hrest : rest = text ++ (Segment.tag inner).source ++ after := eq_of_cutTag hcut
          have htext : textAt? source ⟨byteSize before, byteSize before + byteSize text⟩
              = some (located (byteSize before) (textSegment text)) := by
            refine textAt?_of_standsAt ⟨before, (Segment.tag inner).source ++ after, ?_, rfl⟩
            simp [hsource, hrest]
          have hinner : slice? source ⟨byteSize before + byteSize text + 2,
              byteSize before + byteSize text + 2 + byteSize inner⟩ = some inner := by
            refine slice?_of_append (before ++ text ++ ['{', '{']) inner (['}', '}'] ++ after)
              ?_ ?_ rfl
            · simp [hsource, hrest, Segment.source]
            · rw [byteSize_append, byteSize_append, byteSize_openers, byteSize]
          have htag : byteSize before + byteSize text + byteSize (Segment.tag inner).source
              = byteSize before + byteSize text + 2 + byteSize inner + 2 := by
            rw [byteSize_source_tag]
            omega
          have hstop : byteSize (before ++ (text ++ (Segment.tag inner).source))
              = byteSize before + byteSize text + 2 + byteSize inner + 2 := by
            rw [byteSize_append, byteSize_append, ← Nat.add_assoc, htag]
          have hmore : scanFrom? source tags
              (byteSize before + byteSize text + 2 + byteSize inner + 2)
                = some (located (byteSize before + byteSize text + 2 + byteSize inner + 2)
                  (segments after)) := by
            have hshort := length_lt_of_cutTag hcut
            have hsplit : source = before ++ (text ++ (Segment.tag inner).source) ++ after := by
              rw [hsource, hrest, List.append_assoc before]
            have hafter := ih hsplit (by omega)
            rwa [hstop] at hafter
          simp only [scanFrom?, hnext, hcut, htext, hinner, hmore, segments_of_some hcut,
            located_append, located, flatMap_source_textSegment, htag, Option.bind_eq_bind,
            Option.map_some, Option.bind_some, Option.pure_def]

theorem scan?_eq (source : Text) : scan? source = some (scan source) :=
  @scanFrom?_eq source (source.length + 1) [] source rfl (Nat.lt_succ_self _)

end Scan

end Stencil
