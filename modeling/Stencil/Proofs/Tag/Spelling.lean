import Stencil.Proofs.Segment.Cutting
import Stencil.Proofs.Tag.Reading

/-!
# Reading undoes spelling

`Tag.spelling` writes a tag without spacing but for a blank after each comma. Read again, it is the
tag it was written from (`parse_spelling`), and between braces it is a clean piece
(`clean_spelling`), if its names and keys are paths and its quoted texts have no braces in pairs and
not both quotes.
-/

set_option autoImplicit false

namespace Stencil

/-! ## Spelling -/

/-- The sign of a block, which stands before its key; none for a conditional block. -/
def BlockKind.spelling : BlockKind → Text
  | .conditional => []
  | .negated => ['!']
  | .enumerate => ['@']
  | .scopeShift => ['>']

/-- An argument as it is written. The quote is the one that the text does not have. -/
def Argument.spelling : Argument → Text
  | .literal content =>
      let quote := if '"' ∈ content then '\x27' else '"'
      quote :: content ++ [quote]
  | .key name => name

/-- A tag as it is written between its braces. -/
def Tag.spelling : Tag → Text
  | .opener kind key => kind.spelling ++ key
  | .slot name => '#' :: name
  | .otherwise key => ':' :: key
  | .closer none => ['/']
  | .closer (some name) => '/' :: name
  | .inclusion name => '+' :: name
  | .parent name => '^' :: name
  | .value false key => '=' :: key
  | .value true key => '%' :: key
  | .call name arguments =>
      name ++ '(' :: (joinTexts [',', ' '] (arguments.map Argument.spelling) ++ [')'])

/-- An argument that can be written: a path, or a text without braces in pairs and without one of
the quotes. -/
def Argument.Writable : Argument → Prop
  | .literal content =>
      ¬ ['{', '{'] <:+: content ∧ ¬ ['}', '}'] <:+: content ∧
        ¬ ('"' ∈ content ∧ '\x27' ∈ content)
  | .key name => isPath name = true

/-- A tag that can be written: its names and keys are paths, and so on for its arguments. -/
def Tag.Writable : Tag → Prop
  | .opener _ key => isPath key = true
  | .slot name => isPath name = true
  | .otherwise key => isPath key = true
  | .closer none => True
  | .closer (some name) => isPath name = true
  | .inclusion name => isPath name = true
  | .parent name => isPath name = true
  | .value _ key => isPath key = true
  | .call name arguments => isPath name = true ∧ ∀ argument ∈ arguments, argument.Writable

/-! ## Reading -/

theorem Argument.Writable.writtenAs {argument : Argument} (h : argument.Writable) :
    argument.token.WrittenAs argument.spelling := by
  cases argument with
  | key name => exact .path h
  | literal content =>
      obtain ⟨-, -, hquotes⟩ := h
      unfold Argument.spelling
      by_cases hquote : '"' ∈ content
      · have hother : '\x27' ∉ content := fun hmem => hquotes ⟨hquote, hmem⟩
        simp only [hquote, if_true]
        exact .quoted rfl hother
      · simp only [hquote, if_false]
        exact .quoted rfl hquote

theorem writtenAs_arguments {arguments : List Argument}
    (h : ∀ argument ∈ arguments, argument.Writable) :
    WrittenAs (commaSeparated arguments ++ [.sign .closeParen])
      (joinTexts [',', ' '] (arguments.map Argument.spelling) ++ [')']) := by
  have hend : WrittenAs [.sign .closeParen] [')'] := .singleton (.sign .closeParen)
  induction arguments with
  | nil => exact hend
  | cons argument more ih =>
      rw [List.forall_mem_cons] at h
      cases more with
      | nil => exact .token_cons h.1.writtenAs hend
      | cons second more =>
          have hblank : isSpacing ' ' = true := rfl
          have hmore := WrittenAs.token_cons (.sign .comma) ((ih h.2).spacing_cons hblank)
          have hwritten := WrittenAs.token_cons h.1.writtenAs hmore
          simpa [joinTexts, Sign.char] using hwritten

namespace Tag

/-- What is written for a tag is one of its spellings. -/
theorem Writable.writtenAs {tag : Tag} (h : tag.Writable) :
    ∃ tokens, tag.SpelledBy tokens ∧ WrittenAs tokens tag.spelling := by
  -- a sign and a path, as most tags are
  have hpath : ∀ (sign : Sign) {name : Text}, isPath name = true →
      WrittenAs [.sign sign, .path name] (sign.char :: name) :=
    fun sign _ hname => .token_cons (.sign sign) (.singleton (.path hname))
  cases tag with
  | opener kind key =>
      refine ⟨_, .opener kind key, ?_⟩
      cases kind with
      | conditional => exact .singleton (.path h)
      | negated => exact hpath .bang h
      | enumerate => exact hpath .atSign h
      | scopeShift => exact hpath .angle h
  | slot name => exact ⟨_, .slot name, hpath .hash h⟩
  | otherwise key => exact ⟨_, .otherwise key, hpath .colon h⟩
  | closer name =>
      refine ⟨_, .closer none name [] (by simp) (Or.inl rfl), ?_⟩
      cases name with
      | none => exact .singleton (.sign .slash)
      | some name => exact hpath .slash h
  | inclusion name => exact ⟨_, .inclusion name, hpath .plus h⟩
  | parent name => exact ⟨_, .parent name, hpath .caret h⟩
  | value escape key =>
      cases escape with
      | false => exact ⟨_, .value key, hpath .equals h⟩
      | true => exact ⟨_, .escapedValue key, hpath .percent h⟩
  | call name arguments =>
      obtain ⟨hname, harguments⟩ := h
      refine ⟨_, .call name arguments [] (Or.inl rfl), ?_⟩
      rw [List.append_nil]
      exact .token_cons (.path hname)
        (.token_cons (.sign .openParen) (writtenAs_arguments harguments))

/-- **Reading undoes spelling.** -/
theorem parse_spelling {tag : Tag} (h : tag.Writable) : parse tag.spelling = .ok tag := by
  obtain ⟨tokens, hspelled, hwritten⟩ := h.writtenAs
  exact parse_of_writtenAs hspelled hwritten

end Tag

/-! ## Braces -/

/-- The character stands neither twice in a row nor at an end of the text. -/
structure Inside (c : Char) (t : Text) : Prop where
  noPair : NoPair c t
  head : ∀ a ∈ t.head?, a ≠ c
  last : ∀ a ∈ t.getLast?, a ≠ c

theorem inside_of_notMem {c : Char} {t : Text} (h : c ∉ t) : Inside c t := by
  refine ⟨noPair_of_notMem h, ?_, ?_⟩
  · rintro a ha rfl
    exact h (List.mem_of_mem_head? ha)
  · rintro a ha rfl
    exact h (List.mem_of_getLast? ha)

theorem Inside.append {c : Char} {s t : Text} (hs : Inside c s) (ht : Inside c t) :
    Inside c (s ++ t) := by
  refine ⟨noPair_append.mpr ⟨hs.noPair, ht.noPair, ?_⟩, ?_, ?_⟩
  · intro a ha b _ hpair
    exact hs.last a ha hpair.1
  · intro a ha
    cases s with
    | nil => exact ht.head a ha
    | cons b s => exact hs.head a ha
  · intro a ha
    rcases List.eq_nil_or_concat t with rfl | ⟨t, b, rfl⟩
    · exact hs.last a (by simpa using ha)
    · exact ht.last a (by simpa using ha)

/-- A text between two other characters. -/
theorem inside_quoted {c quote : Char} {t : Text} (h : NoPair c t) (hquote : quote ≠ c) :
    Inside c (quote :: t ++ [quote]) := by
  have hlast : (quote :: t ++ [quote]).getLast? = some quote := List.getLast?_concat
  refine ⟨?_, by simp [hquote], fun a ha => ?_⟩
  · refine noPair_append.mpr ⟨noPair_cons.mpr ⟨fun _ _ hpair => hquote hpair.1, h⟩,
      noPair_singleton c quote, ?_⟩
    intro a _ b hb hpair
    obtain rfl : quote = b := by simpa using hb
    exact hquote hpair.2
  · obtain rfl : quote = a := Option.some.inj (hlast.symm.trans ha)
    exact hquote

theorem Inside.joinTexts {c : Char} {separator : Text} (hseparator : Inside c separator)
    {texts : List Text} (h : ∀ t ∈ texts, Inside c t) : Inside c (joinTexts separator texts) := by
  induction texts with
  | nil => exact inside_of_notMem (by simp [Stencil.joinTexts])
  | cons t more ih =>
      rw [List.forall_mem_cons] at h
      cases more with
      | nil => exact h.1
      | cons second more => exact (h.1.append hseparator).append (ih h.2)

/-- The braces that a tag stands between are no part of a path. -/
theorem notMem_path {c : Char} (hc : c = '{' ∨ c = '}') {name : Text} (hname : isPath name = true) :
    c ∉ name := by
  have hpart : isPathPart c = false := by rcases hc with rfl | rfl <;> decide
  intro hmem
  rw [isPathPart_of_mem hname hmem] at hpart
  cases hpart

theorem inside_argument {c : Char} (hc : c = '{' ∨ c = '}') {argument : Argument}
    (h : argument.Writable) : Inside c argument.spelling := by
  cases argument with
  | key name => exact inside_of_notMem (notMem_path hc h)
  | literal content =>
      obtain ⟨hopen, hclose, -⟩ := h
      have hcontent : NoPair c content := by
        rw [noPair_iff]
        rcases hc with rfl | rfl
        · exact hopen
        · exact hclose
      unfold Argument.spelling
      by_cases hquote : '"' ∈ content
      · simp only [hquote, if_true]
        exact inside_quoted hcontent (by rcases hc with rfl | rfl <;> decide)
      · simp only [hquote, if_false]
        exact inside_quoted hcontent (by rcases hc with rfl | rfl <;> decide)

theorem inside_sign_path {c : Char} (hc : c = '{' ∨ c = '}') (sign : Sign) {name : Text}
    (hname : isPath name = true) : Inside c (sign.char :: name) := by
  have hsign : sign.char ≠ c := by rcases hc with rfl | rfl <;> cases sign <;> decide
  exact inside_of_notMem (by simp [hsign.symm, notMem_path hc hname])

theorem inside_spelling {c : Char} (hc : c = '{' ∨ c = '}') {tag : Tag} (h : tag.Writable) :
    Inside c tag.spelling := by
  cases tag with
  | opener kind key =>
      cases kind with
      | conditional => exact inside_of_notMem (notMem_path hc h)
      | negated => exact inside_sign_path hc .bang h
      | enumerate => exact inside_sign_path hc .atSign h
      | scopeShift => exact inside_sign_path hc .angle h
  | slot name => exact inside_sign_path hc .hash h
  | otherwise key => exact inside_sign_path hc .colon h
  | closer name =>
      cases name with
      | none => exact inside_of_notMem (by rcases hc with rfl | rfl <;> decide)
      | some name => exact inside_sign_path hc .slash h
  | inclusion name => exact inside_sign_path hc .plus h
  | parent name => exact inside_sign_path hc .caret h
  | value escape key =>
      cases escape with
      | false => exact inside_sign_path hc .equals h
      | true => exact inside_sign_path hc .percent h
  | call name arguments =>
      obtain ⟨hname, harguments⟩ := h
      have hends : Inside c ['('] ∧ Inside c [',', ' '] ∧ Inside c [')'] := by
        refine ⟨inside_of_notMem ?_, inside_of_notMem ?_, inside_of_notMem ?_⟩ <;>
          rcases hc with rfl | rfl <;> decide
      have hlist : Inside c (joinTexts [',', ' '] (arguments.map Argument.spelling)) := by
        refine Inside.joinTexts hends.2.1 ?_
        intro t ht
        obtain ⟨argument, hargument, rfl⟩ := List.mem_map.mp ht
        exact inside_argument hc (harguments argument hargument)
      have hall := (inside_of_notMem (notMem_path hc hname)).append
        (hends.1.append (hlist.append hends.2.2))
      exact hall

/-- **A written tag is a clean piece.** -/
theorem clean_spelling (tag : Tag) (h : tag.Writable) : (Segment.tag tag.spelling).Clean := by
  have hopen : Inside '{' tag.spelling := inside_spelling (Or.inl rfl) h
  have hclose : Inside '}' tag.spelling := inside_spelling (Or.inr rfl) h
  constructor
  · exact noPair_cons.mpr ⟨fun b hb hpair => hopen.head b hb hpair.2, hopen.noPair⟩
  · refine noPair_append.mpr ⟨hclose.noPair, noPair_singleton _ _, ?_⟩
    intro a ha b _ hpair
    exact hclose.last a ha hpair.1

end Stencil
