import Mathlib.Data.List.TakeWhile
import Stencil.Proofs.Text.Places
import Stencil.Proofs.Token.Writing

/-!
# Tokens tile the inside of a tag

What the lexer answers, told without reading from left to right. Tokens tile a text
(`Tokenization`) if each stands in the text at its span, as long as it can be, if no two spans
overlap, and if there is nothing but spacing outside them. The lexer succeeds with the tokens that
tile its input, and otherwise fails at the first place where no token can begin (`lex_exact`).

A path is as long as it can be only with an eye on what comes behind it. So the text that is tiled
has another text that follows it: of `a.b` the first character is tiled by itself, but not where
`.b` follows.
-/

set_option autoImplicit false

namespace Stencil

/-! ## Tilings -/

/-- The token stands in the text at its span, as long as it can be. The text begins at byte
`start`, and `follow` comes behind it. -/
def Located.TokenOf (start : Nat) (text follow : Text) (token : Located Token) : Prop :=
  ∃ before source after, text = before ++ source ++ after ∧ token.item.WrittenAs source ∧
    token.item.EndsBefore (after ++ follow) ∧
    token.span = ⟨start + byteSize before, start + byteSize before + byteSize source⟩

/-- The tokens tile the text that begins at byte `start` and has `follow` behind it. -/
structure Tokenization (start : Nat) (text follow : Text) (tokens : List (Located Token)) :
    Prop where
  stands : ∀ token ∈ tokens, token.TokenOf start text follow
  nonempty : ∀ token ∈ tokens, token.span.start < token.span.stop
  apart : tokens.Pairwise fun first second => first.span.stop ≤ second.span.start
  spacing : ∀ before c after, text = before ++ c :: after →
    (∀ token ∈ tokens, start + byteSize before < token.span.start ∨
      token.span.stop ≤ start + byteSize before) → isSpacing c = true

/-- Does a token begin the text? -/
def BeginsToken (text : Text) : Prop :=
  ∃ (token : Token) (source after : Text), text = source ++ after ∧ token.WrittenAs source

/-- The character between the two texts is the first place of the input where nothing can be read:
the text before it is tiled, and the character is no spacing and begins no token. -/
structure FirstStop (input before : Text) (c : Char) (rest : Text)
    (tokens : List (Located Token)) : Prop where
  split : input = before ++ c :: rest
  lexed : lex before = .ok tokens
  tiled : Tokenization 0 before (c :: rest) tokens
  notSpacing : isSpacing c = false
  beginsNone : ¬ BeginsToken (c :: rest)

/-! ## What is read at a place -/

theorem Token.endsBefore_sign (sign : Sign) (rest : Text) : EndsBefore (.sign sign) rest := by
  intro name hname
  cases hname

theorem Token.endsBefore_quoted (content rest : Text) : EndsBefore (.quoted content) rest := by
  intro name hname
  cases hname

theorem Token.EndsBefore.of_append {token : Token} {rest follow : Text}
    (h : token.EndsBefore (rest ++ follow)) : token.EndsBefore rest := by
  intro name hname c hc
  refine h name hname c ?_
  rw [Option.mem_def] at hc
  simp [List.head?_append, hc]

/-- No token begins with spacing. -/
theorem Token.WrittenAs.not_spacing {token : Token} {c : Char} {source : Text}
    (h : token.WrittenAs (c :: source)) : isSpacing c = false := by
  cases h with
  | sign sign => cases sign <;> rfl
  | path hname =>
      simp only [isPath, Bool.and_eq_true] at hname
      exact not_spacing_of_isPathStart hname.1
  | quoted hquote hcontent => exact (plain_of_isQuote hquote).1

theorem char_of_ofChar? {c : Char} {sign : Sign} (h : Sign.ofChar? c = some sign) :
    sign.char = c := by
  unfold Sign.ofChar? at h
  split at h <;> cases h <;> rfl

/-- The characters a token can begin with. -/
theorem BeginsToken.head {c : Char} {rest : Text} (h : BeginsToken (c :: rest)) :
    (∃ sign, Sign.ofChar? c = some sign) ∨ isPathStart c = true ∨ isQuote c = true ∧ c ∈ rest := by
  obtain ⟨token, source, after, htext, htoken⟩ := h
  cases htoken with
  | sign sign =>
      obtain ⟨rfl, -⟩ := List.cons.inj htext
      exact .inl ⟨sign, Sign.ofChar?_char sign⟩
  | path hname =>
      cases source with
      | nil => cases hname
      | cons d source =>
          obtain ⟨rfl, -⟩ := List.cons.inj htext
          simp only [isPath, Bool.and_eq_true] at hname
          exact .inr (.inl hname.1)
  | quoted hquote hcontent =>
      obtain ⟨rfl, rfl⟩ := List.cons.inj htext
      exact .inr (.inr ⟨hquote, by simp⟩)

theorem cutAt_eq_none {c : Char} {t : Text} (h : c ∉ t) : cutAt c t = none := by
  induction t with
  | nil => rfl
  | cons a t ih =>
      simp only [List.mem_cons, not_or] at h
      rw [cutAt, if_neg (Ne.symm h.1), ih h.2]
      rfl

/-- A path that goes on as far as it can. -/
theorem path_takeWhile {c : Char} (h : isPathStart c = true) (rest : Text) :
    Token.WrittenAs (.path (c :: rest.takeWhile isPathPart)) (c :: rest.takeWhile isPathPart) ∧
      Token.EndsBefore (.path (c :: rest.takeWhile isPathPart)) (rest.dropWhile isPathPart) := by
  refine ⟨.path ?_, fun name _ d hd => ?_⟩
  · simp only [isPath, h, Bool.true_and, List.all_eq_true]
    exact fun d hd => List.mem_takeWhile_imp hd
  · have hhead := List.head?_dropWhile_not isPathPart rest
    rw [Option.mem_def.1 hd] at hhead
    simpa using hhead

/-- What the lexer reads where a tag goes on with `c` and `rest`: spacing, a token that ends before
what is left, or nothing, because no token begins there. -/
theorem readAt_cases (c : Char) (rest : Text) :
    (isSpacing c = true ∧ readAt c rest = .spacing rest) ∨
    (∃ token source after, c :: rest = source ++ after ∧ token.WrittenAs source ∧
      token.EndsBefore after ∧ readAt c rest = .token token source after) ∨
    (isSpacing c = false ∧ ¬ BeginsToken (c :: rest) ∧ ∃ source, readAt c rest = .stuck source ∧
      (isQuote c = true ∧ c ∉ rest ∧ source = c :: rest ∨ isQuote c = false ∧ source = [c])) := by
  by_cases hspacing : isSpacing c = true
  · exact .inl ⟨hspacing, by simp [readAt, hspacing]⟩
  rw [Bool.not_eq_true] at hspacing
  -- A token is read where one begins; the three kinds differ in their first character.
  have htoken (token : Token) (source after : Text) (hrest : rest = source ++ after)
      (hwritten : token.WrittenAs (c :: source)) (hends : token.EndsBefore after) :
      ∃ token source after, c :: rest = source ++ after ∧ token.WrittenAs source ∧
        token.EndsBefore after ∧ readAt c rest = .token token source after := by
    subst hrest
    exact ⟨token, c :: source, after, rfl, hwritten, hends, hwritten.readAt hends⟩
  cases hsign : Sign.ofChar? c with
  | some sign =>
      obtain rfl := char_of_ofChar? hsign
      exact .inr (.inl (htoken _ [] rest rfl (.sign sign) (Token.endsBefore_sign sign rest)))
  | none =>
      by_cases hstart : isPathStart c = true
      · obtain ⟨hwritten, hends⟩ := path_takeWhile hstart rest
        exact .inr (.inl (htoken _ _ _ List.takeWhile_append_dropWhile.symm hwritten hends))
      by_cases hclosed : isQuote c = true ∧ c ∈ rest
      · obtain ⟨content, after, hrest, hcontent⟩ := List.eq_append_cons_of_mem hclosed.2
        exact .inr (.inl (htoken _ (content ++ [c]) after (by simp [hrest])
          (.quoted hclosed.1 hcontent) (Token.endsBefore_quoted content after)))
      · have hnone : ¬ BeginsToken (c :: rest) := by
          intro hbegins
          obtain ⟨sign, hsome⟩ | hpath | hquoted := hbegins.head
          · rw [hsign] at hsome
            cases hsome
          · exact hstart hpath
          · exact hclosed hquoted
        refine .inr (.inr ⟨hspacing, hnone, ?_⟩)
        by_cases hquote : isQuote c = true
        · have hrest : c ∉ rest := fun hmem => hclosed ⟨hquote, hmem⟩
          refine ⟨c :: rest, ?_, .inl ⟨hquote, hrest, rfl⟩⟩
          simp [readAt, hspacing, hsign, hstart, hquote, cutAt_eq_none hrest]
        · rw [Bool.not_eq_true] at hquote
          refine ⟨[c], ?_, .inr ⟨hquote, rfl⟩⟩
          simp [readAt, hspacing, hsign, hstart, hquote]

/-! ## Tilings side by side -/

section

variable {start : Nat} {first rest follow : Text} {token : Located Token}
  {tokens more : List (Located Token)}

namespace Located.TokenOf

theorem start_le (h : token.TokenOf start first follow) : start ≤ token.span.start := by
  obtain ⟨before, source, after, -, -, -, hspan⟩ := h
  rw [hspan]
  exact Nat.le_add_right _ _

theorem stop_le (h : token.TokenOf start first follow) :
    token.span.stop ≤ start + byteSize first := by
  obtain ⟨before, source, after, rfl, -, -, hspan⟩ := h
  rw [hspan, byteSize_append, byteSize_append]
  dsimp only
  omega

theorem append_right (h : token.TokenOf start first (rest ++ follow)) :
    token.TokenOf start (first ++ rest) follow := by
  obtain ⟨before, source, after, rfl, hwritten, hends, hspan⟩ := h
  rw [← List.append_assoc] at hends
  exact ⟨before, source, after ++ rest, by simp, hwritten, hends, hspan⟩

/-- A token that begins behind the first of two texts is a token of the second. -/
theorem append_left_iff (hstart : start + byteSize first ≤ token.span.start) :
    token.TokenOf start (first ++ rest) follow ↔
      token.TokenOf (start + byteSize first) rest follow := by
  constructor
  · rintro ⟨before, source, after, htext, hwritten, hends, hspan⟩
    rw [hspan] at hstart
    rw [List.append_assoc before] at htext
    obtain ⟨mid, rfl, rfl⟩ := append_of_byteSize_le htext (by simpa using hstart)
    refine ⟨mid, source, after, by simp, hwritten, hends, ?_⟩
    simp only [hspan, byteSize_append, Nat.add_assoc]
  · rintro ⟨before, source, after, rfl, hwritten, hends, hspan⟩
    refine ⟨first ++ before, source, after, by simp, hwritten, hends, ?_⟩
    simp only [hspan, byteSize_append, Nat.add_assoc]

/-- No token stands in front of spacing. -/
theorem behind_spacing {c : Char} (hc : isSpacing c = true)
    (h : token.TokenOf start (c :: rest) follow) : start + byteSize [c] ≤ token.span.start := by
  obtain ⟨before, source, after, htext, hwritten, -, hspan⟩ := h
  cases before with
  | nil =>
      obtain ⟨d, source, rfl⟩ := List.exists_cons_of_ne_nil hwritten.ne_nil
      obtain ⟨rfl, -⟩ := List.cons.inj htext
      rw [hwritten.not_spacing] at hc
      cases hc
  | cons d before =>
      obtain ⟨rfl, -⟩ := List.cons.inj htext
      rw [hspan]
      simp only [byteSize]
      omega

/-- A token that begins where the text does. -/
theorem of_start_eq (h : token.TokenOf start rest follow) (hstart : token.span.start = start) :
    ∃ source after, rest = source ++ after ∧ token.item.WrittenAs source ∧
      token.item.EndsBefore (after ++ follow) ∧ token.span = ⟨start, start + byteSize source⟩ := by
  obtain ⟨before, source, after, htext, hwritten, hends, hspan⟩ := h
  have hfront : before = [] := by
    by_contra hbefore
    have hpos := byteSize_pos hbefore
    rw [hspan] at hstart
    dsimp only at hstart
    omega
  subst hfront
  exact ⟨source, after, htext, hwritten, hends, hspan⟩

end Located.TokenOf

namespace Tokenization

theorem nil : Tokenization start [] follow [] where
  stands := by simp
  nonempty := by simp
  apart := List.Pairwise.nil
  spacing := by simp

theorem eq_nil (h : Tokenization start [] follow tokens) : tokens = [] := by
  refine List.eq_nil_iff_forall_not_mem.2 fun token hmem => ?_
  have hnonempty := h.nonempty token hmem
  have hstart := (h.stands token hmem).start_le
  have hstop := (h.stands token hmem).stop_le
  simp only [byteSize] at hstop
  omega

theorem blank {c : Char} (hc : isSpacing c = true) : Tokenization start [c] follow [] where
  stands := by simp
  nonempty := by simp
  apart := List.Pairwise.nil
  spacing := by
    intro before d after htext _
    have hd : d ∈ [c] := by simp [htext]
    rw [List.mem_singleton] at hd
    rwa [hd]

theorem singleton {item : Token} {source : Text} (hwritten : item.WrittenAs source)
    (hends : item.EndsBefore follow) :
    Tokenization start source follow [⟨item, ⟨start, start + byteSize source⟩⟩] where
  stands := by
    simp only [List.mem_singleton, forall_eq]
    exact ⟨[], source, [], by simp, hwritten, hends, rfl⟩
  nonempty := by
    simp only [List.mem_singleton, forall_eq]
    exact Nat.lt_add_of_pos_right (byteSize_pos hwritten.ne_nil)
  apart := List.pairwise_singleton _ _
  spacing := by
    intro before c after htext houtside
    have hpos := c.utf8Size_pos
    simp only [List.mem_singleton, forall_eq, htext, byteSize_append, byteSize] at houtside
    omega

/-- Two texts side by side are tiled by the tokens of both. -/
theorem append (hfirst : Tokenization start first (rest ++ follow) tokens)
    (hrest : Tokenization (start + byteSize first) rest follow more) :
    Tokenization start (first ++ rest) follow (tokens ++ more) where
  stands := by
    intro token hmem
    obtain hmem | hmem := List.mem_append.1 hmem
    · exact (hfirst.stands token hmem).append_right
    · have hstands := hrest.stands token hmem
      exact (Located.TokenOf.append_left_iff hstands.start_le).2 hstands
  nonempty := by
    intro token hmem
    obtain hmem | hmem := List.mem_append.1 hmem
    · exact hfirst.nonempty token hmem
    · exact hrest.nonempty token hmem
  apart := List.pairwise_append.2 ⟨hfirst.apart, hrest.apart, fun one hone two htwo =>
    (hfirst.stands one hone).stop_le.trans (hrest.stands two htwo).start_le⟩
  spacing := by
    intro before c after htext houtside
    rw [List.forall_mem_append] at houtside
    obtain ⟨mid, rfl, hmid⟩ | ⟨mid, rfl, hmid⟩ := List.append_eq_append_iff.1 htext
    · refine hrest.spacing mid c after hmid ?_
      rw [Nat.add_assoc, ← byteSize_append]
      exact houtside.2
    · cases mid with
      | nil =>
          refine hrest.spacing [] c after hmid.symm ?_
          simpa [byteSize] using houtside.2
      | cons d mid =>
          obtain ⟨rfl, -⟩ := List.cons.inj hmid
          exact hfirst.spacing before c mid rfl houtside.1

/-- What is left of a tiling behind the tokens that stand in the first of two texts. -/
theorem drop (h : Tokenization start (first ++ rest) follow (tokens ++ more))
    (htokens : ∀ token ∈ tokens, token.span.stop ≤ start + byteSize first)
    (hmore : ∀ token ∈ more, start + byteSize first ≤ token.span.start) :
    Tokenization (start + byteSize first) rest follow more where
  stands := fun token hmem => (Located.TokenOf.append_left_iff (hmore token hmem)).1
    (h.stands token (List.mem_append_right tokens hmem))
  nonempty := fun token hmem => h.nonempty token (List.mem_append_right tokens hmem)
  apart := (List.pairwise_append.1 h.apart).2.1
  spacing := by
    intro before c after htext houtside
    refine h.spacing (first ++ before) c after (by simp [htext]) ?_
    rw [List.forall_mem_append, byteSize_append, ← Nat.add_assoc]
    exact ⟨fun token hmem => .inr ((htokens token hmem).trans (Nat.le_add_right _ _)), houtside⟩

/-- The first of the tokens stands in front if what is in front is no spacing. -/
theorem start_eq_of_not_spacing {c : Char} (hc : isSpacing c = false)
    (h : Tokenization start (c :: rest) follow tokens) :
    ∃ first more, tokens = first :: more ∧ first.span.start = start := by
  have hcovered : ∃ token ∈ tokens, token.span.start ≤ start ∧ start < token.span.stop := by
    by_contra hnone
    push Not at hnone
    have hspacing := h.spacing [] c rest rfl fun token hmem => by
      have := hnone token hmem
      simp only [byteSize]
      omega
    rw [hc] at hspacing
    cases hspacing
  obtain ⟨token, hmem, hstart, hstop⟩ := hcovered
  cases tokens with
  | nil => cases hmem
  | cons first more =>
      have hle := (h.stands first List.mem_cons_self).start_le
      obtain rfl | hmem := List.mem_cons.1 hmem
      · exact ⟨token, more, rfl, Nat.le_antisymm hstart hle⟩
      · -- Nothing stands in front of a token that begins where the text begins.
        have hapart := (List.pairwise_cons.1 h.apart).1 token hmem
        have hfirst := h.nonempty first List.mem_cons_self
        omega

/-- A tiled text goes on with spacing or with the first of its tokens. -/
theorem cases_cons {c : Char} (h : Tokenization start (c :: rest) follow tokens) :
    (isSpacing c = true ∧ Tokenization (start + c.utf8Size) rest follow tokens) ∨
    ∃ item source after more, c :: rest = source ++ after ∧ Token.WrittenAs item source ∧
      item.EndsBefore (after ++ follow) ∧
      tokens = ⟨item, ⟨start, start + byteSize source⟩⟩ :: more ∧
      Tokenization (start + byteSize source) after follow more := by
  by_cases hc : isSpacing c = true
  · refine .inl ⟨hc, ?_⟩
    have hjoined : Tokenization start ([c] ++ rest) follow ([] ++ tokens) := h
    exact hjoined.drop (by simp) fun token hmem => (h.stands token hmem).behind_spacing hc
  · rw [Bool.not_eq_true] at hc
    obtain ⟨⟨item, span⟩, more, rfl, hstart⟩ := h.start_eq_of_not_spacing hc
    obtain ⟨source, after, htext, hwritten, hends, hspan⟩ :=
      (h.stands ⟨item, span⟩ List.mem_cons_self).of_start_eq hstart
    obtain rfl : span = ⟨start, start + byteSize source⟩ := hspan
    refine .inr ⟨item, source, after, more, htext, hwritten, hends, rfl, ?_⟩
    rw [htext] at h
    have hjoined : Tokenization start (source ++ after) follow
      ([⟨item, ⟨start, start + byteSize source⟩⟩] ++ more) := h
    exact hjoined.drop (by simp) (List.pairwise_cons.1 h.apart).1

end Tokenization

end

/-! ## Reading tiles -/

/-- A tiled text is lexed to its tokens, and lexing goes on with what follows it. -/
theorem Tokenization.lexFrom_append {start : Nat} {text follow : Text}
    {tokens : List (Located Token)} (h : Tokenization start text follow tokens) :
    lexFrom start (text ++ follow)
      = (lexFrom (start + byteSize text) follow).map (tokens ++ ·) := by
  induction hlength : text.length using Nat.strong_induction_on generalizing start text tokens with
  | _ length ih =>
    subst hlength
    cases text with
    | nil =>
        obtain rfl := h.eq_nil
        cases hfollow : lexFrom start follow <;> simp [byteSize, hfollow, Except.map]
    | cons c rest =>
        obtain ⟨hc, hrest⟩ | ⟨item, source, after, more, htext, hwritten, hends, rfl, hmore⟩ :=
          h.cases_cons
        · rw [List.cons_append, lexFrom_of_spacing hc, ih _ (by simp) hrest rfl, byteSize,
            Nat.add_assoc]
        · obtain ⟨d, source, rfl⟩ := List.exists_cons_of_ne_nil hwritten.ne_nil
          simp only [List.cons_append, List.cons.injEq] at htext
          obtain ⟨rfl, rfl⟩ := htext
          have hread := hwritten.readAt hends
          rw [← List.append_assoc] at hread
          have hlength : after.length < (c :: (source ++ after)).length := by
            simp only [List.length_cons, List.length_append]
            omega
          rw [List.cons_append, lexFrom_of_token hread, ih _ hlength hmore rfl, Nat.add_assoc,
            ← byteSize_append, List.cons_append]
          cases lexFrom (start + byteSize (c :: (source ++ after))) follow <;> rfl

/-- Every text is tiled up to its end or up to a place where no token begins. -/
theorem exists_tokenization (start : Nat) (text : Text) :
    ∃ before after tokens, text = before ++ after ∧ Tokenization start before after tokens ∧
      ∀ c rest, after = c :: rest → isSpacing c = false ∧ ¬ BeginsToken (c :: rest) := by
  induction hlength : text.length using Nat.strong_induction_on generalizing start text with
  | _ length ih =>
    subst hlength
    cases text with
    | nil => exact ⟨[], [], [], rfl, .nil, nofun⟩
    | cons c rest =>
        obtain ⟨hc, -⟩ | ⟨item, source, after, htext, hwritten, hends, -⟩ | ⟨hc, hnone, -⟩ :=
          readAt_cases c rest
        · obtain ⟨before, after, tokens, rfl, htiled, hstop⟩ :=
            ih _ (by simp) (start + byteSize [c]) rest rfl
          exact ⟨c :: before, after, tokens, rfl, (Tokenization.blank hc).append htiled, hstop⟩
        · have hpos := List.length_pos_of_ne_nil hwritten.ne_nil
          obtain ⟨before, last, tokens, rfl, htiled, hstop⟩ :=
            ih after.length (by rw [htext, List.length_append]; omega)
              (start + byteSize source) after rfl
          exact ⟨source ++ before, last, _, by simp [htext],
            (Tokenization.singleton hwritten hends).append htiled, hstop⟩
        · refine ⟨[], c :: rest, [], rfl, .nil, ?_⟩
          rintro d more ⟨⟩
          exact ⟨hc, hnone⟩

theorem Tokenization.lex {input : Text} {tokens : List (Located Token)}
    (h : Tokenization 0 input [] tokens) : lex input = .ok tokens := by
  have hlex := h.lexFrom_append
  rw [List.append_nil, lexFrom] at hlex
  rw [Stencil.lex, hlex, Except.map, List.append_nil]

/-- Without what follows it, a tiled text is tiled all the more. -/
theorem Tokenization.alone {start : Nat} {text follow : Text} {tokens : List (Located Token)}
    (h : Tokenization start text follow tokens) : Tokenization start text [] tokens where
  stands := by
    intro token hmem
    obtain ⟨before, source, after, htext, hwritten, hends, hspan⟩ := h.stands token hmem
    refine ⟨before, source, after, htext, hwritten, ?_, hspan⟩
    rw [List.append_nil]
    exact hends.of_append
  nonempty := h.nonempty
  apart := h.apart
  spacing := h.spacing

section

variable {input before : Text} {c : Char} {rest : Text} {tokens : List (Located Token)}

/-- Where nothing can be read the lexer reports the character there, or everything from a quote on
that is never closed. -/
theorem FirstStop.lex_eq_error (h : FirstStop input before c rest tokens) :
    ∃ source, lex input = .error ⟨byteSize before, byteSize before + byteSize source⟩ ∧
      (isQuote c = true ∧ c ∉ rest ∧ source = c :: rest ∨ isQuote c = false ∧ source = [c]) := by
  obtain ⟨rfl, -, htiled, hc, hnone⟩ := h
  obtain ⟨hspacing, -⟩ | ⟨token, source, after, htext, hwritten, -, -⟩ |
    ⟨-, -, source, hread, hsource⟩ := readAt_cases c rest
  · rw [hc] at hspacing
    cases hspacing
  · exact absurd ⟨token, source, after, htext, hwritten⟩ hnone
  · refine ⟨source, ?_, hsource⟩
    rw [lex, htiled.lexFrom_append, lexFrom_of_stuck hread, Nat.zero_add]
    rfl

theorem FirstStop.lex_eq_error_iff (h : FirstStop input before c rest tokens) (span : Span) :
    lex input = .error span ↔ span.start = byteSize before ∧
      (isQuote c = true ∧ c ∉ rest ∧ span.stop = byteSize input ∨
        isQuote c = false ∧ span.stop = byteSize before + c.utf8Size) := by
  obtain ⟨source, hlex, hsource⟩ := h.lex_eq_error
  obtain ⟨start, stop⟩ := span
  rw [hlex, Except.error.injEq, Span.mk.injEq, eq_comm, and_congr_right_iff]
  rintro -
  rw [eq_comm]
  obtain ⟨hquote, hrest, rfl⟩ | ⟨hquote, rfl⟩ := hsource
  · simp [hquote, hrest, h.split, byteSize_append]
  · simp [hquote, byteSize]

end

theorem tiled_or_firstStop (input : Text) :
    (∃ tokens, Tokenization 0 input [] tokens) ∨
      ∃ before c rest tokens, FirstStop input before c rest tokens := by
  obtain ⟨before, after, tokens, rfl, htiled, hstop⟩ := exists_tokenization 0 input
  cases after with
  | nil =>
      rw [List.append_nil]
      exact .inl ⟨tokens, htiled⟩
  | cons c rest =>
      obtain ⟨hc, hnone⟩ := hstop c rest rfl
      exact .inr ⟨before, c, rest, tokens, rfl, htiled.alone.lex, htiled, hc, hnone⟩

theorem exists_firstStop_of_lex {input : Text} {span : Span} (h : lex input = .error span) :
    ∃ before c rest tokens, FirstStop input before c rest tokens := by
  obtain ⟨tokens, htiled⟩ | hstop := tiled_or_firstStop input
  · rw [htiled.lex] at h
    cases h
  · exact hstop

/-- **What the lexer answers.** It succeeds with the tokens that tile the input, and fails exactly
if the input has a first place where no token can be read. Then it reports the character there, or
everything from there on, if the character is a quote and does not come again. -/
theorem lex_exact (input : Text) :
    (∀ tokens, lex input = .ok tokens ↔ Tokenization 0 input [] tokens) ∧
    (∀ span, lex input = .error span ↔
      ∃ before c rest tokens, FirstStop input before c rest tokens ∧
        span.start = byteSize before ∧
        (isQuote c = true ∧ c ∉ rest ∧ span.stop = byteSize input ∨
          isQuote c = false ∧ span.stop = byteSize before + c.utf8Size)) ∧
    ((∃ span, lex input = .error span) ↔
      ∃ before c rest tokens, FirstStop input before c rest tokens) := by
  refine ⟨fun tokens => ⟨fun hlex => ?_, Tokenization.lex⟩, fun span => ⟨fun hlex => ?_, ?_⟩,
    fun ⟨span, hlex⟩ => exists_firstStop_of_lex hlex, ?_⟩
  · obtain ⟨others, htiled⟩ | ⟨before, c, rest, others, hstop⟩ := tiled_or_firstStop input
    · rw [htiled.lex, Except.ok.injEq] at hlex
      rwa [← hlex]
    · obtain ⟨source, herror, -⟩ := hstop.lex_eq_error
      rw [herror] at hlex
      cases hlex
  · obtain ⟨before, c, rest, tokens, hstop⟩ := exists_firstStop_of_lex hlex
    exact ⟨before, c, rest, tokens, hstop, (hstop.lex_eq_error_iff span).1 hlex⟩
  · rintro ⟨before, c, rest, tokens, hstop, hspan⟩
    exact (hstop.lex_eq_error_iff span).2 hspan
  · rintro ⟨before, c, rest, tokens, hstop⟩
    obtain ⟨source, herror, -⟩ := hstop.lex_eq_error
    exact ⟨_, herror⟩

end Stencil
