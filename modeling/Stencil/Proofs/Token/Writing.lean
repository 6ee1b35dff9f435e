import Mathlib.Data.List.Chain
import Stencil.Token.Lexer

/-!
# Reading undoes writing, token by token

A text that begins with a written token is read as that token, where the token ends
(`Token.WrittenAs.readAt`). Tokens can be written one after the other with any spacing between and
around them (`WrittenAs`). The lexer reads them back (`WrittenAs.lexes`), if nothing that goes on
with a path is written after one: a path is read as far as it goes.

Spans play no part in writing, so there the lexer is described by the items it reads (`Lexes`).
-/

set_option autoImplicit false

namespace Stencil

/-! ## The text of a token -/

/-- The source text of a token. A quoted text may stand between either quote that it does not
have. -/
inductive Token.WrittenAs : Token → Text → Prop
  | sign (sign : Sign) : WrittenAs (.sign sign) [sign.char]
  | path {name : Text} (hname : isPath name = true) : WrittenAs (.path name) name
  | quoted {quote : Char} {content : Text} (hquote : isQuote quote = true)
      (hcontent : quote ∉ content) : WrittenAs (.quoted content) (quote :: content ++ [quote])

/-- Does the token end where the text follows it? A path ends only where nothing goes on with
it. -/
def Token.EndsBefore (token : Token) (rest : Text) : Prop :=
  ∀ name, token = .path name → ∀ c ∈ rest.head?, isPathPart c = false

/-- What begins a path is no spacing and no sign. -/
theorem not_spacing_of_isPathStart {c : Char} (h : isPathStart c = true) : isSpacing c = false := by
  by_contra hspacing
  rw [Bool.not_eq_false] at hspacing
  simp only [isSpacing, Bool.or_eq_true, beq_iff_eq] at hspacing
  rcases hspacing with (((rfl | rfl) | rfl) | rfl) | rfl <;> revert h <;> decide

theorem isPathPart_of_mem {name : Text} (hname : isPath name = true) {c : Char} (hc : c ∈ name) :
    isPathPart c = true := by
  cases name with
  | nil => cases hc
  | cons a name =>
      simp only [isPath, Bool.and_eq_true, List.all_eq_true] at hname
      rcases List.mem_cons.mp hc with rfl | hc
      · simp [isPathPart, hname.1]
      · exact hname.2 c hc

theorem ofChar?_of_isPathStart {c : Char} (h : isPathStart c = true) : Sign.ofChar? c = none := by
  unfold Sign.ofChar?
  split <;> first | rfl | (revert h; decide)

/-- A quote begins nothing but a quoted text. -/
theorem plain_of_isQuote {c : Char} (h : isQuote c = true) :
    isSpacing c = false ∧ Sign.ofChar? c = none ∧ isPathStart c = false := by
  simp only [isQuote, Bool.or_eq_true, beq_iff_eq] at h
  rcases h with rfl | rfl <;> decide

theorem cutAt_append {c : Char} {content : Text} (h : c ∉ content) (rest : Text) :
    cutAt c (content ++ c :: rest) = some (content, rest) := by
  induction content with
  | nil => simp [cutAt]
  | cons a content ih =>
      simp only [List.mem_cons, not_or] at h
      rw [List.cons_append, cutAt, if_neg (Ne.symm h.1), ih h.2]
      rfl

/-- What begins with the text of a token is read as the token, if the token ends there. -/
theorem Token.WrittenAs.readAt {token : Token} {c : Char} {source rest : Text}
    (h : token.WrittenAs (c :: source)) (hends : token.EndsBefore rest) :
    readAt c (source ++ rest) = .token token (c :: source) rest := by
  cases h with
  | sign sign =>
      have hspacing : isSpacing sign.char = false := by cases sign <;> rfl
      simp [Stencil.readAt, hspacing, Sign.ofChar?_char]
  | path hname =>
      simp only [isPath, Bool.and_eq_true, List.all_eq_true] at hname
      obtain ⟨hstart, hparts⟩ := hname
      have hnext := hends _ rfl
      have htake : (source ++ rest).takeWhile isPathPart = source := by
        rw [List.takeWhile_append_of_pos hparts]
        cases rest with
        | nil => simp
        | cons d rest => simp [hnext d rfl]
      have hdrop : (source ++ rest).dropWhile isPathPart = rest := by
        rw [List.dropWhile_append_of_pos hparts]
        cases rest with
        | nil => rfl
        | cons d rest => simp [hnext d rfl]
      simp [Stencil.readAt, not_spacing_of_isPathStart hstart, ofChar?_of_isPathStart hstart,
        hstart, htake, hdrop]
  | @quoted _ content hquote hcontent =>
      have hcut := cutAt_append hcontent rest
      simp [Stencil.readAt, plain_of_isQuote hquote, hquote, hcut]

/-! ## Lexing -/

theorem lexFrom_of_spacing {c : Char} (hc : isSpacing c = true) (start : Nat) (rest : Text) :
    lexFrom start (c :: rest) = lexFrom (start + c.utf8Size) rest := by
  have hread : readAt c rest = .spacing rest := by simp [readAt, hc]
  conv_lhs => unfold lexFrom
  split
  · next hother => rw [hread] at hother; cases hother; rfl
  · next hother => rw [hread] at hother; cases hother
  · next hother => rw [hread] at hother; cases hother

theorem lexFrom_of_token {c : Char} {rest source after : Text} {token : Token}
    (hread : readAt c rest = .token token source after) (start : Nat) :
    lexFrom start (c :: rest) = (lexFrom (start + byteSize source) after).map
      (⟨token, ⟨start, start + byteSize source⟩⟩ :: ·) := by
  conv_lhs => unfold lexFrom
  split
  · next hother => rw [hread] at hother; cases hother
  · next hother => rw [hread] at hother; cases hother; rfl
  · next hother => rw [hread] at hother; cases hother

theorem lexFrom_of_stuck {c : Char} {rest source : Text} (hread : readAt c rest = .stuck source)
    (start : Nat) : lexFrom start (c :: rest) = .error ⟨start, start + byteSize source⟩ := by
  unfold lexFrom
  split
  · next hother => rw [hread] at hother; cases hother
  · next hother => rw [hread] at hother; cases hother
  · next hother => rw [hread] at hother; cases hother; rfl

/-- The tokens of the text, wherever it begins, are these. -/
def Lexes (text : Text) (items : List Token) : Prop :=
  ∀ start, ∃ tokens, lexFrom start text = .ok tokens ∧ tokens.map (·.item) = items

theorem lexes_nil : Lexes [] [] := fun start => ⟨[], by simp [lexFrom], rfl⟩

theorem lexes_spacing {c : Char} (hc : isSpacing c = true) {rest : Text} {items : List Token}
    (h : Lexes rest items) : Lexes (c :: rest) items := by
  intro start
  rw [lexFrom_of_spacing hc]
  exact h (start + c.utf8Size)

theorem lexes_append_spacing {spacing rest : Text} {items : List Token}
    (hspacing : ∀ c ∈ spacing, isSpacing c = true) (h : Lexes rest items) :
    Lexes (spacing ++ rest) items := by
  induction spacing with
  | nil => exact h
  | cons c spacing ih =>
      rw [List.forall_mem_cons] at hspacing
      exact lexes_spacing hspacing.1 (ih hspacing.2)

theorem Token.WrittenAs.ne_nil {token : Token} {source : Text} (h : token.WrittenAs source) :
    source ≠ [] := by
  cases h with
  | sign sign => exact List.cons_ne_nil _ _
  | path hname =>
      rintro rfl
      cases hname
  | quoted hquote hcontent => exact List.cons_ne_nil _ _

theorem lexes_token {token : Token} {source rest : Text} {items : List Token}
    (htoken : token.WrittenAs source) (hends : token.EndsBefore rest) (h : Lexes rest items) :
    Lexes (source ++ rest) (token :: items) := by
  obtain ⟨c, more, rfl⟩ := List.exists_cons_of_ne_nil htoken.ne_nil
  intro start
  obtain ⟨tokens, htokens, hitems⟩ := h (start + byteSize (c :: more))
  refine ⟨⟨token, ⟨start, start + byteSize (c :: more)⟩⟩ :: tokens, ?_, by simp [hitems]⟩
  rw [List.cons_append, lexFrom_of_token (htoken.readAt hends), htokens]
  rfl

/-! ## Writing with any spacing -/

/-- The text has the tokens one after the other, with spacing or none before each of them and at
the end. -/
inductive WrittenAs : List Token → Text → Prop
  | nil {spacing : Text} (hspacing : ∀ c ∈ spacing, isSpacing c = true) : WrittenAs [] spacing
  | cons {spacing source rest : Text} {token : Token} {tokens : List Token}
      (hspacing : ∀ c ∈ spacing, isSpacing c = true) (htoken : token.WrittenAs source)
      (hrest : WrittenAs tokens rest) : WrittenAs (token :: tokens) (spacing ++ source ++ rest)

namespace WrittenAs

variable {token : Token} {tokens : List Token} {source rest : Text}

theorem token_cons (htoken : token.WrittenAs source) (hrest : WrittenAs tokens rest) :
    WrittenAs (token :: tokens) (source ++ rest) :=
  @cons [] _ _ _ _ (by simp) htoken hrest

theorem singleton (htoken : token.WrittenAs source) : WrittenAs [token] source := by
  have hcons := token_cons htoken (nil (by simp : ∀ c ∈ ([] : Text), isSpacing c = true))
  rwa [List.append_nil] at hcons

theorem spacing_cons {c : Char} (hc : isSpacing c = true) (h : WrittenAs tokens rest) :
    WrittenAs tokens (c :: rest) := by
  cases h with
  | nil hspacing => exact nil (List.forall_mem_cons.mpr ⟨hc, hspacing⟩)
  | cons hspacing htoken hrest =>
      exact cons (List.forall_mem_cons.mpr ⟨hc, hspacing⟩) htoken hrest

end WrittenAs

/-- Does the token begin with a character that a path can go on with? Right behind a path it would
not be read as a token of its own. -/
def Token.goesOn : Token → Bool
  | .sign s => s == .slash
  | .path _ => true
  | .quoted _ => false

/-- May the second token stand right behind the first? -/
def Token.Parted : Token → Token → Prop
  | .path _, second => second.goesOn = false
  | .sign _, _ => True
  | .quoted _, _ => True

theorem not_isPathPart_of_isSpacing {c : Char} (h : isSpacing c = true) :
    isPathPart c = false := by
  simp only [isSpacing, Bool.or_eq_true, beq_iff_eq] at h
  rcases h with (((rfl | rfl) | rfl) | rfl) | rfl <;> decide

theorem Token.WrittenAs.head {token : Token} {source : Text} (h : token.WrittenAs source)
    (hgoes : token.goesOn = false) : ∃ c rest, source = c :: rest ∧ isPathPart c = false := by
  cases h with
  | sign sign =>
      refine ⟨sign.char, [], rfl, ?_⟩
      cases sign <;> first | decide | cases hgoes
  | path hname => cases hgoes
  | @quoted quote content hquote hcontent =>
      refine ⟨quote, content ++ [quote], rfl, ?_⟩
      simp only [isQuote, Bool.or_eq_true, beq_iff_eq] at hquote
      rcases hquote with rfl | rfl <;> decide

/-- What follows a path does not go on with it. -/
theorem WrittenAs.head {tokens : List Token} {text : Text} (h : WrittenAs tokens text)
    (hgoes : ∀ token ∈ tokens.head?, token.goesOn = false) :
    ∀ c ∈ text.head?, isPathPart c = false := by
  cases h with
  | nil hspacing =>
      intro c hc
      exact not_isPathPart_of_isSpacing (hspacing c (List.mem_of_mem_head? hc))
  | @cons spacing source rest token tokens hspacing htoken hrest =>
      obtain ⟨first, more, rfl, hfirst⟩ := htoken.head (hgoes token rfl)
      intro c hc
      cases spacing with
      | nil =>
          obtain rfl : first = c := Option.some.inj hc
          exact hfirst
      | cons blank spacing =>
          obtain rfl : blank = c := Option.some.inj hc
          exact not_isPathPart_of_isSpacing (hspacing blank List.mem_cons_self)

/-- **Tokens are read back from what they are written as**, however they are spaced, if nothing
that goes on with a path is written after one. -/
theorem WrittenAs.lexes {tokens : List Token} {text : Text} (h : WrittenAs tokens text)
    (hparted : tokens.IsChain Token.Parted) : Lexes text tokens := by
  induction h with
  | nil hspacing =>
      have hlexes := lexes_append_spacing hspacing lexes_nil
      rwa [List.append_nil] at hlexes
  | @cons spacing source rest token tokens hspacing htoken hrest ih =>
      have htokens := ih hparted.tail
      rw [List.append_assoc]
      refine lexes_append_spacing hspacing (lexes_token htoken ?_ htokens)
      rintro name rfl
      refine hrest.head ?_
      intro next hnext
      cases tokens with
      | nil => cases hnext
      | cons second tokens =>
          obtain rfl : second = next := Option.some.inj hnext
          exact (List.isChain_cons_cons.mp hparted).1

end Stencil
