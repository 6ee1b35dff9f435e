import Stencil.Proofs.Tag.Language
import Stencil.Proofs.Token.Writing

/-!
# Tags are read back however they are spaced

The tokens that spell a tag are parted from one another without any spacing, and those of a tag with
proper names and keys can be written (`SpelledBy.isChain`, `SpelledBy.exists_writtenAs`). So a tag
is read back from every text that one of its spellings is written as (`parse_of_writtenAs`), and
`parse_exact` says all that parsing does on tags.
-/

set_option autoImplicit false

namespace Stencil

/-! ## The tokens of a tag -/

theorem Token.parted_of_goesOn {token : Token} (h : token.goesOn = false) (first : Token) :
    first.Parted token := by
  cases first with
  | path name => exact h
  | sign sign => trivial
  | quoted content => trivial

/-- Arguments are parted from one another and from what follows them. -/
theorem isChain_commaSeparated (arguments : List Argument) {rest : List Token}
    (hhead : ∀ token ∈ rest.head?, token.goesOn = false) (hrest : rest.IsChain Token.Parted) :
    (commaSeparated arguments ++ rest).IsChain Token.Parted := by
  induction arguments with
  | nil => exact hrest
  | cons argument more ih =>
      cases more with
      | nil =>
          refine List.isChain_cons.mpr ⟨fun token htoken => ?_, hrest⟩
          exact Token.parted_of_goesOn (hhead token htoken) _
      | cons second more =>
          refine List.isChain_cons_cons.mpr ⟨Token.parted_of_goesOn rfl _, ?_⟩
          exact List.isChain_cons.mpr ⟨fun _ _ => trivial, ih⟩

theorem mem_commaSeparated {arguments : List Argument} {token : Token}
    (h : token ∈ commaSeparated arguments) :
    token = .sign .comma ∨ ∃ argument ∈ arguments, token = argument.token := by
  induction arguments with
  | nil => cases h
  | cons argument more ih =>
      cases more with
      | nil => exact Or.inr ⟨argument, by simp, by simpa using h⟩
      | cons second more =>
          rcases List.mem_cons.mp h with rfl | h
          · exact Or.inr ⟨argument, by simp, rfl⟩
          rcases List.mem_cons.mp h with rfl | h
          · exact Or.inl rfl
          rcases ih h with hcomma | ⟨other, hother, htoken⟩
          · exact Or.inl hcomma
          · exact Or.inr ⟨other, List.mem_cons_of_mem _ hother, htoken⟩

/-- An argument that can be written as a token: a path, or a text without one of the quotes. -/
def Argument.Expressible : Argument → Prop
  | .literal content => ¬ ('"' ∈ content ∧ '\x27' ∈ content)
  | .key name => isPath name = true

/-- A tag that can be written: its names and keys are paths, and its arguments can be written. -/
def Tag.Expressible : Tag → Prop
  | .opener _ key => isPath key = true
  | .slot name => isPath name = true
  | .otherwise key => isPath key = true
  | .closer name => ∀ n ∈ name, isPath n = true
  | .inclusion name => isPath name = true
  | .parent name => isPath name = true
  | .value _ key => isPath key = true
  | .call name arguments => isPath name = true ∧ ∀ argument ∈ arguments, argument.Expressible

instance : DecidablePred Argument.Expressible
  | .literal content => inferInstanceAs (Decidable (¬ ('"' ∈ content ∧ '\x27' ∈ content)))
  | .key name => inferInstanceAs (Decidable (isPath name = true))

instance : DecidablePred Tag.Expressible
  | .opener _ name | .slot name | .otherwise name | .inclusion name | .parent name
  | .value _ name => inferInstanceAs (Decidable (isPath name = true))
  | .closer name => inferInstanceAs (Decidable (∀ n ∈ name, isPath n = true))
  | .call name arguments => inferInstanceAs
      (Decidable (isPath name = true ∧ ∀ argument ∈ arguments, argument.Expressible))

theorem Argument.Expressible.exists_writtenAs {argument : Argument} (h : argument.Expressible) :
    ∃ source, argument.token.WrittenAs source := by
  cases argument with
  | key name => exact ⟨name, .path h⟩
  | literal content =>
      by_cases hquote : '"' ∈ content
      · exact ⟨_, .quoted rfl fun hother => h ⟨hquote, hother⟩⟩
      · exact ⟨_, .quoted rfl hquote⟩

namespace Tag

variable {tag : Tag} {tokens : List Token}

theorem exists_spelledBy (tag : Tag) : ∃ tokens, tag.SpelledBy tokens := by
  cases tag with
  | opener kind key => exact ⟨_, .opener kind key⟩
  | slot name => exact ⟨_, .slot name⟩
  | otherwise key => exact ⟨_, .otherwise key⟩
  | closer name => exact ⟨_, .closer none name [] (by simp) (Or.inl rfl)⟩
  | inclusion name => exact ⟨_, .inclusion name⟩
  | parent name => exact ⟨_, .parent name⟩
  | value escape key =>
      cases escape with
      | false => exact ⟨_, .value key⟩
      | true => exact ⟨_, .escapedValue key⟩
  | call name arguments => exact ⟨_, .call name arguments [] (Or.inl rfl)⟩

theorem SpelledBy.isChain (h : tag.SpelledBy tokens) : tokens.IsChain Token.Parted := by
  cases h with
  | opener kind key => cases kind <;> simp [BlockKind.sign?, Token.Parted]
  | closer mark name parens hmark hparens =>
      rcases hparens with rfl | rfl <;> cases mark <;> cases name <;>
        simp [Token.Parted, Token.goesOn]
  | call name arguments comma hcomma =>
      refine List.isChain_cons_cons.mpr ⟨rfl, List.isChain_cons.mpr ⟨fun _ _ => trivial, ?_⟩⟩
      rw [List.append_assoc]
      refine isChain_commaSeparated arguments ?_ ?_
      · rcases hcomma with rfl | ⟨rfl, -⟩ <;> simp [Token.goesOn]
      · rcases hcomma with rfl | ⟨rfl, -⟩ <;> simp [Token.Parted]
  | _ => simp [Token.Parted]

/-- Every token of an expressible tag can be written. -/
theorem SpelledBy.exists_token_writtenAs (h : tag.SpelledBy tokens) (htag : tag.Expressible) :
    ∀ token ∈ tokens, ∃ source, token.WrittenAs source := by
  have hsign : ∀ sign : Sign, ∃ source, Token.WrittenAs (.sign sign) source :=
    fun sign => ⟨_, .sign sign⟩
  have hpath : ∀ {name}, isPath name = true → ∃ source, Token.WrittenAs (.path name) source :=
    fun hname => ⟨_, .path hname⟩
  cases h with
  | opener kind key => cases kind <;> simp [BlockKind.sign?, hsign, hpath htag]
  | closer mark name parens hmark hparens =>
      have hname : ∀ n ∈ name, ∃ source, Token.WrittenAs (.path n) source :=
        fun n hn => hpath (htag n hn)
      rcases hparens with rfl | rfl <;> cases mark <;> cases name <;> simp_all
  | call name arguments comma hcomma =>
      obtain ⟨hname, harguments⟩ := htag
      simp only [List.forall_mem_cons, List.forall_mem_append, List.not_mem_nil]
      refine ⟨hpath hname, hsign _, ⟨?_, ?_⟩, hsign _, by simp⟩
      · intro token htoken
        rcases mem_commaSeparated htoken with rfl | ⟨argument, hargument, rfl⟩
        · exact hsign _
        · exact (harguments argument hargument).exists_writtenAs
      · rcases hcomma with rfl | ⟨rfl, -⟩ <;> simp [hsign]
  | _ => simp [hsign, hpath htag]

/-- Every spelling of an expressible tag can be written. -/
theorem SpelledBy.exists_writtenAs (h : tag.SpelledBy tokens) (htag : tag.Expressible) :
    ∃ text, WrittenAs tokens text := by
  have hall := h.exists_token_writtenAs htag
  clear h
  induction tokens with
  | nil => exact ⟨[], .nil (by simp)⟩
  | cons token tokens ih =>
      rw [List.forall_mem_cons] at hall
      obtain ⟨source, hsource⟩ := hall.1
      obtain ⟨rest, hrest⟩ := ih hall.2
      exact ⟨_, .token_cons hsource hrest⟩

theorem parse_eq_ok_iff {input : Text} :
    parse input = .ok tag ↔ ∃ tokens, lex input = .ok tokens ∧ tag.SpelledBy (items tokens) := by
  unfold parse
  cases lex input with
  | error span => simp
  | ok tokens =>
      rw [ofTokens_eq_ok_iff]
      simp

/-- **A tag is read back from every text it is written as.** -/
theorem parse_of_writtenAs {text : Text} (h : tag.SpelledBy tokens)
    (htext : WrittenAs tokens text) : parse text = .ok tag := by
  obtain ⟨located, hlex, hitems⟩ := htext.lexes h.isChain 0
  refine parse_eq_ok_iff.mpr ⟨located, hlex, ?_⟩
  rw [items, hitems]
  exact h

/-- **Parsing accepts exactly the tags of the grammar, none of them for the same tokens as another,
and spacing does not matter.** A text is the inside of a tag if and only if the tokens of the text
spell the tag; no tokens spell two tags; and a tag whose names and keys are paths and whose literal
arguments lack one of the quotes has spellings, each of which can be written, and is what is read
from whatever a spelling of it is written as, however the tokens are spaced. -/
theorem parse_exact :
    (∀ input tag, parse input = .ok tag ↔
      ∃ tokens, lex input = .ok tokens ∧ tag.SpelledBy (tokens.map (·.item))) ∧
    (∀ spelling first second, SpelledBy first spelling → SpelledBy second spelling →
      first = second) ∧
    ∀ tag, tag.Expressible →
      (∃ spelling, tag.SpelledBy spelling) ∧
      ∀ spelling, tag.SpelledBy spelling →
        (∃ text, WrittenAs spelling text) ∧
        ∀ text, WrittenAs spelling text → parse text = .ok tag := by
  refine ⟨fun input tag => parse_eq_ok_iff, fun _ _ _ => SpelledBy.unique, ?_⟩
  intro tag htag
  refine ⟨exists_spelledBy tag, fun spelling hspelling => ⟨hspelling.exists_writtenAs htag, ?_⟩⟩
  intro text htext
  exact parse_of_writtenAs hspelling htext

/-- A call with spacing of every kind, a comma after its last argument, and a quoted text that has
one of the quotes. -/
theorem parse_exact_call :
    let tag := Tag.call "li".toList [.key "a.b".toList, .literal "\"x\", y".toList]
    let spelling : List Token := [.path "li".toList, .sign .openParen, .path "a.b".toList,
      .sign .comma, .quoted "\"x\", y".toList, .sign .comma, .sign .closeParen]
    let text := "\tli ( a.b,\r\n'\"x\", y' ,)\x0c".toList
    tag.Expressible ∧ tag.SpelledBy spelling ∧ WrittenAs spelling text ∧ parse text = .ok tag := by
  intro tag spelling text
  have htag : tag.Expressible := by decide
  have hspelling : tag.SpelledBy spelling :=
    .call _ _ [.sign .comma] (Or.inr ⟨rfl, by simp⟩)
  have hwritten : WrittenAs spelling text :=
    @WrittenAs.cons ['\t'] _ _ _ _ (by simp [isSpacing]) (.path (by decide)) <|
    @WrittenAs.cons [' '] _ _ _ _ (by simp [isSpacing]) (.sign .openParen) <|
    @WrittenAs.cons [' '] _ _ _ _ (by simp [isSpacing]) (.path (by decide)) <|
    .token_cons (.sign .comma) <|
    @WrittenAs.cons ['\r', '\n'] _ _ _ _ (by simp [isSpacing]) (.quoted rfl (by decide)) <|
    @WrittenAs.cons [' '] _ _ _ _ (by simp [isSpacing]) (.sign .comma) <|
    .token_cons (.sign .closeParen) <|
    @WrittenAs.nil ['\x0c'] (by simp [isSpacing])
  exact ⟨htag, hspelling, hwritten,
    ((parse_exact.2.2 tag htag).2 spelling hspelling).2 text hwritten⟩

end Tag

end Stencil
