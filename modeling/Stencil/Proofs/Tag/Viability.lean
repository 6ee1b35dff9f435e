import Stencil.Proofs.Tag.Language
import Stencil.Proofs.Token.Tokenization

/-!
# Where a tag stops being viable

Tokens are viable while they begin the spelling of some tag. A tag that is no tag is rejected at the
first token with which its tokens are viable no longer, or, if they are viable to the end, at the
end of the tag (`rejection_place`).

The parts of the parser are taken one by one. What is said of each is that it puts the blame where
the tokens stop beginning anything that the part accepts (`Blamed`); in front of a part a token can
be put (`Blamed.cons`), and then blame goes where it went.

The span at the end begins where the tag ends, but it does not always stop there: it goes back to
the end of the last token, so it is empty only if no spacing follows that token.
-/

set_option autoImplicit false

namespace Stencil

/-- The tokens begin the spelling of a tag. -/
def Viable (tokens : List Token) : Prop :=
  ∃ (tag : Tag) (spelling : List Token), tag.SpelledBy spelling ∧ tokens <+: spelling

namespace Tag

/-! ## Blame -/

/-- The tokens begin something that a part of the parser accepts. -/
def Begins (part : List (Located Token) → Except Rejection Tag)
    (tokens : List (Located Token)) : Prop :=
  ∃ more tag, part (tokens ++ more) = .ok tag

/-- The span to blame when a part of the parser does not accept the tokens: that of the first token
with which they begin nothing that the part accepts, or that of their end. -/
inductive Blamed (part : List (Located Token) → Except Rejection Tag) (ending : Span) :
    List (Located Token) → Span → Prop
  | token (before : List (Located Token)) (token : Located Token) (after : List (Located Token))
      (hbefore : Begins part before) (htoken : ¬ Begins part (before ++ [token])) :
      Blamed part ending (before ++ token :: after) token.span
  | finish (tokens : List (Located Token)) (h : Begins part tokens) :
      Blamed part ending tokens ending

section Blame

variable {part next : List (Located Token) → Except Rejection Tag} {ending span : Span}
  {expected : List Expectation} {tokens rest : List (Located Token)} {first : Located Token}
  {rejection : Rejection}

theorem begins_cons_iff (hpart : ∀ others, part (first :: others) = next others) :
    Begins part (first :: tokens) ↔ Begins next tokens := by
  simp only [Begins, List.cons_append, hpart]

/-- A token in front does not move the blame. -/
theorem Blamed.cons (h : Blamed next ending rest span)
    (hpart : ∀ others, part (first :: others) = next others) :
    Blamed part ending (first :: rest) span := by
  cases h with
  | token before token after hbefore htoken =>
      refine .token (first :: before) token after ?_ ?_
      · exact (begins_cons_iff hpart).mpr hbefore
      · exact fun hbegins => htoken ((begins_cons_iff hpart).mp hbegins)
  | finish _ h => exact .finish _ ((begins_cons_iff hpart).mpr h)

/-- A part that accepts whatever another one does, and nothing else that begins as the tokens do,
puts the blame where the other one does. -/
theorem Blamed.of_head (h : Blamed next ending tokens span)
    (hmore : ∀ others tag, next others = .ok tag → part others = .ok tag)
    (hless : ∀ others tag, others.head? = tokens.head? → part others = .ok tag →
      next others = .ok tag) : Blamed part ending tokens span := by
  have hbegins : ∀ {others}, Begins next others → Begins part others :=
    fun ⟨more, tag, hok⟩ => ⟨more, tag, hmore _ _ hok⟩
  cases h with
  | token before token after hbefore htoken =>
      refine .token before token after (hbegins hbefore) ?_
      rintro ⟨more, tag, hok⟩
      refine htoken ⟨more, tag, hless _ _ ?_ hok⟩
      cases before <;> rfl
  | finish _ h => exact .finish _ (hbegins h)

/-- A rejection at the next token, or at the end if there is none. -/
theorem blamed_of_reject (h : (reject ending expected tokens : Except Rejection Tag)
      = .error rejection)
    (hnil : Begins part []) (hcons : ∀ token rest, tokens = token :: rest → ¬ Begins part [token]) :
    Blamed part ending tokens rejection.span := by
  cases tokens with
  | nil =>
      obtain rfl := Except.error.inj h
      exact .finish [] hnil
  | cons token rest =>
      obtain rfl := Except.error.inj h
      exact .token [] token rest hnil (hcons token rest rfl)

theorem reject_of_finish {accepted : Tag}
    (h : finish ending expected accepted tokens = .error rejection) :
    (reject ending expected tokens : Except Rejection Tag) = .error rejection := by
  cases tokens with
  | nil => cases h
  | cons token rest => exact h

end Blame

/-! ## The parts of the parser -/

section Parts

variable {ending : Span} {tokens : List (Located Token)} {rejection : Rejection}

theorem blamed_of_finish {expected : List Expectation} {accepted : Tag}
    (h : finish ending expected accepted tokens = .error rejection) :
    Blamed (finish ending expected accepted) ending tokens rejection.span := by
  refine blamed_of_reject (reject_of_finish h) ⟨[], accepted, rfl⟩ ?_
  rintro token rest - ⟨more, tag, hok⟩
  have hitems := (finish_eq_ok_iff.mp hok).1
  simp at hitems

theorem blamed_of_onePath {accepted : Text → Tag}
    (h : onePath ending accepted tokens = .error rejection) :
    Blamed (onePath ending accepted) ending tokens rejection.span := by
  unfold onePath at h
  split at h
  · exact (blamed_of_finish h).cons fun _ => rfl
  · next hpath =>
      refine blamed_of_reject h ⟨[⟨.path [], ending⟩], accepted [], rfl⟩ ?_
      rintro ⟨item, span⟩ rest rfl ⟨more, tag, hok⟩
      obtain ⟨name, hitems, -⟩ := onePath_eq_ok_iff.mp hok
      obtain ⟨rfl, -⟩ := List.cons.inj hitems
      exact hpath name span rest rfl

/-- The closing parenthesis that completes what is open. -/
abbrev closing (place : Span) : List (Located Token) := [⟨.sign .closeParen, place⟩]

theorem blamed_of_closerEnd {name : Option Text}
    (h : closerEnd ending name tokens = .error rejection) :
    Blamed (closerEnd ending name) ending tokens rejection.span := by
  unfold closerEnd at h
  split at h
  · next opening closing rest =>
      have hrest := blamed_of_finish h
      have hclosed : Blamed (fun others => closerEnd ending name
          (⟨.sign .openParen, opening⟩ :: others)) ending (⟨.sign .closeParen, closing⟩ :: rest)
          rejection.span := hrest.cons fun _ => rfl
      exact hclosed.cons fun _ => rfl
  · next opening rest hclose =>
      have hrest : Blamed (fun others => closerEnd ending name
          (⟨.sign .openParen, opening⟩ :: others)) ending rest rejection.span := by
        refine blamed_of_reject h ⟨closing ending, .closer name, rfl⟩ ?_
        rintro ⟨item, span⟩ more rfl ⟨others, tag, hok⟩
        obtain ⟨hitems | hitems, -⟩ := closerEnd_eq_ok_iff.mp hok
        · cases hitems
        · obtain ⟨rfl, -⟩ := List.cons.inj (List.cons.inj hitems).2
          exact hclose span more rfl
      exact hrest.cons fun _ => rfl
  · next hopen hother =>
      refine blamed_of_reject (reject_of_finish h) ⟨[], .closer name, rfl⟩ ?_
      rintro ⟨item, span⟩ rest rfl ⟨more, tag, hok⟩
      obtain ⟨hitems | hitems, -⟩ := closerEnd_eq_ok_iff.mp hok
      · cases hitems
      · obtain ⟨rfl, -⟩ := List.cons.inj hitems
        exact hother span rest rfl

theorem closerName_of_closerEnd {others : List (Located Token)} {tag : Tag}
    (h : closerEnd ending none others = .ok tag) : closerName ending others = .ok tag := by
  obtain ⟨hparens, rfl⟩ := closerEnd_eq_ok_iff.mp h
  exact closerName_eq_ok_iff.mpr ⟨none, items others, hparens, rfl, rfl⟩

theorem closerRest_of_closerEnd {others : List (Located Token)} {tag : Tag}
    (h : closerEnd ending none others = .ok tag) : closerRest ending others = .ok tag := by
  obtain ⟨hparens, rfl⟩ := closerEnd_eq_ok_iff.mp h
  exact closerRest_eq_ok_iff.mpr ⟨none, none, items others, by simp, hparens, rfl, rfl⟩

theorem blamed_of_closerName (h : closerName ending tokens = .error rejection) :
    Blamed (closerName ending) ending tokens rejection.span := by
  unfold closerName at h
  split at h
  · exact (blamed_of_closerEnd h).cons fun _ => rfl
  · next hpath =>
      refine (blamed_of_closerEnd h).of_head (fun _ _ => closerName_of_closerEnd) ?_
      intro others tag hhead hok
      unfold closerName at hok
      split at hok
      · next name span rest =>
          obtain ⟨more, htokens⟩ := List.head?_eq_some_iff.mp hhead.symm
          exact absurd htokens (hpath name span more)
      · exact hok

theorem blamed_of_closerRest (h : closerRest ending tokens = .error rejection) :
    Blamed (closerRest ending) ending tokens rejection.span := by
  have hnil : Begins (closerRest ending) [] := ⟨[], .closer none, rfl⟩
  cases tokens with
  | nil => cases h
  | cons token rest =>
      obtain ⟨item, span⟩ := token
      cases item with
      | path name => exact (blamed_of_closerEnd h).cons fun _ => rfl
      | quoted content =>
          refine blamed_of_reject h hnil ?_
          rintro token more htokens ⟨others, tag, hok⟩
          obtain ⟨rfl, -⟩ := List.cons.inj htokens
          cases hok
      | sign sign =>
          by_cases hmark : closerSign sign = true
          · rw [closerRest_of_mark hmark] at h
            exact (blamed_of_closerName h).cons fun others => closerRest_of_mark hmark span others
          · by_cases hopen : sign = .openParen
            · subst hopen
              have hend := blamed_of_closerEnd h
              refine hend.of_head (fun _ _ => closerRest_of_closerEnd) ?_
              intro others tag hhead hok
              obtain ⟨more, rfl⟩ := List.head?_eq_some_iff.mp hhead
              exact hok
            · have hreject : ∀ others, closerRest ending (⟨.sign sign, span⟩ :: others)
                  = reject ending [.sign .atSign, .sign .bang, .sign .angle, .sign .hash,
                      .sign .openParen, .finish] (⟨.sign sign, span⟩ :: others) := by
                intro others
                simp [closerRest, hmark, hopen]
              rw [hreject] at h
              refine blamed_of_reject h hnil ?_
              rintro token more htokens ⟨others, tag, hok⟩
              obtain ⟨rfl, -⟩ := List.cons.inj htokens
              exact reject_ne_ok ((hreject others).symm.trans hok)

/-- Behind an argument only a comma and the closing parenthesis are accepted. -/
theorem callArguments_stray (ending : Span) (name : Text) (before : List Argument)
    (argument : Argument) (span : Span) (others : List (Located Token))
    (hcomma : ∀ place more, others ≠ ⟨.sign .comma, place⟩ :: more)
    (hclose : ∀ place more, others ≠ ⟨.sign .closeParen, place⟩ :: more) :
    callArguments ending name before (⟨argument.token, span⟩ :: others)
      = reject ending [.sign .comma, .sign .closeParen] others := by
  cases argument <;> simp only [Argument.token, callArguments, argument?]

theorem blamed_of_callArguments {name : Text} {before : List Argument}
    (h : callArguments ending name before tokens = .error rejection) :
    Blamed (callArguments ending name before) ending tokens rejection.span := by
  have hnil : ∀ before, Begins (callArguments ending name before) [] :=
    fun before => ⟨closing ending, .call name before.reverse, rfl⟩
  fun_induction callArguments ending name before tokens with
  | case1 before => exact blamed_of_reject h (hnil before) (by simp)
  | case2 before span rest => exact (blamed_of_finish h).cons fun _ => rfl
  | case3 before token rest hclose hargument =>
      refine blamed_of_reject h (hnil before) ?_
      rintro other more htokens ⟨others, tag, hok⟩
      obtain ⟨rfl, -⟩ := List.cons.inj htokens
      have hreject : callArguments ending name before (token :: others)
          = reject ending [.sign .closeParen] (token :: others) := by
        rw [callArguments]
        · simp only [hargument]
        · exact hclose
      exact reject_ne_ok (hreject.symm.trans hok)
  | case4 before token hclose argument hargument place more ih =>
      obtain ⟨item, span⟩ := token
      obtain rfl : item = argument.token := argument?_eq_some_iff.mp hargument
      have hrest : Blamed (fun others =>
          callArguments ending name before (⟨argument.token, span⟩ :: others)) ending
          (⟨.sign .comma, place⟩ :: more) rejection.span :=
        (ih h).cons fun others => callArguments_comma name before argument span place others
      exact hrest.cons fun _ => rfl
  | case5 before token hclose argument hargument place more =>
      obtain ⟨item, span⟩ := token
      obtain rfl : item = argument.token := argument?_eq_some_iff.mp hargument
      have hrest : Blamed (fun others =>
          callArguments ending name before (⟨argument.token, span⟩ :: others)) ending
          (⟨.sign .closeParen, place⟩ :: more) rejection.span :=
        (blamed_of_finish h).cons fun others =>
          callArguments_last name before argument span place others
      exact hrest.cons fun _ => rfl
  | case6 before token hclose argument hargument rest hcomma hparen =>
      obtain ⟨item, span⟩ := token
      obtain rfl : item = argument.token := argument?_eq_some_iff.mp hargument
      have hrest : Blamed (fun others =>
          callArguments ending name before (⟨argument.token, span⟩ :: others)) ending rest
          rejection.span := by
        refine blamed_of_reject h
          ⟨closing ending, _, callArguments_last name before argument span ending []⟩ ?_
        rintro token more rfl ⟨others, tag, hok⟩
        have hreject := callArguments_stray ending name before argument span (token :: others) ?_ ?_
        · exact reject_ne_ok (hreject.symm.trans hok)
        · rintro place _ htoken
          obtain ⟨rfl, -⟩ := List.cons.inj htoken
          exact hcomma place more rfl
        · rintro place _ htoken
          obtain ⟨rfl, -⟩ := List.cons.inj htoken
          exact hparen place more rfl
      exact hrest.cons fun _ => rfl

theorem blamed_of_afterPath {name : Text} (h : afterPath ending name tokens = .error rejection) :
    Blamed (afterPath ending name) ending tokens rejection.span := by
  unfold afterPath at h
  split at h
  · exact (blamed_of_callArguments h).cons fun _ => rfl
  · next hparen =>
      refine blamed_of_reject (reject_of_finish h) ⟨[], .opener .conditional name, rfl⟩ ?_
      rintro ⟨item, span⟩ rest rfl ⟨more, tag, hok⟩
      obtain ⟨hitems, -⟩ | ⟨arguments, comma, -, hitems, -⟩ := afterPath_eq_ok_iff.mp hok
      · cases hitems
      · obtain ⟨rfl, -⟩ := List.cons.inj hitems
        exact hparen span rest rfl

/-- **The parser puts the blame where the tokens stop beginning a tag.** -/
theorem blamed_of_ofTokens (h : ofTokens ending tokens = .error rejection) :
    Blamed (ofTokens ending) ending tokens rejection.span := by
  have hnil : Begins (ofTokens ending) [] := ⟨[⟨.path [], ending⟩], .opener .conditional [], rfl⟩
  cases tokens with
  | nil => exact blamed_of_reject h hnil (by simp)
  | cons token rest =>
      obtain ⟨item, span⟩ := token
      have hreject : (∀ others, ofTokens ending (⟨item, span⟩ :: others)
          = reject ending firstSigns (⟨item, span⟩ :: others)) →
          Blamed (ofTokens ending) ending (⟨item, span⟩ :: rest) rejection.span := by
        intro hfirst
        rw [hfirst] at h
        refine blamed_of_reject h hnil ?_
        rintro token more htokens ⟨others, tag, hok⟩
        obtain ⟨rfl, -⟩ := List.cons.inj htokens
        exact reject_ne_ok ((hfirst others).symm.trans hok)
      cases item with
      | path name => exact (blamed_of_afterPath h).cons fun _ => rfl
      | quoted content => exact hreject fun _ => rfl
      | sign sign =>
          cases sign with
          | atSign | bang | angle | hash | caret | plus | equals | percent | colon =>
              exact (blamed_of_onePath h).cons fun _ => rfl
          | slash => exact (blamed_of_closerRest h).cons fun _ => rfl
          | openParen | closeParen | comma => exact hreject fun _ => rfl

end Parts

/-! ## Viable tokens -/

theorem begins_ofTokens_iff {ending : Span} {tokens : List (Located Token)} :
    Begins (ofTokens ending) tokens ↔ Viable (items tokens) := by
  constructor
  · rintro ⟨more, tag, hok⟩
    refine ⟨tag, _, spelledBy_of_ofTokens hok, items more, ?_⟩
    exact List.map_append.symm
  · rintro ⟨tag, spelling, hspelled, more, rfl⟩
    -- where the tokens that are still missing would stand makes no difference
    refine ⟨more.map fun token => ⟨token, ending⟩, tag, ofTokens_of_spelledBy ending ?_⟩
    have hitems : items (tokens ++ more.map fun token => ⟨token, ending⟩)
        = items tokens ++ more := by
      simp [items, Function.comp_def]
    rw [hitems]
    exact hspelled

end Tag

theorem Viable.of_prefix {tokens more : List Token} (h : Viable more) (hbegins : tokens <+: more) :
    Viable tokens := by
  obtain ⟨tag, spelling, hspelled, hmore⟩ := h
  exact ⟨tag, spelling, hspelled, hbegins.trans hmore⟩

/-- The token is the first with which the tokens are viable no longer. -/
def FirstUnviable (tokens : List (Located Token)) (token : Located Token) : Prop :=
  ∃ before after, tokens = before ++ token :: after ∧ Viable (items before) ∧
    ¬ Viable (items before ++ [token.item])

section FirstUnviable

variable {tokens : List (Located Token)} {token other : Located Token}

theorem FirstUnviable.not_viable (h : FirstUnviable tokens token) : ¬ Viable (items tokens) := by
  obtain ⟨before, after, rfl, -, htoken⟩ := h
  intro hviable
  refine htoken (hviable.of_prefix ⟨items after, ?_⟩)
  simp [items]

theorem FirstUnviable.unique (h : FirstUnviable tokens token)
    (hother : FirstUnviable tokens other) :
    token = other := by
  obtain ⟨before, after, rfl, hbefore, htoken⟩ := h
  obtain ⟨before', after', hsplit, hbefore', hother⟩ := hother
  -- of two places the later one would have an unviable beginning before it
  have hlater : ∀ (first : List (Located Token)) (token : Located Token)
      (mid : List (Located Token)), Viable (items (first ++ token :: mid)) →
      Viable (items first ++ [token.item]) := by
    intro first token mid hviable
    refine hviable.of_prefix ⟨items mid, ?_⟩
    simp [items]
  obtain ⟨mid, rfl, hmid⟩ | ⟨mid, rfl, hmid⟩ := List.append_eq_append_iff.mp hsplit
  · cases mid with
    | nil => exact (List.cons.inj hmid).1
    | cons first mid =>
        obtain ⟨rfl, -⟩ := List.cons.inj hmid
        exact absurd (hlater before token mid hbefore') htoken
  · cases mid with
    | nil => exact (List.cons.inj hmid).1.symm
    | cons first mid =>
        obtain ⟨rfl, -⟩ := List.cons.inj hmid
        exact absurd (hlater before' other mid hbefore) hother

end FirstUnviable

/-! ## The end of the tokens -/

/-- No token ends with spacing. -/
theorem Token.WrittenAs.not_spacing_of_getLast? {token : Token} {source : Text} {c : Char}
    (h : token.WrittenAs source) (hc : source.getLast? = some c) : isSpacing c = false := by
  cases h with
  | sign sign =>
      obtain rfl : sign.char = c := Option.some.inj hc
      cases sign <;> rfl
  | path hname =>
      have hpart : isPathPart c = true := isPathPart_of_mem hname (List.mem_of_getLast? hc)
      by_contra hspacing
      rw [Bool.not_eq_false] at hspacing
      rw [not_isPathPart_of_isSpacing hspacing] at hpart
      cases hpart
  | @quoted quote content hquote hcontent =>
      rw [List.getLast?_concat] at hc
      obtain rfl : quote = c := Option.some.inj hc
      exact (plain_of_isQuote hquote).1

/-- The last token ends where the text does unless spacing follows it. -/
theorem Tokenization.stop_eq_iff {input : Text} {before : List (Located Token)}
    {last : Located Token} (h : Tokenization 0 input [] (before ++ [last])) :
    last.span.stop = byteSize input ↔ ∀ c ∈ input.getLast?, isSpacing c = false := by
  have hlast : last ∈ before ++ [last] := List.mem_append_right _ List.mem_cons_self
  obtain ⟨front, source, after, rfl, hwritten, -, hspan⟩ := h.stands last hlast
  have hstop : last.span.stop = byteSize (front ++ source) := by
    rw [hspan, byteSize_append, Nat.zero_add]
  have hsize : byteSize (front ++ source ++ after) = byteSize (front ++ source) + byteSize after :=
    byteSize_append _ _
  rcases List.eq_nil_or_concat after with rfl | ⟨rest, c, hafter⟩
  · refine iff_of_true (by rw [hstop, List.append_nil]) ?_
    intro c hc
    rw [List.append_nil, List.getLast?_append_of_ne_nil _ hwritten.ne_nil] at hc
    exact hwritten.not_spacing_of_getLast? hc
  · have hsome : (front ++ source ++ after).getLast? = some c := by
      rw [hafter, List.concat_eq_append, ← List.append_assoc, List.getLast?_concat]
    have hspacing : isSpacing c = true := by
      refine h.spacing (front ++ source ++ rest) c [] (by simp [hafter]) ?_
      intro token htoken
      -- every token ends where the last one does, or before
      have hle : token.span.stop ≤ last.span.stop := by
        rcases List.mem_append.mp htoken with htoken | htoken
        · have hapart : token.span.stop ≤ last.span.start :=
            (List.pairwise_append.mp h.apart).2.2 token htoken last List.mem_cons_self
          exact hapart.trans (h.nonempty last hlast).le
        · rw [List.mem_singleton.mp htoken]
      refine Or.inr (hle.trans ?_)
      rw [hstop, byteSize_append _ rest]
      omega
    have hpos : 0 < byteSize after := byteSize_pos (by simp [hafter])
    refine iff_of_false (by omega) ?_
    intro hall
    rw [hall c hsome] at hspacing
    cases hspacing

/-! ## Rejected tags -/

namespace Tag

theorem endSpan_eq (size : Nat) (tokens : List (Located Token)) :
    endSpan size tokens = ⟨size, (tokens.getLast?.map (·.span.stop)).getD size⟩ := by
  unfold endSpan
  cases tokens.getLast? <;> rfl

/-- The end of a tag is an empty stretch unless spacing follows the last token. -/
theorem endSpan_eq_iff {input : Text} {tokens : List (Located Token)}
    (h : lex input = .ok tokens) :
    endSpan (byteSize input) tokens = ⟨byteSize input, byteSize input⟩ ↔
      tokens = [] ∨ ∀ c ∈ input.getLast?, isSpacing c = false := by
  rcases List.eq_nil_or_concat tokens with rfl | ⟨before, last, rfl⟩
  · simp [endSpan]
  · rw [List.concat_eq_append] at h ⊢
    have htiled : Tokenization 0 input [] (before ++ [last]) := ((lex_exact input).1 _).mp h
    have hne : before ++ [last] ≠ [] := by simp
    rw [endSpan, List.getLast?_concat, Span.mk.injEq, or_iff_right hne, ← htiled.stop_eq_iff]
    exact and_iff_right rfl

theorem Blamed.cases_viable {ending span : Span} {tokens : List (Located Token)}
    (h : Blamed (ofTokens ending) ending tokens span) :
    (∃ token, FirstUnviable tokens token ∧ span = token.span) ∨
      Viable (items tokens) ∧ span = ending := by
  cases h with
  | token before token after hbefore htoken =>
      rw [begins_ofTokens_iff] at hbefore htoken
      exact Or.inl ⟨token, ⟨before, after, rfl, hbefore, by simpa [items] using htoken⟩, rfl⟩
  | finish _ h => exact Or.inr ⟨begins_ofTokens_iff.mp h, rfl⟩

/-- **A rejected tag is reported where it stops being viable.** If the inside of a tag cannot be cut
into tokens, the rejection has the span at which the lexer stops. If it can be and is no tag, the
rejection has the span of the first token with which the tokens are viable no longer. If they are
viable to the end, because the tag is only incomplete, the rejection has the span that goes from the
end of the tag back to the end of the last token; this is the empty span at the end if there are no
tokens or no spacing follows the last one, and only then. -/
theorem rejection_place (input : Text) :
    (∀ span, lex input = .error span → parse input = .error ⟨span, .strayCharacter⟩) ∧
    ∀ tokens rejection, lex input = .ok tokens → parse input = .error rejection →
      (¬ Viable (tokens.map (·.item)) →
        ∃ token, FirstUnviable tokens token ∧ rejection.span = token.span) ∧
      (Viable (tokens.map (·.item)) →
        rejection.span
          = ⟨byteSize input, (tokens.getLast?.map (·.span.stop)).getD (byteSize input)⟩ ∧
        (rejection.span = ⟨byteSize input, byteSize input⟩ ↔
          tokens = [] ∨ ∀ c ∈ input.getLast?, isSpacing c = false)) := by
  constructor
  · intro span hlex
    rw [parse, hlex]
  · intro tokens rejection hlex hparse
    rw [parse, hlex] at hparse
    rcases (blamed_of_ofTokens hparse).cases_viable with ⟨blamed, hblamed, hspan⟩ | ⟨hviable, hspan⟩
    · exact ⟨fun _ => ⟨blamed, hblamed, hspan⟩,
        fun hviable => absurd hviable hblamed.not_viable⟩
    · refine ⟨fun hstop => absurd hviable hstop, fun _ => ?_⟩
      rw [hspan]
      exact ⟨endSpan_eq _ _, endSpan_eq_iff hlex⟩

/-- A call in which a comma is missing, and one that is not closed. -/
theorem rejection_place_call :
    let stray := "m(a,\tb c".toList
    let incomplete := "m(a".toList
    let tokens : List (Located Token) := [⟨.path ['m'], ⟨0, 1⟩⟩, ⟨.sign .openParen, ⟨1, 2⟩⟩,
      ⟨.path ['a'], ⟨2, 3⟩⟩, ⟨.sign .comma, ⟨3, 4⟩⟩, ⟨.path ['b'], ⟨5, 6⟩⟩, ⟨.path ['c'], ⟨7, 8⟩⟩]
    (∃ rejection, lex stray = .ok tokens ∧ parse stray = .error rejection ∧
      FirstUnviable tokens ⟨.path ['c'], ⟨7, 8⟩⟩ ∧ rejection.span = ⟨7, 8⟩) ∧
    ∃ rejection, lex incomplete = .ok (tokens.take 3) ∧ parse incomplete = .error rejection ∧
      Viable ((tokens.take 3).map (·.item)) ∧ rejection.span = ⟨3, 3⟩ := by
  intro stray incomplete tokens
  have hlex : lex stray = .ok tokens ∧ lex incomplete = .ok (tokens.take 3) := by
    decide +kernel
  have hstray : parse stray
      = .error ⟨⟨7, 8⟩, .unexpected (some (.path ['c'])) [.sign .comma, .sign .closeParen]⟩ := by
    decide +kernel
  have hincomplete : parse incomplete
      = .error ⟨⟨3, 3⟩, .unexpected none [.sign .comma, .sign .closeParen]⟩ := by
    decide +kernel
  have hviable : Viable (items (tokens.take 5)) :=
    ⟨_, _, .call ['m'] [.key ['a'], .key ['b']] [] (Or.inl rfl), [.sign .closeParen], rfl⟩
  have hstop : ¬ Viable (items tokens) := by
    rw [← @begins_ofTokens_iff ⟨0, 0⟩]
    rintro ⟨more, tag, hok⟩
    cases hok
  have hfirst : FirstUnviable tokens ⟨.path ['c'], ⟨7, 8⟩⟩ :=
    ⟨tokens.take 5, [], rfl, hviable, hstop⟩
  have hbegin : Viable (items (tokens.take 3)) :=
    hviable.of_prefix ⟨[.sign .comma, .path ['b']], rfl⟩
  have hplace := (rejection_place stray).2 _ _ hlex.1 hstray
  have hend := (rejection_place incomplete).2 _ _ hlex.2 hincomplete
  have hlast : ∀ c ∈ incomplete.getLast?, isSpacing c = false := by
    rintro c ⟨⟩
    rfl
  obtain ⟨token, htoken, hspan⟩ := hplace.1 hstop
  rw [htoken.unique hfirst] at hspan
  refine ⟨⟨_, hlex.1, hstray, hfirst, hspan⟩, _, hlex.2, hincomplete, hbegin, ?_⟩
  exact ((hend.2 hbegin).2).mpr (Or.inr hlast)

/-- The span at the end of an incomplete tag is not always the empty one there: the blank in `= ` is
between the end of the tag and the end of its last token. -/
theorem not_forall_incomplete_empty :
    ¬ ∀ input tokens rejection, lex input = .ok tokens → parse input = .error rejection →
      Viable (tokens.map (·.item)) → rejection.span = ⟨byteSize input, byteSize input⟩ := by
  intro h
  have hlex : lex "= ".toList = .ok [⟨.sign .equals, ⟨0, 1⟩⟩] := by decide +kernel
  have hparse : parse "= ".toList = .error ⟨⟨2, 1⟩, .unexpected none []⟩ := by decide +kernel
  have hviable : Viable [.sign .equals] := ⟨_, _, .value [], [.path []], rfl⟩
  have hspan := h _ _ _ hlex hparse hviable
  cases hspan

end Tag

end Stencil
