import Stencil.Tag.Grammar

/-!
# The language of tags

Which tokens spell a tag is said once, as a grammar (`Tag.SpelledBy`). The parser accepts exactly
the tags of the grammar (`ofTokens_eq_ok_iff`), and as it is a function no tokens spell two tags
(`SpelledBy.unique`).

Spans play no part in what a tag is. Each part of the parser is described by the items of the tokens
it accepts, with an `iff` that the parts above it cite.
-/

set_option autoImplicit false

namespace Stencil

/-! ## The grammar -/

/-- The sign before the key of a block; a conditional block has none. -/
def BlockKind.sign? : BlockKind → Option Sign
  | .conditional => none
  | .negated => some .bang
  | .enumerate => some .atSign
  | .scopeShift => some .angle

/-- The token of an argument. -/
def Argument.token : Argument → Token
  | .literal content => .quoted content
  | .key name => .path name

/-- Arguments with a comma between neighbours. -/
def commaSeparated (arguments : List Argument) : List Token :=
  (arguments.map Argument.token).intersperse (.sign .comma)

/-- The tokens spell the tag. -/
inductive Tag.SpelledBy : Tag → List Token → Prop
  | opener (kind : BlockKind) (key : Text) :
      SpelledBy (.opener kind key) (kind.sign?.toList.map .sign ++ [.path key])
  | slot (name : Text) : SpelledBy (.slot name) [.sign .hash, .path name]
  | otherwise (key : Text) : SpelledBy (.otherwise key) [.sign .colon, .path key]
  /-- The sign of what is closed and an empty pair of parentheses mean nothing in a closer. -/
  | closer (mark : Option Sign) (name : Option Text) (parens : List Token)
      (hmark : ∀ sign ∈ mark, sign ∈ [Sign.atSign, .bang, .angle, .hash])
      (hparens : parens = [] ∨ parens = [.sign .openParen, .sign .closeParen]) :
      SpelledBy (.closer name)
        (.sign .slash :: (mark.toList.map .sign ++ name.toList.map .path ++ parens))
  | inclusion (name : Text) : SpelledBy (.inclusion name) [.sign .plus, .path name]
  | parent (name : Text) : SpelledBy (.parent name) [.sign .caret, .path name]
  | value (key : Text) : SpelledBy (.value false key) [.sign .equals, .path key]
  | escapedValue (key : Text) : SpelledBy (.value true key) [.sign .percent, .path key]
  /-- A comma may stand after the last argument. -/
  | call (name : Text) (arguments : List Argument) (comma : List Token)
      (hcomma : comma = [] ∨ comma = [.sign .comma] ∧ arguments ≠ []) :
      SpelledBy (.call name arguments)
        (.path name :: .sign .openParen
          :: (commaSeparated arguments ++ comma ++ [.sign .closeParen]))

@[simp]
theorem commaSeparated_nil : commaSeparated [] = [] := rfl

@[simp]
theorem commaSeparated_singleton (argument : Argument) :
    commaSeparated [argument] = [argument.token] := rfl

@[simp]
theorem commaSeparated_cons_cons (first second : Argument) (more : List Argument) :
    commaSeparated (first :: second :: more)
      = first.token :: .sign .comma :: commaSeparated (second :: more) := rfl

/-! ## What each part of the parser accepts -/

/-- The tokens without the places they stand at. -/
abbrev items (tokens : List (Located Token)) : List Token := tokens.map (·.item)

theorem argument?_eq_some_iff {token : Token} {argument : Argument} :
    Tag.argument? token = some argument ↔ token = argument.token := by
  cases token <;> cases argument <;> simp [Tag.argument?, Argument.token]

namespace Tag

variable {ending : Span} {expected : List Expectation} {tokens : List (Located Token)} {tag : Tag}

theorem reject_ne_ok : reject ending expected tokens ≠ .ok tag := by
  cases tokens <;> simp [reject]

theorem finish_eq_ok_iff {accepted : Tag} :
    finish ending expected accepted tokens = .ok tag ↔ items tokens = [] ∧ tag = accepted := by
  cases tokens with
  | nil => simp [finish, eq_comm]
  | cons token rest => simp [finish, reject]

theorem onePath_eq_ok_iff {accepted : Text → Tag} :
    onePath ending accepted tokens = .ok tag ↔
      ∃ name, items tokens = [.path name] ∧ tag = accepted name := by
  unfold onePath
  split
  · next name span rest =>
      rw [finish_eq_ok_iff]
      constructor
      · rintro ⟨hrest, rfl⟩
        exact ⟨name, congrArg (Token.path name :: ·) hrest, rfl⟩
      · rintro ⟨other, hitems, rfl⟩
        obtain ⟨hname, hrest⟩ := List.cons.inj hitems
        cases hname
        exact ⟨hrest, rfl⟩
  · next hpath =>
      refine iff_of_false reject_ne_ok ?_
      rintro ⟨name, hitems, -⟩
      obtain ⟨⟨_, span⟩, rest, rfl, rfl, -⟩ := List.map_eq_cons_iff.mp hitems
      exact hpath name span rest rfl

/-- The end of a closer: nothing, or an empty pair of parentheses. -/
theorem closerEnd_eq_ok_iff {name : Option Text} :
    closerEnd ending name tokens = .ok tag ↔
      (items tokens = [] ∨ items tokens = [.sign .openParen, .sign .closeParen]) ∧
        tag = .closer name := by
  unfold closerEnd
  split
  · rw [finish_eq_ok_iff]
    simp
  · next span rest hclose =>
      refine iff_of_false reject_ne_ok ?_
      rintro ⟨hitems | hitems, -⟩
      · simp at hitems
      · obtain ⟨⟨_, span'⟩, more, rfl, rfl, -⟩ :=
          List.map_eq_cons_iff.mp (List.cons.inj hitems).2
        exact hclose span' more rfl
  · next hopen hother =>
      rw [finish_eq_ok_iff]
      refine and_congr_left fun _ => (or_iff_left ?_).symm
      intro hitems
      obtain ⟨⟨_, span⟩, rest, rfl, rfl, -⟩ := List.map_eq_cons_iff.mp hitems
      exact hother span rest rfl

/-- A closer after the sign of what it closes. -/
theorem closerName_eq_ok_iff :
    closerName ending tokens = .ok tag ↔
      ∃ (name : Option Text) (parens : List Token),
        (parens = [] ∨ parens = [.sign .openParen, .sign .closeParen]) ∧
        items tokens = name.toList.map .path ++ parens ∧ tag = .closer name := by
  unfold closerName
  split
  · next name span rest =>
      rw [closerEnd_eq_ok_iff]
      constructor
      · rintro ⟨hparens, rfl⟩
        exact ⟨some name, items rest, hparens, rfl, rfl⟩
      · rintro ⟨other, parens, hparens, hitems, rfl⟩
        cases other with
        | none => rcases hparens with rfl | rfl <;> simp at hitems
        | some other =>
            obtain ⟨hname, rfl⟩ := List.cons.inj hitems
            cases hname
            exact ⟨hparens, rfl⟩
  · next hpath =>
      rw [closerEnd_eq_ok_iff]
      constructor
      · rintro ⟨hparens, rfl⟩
        exact ⟨none, items tokens, hparens, rfl, rfl⟩
      · rintro ⟨other, parens, hparens, hitems, rfl⟩
        cases other with
        | none =>
            obtain rfl : items tokens = parens := hitems
            exact ⟨hparens, rfl⟩
        | some other =>
            obtain ⟨⟨_, span⟩, rest, rfl, rfl, -⟩ := List.map_eq_cons_iff.mp hitems
            exact absurd rfl (hpath other span rest)

theorem closerSign_iff (sign : Sign) :
    closerSign sign = true ↔ sign ∈ [Sign.atSign, .bang, .angle, .hash] := by
  cases sign <;> decide

theorem closerRest_of_mark {sign : Sign} (h : closerSign sign = true) (span : Span)
    (rest : List (Located Token)) :
    closerRest ending (⟨.sign sign, span⟩ :: rest) = closerName ending rest := by
  simp [closerRest, h]

/-- Without the sign of what it closes a closer is accepted as one after that sign is. -/
theorem closerRest_eq_ok_iff_closerName
    (h : ∀ sign, (items tokens).head? = some (.sign sign) → closerSign sign = false) :
    closerRest ending tokens = .ok tag ↔ closerName ending tokens = .ok tag := by
  cases tokens with
  | nil => rfl
  | cons token rest =>
      obtain ⟨item, span⟩ := token
      cases item with
      | path name => rfl
      | quoted content =>
          exact iff_of_false (by simp [closerRest, reject])
            (by simp [closerName, closerEnd, finish, reject])
      | sign sign =>
          have hsign : closerSign sign = false := h sign rfl
          by_cases hopen : sign = .openParen
          · subst hopen
            rfl
          · have hrest : closerRest ending (⟨.sign sign, span⟩ :: rest)
                = reject ending [.sign .atSign, .sign .bang, .sign .angle, .sign .hash,
                    .sign .openParen, .finish] (⟨.sign sign, span⟩ :: rest) := by
              simp [closerRest, hsign, hopen]
            have hname : closerName ending (⟨.sign sign, span⟩ :: rest)
                = reject ending [.sign .openParen, .finish] (⟨.sign sign, span⟩ :: rest) := by
              simp [closerName, closerEnd, finish, hopen]
            rw [hrest, hname]
            exact iff_of_false reject_ne_ok reject_ne_ok

/-- A closer after its slash. -/
theorem closerRest_eq_ok_iff :
    closerRest ending tokens = .ok tag ↔
      ∃ (mark : Option Sign) (name : Option Text) (parens : List Token),
        (∀ sign ∈ mark, sign ∈ [Sign.atSign, .bang, .angle, .hash]) ∧
        (parens = [] ∨ parens = [.sign .openParen, .sign .closeParen]) ∧
        items tokens = mark.toList.map .sign ++ name.toList.map .path ++ parens ∧
        tag = .closer name := by
  constructor
  · intro h
    by_cases hmark : ∃ sign, (items tokens).head? = some (.sign sign) ∧ closerSign sign = true
    · obtain ⟨sign, hhead, hsign⟩ := hmark
      obtain ⟨more, hitems⟩ := List.head?_eq_some_iff.mp hhead
      obtain ⟨⟨_, span⟩, rest, rfl, rfl, rfl⟩ := List.map_eq_cons_iff.mp hitems
      rw [closerRest_of_mark hsign, closerName_eq_ok_iff] at h
      obtain ⟨name, parens, hparens, hrest, htag⟩ := h
      refine ⟨some sign, name, parens, ?_, hparens, ?_, htag⟩
      · intro other hother
        obtain rfl : sign = other := Option.some.inj hother
        exact (closerSign_iff sign).mp hsign
      · exact congrArg (Token.sign sign :: ·) hrest
    · rw [closerRest_eq_ok_iff_closerName (by simpa using hmark), closerName_eq_ok_iff] at h
      obtain ⟨name, parens, hparens, hitems, htag⟩ := h
      exact ⟨none, name, parens, by simp, hparens, hitems, htag⟩
  · rintro ⟨mark, name, parens, hmark, hparens, hitems, htag⟩
    cases mark with
    | some sign =>
        obtain ⟨⟨_, span⟩, rest, rfl, rfl, hrest⟩ := List.map_eq_cons_iff.mp hitems
        rw [closerRest_of_mark ((closerSign_iff sign).mpr (hmark sign rfl)),
          closerName_eq_ok_iff]
        exact ⟨name, parens, hparens, hrest, htag⟩
    | none =>
        refine (closerRest_eq_ok_iff_closerName ?_).mpr
          (closerName_eq_ok_iff.mpr ⟨name, parens, hparens, hitems, htag⟩)
        intro sign hhead
        rw [hitems] at hhead
        cases name with
        | some name => simp at hhead
        | none =>
            rcases hparens with rfl | rfl
            · simp at hhead
            · obtain rfl : Sign.openParen = sign := by simpa using hhead
              rfl

/-! ### Calls -/

theorem callArguments_last (name : Text) (before : List Argument) (argument : Argument)
    (span span' : Span) (rest : List (Located Token)) :
    callArguments ending name before
        (⟨argument.token, span⟩ :: ⟨.sign .closeParen, span'⟩ :: rest)
      = finish ending [.finish] (.call name (argument :: before).reverse) rest := by
  cases argument <;> rfl

theorem callArguments_comma (name : Text) (before : List Argument) (argument : Argument)
    (span span' : Span) (rest : List (Located Token)) :
    callArguments ending name before (⟨argument.token, span⟩ :: ⟨.sign .comma, span'⟩ :: rest)
      = callArguments ending name (argument :: before) rest := by
  cases argument <;> rfl

/-- The arguments of a call, from any of them on. -/
theorem callArguments_eq_ok_iff {name : Text} {before : List Argument} :
    callArguments ending name before tokens = .ok tag ↔
      ∃ (arguments : List Argument) (comma : List Token),
        (comma = [] ∨ comma = [.sign .comma] ∧ arguments ≠ []) ∧
        items tokens = commaSeparated arguments ++ comma ++ [.sign .closeParen] ∧
        tag = .call name (before.reverse ++ arguments) := by
  constructor
  · intro h
    fun_induction callArguments ending name before tokens with
    | case1 before => exact absurd h reject_ne_ok
    | case2 before span rest =>
        obtain ⟨hrest, rfl⟩ := finish_eq_ok_iff.mp h
        refine ⟨[], [], Or.inl rfl, ?_, by simp⟩
        exact congrArg (Token.sign .closeParen :: ·) hrest
    | case3 before token rest hclose hargument => exact absurd h reject_ne_ok
    | case4 before token hclose argument hargument span more ih =>
        obtain ⟨arguments, comma, hcomma, hitems, rfl⟩ := ih h
        obtain ⟨item, place⟩ := token
        obtain rfl : item = argument.token := argument?_eq_some_iff.mp hargument
        have hitems : items (⟨argument.token, place⟩ :: ⟨.sign .comma, span⟩ :: more)
            = argument.token :: .sign .comma
              :: (commaSeparated arguments ++ comma ++ [.sign .closeParen]) :=
          congrArg (argument.token :: Token.sign .comma :: ·) hitems
        cases arguments with
        | nil =>
            -- what was read last is a comma before the closing parenthesis
            obtain rfl : comma = [] := by simpa using hcomma
            exact ⟨[argument], [.sign .comma], Or.inr ⟨rfl, by simp⟩, hitems, by simp⟩
        | cons second arguments =>
            exact ⟨argument :: second :: arguments, comma, by simpa using hcomma, hitems, by simp⟩
    | case5 before token hclose argument hargument span more =>
        obtain ⟨hmore, rfl⟩ := finish_eq_ok_iff.mp h
        obtain ⟨item, place⟩ := token
        obtain rfl : item = argument.token := argument?_eq_some_iff.mp hargument
        refine ⟨[argument], [], Or.inl rfl, ?_, by simp⟩
        exact congrArg (argument.token :: Token.sign .closeParen :: ·) hmore
    | case6 => exact absurd h reject_ne_ok
  · rintro ⟨arguments, comma, hcomma, hitems, rfl⟩
    induction arguments generalizing before tokens comma with
    | nil =>
        obtain rfl : comma = [] := by simpa using hcomma
        obtain ⟨⟨_, span⟩, rest, rfl, rfl, hnil⟩ := List.map_eq_cons_iff.mp hitems
        obtain rfl := List.map_eq_nil_iff.mp hnil
        simp [callArguments, finish]
    | cons argument more ih =>
        -- after a comma the arguments go on, if only with the closing parenthesis
        have hstep : ∀ span rest (comma : List Token),
            (comma = [] ∨ comma = [.sign .comma] ∧ more ≠ []) →
            items rest = .sign .comma :: (commaSeparated more ++ comma ++ [.sign .closeParen]) →
            callArguments ending name before (⟨argument.token, span⟩ :: rest)
              = .ok (.call name (before.reverse ++ argument :: more)) := by
          intro span rest comma hcomma hrest
          obtain ⟨⟨_, span'⟩, rest, rfl, rfl, hmore⟩ := List.map_eq_cons_iff.mp hrest
          rw [callArguments_comma, ih comma hcomma hmore]
          simp
        cases more with
        | nil =>
            obtain ⟨⟨_, span⟩, rest, rfl, rfl, hrest⟩ := List.map_eq_cons_iff.mp hitems
            rcases hcomma with rfl | ⟨rfl, -⟩
            · obtain ⟨⟨_, span'⟩, rest, rfl, rfl, hnil⟩ := List.map_eq_cons_iff.mp hrest
              obtain rfl := List.map_eq_nil_iff.mp hnil
              rw [callArguments_last]
              simp [finish]
            · exact hstep span rest [] (Or.inl rfl) hrest
        | cons second more =>
            obtain ⟨⟨_, span⟩, rest, rfl, rfl, hrest⟩ := List.map_eq_cons_iff.mp hitems
            exact hstep span rest comma (by simpa using hcomma) hrest

/-- A tag that begins with a path. -/
theorem afterPath_eq_ok_iff {name : Text} :
    afterPath ending name tokens = .ok tag ↔
      items tokens = [] ∧ tag = .opener .conditional name ∨
      ∃ (arguments : List Argument) (comma : List Token),
        (comma = [] ∨ comma = [.sign .comma] ∧ arguments ≠ []) ∧
        items tokens
          = .sign .openParen :: (commaSeparated arguments ++ comma ++ [.sign .closeParen]) ∧
        tag = .call name arguments := by
  unfold afterPath
  split
  · next span rest =>
      rw [callArguments_eq_ok_iff]
      simp
  · next hparen =>
      rw [finish_eq_ok_iff]
      refine (or_iff_left ?_).symm
      rintro ⟨arguments, comma, -, hitems, -⟩
      obtain ⟨⟨_, span⟩, rest, rfl, rfl, -⟩ := List.map_eq_cons_iff.mp hitems
      exact hparen span rest rfl

/-! ### Tags -/

theorem spelledBy_of_onePath {sign : Sign} {accepted : Text → Tag}
    (h : onePath ending accepted tokens = .ok tag)
    (hspelled : ∀ name, (accepted name).SpelledBy [.sign sign, .path name]) :
    tag.SpelledBy (.sign sign :: items tokens) := by
  obtain ⟨name, hitems, rfl⟩ := onePath_eq_ok_iff.mp h
  rw [hitems]
  exact hspelled name

theorem ofTokens_of_onePath {sign : Sign} {name : Text} {accepted : Text → Tag}
    (hitems : items tokens = [.sign sign, .path name])
    (hsign : ∀ span rest, ofTokens ending (⟨.sign sign, span⟩ :: rest)
      = onePath ending accepted rest) : ofTokens ending tokens = .ok (accepted name) := by
  obtain ⟨⟨_, span⟩, rest, rfl, rfl, hrest⟩ := List.map_eq_cons_iff.mp hitems
  rw [hsign, onePath_eq_ok_iff]
  exact ⟨name, hrest, rfl⟩

theorem spelledBy_of_ofTokens (h : ofTokens ending tokens = .ok tag) :
    tag.SpelledBy (items tokens) := by
  unfold ofTokens at h
  split at h
  · exact spelledBy_of_onePath h .value
  · exact spelledBy_of_onePath h .escapedValue
  · exact spelledBy_of_onePath h .inclusion
  · exact spelledBy_of_onePath h .parent
  · exact spelledBy_of_onePath h .otherwise
  · exact spelledBy_of_onePath h .slot
  · next span rest =>
      obtain ⟨mark, name, parens, hmark, hparens, hrest, rfl⟩ := closerRest_eq_ok_iff.mp h
      have hspelled := SpelledBy.closer mark name parens hmark hparens
      rw [← hrest] at hspelled
      exact hspelled
  · exact spelledBy_of_onePath h (.opener .enumerate)
  · exact spelledBy_of_onePath h (.opener .negated)
  · exact spelledBy_of_onePath h (.opener .scopeShift)
  · next name span rest =>
      rcases afterPath_eq_ok_iff.mp h with ⟨hrest, rfl⟩ | ⟨arguments, comma, hcomma, hrest, rfl⟩
      · have hspelled := SpelledBy.opener .conditional name
        have hitems : items (⟨.path name, span⟩ :: rest) = [.path name] :=
          congrArg (Token.path name :: ·) hrest
        rw [hitems]
        exact hspelled
      · have hspelled := SpelledBy.call name arguments comma hcomma
        rw [← hrest] at hspelled
        exact hspelled
  · exact absurd h reject_ne_ok

theorem ofTokens_of_spelledBy (ending : Span) (h : tag.SpelledBy (items tokens)) :
    ofTokens ending tokens = .ok tag := by
  generalize hitems : items tokens = spelling at h
  cases h with
  | opener kind key =>
      cases kind with
      | conditional =>
          obtain ⟨⟨_, span⟩, rest, rfl, rfl, hrest⟩ := List.map_eq_cons_iff.mp hitems
          exact afterPath_eq_ok_iff.mpr (Or.inl ⟨hrest, rfl⟩)
      | negated => exact ofTokens_of_onePath hitems fun _ _ => rfl
      | enumerate => exact ofTokens_of_onePath hitems fun _ _ => rfl
      | scopeShift => exact ofTokens_of_onePath hitems fun _ _ => rfl
  | slot name => exact ofTokens_of_onePath hitems fun _ _ => rfl
  | otherwise key => exact ofTokens_of_onePath hitems fun _ _ => rfl
  | closer mark name parens hmark hparens =>
      obtain ⟨⟨_, span⟩, rest, rfl, rfl, hrest⟩ := List.map_eq_cons_iff.mp hitems
      exact closerRest_eq_ok_iff.mpr ⟨mark, name, parens, hmark, hparens, hrest, rfl⟩
  | inclusion name => exact ofTokens_of_onePath hitems fun _ _ => rfl
  | parent name => exact ofTokens_of_onePath hitems fun _ _ => rfl
  | value key => exact ofTokens_of_onePath hitems fun _ _ => rfl
  | escapedValue key => exact ofTokens_of_onePath hitems fun _ _ => rfl
  | call name arguments comma hcomma =>
      obtain ⟨⟨_, span⟩, rest, rfl, rfl, hrest⟩ := List.map_eq_cons_iff.mp hitems
      exact afterPath_eq_ok_iff.mpr (Or.inr ⟨arguments, comma, hcomma, hrest, rfl⟩)

/-- **The parser accepts exactly the tags of the grammar.** -/
theorem ofTokens_eq_ok_iff : ofTokens ending tokens = .ok tag ↔ tag.SpelledBy (items tokens) :=
  ⟨spelledBy_of_ofTokens, ofTokens_of_spelledBy ending⟩

/-- **No tokens spell two tags.** -/
theorem SpelledBy.unique {first second : Tag} {spelling : List Token}
    (hfirst : first.SpelledBy spelling) (hsecond : second.SpelledBy spelling) :
    first = second := by
  -- the parser is a function, and where the tokens stand does not matter to it
  have hitems : items (spelling.map fun token => ⟨token, ⟨0, 0⟩⟩) = spelling := by
    simp [items, Function.comp_def]
  rw [← hitems] at hfirst hsecond
  exact Except.ok.inj
    ((ofTokens_of_spelledBy ⟨0, 0⟩ hfirst).symm.trans (ofTokens_of_spelledBy ⟨0, 0⟩ hsecond))

end Tag

end Stencil
