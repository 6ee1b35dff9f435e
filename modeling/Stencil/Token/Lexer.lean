import Stencil.Token

/-!
# Reading tokens

`lex` reads the inside of a tag as tokens, each as long as it can be, with spacing left out. At
the first place where no token can be read it stops with the span of that place: the character
there, or everything from a quote on that is never closed.
-/

set_option autoImplicit false

namespace Stencil

/-- A text cut at the first occurrence of a character: what is before and what is after it. -/
def cutAt (c : Char) : Text → Option (Text × Text)
  | [] => none
  | a :: rest =>
    if a = c then some ([], rest) else (cutAt c rest).map fun cut => (a :: cut.1, cut.2)

theorem eq_of_cutAt {c : Char} {t before after : Text} (h : cutAt c t = some (before, after)) :
    t = before ++ c :: after := by
  induction t generalizing before with
  | nil => simp [cutAt] at h
  | cons a t ih =>
    rw [cutAt] at h
    split at h
    · next hac =>
      obtain ⟨rfl, rfl⟩ := by simpa using h
      rw [hac, List.nil_append]
    · obtain ⟨⟨l, r⟩, hl, hcut⟩ := Option.map_eq_some_iff.mp h
      obtain ⟨rfl, rfl⟩ := by simpa using hcut
      rw [ih hl, List.cons_append]

/-- What is read at one place of a tag. -/
inductive Reading where
  /-- One character of spacing. -/
  | spacing (rest : Text)
  /-- A token, by its source text and the rest. -/
  | token (token : Token) (source rest : Text)
  /-- Nothing: the character begins no token, or is a quote that is never closed. -/
  | stuck (source : Text)

/-- What is read at a place where `c` stands before `rest`. -/
def readAt (c : Char) (rest : Text) : Reading :=
  if isSpacing c then .spacing rest
  else match Sign.ofChar? c with
  | some sign => .token (.sign sign) [c] rest
  | none =>
    if isPathStart c then
      let name := c :: rest.takeWhile isPathPart
      .token (.path name) name (rest.dropWhile isPathPart)
    else if isQuote c then
      match cutAt c rest with
      | some (content, after) => .token (.quoted content) (c :: content ++ [c]) after
      | none => .stuck (c :: rest)
    else .stuck [c]

theorem length_le_of_spacing {c : Char} {rest after : Text} (h : readAt c rest = .spacing after) :
    after.length ≤ rest.length := by
  unfold readAt at h
  split at h
  · cases h; exact Nat.le_refl _
  · split at h
    · cases h
    · split at h
      · cases h
      · split at h
        · split at h <;> cases h
        · cases h

theorem length_dropWhile_le (p : Char → Bool) (t : Text) : (t.dropWhile p).length ≤ t.length :=
  (List.dropWhile_suffix p).length_le

theorem length_le_of_token {c : Char} {rest source after : Text} {token : Token}
    (h : readAt c rest = .token token source after) : after.length ≤ rest.length := by
  unfold readAt at h
  split at h
  · cases h
  · split at h
    · cases h; exact Nat.le_refl _
    · split at h
      · cases h; exact length_dropWhile_le isPathPart rest
      · split at h
        · split at h
          · next hcut =>
            cases h
            have e := congrArg List.length (eq_of_cutAt hcut)
            simp at e
            omega
          · cases h
        · cases h

/-- The tokens of a text that begins at byte `start`, or the span of the first place where no
token can be read. -/
def lexFrom (start : Nat) : Text → Except Span (List (Located Token))
  | [] => .ok []
  | c :: rest =>
    match _h : readAt c rest with
    | .spacing after => lexFrom (start + c.utf8Size) after
    | .token token source after => do
      let stop := start + byteSize source
      let tokens ← lexFrom stop after
      return ⟨token, ⟨start, stop⟩⟩ :: tokens
    | .stuck source => .error ⟨start, start + byteSize source⟩
termination_by t => t.length
decreasing_by
  · exact Nat.lt_succ_of_le (length_le_of_spacing _h)
  · exact Nat.lt_succ_of_le (length_le_of_token _h)

/-- The tokens of the inside of a tag. -/
def lex (input : Text) : Except Span (List (Located Token)) := lexFrom 0 input

end Stencil
