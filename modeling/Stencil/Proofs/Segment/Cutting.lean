import Mathlib.Data.List.Chain
import Stencil.Segment

/-!
# Cutting undoes putting together

Pieces that are put together are cut out of the source again, if they are clean: no text has a
whole tag in it, no tag has braces in pairs inside or at its ends, and texts are not empty and do
not stand side by side (`segments_flatMap_source`).

A text may still end with one brace or hold a `{{` of its own. The tag that follows it gives the
first `}}` after that, so the last `{{` before it has to be found again; `exists_cutAtPair_append`
says where the search for the first one ends.
-/

set_option autoImplicit false

namespace Stencil

/-! ## Pairs -/

/-- The character never stands twice in a row. -/
def NoPair (c : Char) (t : Text) : Prop := t.IsChain fun a b => ¬ (a = c ∧ b = c)

theorem noPair_nil (c : Char) : NoPair c [] := .nil

theorem noPair_singleton (c a : Char) : NoPair c [a] := .singleton a

theorem noPair_cons {c a : Char} {t : Text} :
    NoPair c (a :: t) ↔ (∀ b ∈ t.head?, ¬ (a = c ∧ b = c)) ∧ NoPair c t :=
  List.isChain_cons

theorem noPair_append {c : Char} {s t : Text} :
    NoPair c (s ++ t)
      ↔ NoPair c s ∧ NoPair c t ∧ ∀ a ∈ s.getLast?, ∀ b ∈ t.head?, ¬ (a = c ∧ b = c) :=
  List.isChain_append

/-- Without the character there is no pair of it. -/
theorem noPair_of_notMem {c : Char} {t : Text} (h : c ∉ t) : NoPair c t := by
  induction t with
  | nil => exact noPair_nil c
  | cons a t ih =>
      simp only [List.mem_cons, not_or] at h
      exact noPair_cons.mpr ⟨fun b _ hpair => h.1 hpair.1.symm, ih h.2⟩

theorem noPair_iff (c : Char) (t : Text) : NoPair c t ↔ ¬ [c, c] <:+: t := by
  rw [NoPair, List.isChain_iff_forall_rel_of_append_cons_cons]
  constructor
  · rintro h ⟨before, after, heq⟩
    have heq' : t = before ++ c :: c :: after := by simp [← heq]
    exact h heq' ⟨rfl, rfl⟩
  · rintro h a b before after heq ⟨rfl, rfl⟩
    exact h ⟨before, after, by simp [heq]⟩

/-- The first pair is the one that is put after a text without pairs. -/
theorem cutAtPair_append {c : Char} {t : Text} (h : NoPair c (t ++ [c])) (rest : Text) :
    cutAtPair c (t ++ c :: c :: rest) = some (t, rest) := by
  induction t with
  | nil => simp [cutAtPair]
  | cons a t ih =>
      rw [List.cons_append, noPair_cons] at h
      obtain ⟨hhead, htail⟩ := h
      cases t with
      | nil =>
          have hac : ¬ (a = c ∧ c = c) := hhead c rfl
          simp only [and_true] at hac
          simp [cutAtPair, hac]
      | cons b t =>
          have hab : ¬ (a = c ∧ b = c) := hhead b rfl
          have hcut := ih htail
          rw [List.cons_append, List.cons_append, cutAtPair, if_neg hab, ← List.cons_append, hcut]
          rfl

theorem cutAtLastPair_eq_none {c : Char} {t : Text} (h : NoPair c t) :
    cutAtLastPair c t = none := by
  induction t with
  | nil => rfl
  | cons a t ih =>
      cases t with
      | nil => rfl
      | cons b t =>
          obtain ⟨hhead, htail⟩ := noPair_cons.mp h
          rw [cutAtLastPair, ih htail]
          exact if_neg (hhead b rfl)

/-- The last pair is the one that is put before a text without pairs. -/
theorem cutAtLastPair_append {c : Char} {rest : Text} (h : NoPair c (c :: rest)) (t : Text) :
    cutAtLastPair c (t ++ c :: c :: rest) = some (t, rest) := by
  induction t with
  | nil =>
      rw [List.nil_append, cutAtLastPair, cutAtLastPair_eq_none h]
      simp
  | cons a t ih =>
      cases t with
      | nil =>
          rw [List.nil_append] at ih
          rw [List.cons_append, List.nil_append, cutAtLastPair, ih]
      | cons b t =>
          rw [List.cons_append, List.cons_append, cutAtLastPair, ← List.cons_append, ih]

/-- Where the search for the first `{{` ends in a text with a `{{` put after it: at a `{{` in the
text, at a brace the text ends with, or at the `{{` after the text. -/
theorem exists_cutAtPair_append (t rest : Text) :
    (∃ before after, t = before ++ '{' :: '{' :: after ∧
      cutAtPair '{' (t ++ '{' :: '{' :: rest) = some (before, after ++ '{' :: '{' :: rest)) ∨
    (∃ before, t = before ++ ['{'] ∧
      cutAtPair '{' (t ++ '{' :: '{' :: rest) = some (before, '{' :: rest)) ∨
    cutAtPair '{' (t ++ '{' :: '{' :: rest) = some (t, rest) := by
  induction t with
  | nil => exact Or.inr (Or.inr (by simp [cutAtPair]))
  | cons a t ih =>
      cases t with
      | nil =>
          by_cases ha : a = '{'
          · exact Or.inr (Or.inl ⟨[], by simp [ha], by simp [cutAtPair, ha]⟩)
          · exact Or.inr (Or.inr (by simp [cutAtPair, ha]))
      | cons b t =>
          by_cases hab : a = '{' ∧ b = '{'
          · refine Or.inl ⟨[], t, by simp [hab], ?_⟩
            simp [cutAtPair, hab]
          · have hstep : ∀ before after,
                cutAtPair '{' ((b :: t) ++ '{' :: '{' :: rest) = some (before, after) →
                cutAtPair '{' ((a :: b :: t) ++ '{' :: '{' :: rest)
                  = some (a :: before, after) := by
              intro before after h
              rw [List.cons_append] at h
              rw [List.cons_append, List.cons_append, cutAtPair, if_neg hab, h]
              rfl
            rcases ih with ⟨before, after, heq, hcut⟩ | ⟨before, heq, hcut⟩ | hcut
            · exact Or.inl ⟨a :: before, after, by rw [heq, List.cons_append], hstep _ _ hcut⟩
            · exact Or.inr (Or.inl ⟨a :: before, by rw [heq, List.cons_append], hstep _ _ hcut⟩)
            · exact Or.inr (Or.inr (hstep _ _ hcut))

/-! ## Clean pieces -/

/-- A piece that is found again wherever it stands: a text that is not empty and has no whole tag
in it, or a tag whose braces can be taken for no others. -/
def Segment.Clean : Segment → Prop
  | .text content => content ≠ [] ∧ ∀ inner, ¬ (Segment.tag inner).source <:+: content
  | .tag inner => NoPair '{' ('{' :: inner) ∧ NoPair '}' (inner ++ ['}'])

/-- Not both pieces are texts. -/
def Segment.Apart : Segment → Segment → Prop
  | .text _, .text _ => False
  | _, _ => True

/-- A tag may stand beside anything. -/
theorem isChain_cons_tag (inner : Text) (more : List Segment) :
    (.tag inner :: more).IsChain Segment.Apart ↔ more.IsChain Segment.Apart := by
  rw [List.isChain_cons]
  exact and_iff_right fun next _ => by cases next <;> trivial

theorem isChain_append_tag (before : List Segment) (inner : Text) (more : List Segment) :
    (before ++ .tag inner :: more).IsChain Segment.Apart
      ↔ before.IsChain Segment.Apart ∧ more.IsChain Segment.Apart := by
  rw [List.isChain_append, isChain_cons_tag]
  refine and_congr_right fun _ => and_iff_left ?_
  rintro last _ next hnext
  obtain rfl : .tag inner = next := Option.some.inj hnext
  cases last <;> trivial

/-- The first tag is found after a text that has no whole tag in it. -/
theorem cutTag_append {t inner : Text} (ht : ∀ other, ¬ (Segment.tag other).source <:+: t)
    (hinner : (Segment.tag inner).Clean) (rest : Text) :
    cutTag (t ++ (Segment.tag inner).source ++ rest) = some (t, inner, rest) := by
  obtain ⟨hopen, hclose⟩ := hinner
  have hsource : t ++ (Segment.tag inner).source ++ rest
      = t ++ '{' :: '{' :: (inner ++ '}' :: '}' :: rest) := by simp [Segment.source]
  -- `skipped` stands before the last `{{`, and `between` after the first one
  have hcut : ∀ before skipped between, t = before ++ skipped →
      '{' :: '{' :: between = skipped ++ ['{', '{'] → NoPair '}' (between ++ inner ++ ['}']) →
      cutAtPair '{' (t ++ '{' :: '{' :: (inner ++ '}' :: '}' :: rest))
        = some (before, between ++ (inner ++ '}' :: '}' :: rest)) →
      cutTag (t ++ '{' :: '{' :: (inner ++ '}' :: '}' :: rest)) = some (t, inner, rest) := by
    intro before skipped between heq hbetween hpair hfirst
    have hcloser : cutAtPair '}' (between ++ (inner ++ '}' :: '}' :: rest))
        = some (between ++ inner, rest) := by
      rw [← List.append_assoc]
      exact cutAtPair_append hpair rest
    have hlast : cutAtLastPair '{' ('{' :: '{' :: (between ++ inner)) = some (skipped, inner) := by
      have heq' : '{' :: '{' :: (between ++ inner) = skipped ++ '{' :: '{' :: inner := by
        rw [← List.cons_append, ← List.cons_append, hbetween]
        simp
      rw [heq']
      exact cutAtLastPair_append hopen skipped
    simp only [cutTag, hfirst, hcloser, hlast, Option.bind_eq_bind, Option.bind_some,
      Option.pure_def]
    rw [heq]
  rw [hsource]
  rcases exists_cutAtPair_append t (inner ++ '}' :: '}' :: rest) with
    ⟨before, after, heq, hfirst⟩ | ⟨before, heq, hfirst⟩ | hfirst
  · have hafter : NoPair '}' after := by
      rw [noPair_iff]
      rintro ⟨other, more, hother⟩
      refine ht other ⟨before, more, ?_⟩
      simp [heq, ← hother, Segment.source]
    refine hcut before ('{' :: '{' :: after) (after ++ ['{', '{']) heq (by simp) ?_
      (by simpa using hfirst)
    rw [List.append_assoc, noPair_append]
    refine ⟨noPair_append.mpr ⟨hafter, noPair_of_notMem (by simp), by simp⟩, hclose, by simp⟩
  · refine hcut before ['{'] ['{'] heq rfl ?_ hfirst
    rw [List.append_assoc, noPair_append]
    exact ⟨noPair_singleton _ _, hclose, by simp⟩
  · exact hcut t [] [] (by simp) rfl (by simpa using hclose) hfirst

theorem cutTag_eq_none {t : Text} (ht : ∀ other, ¬ (Segment.tag other).source <:+: t) :
    cutTag t = none := by
  rw [Option.eq_none_iff_forall_not_mem]
  rintro ⟨before, inner, after⟩ hcut
  exact ht inner ⟨before, after, (eq_of_cutTag hcut).symm⟩

theorem textSegment_of_ne_nil {content : Text} (h : content ≠ []) :
    textSegment content = [.text content] := by
  cases content with
  | nil => exact absurd rfl h
  | cons c content => rfl

theorem segments_of_none {source : Text} (h : cutTag source = none) :
    segments source = textSegment source := by
  unfold segments
  split
  · rfl
  · next hcut => rw [h] at hcut; cases hcut

theorem segments_of_some {source before inner after : Text}
    (h : cutTag source = some (before, inner, after)) :
    segments source = textSegment before ++ .tag inner :: segments after := by
  conv_lhs => unfold segments
  split
  · next hcut => rw [h] at hcut; cases hcut
  · next hcut => rw [h] at hcut; cases hcut; rfl

/-- **Cutting undoes putting together**: clean pieces, no two texts of which stand side by side, are
the pieces of their source. -/
theorem segments_flatMap_source {pieces : List Segment} (hclean : ∀ piece ∈ pieces, piece.Clean)
    (hapart : pieces.IsChain Segment.Apart) :
    segments (pieces.flatMap Segment.source) = pieces := by
  match pieces with
  | [] => exact segments_of_none (cutTag_eq_none (by simp [Segment.source]))
  | [.text content] =>
      obtain ⟨hne, htag⟩ := hclean _ List.mem_cons_self
      have hsource : [Segment.text content].flatMap Segment.source = content := by
        simp [Segment.source]
      rw [hsource, segments_of_none (cutTag_eq_none htag), textSegment_of_ne_nil hne]
  | .tag inner :: rest =>
      rw [List.forall_mem_cons] at hclean
      have hcut : cutTag ((Segment.tag inner).source ++ rest.flatMap Segment.source)
          = some ([], inner, rest.flatMap Segment.source) :=
        @cutTag_append [] inner (by simp [Segment.source]) hclean.1 _
      rw [List.flatMap_cons, segments_of_some hcut,
        segments_flatMap_source hclean.2 hapart.tail]
      rfl
  | .text content :: .tag inner :: rest =>
      rw [List.forall_mem_cons, List.forall_mem_cons] at hclean
      obtain ⟨⟨hne, htag⟩, hinner, hrest⟩ := hclean
      have hcut := cutTag_append htag hinner (rest.flatMap Segment.source)
      rw [List.flatMap_cons, List.flatMap_cons, ← List.append_assoc, Segment.source,
        segments_of_some hcut, textSegment_of_ne_nil hne,
        segments_flatMap_source hrest hapart.tail.tail]
      rfl
  | .text first :: .text second :: rest => exact absurd hapart.rel id

end Stencil
