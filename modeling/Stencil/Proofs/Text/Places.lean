import Mathlib.Data.List.Basic
import Stencil.Text

/-!
# Places in a text

Two ways of finding one's way in a text: by the pieces between the occurrences of a separator, and
by bytes. A text is cut in one way at a byte (`append_inj_of_byteSize_eq`), so what stands at a
stretch of a source is determined by the stretch.
-/

set_option autoImplicit false

namespace Stencil

/-! ## Pieces of a text -/

theorem splitText_ne_nil (separator : Char) (s : Text) : splitText separator s ≠ [] := by
  induction s with
  | nil => simp [splitText]
  | cons c s ih =>
      simp only [splitText]
      split
      · simp
      · split <;> simp

theorem splitText_of_notMem {separator : Char} {s : Text} (h : separator ∉ s) :
    splitText separator s = [s] := by
  induction s with
  | nil => rfl
  | cons c s ih =>
      have hc : c ≠ separator := by
        rintro rfl
        simp at h
      have hs : separator ∉ s := fun hs => h (by simp [hs])
      rw [splitText, if_neg hc, ih hs]

/-- A separator ends the last piece of what stands before it. -/
theorem splitText_append_separator (separator : Char) (s t : Text) :
    splitText separator (s ++ separator :: t)
      = splitText separator s ++ splitText separator t := by
  induction s with
  | nil => simp [splitText]
  | cons c s ih =>
      by_cases hc : c = separator
      · simp [splitText, hc, ih]
      · obtain ⟨piece, pieces, hs⟩ := List.exists_cons_of_ne_nil (splitText_ne_nil separator s)
        simp [splitText, hc, ih, hs]

/-- Pieces between separators have none in them. -/
theorem notMem_of_mem_splitText {separator : Char} {s piece : Text}
    (h : piece ∈ splitText separator s) : separator ∉ piece := by
  induction s generalizing piece with
  | nil =>
      obtain rfl : piece = [] := by simpa [splitText] using h
      exact List.not_mem_nil
  | cons c s ih =>
      obtain ⟨first, pieces, hs⟩ := List.exists_cons_of_ne_nil (splitText_ne_nil separator s)
      rw [hs] at ih
      by_cases hc : c = separator
      · rw [splitText, if_pos hc, hs] at h
        obtain rfl | h := List.mem_cons.1 h
        · exact List.not_mem_nil
        · exact ih h
      · rw [splitText, if_neg hc, hs] at h
        obtain rfl | h := List.mem_cons.1 h
        · have hfirst : separator ∉ first := ih List.mem_cons_self
          simpa [Ne.symm hc] using hfirst
        · exact ih (List.mem_cons_of_mem first h)

/-! ## Stretches of a source -/

theorem byteSize_pos {t : Text} (h : t ≠ []) : 0 < byteSize t := by
  cases t with
  | nil => exact absurd rfl h
  | cons c t =>
      have hpos := c.utf8Size_pos
      rw [byteSize]
      omega

theorem eq_nil_of_byteSize_le {t mid : Text} (h : byteSize (t ++ mid) ≤ byteSize t) :
    mid = [] := by
  by_contra hmid
  have hpos := byteSize_pos hmid
  rw [byteSize_append] at h
  omega

/-- A cut at a later byte leaves what stands between the two cuts. -/
theorem append_of_byteSize_le {before after other more : Text}
    (h : before ++ after = other ++ more) (hsize : byteSize before ≤ byteSize other) :
    ∃ mid, other = before ++ mid ∧ after = mid ++ more := by
  obtain hlater | ⟨mid, rfl, rfl⟩ := List.append_eq_append_iff.1 h
  · exact hlater
  · obtain rfl := eq_nil_of_byteSize_le hsize
    exact ⟨[], by simp, rfl⟩

/-- A source is cut in one way at a byte. -/
theorem append_inj_of_byteSize_eq {before after other more : Text}
    (h : before ++ after = other ++ more) (hsize : byteSize before = byteSize other) :
    before = other ∧ after = more := by
  obtain ⟨mid, rfl, rfl⟩ := append_of_byteSize_le h (Nat.le_of_eq hsize)
  obtain rfl := eq_nil_of_byteSize_le (Nat.le_of_eq hsize.symm)
  exact ⟨(List.append_nil before).symm, rfl⟩

/-- The text stands in the source at the stretch, which begins and ends between characters. -/
def StandsAt (source : Text) (span : Span) (t : Text) : Prop :=
  ∃ before after, source = before ++ t ++ after ∧
    span = ⟨byteSize before, byteSize before + byteSize t⟩

/-- What stands inside a text that stands in the source. -/
theorem StandsAt.inside {source before t after : Text} {span : Span}
    (h : StandsAt source span (before ++ t ++ after)) :
    StandsAt source ⟨span.start + byteSize before, span.start + byteSize before + byteSize t⟩
      t := by
  obtain ⟨first, last, hsource, rfl⟩ := h
  refine ⟨first ++ before, after ++ last, ?_, ?_⟩
  · rw [hsource]
    simp
  · simp only [byteSize_append]

end Stencil
