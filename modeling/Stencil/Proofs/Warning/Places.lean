import Mathlib.Data.List.Basic
import Stencil.Proofs.Nesting.Reports
import Stencil.Warning.Report

/-!
# Where reports point

A report names a line and a column above the lines that it shows. `placeAfter` says which line and
column the tag of a warning has: those that one comes to by reading the source up to the tag
(`reportPlace?_of_append`). What is written in a report can be read back from it, so a report points
at one place at most (`pointsAt_iff`).

The span of a warning counts bytes, and a report takes these counts as counts of characters. Both
are the same as long as every character before the tag is one byte long; the first longer one moves
the place for good, since no two offsets have the same line and column
(`start_eq_of_reportPlace?`).
-/

set_option autoImplicit false

namespace Stencil

/-! ## Lines and columns of a text -/

/-- The line and the column that reading a text leads to: a line end leads to the first column of
the next line, any other character one column on. A carriage return and the line feed after it are
one line end. -/
def advance (line column : Nat) : Text → Nat × Nat
  | [] => (line, column)
  | '\r' :: '\n' :: rest => advance (line + 1) 1 rest
  | c :: rest =>
    if isLineEnd c then advance (line + 1) 1 rest else advance line (column + 1) rest

/-- The line and the column, counted from one, of what follows a text that a source begins with. -/
def placeAfter (before : Text) : Nat × Nat := advance 1 1 before

theorem lineTexts_of_isLineEnd {c : Char} {rest : Text} (hc : isLineEnd c = true)
    (hpair : ∀ more, c = '\r' → rest = '\n' :: more → False) :
    lineTexts (c :: rest) = [c] :: lineTexts rest := by
  rw [lineTexts]
  · rw [if_pos hc]
  · exact hpair

/-- A character that ends no line goes to the front of the first line. -/
theorem lineTexts_of_not_isLineEnd {c : Char} (hc : isLineEnd c = false) (rest : Text) :
    lineTexts (c :: rest) = (c :: (lineTexts rest).headD []) :: (lineTexts rest).tail := by
  have hreturn : c ≠ '\r' := by
    rintro rfl
    exact absurd hc (by decide)
  rw [lineTexts]
  · simp only [hc, Bool.false_eq_true, if_false]
    cases lineTexts rest <;> rfl
  · exact fun _ hr _ => hreturn hr

theorem lineTexts_append {lead rest line : Text} {lines : List Text}
    (hlead : ∀ c ∈ lead, isLineEnd c = false) (h : lineTexts rest = line :: lines) :
    lineTexts (lead ++ rest) = (lead ++ line) :: lines := by
  induction lead with
  | nil => exact h
  | cons c lead ih =>
      rw [List.forall_mem_cons] at hlead
      rw [List.cons_append, lineTexts_of_not_isLineEnd hlead.1, ih hlead.2]
      rfl

/-! ## The line of an offset -/

/-- The last of the lines that begins no later than an offset. -/
def lastLine? (offset : Nat) (lines : List SourceLine) : Option SourceLine :=
  lines.reverse.find? fun line => line.offset ≤ offset

/-- The line and the column of an offset, counted from one, in the last line that begins no
later. -/
def placeIn? (offset : Nat) (lines : List SourceLine) : Option (Nat × Nat) :=
  (lastLine? offset lines).map fun line => (line.index + 1, offset - line.offset + 1)

theorem lastLine?_cons (offset : Nat) (line : SourceLine) (lines : List SourceLine) :
    lastLine? offset (line :: lines)
      = (lastLine? offset lines).or (if line.offset ≤ offset then some line else none) := by
  rw [lastLine?, List.reverse_cons, List.find?_append, List.find?_singleton]
  simp only [lastLine?, decide_eq_true_eq]

/-- An offset that is on a later line has its place there. -/
theorem placeIn?_cons {offset : Nat} {lines : List SourceLine} {place : Nat × Nat}
    (h : placeIn? offset lines = some place) (line : SourceLine) :
    placeIn? offset (line :: lines) = some place := by
  obtain ⟨found, hfound, hplace⟩ := Option.map_eq_some_iff.mp h
  rw [placeIn?, lastLine?_cons, hfound, Option.some_or, Option.map_some, hplace]

theorem le_of_mem_numberLines {line : SourceLine} {contents : List Text} {index offset : Nat}
    (h : line ∈ numberLines index offset contents) : index ≤ line.index ∧ offset ≤ line.offset := by
  induction contents generalizing index offset with
  | nil => cases h
  | cons content contents ih =>
      rcases List.mem_cons.mp h with rfl | hrest
      · exact ⟨le_rfl, le_rfl⟩
      · obtain ⟨hindex, hoffset⟩ := ih hrest
        omega

theorem lastLine?_numberLines_of_lt {offset start : Nat} (h : offset < start) (index : Nat)
    (contents : List Text) : lastLine? offset (numberLines index start contents) = none := by
  rw [lastLine?, List.find?_eq_none]
  intro line hline
  have hstart := (le_of_mem_numberLines (List.mem_reverse.mp hline)).2
  simp only [decide_eq_true_eq]
  omega

/-- Lines with the same number are the same line. -/
theorem eq_of_index_eq {first second : SourceLine} {contents : List Text} {index offset : Nat}
    (h : first.index = second.index) (hfirst : first ∈ numberLines index offset contents)
    (hsecond : second ∈ numberLines index offset contents) : first = second := by
  induction contents generalizing index offset with
  | nil => cases hfirst
  | cons content contents ih =>
      rcases List.mem_cons.mp hfirst with rfl | hfirst
      · rcases List.mem_cons.mp hsecond with rfl | hsecond
        · rfl
        · have hlater := (le_of_mem_numberLines hsecond).1
          simp only at h
          omega
      · rcases List.mem_cons.mp hsecond with rfl | hsecond
        · have hlater := (le_of_mem_numberLines hfirst).1
          simp only at h
          omega
        · exact ih hfirst hsecond

/-- An offset on the first of several lines has its place there. -/
theorem placeIn?_numberLines_cons {content : Text} {offset start : Nat} (hstart : start ≤ offset)
    (h : offset < start + content.length) (index : Nat) (contents : List Text) :
    placeIn? offset (numberLines index start (content :: contents))
      = some (index + 1, offset - start + 1) := by
  rw [placeIn?, numberLines, lastLine?_cons, lastLine?_numberLines_of_lt h, Option.none_or,
    if_pos hstart, Option.map_some]

/-- What stands on a later line is found there, behind the end of the first one. -/
theorem placeIn?_numberLines_of_line {lead ending before rest : Text} {index offset : Nat}
    {place : Nat × Nat}
    (hlines : lineTexts (lead ++ (ending ++ rest)) = (lead ++ ending) :: lineTexts rest)
    (hnext : placeIn? (offset + (lead ++ ending).length + before.length)
      (numberLines (index + 1) (offset + (lead ++ ending).length) (lineTexts rest)) = some place) :
    placeIn? (offset + (lead.length + (ending ++ before).length))
      (numberLines index offset (lineTexts (lead ++ (ending ++ rest)))) = some place := by
  have hsize : offset + (lead.length + (ending ++ before).length)
      = offset + (lead ++ ending).length + before.length := by
    simp only [List.length_append]
    omega
  rw [hlines, hsize]
  exact placeIn?_cons hnext _

/-- **Reading up to a character leads to its line and column.** The text before the character is in
two parts: `lead` is the beginning of the line that is numbered first, and `before` is still to
read. -/
theorem placeIn?_numberLines {c : Char} (hc : isLineEnd c = false) (rest : Text) {before : Text}
    {line column : Nat} {lead : Text} {index offset : Nat}
    (hlead : ∀ a ∈ lead, isLineEnd a = false) (hline : line = index + 1)
    (hcolumn : column = lead.length + 1) :
    placeIn? (offset + (lead.length + before.length))
        (numberLines index offset (lineTexts (lead ++ (before ++ c :: rest))))
      = some (advance line column before) := by
  fun_induction advance line column before generalizing lead index offset with
  | case1 line column =>
      have hlines := lineTexts_of_not_isLineEnd hc rest
      set more := (lineTexts rest).headD []
      have hsize : (lead ++ c :: more).length = lead.length + (more.length + 1) := by simp
      rw [List.nil_append, lineTexts_append hlead hlines,
        placeIn?_numberLines_cons (by omega) (by rw [hsize, List.length_nil]; omega), hline,
        hcolumn, List.length_nil]
      congr 2
      omega
  | case2 line column before ih =>
      -- the line ends here, and the next one is read from its beginning
      have hlines : lineTexts (lead ++ (['\r', '\n'] ++ (before ++ c :: rest)))
          = (lead ++ ['\r', '\n']) :: lineTexts (before ++ c :: rest) :=
        lineTexts_append hlead rfl
      have hnext := @ih [] (index + 1) (offset + (lead ++ ['\r', '\n']).length) (by simp)
        (by omega) rfl
      exact placeIn?_numberLines_of_line hlines (by simpa using hnext)
  | case3 line column a before hpair hend ih =>
      have hlines : lineTexts (lead ++ ([a] ++ (before ++ c :: rest)))
          = (lead ++ [a]) :: lineTexts (before ++ c :: rest) := by
        refine lineTexts_append hlead (lineTexts_of_isLineEnd hend ?_)
        intro more hreturn hfeed
        cases before with
        | nil =>
            obtain ⟨rfl, -⟩ := List.cons.inj hfeed
            exact absurd hc (by decide)
        | cons b before =>
            obtain ⟨rfl, -⟩ := List.cons.inj hfeed
            exact hpair before hreturn rfl
      have hnext := @ih [] (index + 1) (offset + (lead ++ [a]).length) (by simp) (by omega) rfl
      exact placeIn?_numberLines_of_line hlines (by simpa using hnext)
  | case4 line column a before hpair hend ih =>
      have hlead' : ∀ b ∈ lead ++ [a], isLineEnd b = false := by
        rw [List.forall_mem_append, List.forall_mem_singleton]
        exact ⟨hlead, by simpa using hend⟩
      have hnext := @ih (lead ++ [a]) index offset hlead' hline (by simp; omega)
      have hsize : lead.length + (a :: before).length = (lead ++ [a]).length + before.length := by
        simp only [List.length_append, List.length_cons, List.length_nil]
        omega
      rw [hsize]
      simpa using hnext

/-! ## The place that a report gives -/

/-- The lines of a source that is not empty. -/
theorem sourceLines_of_ne_nil {source : Text} (h : source ≠ []) :
    sourceLines source = numberLines 0 0 (lineTexts source) := by
  have hlines : lineTexts source ≠ [] := by
    cases source with
    | nil => exact absurd rfl h
    | cons c rest =>
        cases hc : isLineEnd c with
        | false => simp [lineTexts_of_not_isLineEnd hc]
        | true =>
            unfold lineTexts
            split <;> simp_all
  rw [sourceLines]
  split
  · next hnil => exact absurd hnil hlines
  · rfl

theorem lineAt?_eq (source : Text) (offset : Nat) :
    lineAt? source offset
      = if source.length < offset then none else lastLine? offset (sourceLines source) := rfl

/-- Every offset that the source reaches is on a line. -/
theorem isSome_lineAt? (source : Text) (offset : Nat) :
    (lineAt? source offset).isSome = true ↔ offset ≤ source.length := by
  have hfirst : ∃ lines, sourceLines source = ⟨0, 0, (lineTexts source).headD []⟩ :: lines := by
    rw [sourceLines]
    split
    · next h => exact ⟨[], by rw [h]; rfl⟩
    · next h =>
        obtain ⟨content, contents, hcons⟩ := List.exists_cons_of_ne_nil h
        exact ⟨_, by rw [hcons]; rfl⟩
  obtain ⟨lines, hlines⟩ := hfirst
  rw [lineAt?_eq, hlines, lastLine?_cons]
  split
  · simp; omega
  · simp; omega

/-- **A report gives the place of the character at an offset**: the line and the column that reading
the source up to it leads to. -/
theorem reportPlace?_of_append {c : Char} (hc : isLineEnd c = false) (before rest : Text)
    {span : Span} (h : span.start = before.length) :
    reportPlace? (before ++ c :: rest) span = some (placeAfter before) := by
  have hplace := @placeIn?_numberLines c hc rest before 1 1 [] 0 0 (by simp) rfl rfl
  have hlength : ¬ (before ++ c :: rest).length < before.length := by simp
  simp only [List.nil_append, List.length_nil, Nat.zero_add] at hplace
  rw [reportPlace?, h, lineAt?_eq, if_neg hlength, sourceLines_of_ne_nil (by simp)]
  exact hplace

example : placeAfter "one\r\ntwo\n\nt".toList = (4, 2) := by decide

/-- No two offsets have the same line and column. -/
theorem start_eq_of_reportPlace? {source : Text} (hsource : source ≠ []) {first second : Span}
    {place : Nat × Nat} (hfirst : reportPlace? source first = some place)
    (hsecond : reportPlace? source second = some place) : first.start = second.start := by
  have hline : ∀ {span : Span}, reportPlace? source span = some place →
      ∃ line ∈ numberLines 0 0 (lineTexts source), line.offset ≤ span.start ∧
        place = (line.index + 1, span.start - line.offset + 1) := by
    intro span h
    obtain ⟨line, hat, hplace⟩ := Option.map_eq_some_iff.mp h
    rw [lineAt?_eq] at hat
    split at hat
    · cases hat
    · rw [sourceLines_of_ne_nil hsource, lastLine?] at hat
      have hmem := List.mem_reverse.mp (List.mem_of_find?_eq_some hat)
      have hoffset := List.find?_some hat
      exact ⟨line, hmem, by simpa using hoffset, hplace.symm⟩
  obtain ⟨line, hmem, hle, rfl⟩ := hline hfirst
  obtain ⟨other, hother, hle', heq⟩ := hline hsecond
  obtain ⟨hindex, hcolumn⟩ := Prod.mk.inj heq
  obtain rfl := eq_of_index_eq (by omega) hmem hother
  omega

/-! ## The place in the text of a report -/

theorem natText_inj {m n : Nat} (h : natText m = natText n) : m = n := by
  have hvalue := congrArg (fun digits => Nat.ofDigitChars 10 digits 0) h
  simpa [natText] using hvalue

/-- A character that is no digit is not in a number. -/
theorem notMem_natText {c : Char} (hc : c.isDigit = false) (n : Nat) : c ∉ natText n := by
  intro hmem
  have hdigit := Nat.isDigit_of_mem_toDigits (by decide) (by decide) hmem
  rw [hc] at hdigit
  cases hdigit

/-- What a report begins with: the category of the warning and its message. -/
def Warning.heading (warning : Warning) : Text :=
  paintMark "Warning:".toList ++ ' ' :: warning.defect.category ++ ": ".toList
    ++ warning.defect.message ++ ['\n']

/-- The corner of the frame, behind which the place stands. -/
def frameCorner : Text := paintFrame ['╭'] ++ paintFrame ['─'] ++ paintFrame ['[']

/-- The report of a warning gives the place: under its heading, at the corner of the frame, stand
the name of the file, the line and the column. -/
def Warning.PointsAt (warning : Warning) (source filename : Text) (place : Nat × Nat) : Prop :=
  ∃ margin below, warning.report source filename
    = warning.heading ++ (spaces margin ++ (frameCorner
      ++ (placeText filename place.1 place.2 ++ (paintFrame [']'] ++ below))))

/-- Texts are read back up to the first occurrence of a character. -/
theorem append_cons_inj {c : Char} {s t after more : Text} (hs : c ∉ s) (ht : c ∉ t)
    (h : s ++ c :: after = t ++ c :: more) : s = t ∧ after = more := by
  have hnil : ∀ {mid first last : Text} {u : Text}, c ∉ u ++ mid → c :: first = mid ++ c :: last →
      mid = [] ∧ first = last := by
    intro mid first last u hu heq
    cases mid with
    | nil => exact ⟨rfl, (List.cons.inj heq).2⟩
    | cons a mid =>
        obtain ⟨rfl, -⟩ := List.cons.inj heq
        exact absurd (List.mem_append_right u List.mem_cons_self) hu
  rcases List.append_eq_append_iff.mp h with ⟨mid, rfl, heq⟩ | ⟨mid, rfl, heq⟩
  · obtain ⟨rfl, rfl⟩ := hnil ht heq
    exact ⟨(List.append_nil s).symm, rfl⟩
  · obtain ⟨rfl, rfl⟩ := hnil hs heq
    exact ⟨List.append_nil t, rfl⟩

/-- The place can be read back from its text, when what follows is painted. -/
theorem placeText_inj {filename after more : Text} {first second : Nat × Nat}
    (h : placeText filename first.1 first.2 ++ '\x1b' :: after
      = placeText filename second.1 second.2 ++ '\x1b' :: more) : first = second := by
  have hcolon : ∀ n, ':' ∉ natText n := notMem_natText (by decide)
  have hescape : ∀ n, '\x1b' ∉ natText n := notMem_natText (by decide)
  have hnumbers : natText first.1 ++ ':' :: (natText first.2 ++ '\x1b' :: after)
      = natText second.1 ++ ':' :: (natText second.2 ++ '\x1b' :: more) := by
    simpa [placeText] using h
  obtain ⟨hline, hrest⟩ := append_cons_inj (hcolon _) (hcolon _) hnumbers
  obtain ⟨hcolumn, -⟩ := append_cons_inj (hescape _) (hescape _) hrest
  exact Prod.ext (natText_inj hline) (natText_inj hcolumn)

namespace Warning

variable (warning : Warning) (source filename : Text)

/-- A report is its heading alone if the source ends before the span does. -/
theorem report_of_lt
    (h : source.length < max warning.span.start (warning.span.stop - 1)) :
    warning.report source filename = warning.heading := by
  have hnone : lineAt? source (max warning.span.start (warning.span.stop - 1)) = none := by
    rw [lineAt?_eq, if_pos h]
  simp only [report, hnone]
  split
  · next hlast => cases hlast
  · rfl

/-- Otherwise the place follows the heading. -/
theorem exists_report_eq
    (h : max warning.span.start (warning.span.stop - 1) ≤ source.length) :
    ∃ place, reportPlace? source warning.span = some place ∧
      warning.PointsAt source filename place := by
  have hstart : warning.span.start ≤ source.length := le_trans (le_max_left _ _) h
  obtain ⟨first, hfirst⟩ := Option.isSome_iff_exists.mp ((isSome_lineAt? _ _).mpr hstart)
  obtain ⟨last, hlast⟩ := Option.isSome_iff_exists.mp ((isSome_lineAt? _ _).mpr h)
  refine ⟨(first.index + 1, warning.span.start - first.offset + 1), ?_, ?_⟩
  · rw [reportPlace?, hfirst, Option.map_some]
  · refine ⟨(natText (last.index + 1)).length + 2, ?_⟩
    simp only [report, hfirst, hlast, framedRows, heading, frameCorner, List.append_assoc]
    exact ⟨_, rfl⟩

variable {warning source filename}

/-- A report points at one place. -/
theorem PointsAt.unique {first second : Nat × Nat} (hfirst : warning.PointsAt source filename first)
    (hsecond : warning.PointsAt source filename second) : first = second := by
  obtain ⟨margin, below, hreport⟩ := hfirst
  obtain ⟨other, more, hother⟩ := hsecond
  have hspaces : ∀ n, '\x1b' ∉ spaces n := by
    intro n hmem
    exact absurd (List.eq_of_mem_replicate hmem) (by decide)
  have hrows := List.append_cancel_left (hreport.symm.trans hother)
  -- the corner is the first painted text under the heading, so both margins end where it begins
  obtain ⟨tail, htail⟩ : ∃ tail, frameCorner = '\x1b' :: tail := ⟨_, rfl⟩
  rw [htail] at hrows
  obtain ⟨-, hcorner⟩ := append_cons_inj (hspaces _) (hspaces _) hrows
  exact placeText_inj (List.append_cancel_left hcorner)

end Warning

/-- **What a report points at**: the place of the offset that the span starts at, if the source
reaches to the end of the span; else there is no place in the report. -/
theorem Warning.pointsAt_iff (warning : Warning) (source filename : Text) (place : Nat × Nat) :
    warning.PointsAt source filename place ↔
      reportPlace? source warning.span = some place ∧
        max warning.span.start (warning.span.stop - 1) ≤ source.length := by
  constructor
  · intro hpoints
    by_cases h : max warning.span.start (warning.span.stop - 1) ≤ source.length
    · obtain ⟨other, hother, hpoints'⟩ := warning.exists_report_eq source filename h
      exact ⟨hpoints.unique hpoints' ▸ hother, h⟩
    · -- the heading is all there is, so nothing can stand below it
      obtain ⟨margin, below, hreport⟩ := hpoints
      rw [warning.report_of_lt source filename (by omega)] at hreport
      have hempty := List.self_eq_append_right.mp hreport
      simp [frameCorner, paintFrame, painted] at hempty
  · rintro ⟨hplace, h⟩
    obtain ⟨other, hother, hpoints⟩ := warning.exists_report_eq source filename h
    obtain rfl : other = place := Option.some.inj (hother.symm.trans hplace)
    exact hpoints

/-! ## Where the tag of a warning is -/

theorem length_le_byteSize (t : Text) : t.length ≤ byteSize t := by
  induction t with
  | nil => exact le_rfl
  | cons c t ih =>
      have hpos := c.utf8Size_pos
      rw [List.length_cons, byteSize]
      omega

/-- A text has as many bytes as characters exactly if each of them takes one byte. -/
theorem byteSize_eq_length_iff (t : Text) :
    byteSize t = t.length ↔ ∀ c ∈ t, c.toNat < 128 := by
  induction t with
  | nil => simp [byteSize]
  | cons c t ih =>
      have hle := length_le_byteSize t
      have hpos := c.utf8Size_pos
      have hone : c.utf8Size = 1 ↔ c.toNat < 128 := by
        rw [Char.utf8Size_eq_one_iff, UInt32.le_iff_toNat_le]
        exact Nat.lt_succ_iff.symm
      rw [byteSize, List.length_cons, List.forall_mem_cons, ← ih, ← hone]
      omega

/-- A warning is about a tag of the source. -/
theorem exists_tag_of_mem_lint {source : Text} {warning : Warning} (h : warning ∈ lint source) :
    ∃ inner, StandsAt source warning.span (Segment.tag inner).source := by
  obtain ⟨accounts, hvisits, haccounts, hperm⟩ := exists_accounts source
  obtain ⟨account, hmem, hfate, hspan⟩ := mem_warningsOf.mp (hperm.mem_iff.mp h)
  have hpiece : account.piece ∈ scan source := by
    rw [← map_piece_eq hvisits]
    exact List.mem_map_of_mem hmem
  have hstands : StandsAt source account.piece.span account.piece.item.source :=
    (segmentation_scan source).stands _ hpiece
  have hitem : ∃ inner, account.piece.item = .tag inner := by
    have hallowed := haccounts.allowed account hmem
    rw [hfate] at hallowed
    cases hitem : account.piece.item with
    | text content => rw [hitem] at hallowed; cases hallowed
    | tag inner => exact ⟨inner, rfl⟩
  obtain ⟨inner, hinner⟩ := hitem
  rw [hspan, hinner] at hstands
  exact ⟨inner, hstands⟩

/-- **A report points at the tag of its warning if all characters before the tag are one byte
long**, and the source does not end before the span that it counts in bytes. Otherwise it points
elsewhere, or nowhere. -/
theorem pointsAt_tag_iff {source : Text} {warning : Warning} (h : warning ∈ lint source)
    (filename : Text) :
    ∃ before inner after, source = before ++ (Segment.tag inner).source ++ after ∧
      warning.span = ⟨byteSize before, byteSize before + byteSize (Segment.tag inner).source⟩ ∧
      (warning.PointsAt source filename (placeAfter before) ↔
        (∀ c ∈ before, c.toNat < 128) ∧ warning.span.stop ≤ source.length + 1) := by
  obtain ⟨inner, before, after, hsource, hspan⟩ := exists_tag_of_mem_lint h
  refine ⟨before, inner, after, hsource, hspan, ?_⟩
  obtain ⟨rest, hrest⟩ : ∃ rest, source = before ++ '{' :: rest :=
    ⟨'{' :: inner ++ ['}', '}'] ++ after, by rw [hsource]; simp [Segment.source]⟩
  have hstart : warning.span.start = byteSize before := by rw [hspan]
  have hwide : warning.span.start < warning.span.stop := by
    have hsize : 0 < byteSize (Segment.tag inner).source := byteSize_pos (by simp [Segment.source])
    rw [hspan]
    simp only
    omega
  -- the place of the tag, by the count of the characters before it
  have htag : ∀ span : Span, span.start = before.length →
      reportPlace? source span = some (placeAfter before) := by
    intro span hspan
    rw [hrest]
    exact reportPlace?_of_append (by decide) before rest hspan
  rw [Warning.pointsAt_iff, ← byteSize_eq_length_iff, ← hstart]
  constructor
  · rintro ⟨hplace, hreach⟩
    have hsame := start_eq_of_reportPlace? (by rw [hrest]; simp) hplace
      (htag ⟨before.length, 0⟩ rfl)
    exact ⟨hsame, by omega⟩
  · rintro ⟨hsame, hreach⟩
    exact ⟨htag _ hsame, by omega⟩

/-- The report of a tag on the second line of a source that has a longer character behind the
tag. -/
theorem pointsAt_tag_iff_second_line :
    ⟨.unclosed ['a'], ⟨5, 10⟩⟩ ∈ lint "one\n {{a}}é".toList ∧
      Warning.PointsAt ⟨.unclosed ['a'], ⟨5, 10⟩⟩ "one\n {{a}}é".toList "page".toList (2, 2) := by
  have hwarning : ⟨.unclosed ['a'], ⟨5, 10⟩⟩ ∈ lint "one\n {{a}}é".toList := by decide +kernel
  obtain ⟨before, inner, after, hsource, hspan, hpoints⟩ :=
    pointsAt_tag_iff hwarning "page".toList
  -- the span says how many bytes stand before the tag, so it says what stands there
  have hbefore : before = "one\n ".toList := by
    have hsplit : "one\n ".toList ++ "{{a}}é".toList
        = before ++ ((Segment.tag inner).source ++ after) := by
      rw [← List.append_assoc, ← hsource]
      rfl
    have hsize : byteSize "one\n ".toList = byteSize before := congrArg Span.start hspan
    exact (append_inj_of_byteSize_eq hsplit hsize).1.symm
  subst hbefore
  have hbytes : ∀ c ∈ "one\n ".toList, c.toNat < 128 := (byteSize_eq_length_iff _).mp rfl
  exact ⟨hwarning, hpoints.mpr ⟨hbytes, by decide⟩⟩

/-- A character of two bytes before the tag moves the place by one column. -/
theorem not_forall_pointsAt_tag :
    ¬ ∀ source filename warning, warning ∈ lint source →
      ∀ before after, source = before ++ after → byteSize before = warning.span.start →
        warning.PointsAt source filename (placeAfter before) := by
  intro h
  have hwarning : ⟨.unclosed ['a'], ⟨2, 7⟩⟩ ∈ lint "é{{a}}x".toList := by decide +kernel
  have hpoints := h _ "f".toList _ hwarning ['é'] "{{a}}x".toList rfl (by decide)
  have hplace := ((Warning.pointsAt_iff _ _ _ _).mp hpoints).1
  have hreported : reportPlace? "é{{a}}x".toList ⟨2, 7⟩ = some (1, 3) := by decide
  rw [hreported] at hplace
  exact absurd hplace (by decide)

end Stencil
