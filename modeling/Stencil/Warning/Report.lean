import Stencil.Text.Blank
import Stencil.Text.Width
import Stencil.Warning

/-!
# Reports

A report shows a warning with the source it is about: a heading, the place, and the lines of the
span with marks under or beside it, in the colours of a terminal. The two ends of the span are
taken as counts of characters.

A span on one line is underlined, with the message below its middle. A span over several lines is
marked at the left of its first and last line, and all lines between them are one gap.
-/

set_option autoImplicit false

namespace Stencil

/-! ## Lines -/

/-- A line of a source: its number from zero, how many characters precede it, and its text with the
characters that end it. -/
structure SourceLine where
  index : Nat
  offset : Nat
  content : Text
deriving DecidableEq, Repr

namespace SourceLine

/-- Where the line ends, its line end included. -/
def stop (line : SourceLine) : Nat := line.offset + line.content.length

/-- Does the line hold the character at an offset? -/
def holds (line : SourceLine) (offset : Nat) : Bool :=
  line.offset ≤ offset && offset < line.stop

/-- The text that is shown of the line. -/
def shown (line : SourceLine) : Text := trimEnd line.content

end SourceLine

/-- Does the character end a line? -/
def isLineEnd (c : Char) : Bool :=
  let n := c.toNat
  (10 ≤ n && n ≤ 13) || n == 0x85 || n == 0x2028 || n == 0x2029

/-- The texts of the lines of a source, line ends included. A carriage return and the line feed
after it end one line. -/
def lineTexts : Text → List Text
  | [] => []
  | '\r' :: '\n' :: rest => ['\r', '\n'] :: lineTexts rest
  | c :: rest =>
    if isLineEnd c then [c] :: lineTexts rest
    else match lineTexts rest with
      | [] => [[c]]
      | line :: lines => (c :: line) :: lines

/-- Lines with their numbers and offsets, counted from given ones. -/
def numberLines (index offset : Nat) : List Text → List SourceLine
  | [] => []
  | content :: rest =>
    ⟨index, offset, content⟩ :: numberLines (index + 1) (offset + content.length) rest

/-- The lines of a source; the empty source is one empty line. -/
def sourceLines (source : Text) : List SourceLine :=
  match lineTexts source with
  | [] => [⟨0, 0, []⟩]
  | lines => numberLines 0 0 lines

/-- The line that holds an offset, if the source reaches that far; the end of the source belongs to
the last line. -/
def lineAt? (source : Text) (offset : Nat) : Option SourceLine :=
  if source.length < offset then none
  else (sourceLines source).reverse.find? fun line => line.offset ≤ offset

/-! ## Colours -/

/-- Text in a colour of the terminal. -/
def painted (colour : Text) (t : Text) : Text :=
  ['\x1b', '['] ++ colour ++ 'm' :: t ++ ['\x1b', '[', '0', 'm']

/-- Marks and the span itself. -/
def paintMark (t : Text) : Text := painted ['3', '3'] t

/-- Line numbers and the frame. -/
def paintFrame (t : Text) : Text := painted "38;5;246".toList t

/-- The margin of rows that are no lines. -/
def paintMargin (t : Text) : Text := painted "38;5;240".toList t

/-- Source outside the span. -/
def paintPlain (t : Text) : Text := painted "38;5;249".toList t

/-- As many spaces. -/
def spaces (n : Nat) : Text := List.replicate n ' '

/-- A mark again and again, each painted on its own. -/
def marks (n : Nat) (c : Char) : Text := (List.replicate n (paintMark [c])).flatten

/-! ## Characters in columns -/

/-- The columns that a character takes when it stands at a column of its line. Tabs reach to the
next multiple of four. -/
def columnsOf (c : Char) (column : Nat) : Nat :=
  if c = '\t' then 4 - column % 4
  else if isBlank c then 1
  else displayWidth c

/-- The columns that each of the first `count` characters of a text takes; past its end, one
each. -/
def columnWidths (t : Text) (count : Nat) : List (Nat × Nat) :=
  (List.range count).map fun column =>
    (column, match t[column]? with
      | some c => columnsOf c column
      | none => 1)

/-- A character of a line, blanks as spaces. -/
def showChar (paint : Text → Text) (c : Char) (column : Nat) : Text :=
  if isBlank c then (List.replicate (columnsOf c column) (paint [' '])).flatten else paint [c]

/-- Characters of a line from a column on, those at offsets in the span marked. -/
def showChars (span : Span) (lineOffset : Nat) : Nat → Text → Text
  | _, [] => []
  | column, c :: rest =>
    let offset := lineOffset + column
    let paint := if span.start ≤ offset ∧ offset < span.stop then paintMark else paintPlain
    showChar paint c column ++ showChars span lineOffset (column + 1) rest

/-- The shown text of a line, with the span marked. -/
def showLine (span : Span) (line : SourceLine) : Text := showChars span line.offset 0 line.shown

/-! ## Rows -/

/-- The margin of a line, with its number in a given width. -/
def lineMargin (width : Nat) (line : SourceLine) : Text :=
  let number := natText (line.index + 1)
  ' ' :: paintFrame (spaces (width - number.length) ++ number ++ [' ', '│']) ++ [' ']

/-- The margin of a row that is no line. -/
def rowMargin (width : Nat) (bar : Char) : Text :=
  ' ' :: paintMargin (spaces (width + 1) ++ [bar]) ++ [' ']

/-- A column of the underline: its mark at the middle, a bar inside the span, else nothing. -/
def underlineColumn (start stop middle : Nat) (column : Nat × Nat) : Text :=
  if column.1 = middle then
    -- a character without a column of its own leaves no room for the mark
    if column.2 = 0 then [] else paintMark ['┬'] ++ marks (column.2 - 1) '─'
  else if start ≤ column.1 ∧ column.1 < stop then marks column.2 '─'
  else spaces column.2

/-- A column of the row that leads from the middle to the message. -/
def leaderColumn (middle : Nat) (column : Nat × Nat) : Text :=
  if column.1 = middle then
    if column.2 = 0 then [] else paintMark ['╰'] ++ marks (column.2 - 1) '─'
  else if middle < column.1 then marks column.2 '─'
  else spaces column.2

/-- The rows for a span on one line. -/
def inlineRows (width : Nat) (span : Span) (message : Text) (line : SourceLine) : Text :=
  -- a span counted in bytes can end beyond the characters of the source
  if line.stop < span.stop then rowMargin width '│' ++ ['\n']
  else
    let start := span.start - line.offset
    let stop := span.stop - line.offset
    let middle := max span.start ((span.start + span.stop) / 2) - line.offset
    let columns := columnWidths line.shown (stop + 2)
    lineMargin width line ++ showLine span line ++ ['\n']
      ++ rowMargin width '│' ++ columns.flatMap (underlineColumn start stop middle) ++ ['\n']
      ++ rowMargin width '│' ++ columns.flatMap (leaderColumn middle) ++ ' ' :: message ++ ['\n']

/-- The rows for the first line of a span. -/
def firstRows (width : Nat) (span : Span) (line : SourceLine) : Text :=
  lineMargin width line ++ paintMark ['╭'] ++ paintMark ['─'] ++ paintMark ['▶'] ++ paintMark [' ']
    ++ showLine span line ++ ['\n']

/-- The row for the lines between the first and the last one of a span. -/
def gapRow (width : Nat) : Text :=
  rowMargin width '┆' ++ paintMark ['┆'] ++ spaces 3 ++ ['\n']

/-- The rows for the last line of a span. -/
def lastRows (width : Nat) (span : Span) (message : Text) (line : SourceLine) : Text :=
  let columns := columnWidths line.shown (line.content.length + 2)
  lineMargin width line ++ paintMark ['├'] ++ paintMark ['─'] ++ paintMark ['▶'] ++ paintMark [' ']
    ++ showLine span line ++ ['\n']
    ++ rowMargin width '│' ++ paintMark ['│'] ++ spaces 3
    ++ columns.flatMap (fun column => spaces column.2) ++ ['\n']
    ++ rowMargin width '│' ++ paintMark ['╰'] ++ marks 3 '─'
    ++ columns.flatMap (fun column => marks column.2 '─') ++ ' ' :: message ++ ['\n']

/-- The rows for lines of a span that lies on several, with `inGap` when the gap is shown. -/
def spreadRows (width : Nat) (span : Span) (message : Text) : Bool → List SourceLine → Text
  | _, [] => []
  | inGap, line :: rest =>
    if line.holds span.start then
      firstRows width span line ++ spreadRows width span message false rest
    else if line.holds (span.stop - 1) then
      lastRows width span message line ++ spreadRows width span message false rest
    else
      (if inGap then [] else gapRow width) ++ spreadRows width span message true rest

/-! ## The report -/

/-- The line and column, counted from one, that a report gives for a span. -/
def reportPlace? (source : Text) (span : Span) : Option (Nat × Nat) :=
  (lineAt? source span.start).map fun line => (line.index + 1, span.start - line.offset + 1)

/-- The place in words. -/
def placeText (filename : Text) (line column : Nat) : Text :=
  filename ++ ':' :: natText line ++ ':' :: natText column

/-- The frame around the rows of a span that goes from one line to another. -/
def framedRows (source filename message : Text) (span : Span) (first last : SourceLine) : Text :=
  let width := (natText (last.index + 1)).length
  let rows :=
    if first.index = last.index then inlineRows width span message first
    else
      let lines := (sourceLines source).filter fun line =>
        first.index ≤ line.index && line.index ≤ last.index
      spreadRows width span message false lines
  spaces (width + 2) ++ paintFrame ['╭'] ++ paintFrame ['─'] ++ paintFrame ['[']
    ++ placeText filename (first.index + 1) (span.start - first.offset + 1)
    ++ paintFrame [']'] ++ '\n' :: spaces (width + 2) ++ paintFrame ['│'] ++ ['\n']
    ++ rows
    ++ paintFrame (List.replicate (width + 2) '─' ++ ['╯']) ++ ['\n']

/-- The report of a warning about a source. A span that the source does not reach is left out. -/
def Warning.report (warning : Warning) (source filename : Text) : Text :=
  let span := warning.span
  let message := warning.defect.message
  let heading :=
    paintMark "Warning:".toList ++ ' ' :: warning.defect.category ++ ": ".toList ++ message
      ++ ['\n']
  match lineAt? source span.start, lineAt? source (max span.start (span.stop - 1)) with
  | some first, some last => heading ++ framedRows source filename message span first last
  | _, _ => heading

end Stencil
