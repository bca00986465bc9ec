/-
A picture of the place of an error: the source line, or the first and the
last of several, in a frame with line numbers, and under it marks that
point out the characters at fault and carry the message.

Everything is laid out in columns, one for each character of the line. A
column is as many cells wide as its character, and the marks under a
column repeat for each cell, so they stay in step with the line above
whatever characters it holds. Past the end of the line columns are one
cell wide.
-/
import Reckoner.Report.Style
import Reckoner.Report.Writer
import Reckoner.Text.Blank
import Reckoner.Text.Lines
import Reckoner.Text.Width

namespace Reckoner.Report

open Piece (bare tinted)

/-- A text of blanks. -/
def blanks (n : Nat) : String := String.ofList (List.replicate n ' ')

/-- The same character several times. -/
def repeated (n : Nat) (c : Char) : String := String.ofList (List.replicate n c)

-- ============================================================= columns

/-- What a tab stop is a multiple of, in characters of the line. -/
def tabWidth : Nat := 4

/-- The number of cells of the character in a column. A tab reaches to
the next stop, counted in characters; other blanks take one cell. -/
def columnWidth (column : Nat) (c : Char) : Nat :=
  if c = '\t' then (column / tabWidth + 1) * tabWidth - column
  else if Text.isBlank c then 1
  else Text.cellWidth c

/-- A line without the blanks at its end. -/
def visible (line : List Char) : List Char := (line.reverse.dropWhile Text.isBlank).reverse

/-- The widths of the columns of a line. -/
def widths (line : List Char) : List Nat :=
  (visible line).zipIdx.map fun (c, column) => columnWidth column c

/-- The cells of a source line, coloured by whether a column is at
fault. -/
def sourceCells (line : List Char) (atFault : Nat → Bool) : Row :=
  (visible line).zipIdx.flatMap fun (c, column) =>
    let tint := if atFault column then Tint.fault else Tint.source
    if Text.isBlank c then List.replicate (columnWidth column c) (tinted tint " ")
    else [tinted tint c.toString]

/-- The marks under the first `count` columns of a line. `marks` gives a
column its first mark and the one that repeats if it is wider; a column
without marks is left blank. -/
def markCells (line : List Char) (count : Nat) (marks : Nat → Option (Char × Char)) : Row :=
  let widths := widths line
  (List.range count).flatMap fun column =>
    match widths[column]?.getD 1, marks column with
    | 0, _ => []
    | width, none => List.replicate width (bare " ")
    | width + 1, some (first, further) =>
      tinted .fault first.toString :: List.replicate width (tinted .fault further.toString)

-- =============================================================== frame

/-- What stands left of a source line: its number, right-aligned in the
space for the largest one. -/
def numbered (digits number : Nat) : Row :=
  let text := toString number
  [bare " ", tinted .frame (blanks (digits - text.length) ++ text ++ " │"), bare " "]

/-- What stands left of a line that is not source. -/
def unnumbered (digits : Nat) (bar : String) : Row :=
  [bare " ", tinted .faintFrame (blanks (digits + 1) ++ bar), bare " "]

/-- The line that names the place, in lines and characters from one. -/
def header (name : String) (digits : Nat) (place : Text.Place) : Row :=
  [bare (blanks (digits + 2)), tinted .frame "╭", tinted .frame "─", tinted .frame "[",
    bare (" " ++ name ++ ":" ++ toString (place.index + 1) ++ ":" ++
      toString (place.column + 1) ++ " "),
    tinted .frame "]"]

/-- The empty line below the header. -/
def spacer (digits : Nat) : Row := [bare (blanks (digits + 2)), tinted .frame "│"]

/-- The line that closes the frame. -/
def footer (digits : Nat) : Row := [tinted .frame (repeated (digits + 2) '─' ++ "╯")]

-- ================================================================ body

/-- The marks for a span within one line: a tee in the middle of an
underline, or a bar for an empty span, and from there the way to the
message. -/
def singleLine (digits : Nat) (place : Text.Place) (stop : Nat) (message : String) : List Row :=
  let start := place.column
  let middle := (start + stop) / 2
  let count := stop + 2
  let inside (column : Nat) : Bool := start ≤ column && column < stop
  let pointer (column : Nat) : Option (Char × Char) :=
    if column = middle then some (if start = stop then ('│', ' ') else ('┬', '─'))
    else if inside column then some ('─', '─')
    else none
  let path (column : Nat) : Option (Char × Char) :=
    if column = middle then some ('╰', '─')
    else if middle < column then some ('─', '─')
    else none
  [numbered digits (place.index + 1) ++ sourceCells place.line inside,
    unnumbered digits "│" ++ markCells place.line count pointer,
    unnumbered digits "│" ++ markCells place.line count path ++ [bare (" " ++ message)]]

/-- The four cells beside a line at one end of a span over several. -/
def arrow (corner : String) : Row := [corner, "─", "▶", " "].map (tinted .fault)

/-- The marks for a span over several lines: an arrow to its first and to
its last line, a gap for those in between, and the way to the message. -/
def severalLines (digits : Nat) (first last : Text.Place) (stop : Nat) (message : String) :
    List Row :=
  let count := last.line.length + 2
  let gap :=
    if first.index + 1 < last.index then
      [unnumbered digits "┆" ++ [tinted .fault "┆", bare "   "]]
    else []
  [numbered digits (first.index + 1) ++ arrow "╭" ++
      sourceCells first.line fun column => first.column ≤ column] ++
    gap ++
    [numbered digits (last.index + 1) ++ arrow "├" ++
        sourceCells last.line fun column => column < stop,
      unnumbered digits "│" ++ [tinted .fault "│", bare "   "] ++
        markCells last.line count fun _ => none,
      unnumbered digits "│" ++ ["╰", "─", "─", "─"].map (tinted .fault) ++
        markCells last.line count (fun _ => some ('─', '─')) ++ [bare (" " ++ message)]]

/-- The lines for a hint, with `margin` between the frame and the
text. -/
def hintRows (digits : Nat) (margin : Row) (hint : String) : List Row :=
  [unnumbered digits "│" ++ margin,
    unnumbered digits "│" ++ margin ++ [tinted .hint "Help", bare (": " ++ hint)]]

/-- What stands between the frame and a hint below a span over several
lines. A span that starts where the second line does leaves its bar
there. -/
def hintMargin (first : Text.Place) : Row :=
  if first.index = 1 ∧ first.column = 0 then [tinted .fault "│", bare "   "]
  else [bare "    "]

/-- The number of bytes before an offset. -/
def Measure.toBytes (source : List Char) : Measure → Nat → Nat
  | bytes, offset => offset
  | characters, offset => Text.byteLength (source.take offset)

/-- The place of an offset in a source text. -/
def Measure.locate (measure : Measure) (source : List Char) (offset : Nat) : Text.Place :=
  Text.locate (measure.toBytes source offset) source

/-- The picture of what a notice points out in a source text. The end of a
span belongs to the line of its last character. -/
def snippet (source : List Char) (notice : Notice) : List Row :=
  let startByte := notice.measure.toBytes source notice.label.span.start
  let stopByte := notice.measure.toBytes source notice.label.span.stop
  let first := Text.locate startByte source
  let last := if startByte < stopByte then Text.locate (stopByte - 1) source else first
  let stop :=
    if startByte < stopByte then Text.charsBefore (stopByte - last.start) last.line
    else first.column
  let digits := (toString (last.index + 1)).length
  let (body, margin) :=
    if first.index = last.index then (singleLine digits first stop notice.label.message, [])
    else (severalLines digits first last stop notice.label.message, hintMargin first)
  [header notice.sourceName digits (notice.measure.locate source notice.span.start),
      spacer digits] ++ body ++ notice.help.flatMap (hintRows digits margin) ++ [footer digits]

/-- What a notice says, with the picture of what it points out. -/
def drawing (source : List Char) (notice : Notice) : List Row :=
  [tinted .heading ("[" ++ notice.code ++ "] Error:"), bare (" " ++ notice.message)] ::
    snippet source notice

/-- The writer that draws pictures. To it an empty source is one empty
line. -/
def drawn : Writer where
  lines source := if source.toList = [] then [[]] else Text.linesOf source.toList
  lineAt measure source offset := (measure.locate source.toList offset).index
  columnAt measure source offset := (measure.locate source.toList offset).column
  write source notice :=
    (if notice.coloured then coloured else plain) (drawing source.toList notice)

end Reckoner.Report
