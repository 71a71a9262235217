import Scriptlet.Source.Lines
import Scriptlet.Source.Span

/-!
# `Report.Snippet` — a stretch of a source text, shown with a mark and a label

The lines that the stretch touches are shown with their numbers to the left of a border. A stretch of
one line is underlined; a longer one gets a bracket that starts above its first character and ends
below its last one. Of a long stretch the lines after the first three and before the last one are left
out.

## Contents
- `Cell`, `cells`: a line as columns of a fixed-width display.
- `underline`, `columnsBefore`: marks measured in columns.
- `render`: the whole snippet.
-/

namespace Scriptlet.Snippet

/-! ## Columns -/

/-- A character of a line: the bytes before it, its own bytes, and the columns it takes. -/
structure Cell where
  offset : Nat
  size : Nat
  columns : Nat
  char : Char

/-- A tab leads to the next column that this number divides. -/
def tabStop : Nat := 4

/-- The cells of characters that stand behind `offset` bytes and `column` columns. -/
def cellsFrom (offset column : Nat) : List Char → List Cell
  | [] => []
  | c :: cs =>
    let columns := if c = '\t' then tabStop - column % tabStop else Text.columnWidth c
    ⟨offset, c.utf8Size, columns, c⟩ :: cellsFrom (offset + c.utf8Size) (column + columns) cs

/-- The cells of a line. -/
def cells (cs : List Char) : List Cell := cellsFrom 0 0 cs

/-- One character `n` times. -/
def fill (n : Nat) (c : Char) : String := String.ofList (List.replicate n c)

/-- A line with its tabs spread out. -/
def lineText (cs : List Char) : String :=
  String.join ((cells cs).map fun x => if x.char = '\t' then fill x.columns ' ' else String.singleton x.char)

/-- The columns of the characters that start before a byte of the line. -/
def columnsBefore (cs : List Char) (byte : Nat) : Nat :=
  ((cells cs).takeWhile fun x => x.offset < byte).foldl (fun n x => n + x.columns) 0

/-- Marks under the bytes from `start` up to `stop` of a line. One column behind the line can be
    marked too. -/
def underline (cs : List Char) (start stop : Nat) : String :=
  let all := cells cs ++ [⟨Text.byteWidth cs, 1, 1, ' '⟩]
  String.join (all.map fun x =>
    if x.offset < stop then fill x.columns (if start < x.offset + x.size then '^' else ' ') else "")

/-! ## Rows -/

/-- The text to the left of the border on a row without number; `pad` is the width of a number. -/
def margin (pad : Nat) : String := fill (pad + 1) ' '

/-- A row of the source with its number, counted from one. -/
def numbered (pad number : Nat) (content : String) : String :=
  let digits := toString number
  fill (pad - digits.length) ' ' ++ digits ++ " │" ++ content

/-- A row without number. -/
def unnumbered (pad : Nat) (content : String) : String := margin pad ++ "│" ++ content

/-- The rows of a stretch that lies on one line. At least one column is marked. -/
def oneLine (pad number : Nat) (l : Line) (span : Span) (label : String) : List String :=
  let start := span.start - l.start
  let stop := max (span.stop - l.start) (start + 1)
  [unnumbered pad "",
   numbered pad number (" " ++ lineText l.shown),
   unnumbered pad (" " ++ underline l.shown start stop ++ " " ++ label)]

/-- The first rows of a stretch of several lines. Where only blanks stand before the stretch, its
    bracket starts on the row of the source itself. -/
def opening (pad number : Nat) (l : Line) (start : Nat) : List String :=
  let blanks := l.shown.takeWhile Text.blankSpace.has
  if start ≤ Text.byteWidth blanks then [numbered pad number (" ╭ " ++ lineText l.shown)]
  else
    [numbered pad number ("   " ++ lineText l.shown),
     unnumbered pad (" ╭" ++ fill (columnsBefore l.shown (start + 1)) '─' ++ "^")]

/-- A row inside a stretch of several lines. -/
def inside (pad : Nat) : Line × Nat → String := fun (l, number) =>
  numbered pad number (" │ " ++ lineText l.shown)

/-- The last rows of a stretch of several lines. -/
def closing (pad number : Nat) (l : Line) (stop : Nat) (label : String) : List String :=
  [inside pad (l, number),
   unnumbered pad (" ╰" ++ fill (columnsBefore l.shown stop) '─' ++ "^ " ++ label)]

/-- Lines shown after the first line of a stretch. -/
def linesAfterFirst : Nat := 3

/-- The rows between the first and the last line of a stretch. One line is left out only together
    with others. -/
def between (pad : Nat) (lines : List (Line × Nat)) : List String :=
  let far := lines.drop linesAfterFirst
  let hidden := match far.dropLast with
    | [] => []
    | [l] => [inside pad l]
    | _ => [margin pad ++ "· │"]
  (lines.take linesAfterFirst).map (inside pad) ++ hidden ++ (far.getLast?.toList.map (inside pad))

/-- The rows of a stretch of the lines `first`, `middle` and `last`. -/
def manyLines (pad : Nat) (first : Line × Nat) (middle : List (Line × Nat)) (last : Line × Nat)
    (span : Span) (label : String) : List String :=
  unnumbered pad "  " :: opening pad first.2 first.1 (span.start - first.1.start)
    ++ between pad middle
    ++ closing pad last.2 last.1 (span.stop - last.1.start) label

/-- The snippet of a stretch: the place, the lines and the label, each row with a line break. What of
    the stretch lies behind the text is taken as its end. -/
def render (path source : String) (stretch : Span) (label : String) : String :=
  let size := source.utf8ByteSize
  let span : Span := ⟨min stretch.start size, min stretch.stop size⟩
  let lines := Line.ofSource source
  let first := Line.indexOf lines span.start
  let last := Line.indexOf lines span.stop
  let pad := (toString (last + 1)).length
  let at? (i : Nat) : Line × Nat := (lines[i]?.getD default, i + 1)
  let place := path ++ ":" ++ toString (first + 1) ++ ":"
    ++ toString ((at? first).1.column span.start)
  let rows :=
    if first = last then oneLine pad (first + 1) (at? first).1 span label
    else
      let middle := (List.range' (first + 1) (last - first - 1)).map at?
      manyLines pad (at? first) middle (at? last) span label
  String.join (((margin pad ++ "┌─ " ++ place) :: rows).map (· ++ "\n"))

end Scriptlet.Snippet
