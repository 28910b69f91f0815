/-!
# Tables

Tables drawn with characters. Columns are as wide as their widest line, and a cell may have several
lines.
-/

namespace BranchingStory.Terminal

/-- A table: the titles of its columns, and rows of as many cells. -/
structure Table where
  header : List String
  rows : List (List String)
deriving DecidableEq, Repr

namespace Table

/-- The lines of a cell. -/
def cellLines (cell : String) : List (List Char) := cell.toList.splitOn '\n'

/-- The width of a cell: that of its longest line. -/
def cellWidth (cell : String) : Nat := ((cellLines cell).map List.length).max?.getD 0

/-- The widths of the columns. -/
def widths (t : Table) : List Nat :=
  t.rows.foldl (fun ws row => List.zipWith max ws (row.map cellWidth)) (t.header.map cellWidth)

/-- A rule across the table, with a character for its ends and for where it meets a column. -/
def rule (ends meets fill : Char) (widths : List Nat) : List Char :=
  let parts := widths.map fun w => List.replicate (w + 2) fill
  ends :: List.intercalate [meets] parts ++ [ends]

/-- One line of a row. A cell with fewer lines is blank there. -/
def rowLine (widths : List Nat) (row : List (List (List Char))) (index : Nat) : List Char :=
  let parts := List.zipWith (fun w cell =>
    let text := (cell[index]?).getD []
    ' ' :: text ++ List.replicate (w + 1 - text.length) ' ') widths row
  '|' :: List.intercalate ['|'] parts ++ ['|']

/-- The lines of a row: as many as its longest cell has. -/
def rowLines (widths : List Nat) (row : List String) : List (List Char) :=
  let cells := row.map cellLines
  let height := (cells.map List.length).max?.getD 0
  (List.range height).map (rowLine widths cells)

/-- All lines of a table. -/
def lines (t : Table) : List (List Char) :=
  let ws := t.widths
  let rows := t.rows.map (rowLines ws)
  rule '+' '+' '-' ws :: rowLines ws t.header ++ rule '+' '=' '=' ws
    :: List.intercalate [rule '|' '+' '-' ws] rows ++ [rule '+' '+' '-' ws]

/-- The table as text, with a line break after each line. -/
def text (t : Table) : String := String.ofList (t.lines.flatMap (· ++ ['\n']))

end Table

end BranchingStory.Terminal
