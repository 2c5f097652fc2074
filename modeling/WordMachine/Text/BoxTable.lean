import WordMachine.Text.Invisible
import WordMachine.Text.Wide

/-!
# Boxed tables

A table is drawn as a box with a header row.  Cells stand between bars with one
space on each side and are padded on the right to the widest cell of their column,
measured in terminal columns.  A line separates the header from the rows below it.
It is also the last line of a table that has no other row.
-/

namespace WordMachine.Text

/-- The terminal columns that a character fills.  Printable ASCII needs no table. -/
def charWidth (c : Char) : Nat :=
  if ' ' ≤ c ∧ c ≤ '~' then 1 else if isInvisible c then 0 else if isWide c then 2 else 1

def width (text : List Char) : Nat :=
  text.foldl (fun columns c => columns + charWidth c) 0

def padTo (columns : Nat) (text : List Char) : List Char :=
  text ++ List.replicate (columns - width text) ' '

/-- A header and rows of as many cells. -/
structure BoxTable where
  header : List String
  rows : List (List String)
  deriving DecidableEq, Repr

namespace BoxTable

def cellLines (cell : String) : List (List Char) := cell.toList.splitOn '\n'

def cellWidth (cell : String) : Nat :=
  ((cellLines cell).map width).foldl max 0

def columnWidths (table : BoxTable) : List Nat :=
  table.rows.foldl (fun widths row => List.zipWith max widths (row.map cellWidth))
    (table.header.map cellWidth)

/-- A horizontal line with the given ends and crossings. -/
def rule (left crossing right : Char) (widths : List Nat) : List Char :=
  left :: [crossing].intercalate (widths.map fun w => List.replicate (w + 2) '─') ++ [right]

/-- One line of text, a piece for each column. -/
def textLine (widths : List Nat) (pieces : List (List Char)) : List Char :=
  let cells := List.zipWith (fun w piece => ' ' :: padTo w piece ++ [' ']) widths pieces
  '│' :: ['│'].intercalate cells ++ ['│']

/-- The lines of a row, which is as tall as its tallest cell. -/
def rowLines (widths : List Nat) (row : List String) : List (List Char) :=
  let cells := row.map cellLines
  let height := (cells.map List.length).foldl max 1
  (List.range height).map fun k => textLine widths (cells.map fun ls => ls.getD k [])

def lines (table : BoxTable) : List (List Char) :=
  let widths := table.columnWidths
  rule '┌' '┬' '┐' widths :: rowLines widths table.header ++
    rule '├' '┼' '┤' widths :: table.rows.flatMap (rowLines widths) ++
    if table.rows.isEmpty then [] else [rule '└' '┴' '┘' widths]

/-- The drawn table, without a line feed at its end. -/
def render (table : BoxTable) : String :=
  "\n".intercalate (table.lines.map String.ofList)

end BoxTable

end WordMachine.Text
