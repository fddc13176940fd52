import Lineup.Sort
import Lineup.Text.Case
import Lineup.Text.Width

/-!
# Statistics

A summary table of what a run did to each file, with a line of totals.
-/

namespace Lineup

/-- What a run did to one file. -/
structure FileStats where
  path : Text
  movedDirectives : Int
  movedMembers : Int
  skipped : Int
  isChanged : Bool
  deriving DecidableEq, Repr

namespace FileStats

/-- Where a cell stands in a wider column. -/
inductive Alignment where
  | left
  | right
  | center
  deriving DecidableEq, Repr

/-- A cell of a table padded to a width. A centred cell has the smaller half of the gap
on its left. -/
def padded (alignment : Alignment) (width : Nat) (cell : Text) : Text :=
  let gap := width - cell.width
  let before :=
    match alignment with
    | .left => 0
    | .right => gap
    | .center => gap / 2
  Text.fill Byte.space before ++ cell ++ Text.fill Byte.space (gap - before)

/-- A column of the table: its head, its foot, and how the cells between them are
aligned. -/
structure Column where
  head : Text
  foot : Text
  cells : List Text
  alignment : Alignment

/-- The width of the widest cell of a column. -/
def Column.width (column : Column) : Nat :=
  ((column.head :: column.foot :: column.cells).map Text.width).foldl max 0

/-- The cells of a line, with bars between them. Unless asked for, there is no bar after
an empty cell. -/
def barred (barAfterEmpty : Bool) : List Text → Text
  | [] => []
  | [cell] => utf8 " " ++ cell ++ utf8 " "
  | cell :: cells =>
      let isEmpty := cell.all (· == Byte.space)
      utf8 " " ++ cell ++ utf8 " "
        ++ (if isEmpty && !barAfterEmpty then utf8 " " else utf8 "|")
        ++ barred barAfterEmpty cells

/-- A line of the table. -/
def line (barAfterEmpty : Bool) (cells : List Text) : Text :=
  utf8 " " ++ barred barAfterEmpty cells ++ utf8 " \n"

/-- A horizontal rule below columns. -/
def rule (columns : List Column) : Text :=
  Text.fill Byte.dash ((columns.map fun column => column.width + 2).foldl (· + ·) 2)
    ++ [Byte.lineFeed]

/-- The lines of a table with the given number of rows. -/
def renderColumns (rowCount : Nat) (columns : List Column) : Text :=
  let titles (pick : Column → Text) : List Text :=
    columns.map fun column => padded .center column.width (pick column)
  let row (index : Nat) : Text :=
    line true (columns.map fun column =>
      padded column.alignment column.width (column.cells.getD index []))
  line true (titles Column.head) ++ rule columns ++ (List.range rowCount).flatMap row
    ++ rule columns ++ line false (titles Column.foot) ++ rule columns

/-- The total of counts, kept within 64 bits. -/
def total (counts : List Int) : Int :=
  (counts.foldl (· + ·) 0).bmod UInt64.size

/-- The summary of the given files, in the order of their paths. -/
def render (stats : List FileStats) : Text :=
  let sorted := sortBy (fun left right => compare left.path right.path != .gt) stats
  let numbers (head : String) (pick : FileStats → Int) (foot : Text) : Column :=
    { head := utf8 head, foot, cells := sorted.map fun file => Text.ofInt (pick file),
      alignment := .right }
  let directives := total (sorted.map movedDirectives)
  let members := total (sorted.map movedMembers)
  let changed := (sorted.filter isChanged).length
  renderColumns sorted.length
    [{ head := utf8 "FILE", foot := utf8 "TOTAL FILES " ++ Text.ofNat sorted.length,
       cells := sorted.map path, alignment := .left },
     numbers "DIRECTIVES" movedDirectives (Text.ofInt directives),
     numbers "MEMBERS" movedMembers (Text.ofInt members),
     numbers "SKIPPED" skipped [],
     { head := utf8 "STATUS", foot := Text.ofNat changed ++ utf8 " CHANGED",
       cells := sorted.map fun file =>
         utf8 (if file.isChanged then "changed" else "ok"),
       alignment := .left }]

end FileStats

end Lineup
