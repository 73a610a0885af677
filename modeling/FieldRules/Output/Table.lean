import FieldRules.Output.Style
import FieldRules.Text.Blank

/-!
# Tables

A table of text in columns as wide as their widest cell, with a line below the heading. Cells beyond the headed
columns are written as they are, and blanks at the end of a row are left out.
-/

namespace FieldRules

structure Table where
  headers : List String
  rows : List (List String)

namespace Table

/-- The width of each column, in characters. -/
def widths (t : Table) : List Nat :=
  t.headers.zipIdx.map fun (header, i) =>
    (t.rows.filterMap (·[i]?)).foldl (fun width cell => max width cell.length) header.length

/-- A text filled up with spaces to a width. -/
def pad (width : Nat) (s : String) : String := s.pushn ' ' (width - s.length)

/-- Fills cells up to the widths of their columns. -/
def padRow : List Nat → List String → List String
  | width :: widths, cell :: cells => pad width cell :: padRow widths cells
  | _, cells => cells

def joinRow (widths : List Nat) (cells : List String) : String := " │ ".intercalate (padRow widths cells)

def rowText (widths : List Nat) (cells : List String) : String :=
  String.ofList (Text.trimEnd Text.isBlank (joinRow widths cells).toList)

def separator (widths : List Nat) : String := "─┼─".intercalate (widths.map fun width => "".pushn '─' width)

/-- The lines of a table. -/
def lines (t : Table) (color : Bool) : List String :=
  let widths := t.widths
  Style.paint color .header (joinRow widths t.headers) :: separator widths :: t.rows.map (rowText widths)

end Table

end FieldRules
