import ImportRank.Number.Decimal
import ImportRank.Rank.Candidate

/-!
# The table

Candidates are reported one per line between bars, under a header and a rule. A column is as wide
as its widest cell, counted in characters; cells are padded at their end.
-/

namespace ImportRank.Table

/-- The column titles. -/
def header : List String := ["Filename", "Lines", "Dependents", "PageRank"]

/-- The cells of a candidate: its weight has six decimals. -/
def cells (candidate : Candidate Float) : List String :=
  [candidate.key, toString candidate.lines, toString candidate.dependents,
    Decimal.fixed 6 candidate.weight]

/-- The width of each column over some rows, given widths to start from. -/
def widths (rows : List (List String)) (start : List Nat) : List Nat :=
  rows.foldl (fun widths row => widths.zipWith (fun width cell => max width cell.length) row) start

/-- A cell with blanks after it up to a width. -/
def pad (cell : String) (width : Nat) : String :=
  cell ++ String.ofList (List.replicate (width - cell.length) ' ')

/-- A row between bars. -/
def line (widths : List Nat) (cells : List String) : String :=
  "| " ++ " | ".intercalate (cells.zipWith pad widths) ++ " |"

/-- The lines of the table over rows of cells. -/
def render (rows : List (List String)) : List String :=
  let widths := widths rows (header.map String.length)
  let top := line widths header
  top :: String.ofList (List.replicate top.length '-') :: rows.map (line widths)

/-- The table of candidates, its lines joined by line feeds. -/
def format (candidates : List (Candidate Float)) : String :=
  "\n".intercalate (render (candidates.map cells))

end ImportRank.Table
