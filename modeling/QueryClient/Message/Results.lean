import QueryClient.Value

/-!
# Batches of rows

A batch covers the rows `firstRow..=lastRow`, counted from one; an empty one has its last row just
before its first. A batch with an exception and no rows stands for the single row `firstRow`.
-/

namespace QueryClient.Results

/-- The final row while the server does not know it. -/
def unknownFinalRow : Int64 := -1

/-- A batch without rows or anything else. -/
def header (firstRow lastRow : Int64) : Results where
  firstRow := firstRow
  lastRow := lastRow
  finalRow := unknownFinalRow
  columns := []
  rows := []
  updateCount := none
  warnings := []
  exception := none

/-- Rows from `firstRow` on; the last batch of a result fixes its final row. -/
def batch (firstRow : Int64) (rows : List Row) (isLast : Bool) : Results :=
  let lastRow := firstRow + Int64.ofNat rows.length - 1
  { header firstRow lastRow with
    rows := rows
    finalRow := if isLast then lastRow else unknownFinalRow }

/-- The empty batch at `firstRow` of a result that ends at `finalRow`. -/
def pastEnd (firstRow finalRow : Int64) : Results :=
  { header firstRow (firstRow - 1) with finalRow := finalRow }

/-- A batch that fails at `row`. -/
def failure (row : Int64) (exception : ServerException) : Results :=
  { header row (row - 1) with exception := some exception }

/-- The outcome of a statement without rows. -/
def update (count : Int64) : Results :=
  { header 1 0 with finalRow := 0, updateCount := some count }

/-- Whether the batch reaches the last row of the result. -/
def isLast (results : Results) : Bool :=
  results.finalRow != unknownFinalRow && results.finalRow ≤ results.lastRow

/-- Whether the batch agrees with itself: rows count from one, there are as many of them as its
first and last row say, and none lies past the final row. A bare exception need only have a row. -/
def validate (results : Results) : Except Fault Unit :=
  let malformed : Fault :=
    .malformedBatch results.firstRow results.lastRow results.rows.length
  if results.firstRow < 1 then .error malformed
  else if results.exception.isSome && results.rows.isEmpty then .ok ()
  else if results.lastRow.toInt - results.firstRow.toInt + 1 ≠ results.rows.length then
    .error malformed
  else if results.finalRow ≠ unknownFinalRow && !results.rows.isEmpty
      && results.finalRow < results.lastRow then
    .error malformed
  else .ok ()

end QueryClient.Results
