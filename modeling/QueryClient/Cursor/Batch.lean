import QueryClient.Message.Results

/-!
# Resident batches

A batch keeps the rows `first..=last` of a result on the client. A batch with a failure raises it
for every row it covers; a failure that came without rows covers the single row at which it struck.
-/

namespace QueryClient.Cursor

/-- Consecutive rows of a result, or the failure that stands in their place. -/
structure Batch where
  first : Int
  last : Int
  rows : List Row
  failure : Option ServerException

namespace Batch

/-- The batch that a results message brings, unless it brings neither rows nor a failure. -/
def ofResults? (results : Results) : Option Batch :=
  match results.rows, results.exception with
  | [], none => none
  | [], some e => some ⟨results.firstRow.toInt, results.firstRow.toInt, [], some e⟩
  | rows, failure => some ⟨results.firstRow.toInt, results.lastRow.toInt, rows, failure⟩

def contains (b : Batch) (row : Int) : Bool :=
  b.first ≤ row && row ≤ b.last

def overlaps (a b : Batch) : Bool :=
  a.first ≤ b.last && b.first ≤ a.last

/-- A row of the batch, or the failure of the batch. -/
def row (b : Batch) (row : Int) : Except Fault Row :=
  match b.failure with
  | some e => .error (.remote e)
  | none =>
    if b.contains row then
      match b.rows[(row - b.first).toNat]? with
      | some cells => .ok cells
      | none => .error .noCurrentRow
    else .error .noCurrentRow

/-- How many rows lie from a row to the batch. -/
def distance (b : Batch) (row : Int) : Int :=
  if row < b.first then b.first - row
  else if b.last < row then row - b.last
  else 0

end Batch

end QueryClient.Cursor
