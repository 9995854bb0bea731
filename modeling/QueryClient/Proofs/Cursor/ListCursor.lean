import QueryClient.Cursor.Moves

/-!
# The plain cursor over a list

What a cursor is meant to be: a position over the rows of a table, without batches, fetches or a
source. Beside it stands what a source may answer when it serves that table, however it cuts the
rows into batches and whenever it tells the final row.
-/

namespace QueryClient

/-- The rows from `first` to `last` of a table; rows count from one. -/
def slice (table : List Row) (first last : Int) : List Row :=
  (table.drop (first - 1).toNat).take (last - first + 1).toNat

/-- Whether results may answer a fetch of `count` rows from `start` on of a table: they bring some
rows from `start` on while there are any, and otherwise the final row. -/
structure Results.Answers (table : List Row) (start count : Int) (results : Results) : Prop where
  valid : results.validate = .ok ()
  plain : results.exception = none
  within : start ≤ table.length → ∃ last, start ≤ last ∧ last ≤ start + count - 1 ∧
    last ≤ table.length ∧ results.firstRow.toInt = start ∧ results.lastRow.toInt = last ∧
    results.rows = slice table start last ∧
    (results.finalRow = Results.unknownFinalRow ∨ results.finalRow.toInt = table.length)
  past : table.length < start → results.rows = [] ∧ results.finalRow.toInt = table.length

namespace Cursor

/-- Whether a source served a table: every fetch was granted, and every wait timed out or brought
what may answer its fetch. -/
structure Serves {H : Type} (table : List Row) (ledger : List (Ask H)) : Prop where
  granted : ∀ purpose start count atHand outcome,
    .requested purpose start count atHand outcome ∈ ledger → ∃ call, outcome = .ok call
  answered : ∀ flight outcome call, .waited flight outcome call ∈ ledger →
    (∃ fault, outcome = .error fault ∧ fault.isTimeout = true) ∨
      ∃ results, outcome = .ok results ∧ results.Answers table flight.start flight.count

namespace ListCursor

/-- Whether there is a row, and where a move to it ends. -/
def goTo (length target : Int) : Except Fault Bool × Position :=
  if target < 1 then (.ok false, .beforeFirst)
  else if target ≤ length then (.ok true, .onRow target)
  else (.ok false, .afterLast)

/-- The answer to a move over `length` rows, and where it ends. -/
def move (length : Int) (position : Position) : Move → Except Fault Bool × Position
  | .next =>
    match position with
    | .beforeFirst => goTo length 1
    | .onRow n => goTo length (n + 1)
    | .afterLast => (.ok false, .afterLast)
  | .previous =>
    match position with
    | .beforeFirst => (.ok false, .beforeFirst)
    | .onRow n => goTo length (n - 1)
    | .afterLast => goTo length length
  | .absolute row =>
    if row = 0 then (.error (.illegalNavigation .rowZero), position)
    else if row < 0 then goTo length (length + 1 + row)
    else goTo length row
  | .relative delta =>
    match position with
    | .onRow n => goTo length (n + delta)
    | _ => (.error (.illegalNavigation .noRowToCountFrom), position)
  | .first => goTo length 1
  | .last => goTo length length
  | .isLast => (.ok (position = .onRow length), position)
  | .isBeforeFirst => (.ok (position = .beforeFirst && 0 < length), position)

/-- The answer to a call over `length` rows, and where it ends. -/
def call (length : Int) (position : Position) : Call → Except Fault (Option Bool) × Position
  | .move m => ((move length position m).1.map some, (move length position m).2)
  | .beforeFirst => (.ok none, .beforeFirst)
  | .afterLast => (.ok none, .afterLast)
  | .close => (.ok none, position)

/-- The row at a position. -/
def row (table : List Row) : Position → Except Fault Row
  | .onRow n =>
    match table[(n - 1).toNat]? with
    | some cells => .ok cells
    | none => .error .noCurrentRow
  | _ => .error .noCurrentRow

end ListCursor

end Cursor

end QueryClient
