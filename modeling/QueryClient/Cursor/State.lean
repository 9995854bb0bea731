import QueryClient.Cursor.Options
import QueryClient.Cursor.Residency
import QueryClient.Value.Access

/-!
# The state of a cursor

A cursor stands before the first row, on a row, or after the last row of a result. It holds some
batches, may wait for one fetch, and learns the final row, the columns, the warnings and the update
count from the results it takes in. It keeps a ledger of what it has asked of its source, which is
written but never read: it says what a cursor did, not what it will do.
-/

namespace QueryClient.Cursor

/-- Where a cursor stands; rows count from one. -/
inductive Position where
  | beforeFirst
  | onRow (row : Int)
  | afterLast
deriving DecidableEq, Repr

/-- Which way a cursor moved last. -/
inductive Heading where
  | forward
  | backward
deriving DecidableEq, Repr

/-- A fetch that has been requested and not yet answered. -/
structure Flight (H : Type) where
  start : Int
  count : Int
  call : H

/-- What a fetch is for: a row that a call needs, the final row, or rows ahead of demand. -/
inductive Purpose where
  | demand (row : Int)
  | finalRow
  | ahead
deriving DecidableEq, Repr

/-- Something that a cursor asked of its source, and what came of it. -/
inductive Ask (H : Type) where
  /-- A fetch, with the rows at hand when it was asked for. -/
  | requested (purpose : Purpose) (start count : Int) (atHand : Residency)
    (outcome : Except Fault H)
  /-- A wait for the outstanding fetch, and the handle it left. -/
  | waited (flight : Flight H) (outcome : Except Fault Results) (call : H)
  | abandoned (flight : Flight H)
  | closed

end Cursor

/-- A cursor whose fetches are awaited through handles of type `H`. -/
structure Cursor (H : Type) where
  options : Cursor.Options
  rows : Cursor.Residency
  position : Cursor.Position
  heading : Cursor.Heading
  finalRow : Option Int
  flight : Option (Cursor.Flight H)
  columns : List Column
  warnings : List String
  updateCount : Option Int64
  /-- How many fetches were requested, those ahead of demand included. -/
  fetches : Nat
  /-- What was asked of the source, the last first. -/
  ledger : List (Cursor.Ask H)
  closed : Bool

namespace Cursor

variable {H : Type}

def Position.description : Position → String
  | .beforeFirst => "BeforeFirst"
  | .onRow row => s!"OnRow({row})"
  | .afterLast => "AfterLast"

def description (c : Cursor H) : String :=
  Text.record "BatchCursor" [
    ("cursor_type", c.options.cursorType.name),
    ("position", c.position.description),
    ("final_row", Text.optional (c.finalRow.map toString)),
    ("resident_batches", c.rows.size.repr),
    ("in_flight", Text.optional (c.flight.map fun f => toString f.start)),
    ("closed", Text.truth c.closed)]

/-- A cursor that has seen nothing yet. -/
def blank (options : Options) : Cursor H where
  options := options
  rows := Residency.empty
  position := .beforeFirst
  heading := .forward
  finalRow := none
  flight := none
  columns := []
  warnings := []
  updateCount := none
  fetches := 0
  ledger := []
  closed := false

/-- What a results message says about the final row. -/
def finalRowOf (results : Results) : Option Int :=
  if results.finalRow = Results.unknownFinalRow then none else some results.finalRow.toInt

/-- Whether a results message brings rows, a failure or another final row. -/
def isNewTo (c : Cursor H) (results : Results) : Bool :=
  let final := finalRowOf results
  (final.isSome && c.finalRow ≠ final) || (Batch.ofResults? results).isSome

/-- The cursor with what a results message brings. -/
def extend (c : Cursor H) (results : Results) : Cursor H :=
  let final := finalRowOf results
  { c with
    finalRow := if final.isSome then final else c.finalRow
    columns := if c.columns.isEmpty then results.columns else c.columns
    updateCount := if results.updateCount.isSome then results.updateCount else c.updateCount
    warnings := c.warnings ++ results.warnings
    rows := match Batch.ofResults? results with
      | some b => c.rows.insert b
      | none => c.rows }

/-- Takes in a results message that agrees with itself; says whether it brought anything. -/
def absorb (c : Cursor H) (results : Results) : Except Fault (Bool × Cursor H) :=
  match results.validate with
  | .error fault => .error fault
  | .ok () => .ok (c.isNewTo results, c.extend results)

/-- A cursor that starts with the first results of an execution. -/
def start (options : Options) (first : Results) : Except Fault (Cursor H) :=
  if options.fetchSize = 0 then .error (.configuration .noFetchSize)
  else (absorb (blank options) first).map Prod.snd

def isForwardOnly (c : Cursor H) : Bool :=
  c.options.cursorType = .forwardOnly

def fetchSize (c : Cursor H) : Int :=
  c.options.fetchSize.toNat

/-- The number of the current row, zero without one. -/
def rowNumber (c : Cursor H) : Int :=
  match c.position with
  | .onRow row => row
  | _ => 0

def isFirst (c : Cursor H) : Bool :=
  c.position = .onRow 1

/-- Whether the cursor stands after the last row of a result that may have rows. -/
def isAfterLast (c : Cursor H) : Bool :=
  c.position = .afterLast && c.finalRow ≠ some 0

def ensureOpen (c : Cursor H) : Except Fault Unit :=
  if c.closed then .error .cursorClosed else .ok ()

def row (c : Cursor H) : Except Fault Row :=
  match c.ensureOpen with
  | .error fault => .error fault
  | .ok () =>
    match c.position with
    | .onRow n => c.rows.rowAt n
    | _ => .error .noCurrentRow

def cell (c : Cursor H) (index : Nat) : Except Fault Value :=
  match c.row with
  | .error fault => .error fault
  | .ok row => Row.cell row index

end Cursor

end QueryClient
