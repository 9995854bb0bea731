import QueryClient.Cursor.Batch

/-!
# The rows at hand

A residency holds the batches at hand in ascending order. No two of them share a row: a batch that
arrives takes the place of every batch it overlaps. Rows are looked up through the batch that starts
at or before them, and runs of adjacent batches count as one stretch of rows.
-/

namespace QueryClient.Cursor

/-- The batches at hand, in ascending order of their rows. -/
structure Residency where
  batches : List Batch

namespace Residency

def empty : Residency := ⟨[]⟩

def size (s : Residency) : Nat :=
  s.batches.length

/-- Puts a batch in its place among batches in ascending order. -/
def place (b : Batch) : List Batch → List Batch
  | [] => [b]
  | c :: rest => if b.first ≤ c.first then b :: c :: rest else c :: place b rest

/-- Takes in a batch; those that share a row with it go. -/
def insert (s : Residency) (b : Batch) : Residency :=
  ⟨place b (s.batches.filter fun c => !c.overlaps b)⟩

def find (s : Residency) (row : Int) : Option Batch :=
  match (s.batches.filter fun b => b.first ≤ row).getLast? with
  | some b => if b.contains row then some b else none
  | none => none

/-- Whether a row is at hand, be it as a failure. -/
def contains (s : Residency) (row : Int) : Bool :=
  (s.find row).isSome

/-- A row at hand, or the failure in its place. -/
def rowAt (s : Residency) (row : Int) : Except Fault Row :=
  match s.find row with
  | some b => b.row row
  | none => .error .noCurrentRow

/-- The last row of the run that goes on from `last` through adjacent batches. -/
def runEnd (last : Int) : List Batch → Int
  | [] => last
  | b :: rest => if b.first = last + 1 then runEnd b.last rest else runEnd last rest

/-- The first row of the run that goes back from `first` through adjacent batches. -/
def runStart (first : Int) : List Batch → Int
  | [] => first
  | b :: rest => if b.contains (first - 1) then runStart b.first rest else runStart first rest

/-- The last row of the run of rows at hand that contains `row`; the row before it if there is no
such run. -/
def contiguousEnd (s : Residency) (row : Int) : Int :=
  match s.find row with
  | some b => runEnd b.last s.batches
  | none => row - 1

/-- The first row of the run of rows at hand that contains `row`; the row after it if there is no
such run. -/
def contiguousStart (s : Residency) (row : Int) : Int :=
  match s.find row with
  | some b => runStart b.first s.batches.reverse
  | none => row + 1

/-- The first row of the nearest batch that starts after a row. -/
def nextStartAfter (s : Residency) (row : Int) : Option Int :=
  (s.batches.find? fun b => row < b.first).map Batch.first

/-- The last row of the nearest batch that ends before a row. -/
def prevEndBefore (s : Residency) (row : Int) : Option Int :=
  (s.batches.reverse.find? fun b => b.first < row && b.last < row).map Batch.last

/-- The last row of the last batch. -/
def highestRow (s : Residency) : Option Int :=
  s.batches.getLast?.map Batch.last

/-- Drops every batch that lies behind the one with a row. -/
def evictBehind (s : Residency) (row : Int) : Residency :=
  match s.find row with
  | some b => ⟨s.batches.filter fun c => b.first ≤ c.first⟩
  | none => s

/-- Whether a batch has to stay while rows are evicted. -/
def isProtected (row : Int) (pinned : Option Int) (b : Batch) : Bool :=
  b.contains row || pinned.any b.contains

/-- The batch farthest from a row, the later of two that are equally far. -/
def farthest (row : Int) : List Batch → Option Batch
  | [] => none
  | b :: rest =>
    match farthest row rest with
    | some c => if b.distance row ≤ c.distance row then some c else some b
    | none => some b

/-- The batches that may go. -/
def evictable (s : Residency) (row : Int) (pinned : Option Int) : List Batch :=
  s.batches.filter fun b => !isProtected row pinned b

/-- Drops up to `n` batches, the farthest from `row` first, while there are more than `limit`. -/
def evictFarthest (limit : Nat) (row : Int) (pinned : Option Int) :
    (n : Nat) → Residency → Residency
  | 0, s => s
  | n + 1, s =>
    if s.size ≤ limit then s
    else
      match farthest row (s.evictable row pinned) with
      | none => s
      | some b =>
        evictFarthest limit row pinned n ⟨s.batches.filter fun c => c.first ≠ b.first⟩

/-- Keeps at most `limit` batches, and never fewer than one, dropping those farthest from `row`. The
batches with `row` and with `pinned` stay. -/
def evictKeeping (s : Residency) (limit : Nat) (row : Int) (pinned : Option Int) : Residency :=
  evictFarthest (max limit 1) row pinned s.size s

/-- Keeps at most `limit` batches, the one with `row` among them. -/
def evictTo (s : Residency) (limit : Nat) (row : Int) : Residency :=
  s.evictKeeping limit row none

end Residency

end QueryClient.Cursor
