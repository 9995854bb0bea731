import QueryClient.Cursor.State

/-!
# Which rows to fetch

A fetch asks for rows from a start on. On demand for a row, it covers that row, reaches back when
the cursor moves back, and leaves out rows at hand on either side. Ahead of demand, it goes on from
the run of rows around the current row once less than half a fetch is left of it.

Row numbers travel in sixty-four bits. Every function here also gives the sums it works out on its
way, so that one that leaves this range can be told.
-/

namespace QueryClient.Cursor

/-- Whether a number has the width in which row numbers travel. -/
def fits (n : Int) : Bool :=
  -0x8000000000000000 ≤ n && n ≤ 0x7FFFFFFFFFFFFFFF

/-- The nearest number that has the width in which row numbers travel. -/
def clamp (n : Int) : Int :=
  max (-0x8000000000000000) (min n 0x7FFFFFFFFFFFFFFF)

/-- Rows to fetch: the first, and how many. -/
structure Span where
  start : Int
  count : Int
deriving DecidableEq, Repr

def Span.last (span : Span) : Int :=
  span.start + span.count - 1

namespace Residency

/-- Where a demand for `target` starts: not before the rows that are at hand before it. -/
def demandStart (s : Residency) (fetch target : Int) (heading : Heading) : Int × List Int :=
  let (start, sums) := match heading with
    | .forward => (target, [])
    | .backward => (max (target - fetch + 1) 1, [target - fetch, target - fetch + 1])
  match s.prevEndBefore target with
  | some last => (max start (last + 1), sums ++ [last + 1])
  | none => (start, sums)

/-- How many rows a fetch from `start` asks for: not those that are at hand behind it. -/
def demandCount (s : Residency) (fetch start : Int) : Int × List Int :=
  match s.nextStartAfter start with
  | some next => (max (min fetch (next - start)) 1, [start + 1, next - start])
  | none => (max fetch 1, [start + 1])

/-- The rows to fetch on demand for `target`. -/
def demandSpan (s : Residency) (fetch target : Int) (heading : Heading) : Span × List Int :=
  let (start, sums) := s.demandStart fetch target heading
  let (count, sums') := s.demandCount fetch start
  (⟨start, count⟩, sums ++ sums')

/-- Half a fetch, and one row at least: with less ahead of it the cursor fetches more. -/
def threshold (fetch : Int) : Int :=
  max (fetch / 2) 1

/-- The rows to fetch ahead of a cursor that moves on, if any. -/
def spanAhead (s : Residency) (fetch : Int) (finalRow : Option Int) (row : Int) :
    Option Span × List Int :=
  let edge := s.contiguousEnd row
  let sums := if s.contains row then [edge + 1] else [row - 1]
  if finalRow.any fun last => last ≤ edge then (none, sums)
  else if threshold fetch ≤ edge - row then (none, sums ++ [edge - row])
  else
    let start := edge + 1
    let (count, more) := match s.nextStartAfter edge with
      | some next => (min fetch (next - start), [next - start])
      | none => (fetch, [])
    (some ⟨start, count⟩, sums ++ [edge - row, start] ++ more)

/-- The rows to fetch ahead of a cursor that moves back, if any. -/
def spanBehind (s : Residency) (fetch : Int) (row : Int) : Option Span × List Int :=
  let edge := s.contiguousStart row
  let sums := if s.contains row then [edge - 1] else [row + 1]
  if edge ≤ 1 then (none, sums)
  else if threshold fetch ≤ row - edge then (none, sums ++ [row - edge])
  else
    let low := max (edge - fetch) 1
    let (start, more) := match s.prevEndBefore edge with
      | some last => (max low (last + 1), [last + 1])
      | none => (low, [])
    (some ⟨start, edge - start⟩, sums ++ [row - edge, edge - fetch] ++ more ++ [edge - start])

/-- The distances that are worked out to drop batches down to a limit. -/
def evictionSums (s : Residency) (limit : Nat) (row : Int) (pinned : Option Int) : List Int :=
  if s.size ≤ max limit 1 then [] else (s.evictable row pinned).map fun b => b.distance row

end Residency

end QueryClient.Cursor
