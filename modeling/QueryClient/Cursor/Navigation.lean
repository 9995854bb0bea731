import QueryClient.Attempt
import QueryClient.Cursor.Source
import QueryClient.Cursor.Span

/-!
# Moving a cursor

A move looks for its row among the rows at hand and fetches what is missing, one fetch at a time: a
fetch that is under way is awaited before another is issued. The position changes last, so a move
that fails leaves the cursor where it was; a fetch that timed out stays outstanding, and the next
move that needs rows awaits it. Standing on a row, the cursor drops batches it no longer keeps and
fetches ahead in the direction of travel.

A source may go on answering without ever bringing the row. Moves therefore take the number of
rounds they may go, and end as `Stop.outOfRounds` when these do not do.
-/

namespace QueryClient.Cursor

/-- A cursor with its source, and whether a row number has left the range in which they travel. -/
structure Desk (σ H : Type) where
  cursor : Cursor H
  source : σ
  overflowed : Bool

/-- An operation on a cursor and its source; a failed one keeps what it has done. -/
abbrev Nav (σ H α : Type) := Attempt (Desk σ H) α

namespace Nav

variable {σ H α : Type}

def cursor : Nav σ H (Cursor H) := do
  return (← get).cursor

def update (f : Cursor H → Cursor H) : Nav σ H Unit :=
  modify fun desk => { desk with cursor := f desk.cursor }

def ask (operation : σ → α × σ) : Nav σ H α := do
  let desk ← get
  let (a, source) := operation desk.source
  set { desk with source := source }
  return a

/-- Marks sums that leave the range of row numbers. -/
def note (sums : List Int) : Nav σ H Unit :=
  modify fun desk => { desk with overflowed := desk.overflowed || !sums.all fits }

/-- A sum of row numbers. -/
def sum (a b : Int) : Nav σ H Int := do
  note [a + b]
  return a + b

end Nav

variable {σ H : Type}

open Attempt Nav

/-! ## Preconditions -/

/-- Fails on a cursor that only moves on. -/
def ensureScrollable (operation : String) : Nav σ H Unit := do
  if (← cursor).isForwardOnly then
    fail (.illegalNavigation (.needsScrolling operation))

/-- The heading of a move to a row. -/
def headingTo (position : Position) (target : Int) : Heading :=
  match position with
  | .onRow n => if target < n then .backward else .forward
  | .afterLast => .backward
  | .beforeFirst => .forward

/-- Rows before this one are behind the cursor. -/
def frontier : Position → Int
  | .beforeFirst => 0
  | .onRow n => n
  | .afterLast => 0x7FFFFFFFFFFFFFFF

/-- A cursor that only moves on reaches rows behind it only while they are at hand. -/
def isOutOfReach (c : Cursor H) (target : Int) : Bool :=
  c.isForwardOnly && !c.rows.contains target && target < frontier c.position

/-! ## Fetching -/

/-- Enters what was asked of the source. -/
def enter (c : Cursor H) (entry : Ask H) : Cursor H :=
  { c with ledger := entry :: c.ledger }

/-- The cursor after it has asked for a fetch. -/
def requested (c : Cursor H) (purpose : Purpose) (span : Span) (outcome : Except Fault H) :
    Cursor H :=
  let asked := c.enter (.requested purpose span.start span.count c.rows outcome)
  match outcome with
  | .error _ => asked
  | .ok call => { asked with
      fetches := c.fetches + 1
      flight := some ⟨span.start, span.count, call⟩ }

/-- What a wait for the outstanding fetch makes of the cursor, and whether it brought anything. Only
a timeout keeps the fetch outstanding. -/
def received (c : Cursor H) (flight : Flight H) (outcome : Except Fault Results) (call : H) :
    Except Fault Bool × Cursor H :=
  let heard := c.enter (.waited flight outcome call)
  match outcome with
  | .error fault =>
    (.error fault, { heard with
      flight := if fault.isTimeout then some { flight with call := call } else none })
  | .ok results =>
    match { heard with flight := none }.absorb results with
    | .error fault => (.error fault, { heard with flight := none })
    | .ok (progressed, c) => (.ok progressed, c)

/-- Something that a cursor looks for: `find` looks among what it has, and `span` says what to fetch
when it is not there. A source that has no more to say has broken the protocol, which is
`missing`. -/
structure Quest (H α : Type) where
  purpose : Purpose
  find : Cursor H → Option (Except Fault α)
  span : Cursor H → Span × List Int
  missing : Violation

variable (source : BatchSource σ H)

def issue (purpose : Purpose) (span : Span) : Nav σ H Unit := do
  let outcome ← ask (source.request span.start span.count)
  update fun c => c.requested purpose span outcome
  let _ ← ofExcept outcome

/-- The sums by which the last row of a fetch is found. -/
def Flight.endSums (flight : Flight H) : List Int :=
  [flight.start + flight.count, flight.start + flight.count - 1]

/-- Awaits the outstanding fetch; says whether it brought anything. The record of an answer names
the last row of its fetch, which is worked out (`Flight.endSums`) only where records are kept: a
wait does not mark these sums. -/
def await : Nav σ H Bool := do
  let c ← cursor
  match c.flight with
  | none => return false
  | some flight =>
    let (outcome, call) ← ask fun s =>
      let (outcome, call, s) := source.wait c.options.timeout flight.call s
      ((outcome, call), s)
    let (result, c) := c.received flight outcome call
    update fun _ => c
    ofExcept result

/-- Sees to it that a fetch is under way. After one that brought nothing there is no other. -/
def fetchFor {α : Type} (quest : Quest H α) (stalled : Bool) : Nav σ H Unit := do
  let c ← cursor
  if c.flight.isNone then
    if stalled then
      fail (.protocol quest.missing)
    else
      let (span, sums) := quest.span c
      note sums
      issue source quest.purpose span

/-- Looks for something, and fetches until it is there; `settle` follows each fetch. -/
def seek {α : Type} (quest : Quest H α) (settle : Nav σ H Unit) :
    (rounds : Nat) → (stalled : Bool) → Nav σ H α
  | 0, _ => throw .outOfRounds
  | rounds + 1, stalled => do
    match quest.find (← cursor) with
    | some found => ofExcept found
    | none =>
      fetchFor source quest stalled
      let progressed ← await source
      settle
      seek quest settle rounds (!progressed)

variable (rounds : Nat)

/-- Whether a move to a row gets there: the row is at hand, or lies past the final row. -/
def findRow (target : Int) (c : Cursor H) : Option (Except Fault Bool) :=
  if c.rows.contains target then some ((c.rows.rowAt target).map fun _ => true)
  else if c.finalRow.any (· < target) then some (.ok false)
  else none

/-- Whether a row exists, as far as one can tell. -/
def existsRow (row : Int) (c : Cursor H) : Option (Except Fault Bool) :=
  if c.rows.contains row then some (.ok true)
  else c.finalRow.map fun last => .ok (row ≤ last)

/-- The rows to fetch for one that is missing. -/
def spanFor (target : Int) (heading : Heading) (c : Cursor H) : Span × List Int :=
  c.rows.demandSpan c.fetchSize target heading

/-- The rows to fetch in search of the final row: those behind the last one at hand. -/
def spanPastHighest (c : Cursor H) : Span × List Int :=
  let start := (c.rows.highestRow.getD 0) + 1
  (⟨start, c.fetchSize⟩, [start])

/-- The search for a row to move to. -/
def Quest.row (target : Int) (heading : Heading) : Quest H Bool where
  purpose := .demand target
  find := findRow target
  span := spanFor target heading
  missing := .noRowsFor target

/-- The search for whether a row exists. -/
def Quest.existence (row : Int) : Quest H Bool where
  purpose := .demand row
  find := existsRow row
  span := spanFor row .forward
  missing := .noRowsFor row

/-- The search for the final row. -/
def Quest.finalRow : Quest H Int where
  purpose := .finalRow
  find := fun c => c.finalRow.map .ok
  span := spanPastHighest
  missing := .finalRowUnreported

/-- Whether a row exists; fetches to find out. -/
def hasRow (row : Int) : Nav σ H Bool :=
  seek source (.existence row) (pure ()) rounds false

/-- While the final row is searched, the batches near the end are kept, and the current row. -/
def keepNearEnd : Nav σ H Unit := do
  let c ← cursor
  match c.rows.highestRow with
  | none => return
  | some highest =>
    let current := match c.position with
      | .onRow n => some n
      | _ => none
    note (c.rows.evictionSums c.options.savedBatches highest current)
    update fun c => { c with
      rows := c.rows.evictKeeping c.options.savedBatches highest current }

/-- The final row; fetches on until the server reports it. -/
def ensureFinalKnown : Nav σ H Int :=
  seek source .finalRow keepNearEnd rounds false

/-! ## Standing on a row -/

/-- Drops what the cursor no longer keeps when it stands on a row. -/
def evict (row : Int) : Nav σ H Unit := do
  let c ← cursor
  if c.isForwardOnly then
    update fun c => { c with rows := c.rows.evictBehind row }
  else
    note (c.rows.evictionSums c.options.savedBatches row none)
    update fun c => { c with rows := c.rows.evictTo c.options.savedBatches row }

/-- The rows to fetch ahead of demand, if any. -/
def spanToPrefetch (c : Cursor H) (row : Int) : Option Span × List Int :=
  match c.heading with
  | .forward => c.rows.spanAhead c.fetchSize c.finalRow row
  | .backward => if c.isForwardOnly then (none, []) else c.rows.spanBehind c.fetchSize row

/-- Issues a fetch ahead of demand; a source that refuses it is asked again when the need comes. -/
def tryIssue (span : Span) : Nav σ H Unit :=
  recover (issue source .ahead span) fun _ => return

/-- Fetches ahead of demand when nothing is under way and few rows are left ahead. -/
def prefetch (row : Int) : Nav σ H Unit := do
  let c ← cursor
  if c.flight.isNone then
    let (span, sums) := spanToPrefetch c row
    note sums
    match span with
    | none => return
    | some span =>
      if 0 < span.count then
        tryIssue source span

/-- Comes to stand on a row that is at hand. -/
def standOn (row : Int) : Nav σ H Unit := do
  update fun c => { c with position := .onRow row }
  evict row
  if (← cursor).options.prefetch then
    prefetch source row

/-- Moves to a row; says whether it exists. Otherwise the cursor comes to stand before the first row
or after the last. -/
def moveTo (target : Int) (heading : Heading) : Nav σ H Bool := do
  if isOutOfReach (← cursor) target then
    fail (.illegalNavigation (.rowGone target))
  update fun c => { c with heading := heading }
  if target < 1 then
    update fun c => { c with position := .beforeFirst }
    return false
  let found ← seek source (.row target heading) (pure ()) rounds false
  if found then
    standOn source target
  else
    update fun c => { c with position := .afterLast }
  return found

/-! ## Moves -/

def next : Nav σ H Bool := do
  let c ← cursor
  ofExcept c.ensureOpen
  match c.position with
  | .beforeFirst => moveTo source rounds 1 .forward
  | .onRow n => moveTo source rounds (← sum n 1) .forward
  | .afterLast => return false

def previous : Nav σ H Bool := do
  let c ← cursor
  ofExcept c.ensureOpen
  match c.position with
  | .beforeFirst => return false
  | .onRow n => moveTo source rounds (← sum n (-1)) .backward
  | .afterLast =>
    match c.finalRow with
    | some last => moveTo source rounds last .backward
    | none =>
      ensureScrollable "previous() from after the last row"
      moveTo source rounds (← ensureFinalKnown source rounds) .backward

/-- Moves to a row counted from the start, or from the end if the number is negative. -/
def absolute (row : Int) : Nav σ H Bool := do
  ofExcept (← cursor).ensureOpen
  if row = 0 then
    fail (.illegalNavigation .rowZero)
  else if row < 0 then
    ensureScrollable "absolute() with a negative row"
    let target ← sum (← sum (← ensureFinalKnown source rounds) 1) row
    if target < 1 then
      update fun c => { c with position := .beforeFirst }
      return false
    else
      moveTo source rounds target (headingTo (← cursor).position target)
  else
    moveTo source rounds row (headingTo (← cursor).position row)

/-- Moves by a number of rows from the current one. -/
def relative (delta : Int) : Nav σ H Bool := do
  let c ← cursor
  ofExcept c.ensureOpen
  match c.position with
  | .onRow n =>
    if delta = 0 then
      let _ ← ofExcept (c.rows.rowAt n)
      return true
    else
      moveTo source rounds (clamp (n + delta)) (if 0 < delta then .forward else .backward)
  | _ => fail (.illegalNavigation .noRowToCountFrom)

def first : Nav σ H Bool := do
  ofExcept (← cursor).ensureOpen
  ensureScrollable "first()"
  absolute source rounds 1

def last : Nav σ H Bool := do
  ofExcept (← cursor).ensureOpen
  ensureScrollable "last()"
  absolute source rounds (-1)

def beforeFirst : Nav σ H Unit := do
  ofExcept (← cursor).ensureOpen
  ensureScrollable "before_first()"
  update fun c => { c with position := .beforeFirst, heading := .forward }

def afterLast : Nav σ H Unit := do
  ofExcept (← cursor).ensureOpen
  ensureScrollable "after_last()"
  update fun c => { c with position := .afterLast, heading := .backward }

/-- Whether the cursor stands on the last row; may fetch to find out. -/
def isLast : Nav σ H Bool := do
  let c ← cursor
  ofExcept c.ensureOpen
  match c.position with
  | .onRow n => return !(← hasRow source rounds (← sum n 1))
  | _ => return false

/-- Whether the cursor stands before the first row of a result that has one; may fetch. -/
def isBeforeFirst : Nav σ H Bool := do
  let c ← cursor
  ofExcept c.ensureOpen
  if c.position = .beforeFirst then
    hasRow source rounds 1
  else
    return false

/-- Closes the cursor and releases the result on the server. A fetch under way is given up. -/
def close : Nav σ H Unit := do
  let c ← cursor
  if c.closed then
    return
  update fun c => { c with closed := true, flight := none, rows := Residency.empty }
  match c.flight with
  | some flight =>
    ask fun s => ((), source.abandon flight.call s)
    update (·.enter (.abandoned flight))
  | none => pure ()
  let outcome ← ask source.close
  update (·.enter .closed)
  ofExcept outcome

end QueryClient.Cursor
