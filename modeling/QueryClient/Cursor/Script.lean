import QueryClient.Cursor.Navigation
import QueryClient.Engine.Table

/-!
# A scripted source of batches

A source that follows a script: each fetch is refused, or accepted with the outcomes that successive
waits for it give. Past the script it serves a table of numbered rows. It keeps a log of what it was
asked.
-/

namespace QueryClient.Cursor

/-- What one wait for a fetch gives. -/
inductive ScriptedWait where
  /-- The rows of the table. -/
  | table
  | fault (fault : Fault)
  | results (results : Results)

/-- What becomes of one fetch. -/
inductive ScriptedFetch where
  | refused (fault : Fault)
  | accepted (waits : List ScriptedWait)

/-- What a scripted source was asked. -/
inductive SourceEvent where
  | requested (start count : Int)
  | closed
deriving DecidableEq, Repr

/-- A script with its log, the last event first. -/
structure Script where
  total : Int
  fetches : List ScriptedFetch
  closeFault : Option Fault
  log : List SourceEvent

namespace Script

/-- The outcome of a wait for a fetch of `count` rows from `start` on. -/
def outcome (total start count : Int) : ScriptedWait → Except Fault Results
  | .table => .ok (Engine.tableBatch total start count)
  | .fault fault => .error fault
  | .results results => .ok results

/-- Answers a fetch as the script says. -/
def request (start count : Int) (s : Script) :
    Except Fault (List (Except Fault Results)) × Script :=
  let (fetch, rest) := match s.fetches with
    | [] => (ScriptedFetch.accepted [.table], [])
    | fetch :: rest => (fetch, rest)
  let s := { s with fetches := rest, log := .requested start count :: s.log }
  match fetch with
  | .refused fault => (.error fault, s)
  | .accepted waits => (.ok (waits.map (outcome s.total start count)), s)

/-- The next outcome of a fetch; one without further outcomes is spent. -/
def wait (outcomes : List (Except Fault Results)) (s : Script) :
    Except Fault Results × List (Except Fault Results) × Script :=
  match outcomes with
  | [] => (.error (.protocol (.stated "reply already consumed")), [], s)
  | outcome :: rest => (outcome, rest, s)

def close (s : Script) : Except Fault Unit × Script :=
  let s := { s with log := .closed :: s.log }
  match s.closeFault with
  | some fault => (.error fault, s)
  | none => (.ok (), s)

def source : BatchSource Script (List (Except Fault Results)) where
  request := request
  wait := fun _ => wait
  abandon := fun _ s => s
  close := close

end Script

end QueryClient.Cursor
