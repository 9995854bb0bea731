import QueryClient.Cursor.Navigation

/-!
# Moves

The operations of a cursor that answer yes or no, as one type: those that move it, and those that
only look whether there is a row and may fetch to find out. With those that give no answer they make
up everything that can be called on a cursor.
-/

namespace QueryClient.Cursor

/-- A question to a cursor that is answered with yes or no. -/
inductive Move where
  | next
  | previous
  | absolute (row : Int)
  | relative (delta : Int)
  | first
  | last
  | isLast
  | isBeforeFirst
deriving DecidableEq, Repr

namespace Move

def all (n : Int) : List Move :=
  [.next, .previous, .absolute n, .relative n, .first, .last, .isLast, .isBeforeFirst]

def name : Move → String
  | .next => "next"
  | .previous => "previous"
  | .absolute _ => "absolute"
  | .relative _ => "relative"
  | .first => "first"
  | .last => "last"
  | .isLast => "is_last"
  | .isBeforeFirst => "is_before_first"

variable {σ H : Type} (source : BatchSource σ H) (rounds : Nat)

def perform : Move → Nav σ H Bool
  | .next => Cursor.next source rounds
  | .previous => Cursor.previous source rounds
  | .absolute row => Cursor.absolute source rounds row
  | .relative delta => Cursor.relative source rounds delta
  | .first => Cursor.first source rounds
  | .last => Cursor.last source rounds
  | .isLast => Cursor.isLast source rounds
  | .isBeforeFirst => Cursor.isBeforeFirst source rounds

end Move

/-- Anything that can be called on a cursor and may change it. -/
inductive Call where
  | move (move : Move)
  | beforeFirst
  | afterLast
  | close
deriving DecidableEq, Repr

/-- Makes the call; moves have an answer. -/
def Call.perform {σ H : Type} (source : BatchSource σ H) (rounds : Nat) :
    Call → Nav σ H (Option Bool)
  | .move m => some <$> m.perform source rounds
  | .beforeFirst => do
    Cursor.beforeFirst
    return none
  | .afterLast => do
    Cursor.afterLast
    return none
  | .close => do
    Cursor.close source
    return none

end QueryClient.Cursor
