import QueryClient.Cursor.Navigation

/-!
# Walking over rows

A walk repeats a move and visits the rows it comes to, until the move does not come to a row, or
comes to one too many.
-/

namespace QueryClient.Cursor

/-- What a walk visited, and the outcome of the move that ended it. -/
structure Walk where
  visited : List (Except Fault Row)
  ending : Except Stop Bool

variable {σ H : Type}

/-- Repeats a move and visits at most `most` rows; `before` holds those already visited, the last
one first. -/
def walk (move : Nav σ H Bool) : (most : Nat) → (before : List (Except Fault Row)) →
    StateM (Desk σ H) Walk
  | 0, before => do
    return ⟨before.reverse, ← move.run⟩
  | most + 1, before => do
    match ← move.run with
    | .ok true => walk move most ((← get).cursor.row :: before)
    | ending => return ⟨before.reverse, ending⟩

end QueryClient.Cursor
