import QueryClient.Fault

/-!
# Attempts

An attempt works on a state and may fail; a failed one keeps what it has done to the state. One that
depends on the answers of a source may go round for ever, so it is given a number of rounds, and
running out of them is told apart from every fault.
-/

namespace QueryClient

/-- Why an attempt did not come to an answer. -/
inductive Stop where
  | fault (fault : Fault)
  | outOfRounds
deriving DecidableEq, Repr

/-- An operation on a state that may stop short of an answer. -/
abbrev Attempt (S α : Type) := ExceptT Stop (StateM S) α

namespace Attempt

variable {S α : Type}

def fail (fault : Fault) : Attempt S α :=
  throw (.fault fault)

/-- The outcome of a pure step. -/
def ofExcept : Except Fault α → Attempt S α
  | .ok a => return a
  | .error fault => fail fault

/-- Goes on after a fault with what the handler says. -/
def recover (attempt : Attempt S α) (handler : Fault → Attempt S α) : Attempt S α :=
  tryCatch attempt fun
    | .fault fault => handler fault
    | .outOfRounds => throw .outOfRounds

end Attempt

end QueryClient
