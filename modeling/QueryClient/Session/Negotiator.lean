import QueryClient.Fault

/-!
# Negotiators

A negotiator makes the tokens of an exchange: the first one, and then one for each challenge of the
server.
-/

namespace QueryClient

/-- A maker of tokens, as operations on its state `ν`. -/
structure Negotiator (ν : Type) where
  initial : ν → Except Fault Bytes × ν
  next : Bytes → ν → Except Fault Bytes × ν

namespace Negotiator

/-- What a negotiator was asked for. -/
inductive Query where
  | initial
  | next (challenge : Bytes)
deriving DecidableEq, Repr

/-- The tokens that a scripted negotiator gives, and what it was asked, the last query first. -/
structure Script where
  first : Except Fault Bytes
  rest : List (Except Fault Bytes)
  asked : List Query

/-- The negotiator of a script; past its end it answers a challenge with one more byte. -/
def scripted : Negotiator Script where
  initial := fun s => (s.first, { s with asked := .initial :: s.asked })
  next := fun challenge s =>
    let s := { s with asked := .next challenge :: s.asked }
    match s.rest with
    | token :: rest => (token, { s with rest := rest })
    | [] => (.ok (challenge ++ [0x2B]), s)

end Negotiator

end QueryClient
