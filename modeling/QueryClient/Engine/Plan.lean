import QueryClient.Engine.Table
import QueryClient.Message.Handshake

/-!
# What an engine is set up to do

An engine in memory opens with some first words, serves one table, one first result and some large
objects, and may be told to do something else on the calls of a method, call by call.
-/

namespace QueryClient.Engine

/-- The first words of an engine. -/
inductive Opening where
  | greets (message : Message)
  | raw (bytes : Bytes)
  | silent
  | hangsUp

/-- What an engine does on a call. -/
inductive Deed where
  /-- What the method is for. -/
  | serve
  | ignore
  | hangUp
  /-- Replies, to another call if a key is given. -/
  | reply (key : Option UInt64) (outcome : Except ServerException Value)
  | raw (bytes : Bytes)
  | say (messages : List Message)

/-- A deed and how long it takes; a deed that takes time does not hold up later calls. -/
structure Action where
  deed : Deed
  delay : Duration

/-- A large object, and in pieces of which size it is handed out. -/
structure StoredLob where
  pieceSize : Nat
  content : Bytes

/-- What an engine is set up to do. -/
structure Plan where
  opening : Opening
  /-- What to do on the calls of a method, the last deed on all further ones. -/
  rules : List (String × List Action)
  /-- The number of rows of the table. -/
  total : Int
  /-- The first results of every query, if they are not those of the table. -/
  first : Option Results
  lobs : List (String × StoredLob)
  /-- The foreign types that it knows. -/
  allowed : AllowList

/-- What to do on a call of a method after `before` calls of it. -/
def Plan.action (plan : Plan) (method : String) (before : Nat) : Action :=
  let actions := (plan.rules.lookup method).getD []
  actions.getD (min before (actions.length - 1)) ⟨.serve, Duration.seconds 0⟩

end QueryClient.Engine
