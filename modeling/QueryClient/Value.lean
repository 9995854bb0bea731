import QueryClient.Double
import QueryClient.Duration
import QueryClient.Lob.Content
import QueryClient.Message.Parts
import QueryClient.ServerException

/-!
# Values and messages

Values travel in messages, and a message may itself travel as a value, so the two are one mutual
family. A row is a list of values. Row numbers and keys have the width they have on the wire.
-/

namespace QueryClient

mutual

/-- What a cell, an argument or a reply holds. -/
inductive Value where
  | null
  | boolean (b : Bool)
  | integer (n : Int32)
  | long (n : Int64)
  | double (x : Double)
  | string (text : String)
  | binary (bytes : Bytes)
  | list (items : List Value)
  | lob (lob : Lob)
  | reference (reference : LobReference)
  | message (message : Message)
  /-- A value of a foreign type, known by its name alone. -/
  | named (typeName : String) (fields : List Value)

/-- A call to a service. -/
structure Invocation where
  key : UInt64
  service : Service
  method : String
  args : List Value

/-- The answer to the call with the same key. -/
structure Reply where
  key : UInt64
  outcome : Except ServerException Value

/-- A query to be executed; a row limit of zero is none. -/
structure Request where
  executionId : Int64
  sql : String
  parameters : List Value
  fetchSize : UInt32
  cursorType : CursorType
  rowLimit : UInt32
  queryTimeout : Option Duration

/-- The rows `firstRow..=lastRow` of a result, or the outcome of a statement without rows. The final
row is `-1` while the server does not know it. -/
structure Results where
  firstRow : Int64
  lastRow : Int64
  finalRow : Int64
  columns : List Column
  rows : List (List Value)
  updateCount : Option Int64
  warnings : List String
  exception : Option ServerException

/-- What a frame carries. -/
inductive Message where
  | handshake (handshake : Handshake)
  | invocation (invocation : Invocation)
  | reply (reply : Reply)
  | request (request : Request)
  | results (results : Results)
  | chunk (chunk : Chunk)
  | exception (exception : ServerException)
  | logonRequest (request : LogonRequest)
  | logonResult (result : LogonResult)

end

abbrev Row := List Value

instance : Inhabited Value := ⟨.null⟩

end QueryClient
