import QueryClient.Value

/-!
# Binding content to large objects

Once the content behind a body has been read, it is handed to the large objects of the message in
the order in which the body announces them: arguments, parameters, rows and fields from the first to
the last, and what lies inside a value before what follows it. An object that has content keeps it.
-/

namespace QueryClient.Binding

/-- An operation that hands out contents. -/
abbrev Bind (α : Type) := StateM (List Bytes) α

/-- Gives the next content to an object without one. -/
def lob : Lob → Bind Lob
  | ⟨kind, some content⟩ => return ⟨kind, some content⟩
  | ⟨kind, none⟩ => do
    match ← get with
    | [] => return ⟨kind, none⟩
    | content :: rest =>
      set rest
      return ⟨kind, some content⟩

mutual

def value : Value → Bind Value
  | .list items => do return .list (← each items [])
  | .lob content => do return .lob (← lob content)
  | .message m => do return .message (← message m)
  | .named typeName fields => do return .named typeName (← each fields [])
  | .null => return .null
  | .boolean b => return .boolean b
  | .integer n => return .integer n
  | .long n => return .long n
  | .double x => return .double x
  | .string text => return .string text
  | .binary bytes => return .binary bytes
  | .reference r => return .reference r

/-- Binds values in order; `before` holds those already bound, the last one first. -/
def each : List Value → (before : List Value) → Bind (List Value)
  | [], before => return before.reverse
  | v :: rest, before => do
    let bound ← value v
    each rest (bound :: before)

def rows : List Row → (before : List Row) → Bind (List Row)
  | [], before => return before.reverse
  | row :: rest, before => do
    let bound ← each row []
    rows rest (bound :: before)

def message : Message → Bind Message
  | .invocation ⟨key, service, method, args⟩ => do
    return .invocation ⟨key, service, method, ← each args []⟩
  | .reply ⟨key, .ok v⟩ => do return .reply ⟨key, .ok (← value v)⟩
  | .reply ⟨key, .error e⟩ => return .reply ⟨key, .error e⟩
  | .request ⟨executionId, sql, parameters, fetchSize, cursorType, rowLimit, queryTimeout⟩ => do
    let parameters ← each parameters []
    return .request ⟨executionId, sql, parameters, fetchSize, cursorType, rowLimit, queryTimeout⟩
  | .results ⟨firstRow, lastRow, finalRow, columns, cells, updateCount, warnings, exception⟩ => do
    let cells ← rows cells []
    return .results
      ⟨firstRow, lastRow, finalRow, columns, cells, updateCount, warnings, exception⟩
  | .handshake handshake => return .handshake handshake
  | .chunk chunk => return .chunk chunk
  | .exception exception => return .exception exception
  | .logonRequest request => return .logonRequest request
  | .logonResult result => return .logonResult result

end

end QueryClient.Binding

namespace QueryClient

/-- The message with the contents bound to its large objects in order. -/
def Message.bind (m : Message) (contents : List Bytes) : Message :=
  ((Binding.message m).run contents).1

end QueryClient
