import QueryClient.Wire.Kind
import QueryClient.Wire.Writer

/-!
# Encoding values and messages

An encoder writes tagged values into the body of a frame and keeps the content of large objects
aside: the body only announces them, numbered in the order in which they are met. Tags are written
by code, or all by name for a peer without the table of codes.
-/

namespace QueryClient

/-- The body so far, the contents it announces, and how tags are written. -/
structure Encoder where
  writer : Writer
  streams : Array Bytes
  tagsByCode : Bool
deriving Repr

/-- An operation that encodes; a failed one leaves what it has written. -/
abbrev Encode (α : Type) := ExceptT Fault (StateM Encoder) α

instance : MonadLift Write Encode where
  monadLift write := fun ⟨writer, streams, tagsByCode⟩ =>
    match write writer with
    | (result, writer) => (result, ⟨writer, streams, tagsByCode⟩)

namespace Encoder

/-- An encoder with an empty body of at most `limit` bytes. -/
def start (tagsByCode : Bool) (limit : Nat) : Encoder :=
  ⟨Writer.empty (some limit), #[], tagsByCode⟩

def nameTag (name : String) : Encode Unit := do
  Writer.uint8 Kind.byName
  Writer.shortString name

def tag (kind : Kind) : Encode Unit := do
  if (← getThe Encoder).tagsByCode then
    Writer.uint8 kind.code
  else
    nameTag kind.name

/-- Keeps content for after the body. -/
def append (content : Bytes) : Encode Unit := fun ⟨writer, streams, tagsByCode⟩ =>
  (.ok (), ⟨writer, streams.push content, tagsByCode⟩)

/-- How many contents the body has announced. -/
def streamCount : Encode Nat := do
  return (← getThe Encoder).streams.size

/-- Announces a large object, whose content must be at hand. -/
def lob (lob : Lob) : Encode Unit := do
  let content ← lob.bytes
  let index ← streamCount
  if index < 0x10000 then
    tag .streamReference
    Writer.uint8 lob.kind.code
    Writer.word 2 index
    append content
  else
    throw (.protocol .tooManyStreams)

/-- A reference to an object on the server; an unknown length is written as `-1`. -/
def reference (reference : LobReference) : Encode Unit := do
  tag .lobReference
  Writer.string reference.id
  Writer.uint8 reference.kind.code
  Writer.int64 ((reference.length.map UInt64.toInt64).getD (-1))

def exceptionBody (e : ServerException) : Encode Unit := do
  Writer.optional Writer.string e.className
  Writer.optional Writer.string e.code
  Writer.string e.message

def exception (e : ServerException) : Encode Unit := do
  tag .exception
  exceptionBody e

def optionalException : Option ServerException → Encode Unit
  | some e => exception e
  | none => tag .null

def handshakeBody (handshake : Handshake) : Encode Unit := do
  Writer.uint8 handshake.version
  Writer.string handshake.productVersion
  Writer.uint8 handshake.authType.code

def chunkBody (chunk : Chunk) : Encode Unit := do
  Writer.lengthBytes chunk.data
  Writer.boolean chunk.isLast

def properties : List (String × String) → Encode Unit
  | [] => return
  | (key, value) :: rest => do
    Writer.string key
    Writer.string value
    properties rest

def logonRequestBody (request : LogonRequest) : Encode Unit := do
  Writer.optional Writer.string request.user
  Writer.optional Writer.string request.password
  Writer.optional Writer.lengthBytes request.token
  Writer.word 4 request.properties.length
  properties request.properties

def logonResultBody (result : LogonResult) : Encode Unit := do
  Writer.string result.sessionId
  Writer.string result.userName
  Writer.optional Writer.lengthBytes result.continuation

def columns : List Column → Encode Unit
  | [] => return
  | column :: rest => do
    Writer.string column.name
    Writer.shortString column.typeName
    columns rest

def warnings : List String → Encode Unit
  | [] => return
  | warning :: rest => do
    Writer.string warning
    warnings rest

mutual

def value : Value → Encode Unit
  | .null => tag .null
  | .boolean b => do
    tag .boolean
    Writer.boolean b
  | .integer n => do
    tag .integer
    Writer.int32 n
  | .long n => do
    tag .long
    Writer.int64 n
  | .double x => do
    tag .double
    Writer.double x
  | .string text => do
    tag .string
    Writer.string text
  | .binary bytes => do
    tag .binary
    Writer.lengthBytes bytes
  | .list items => do
    tag .list
    Writer.word 4 items.length
    each items
  | .lob content => lob content
  | .reference r => reference r
  | .message m => message m
  | .named typeName fields => do
    nameTag typeName
    Writer.word 4 fields.length
    each fields

def each : List Value → Encode Unit
  | [] => return
  | v :: rest => do
    value v
    each rest

/-- Rows one after another, each behind the number of its cells. -/
def rows : List Row → Encode Unit
  | [] => return
  | row :: rest => do
    Writer.word 4 row.length
    each row
    rows rest

/-- A message behind its tag. A query timeout is written in milliseconds, none as zero. -/
def message : Message → Encode Unit
  | .handshake handshake => do
    tag .handshake
    handshakeBody handshake
  | .invocation ⟨key, service, method, args⟩ => do
    tag .invocation
    Writer.uint64 key
    Writer.uint8 service.code
    Writer.shortString method
    Writer.word 4 args.length
    each args
  | .reply ⟨key, .ok v⟩ => do
    tag .reply
    Writer.uint64 key
    Writer.boolean false
    value v
  | .reply ⟨key, .error e⟩ => do
    tag .reply
    Writer.uint64 key
    Writer.boolean true
    exception e
  | .request ⟨executionId, sql, parameters, fetchSize, cursorType, rowLimit, queryTimeout⟩ => do
    tag .request
    Writer.int64 executionId
    Writer.string sql
    Writer.word 4 parameters.length
    each parameters
    Writer.uint32 fetchSize
    Writer.uint8 cursorType.code
    Writer.uint32 rowLimit
    Writer.word 8 ((queryTimeout.map Duration.wholeMilliseconds).getD 0)
  | .results ⟨firstRow, lastRow, finalRow, cols, cells, updateCount, warned, failure⟩ => do
    tag .results
    Writer.int64 firstRow
    Writer.int64 lastRow
    Writer.int64 finalRow
    Writer.word 4 cols.length
    columns cols
    Writer.word 4 cells.length
    rows cells
    Writer.optional Writer.int64 updateCount
    Writer.word 4 warned.length
    warnings warned
    optionalException failure
  | .chunk chunk => do
    tag .chunk
    chunkBody chunk
  | .exception e => exception e
  | .logonRequest request => do
    tag .logonRequest
    logonRequestBody request
  | .logonResult result => do
    tag .logonResult
    logonResultBody result

end

def values (items : List Value) : Encode Unit := do
  Writer.word 4 items.length
  each items

def optionalMessage : Option Message → Encode Unit
  | some m => message m
  | none => tag .null

end Encoder

end QueryClient
