import QueryClient.Wire.AllowList
import QueryClient.Wire.Reader

/-!
# Decoding values and messages

A decoder reads tagged values from the body of a frame and counts the large objects that the body
announces; their content is bound later. Lists, messages and foreign values may be nested `maxDepth`
deep, so a read ends whatever the bytes say, and a declared count is only believed when as many
bytes are left.
-/

namespace QueryClient

/-- What a tag says: a registered kind, or a permitted foreign type. -/
inductive Tag where
  | known (kind : Kind)
  | foreign (name : String)
deriving DecidableEq, Repr

def Tag.name : Tag → String
  | .known kind => kind.name
  | .foreign name => name

/-- A place in a body, the kinds of the large objects announced before it, how many values stand
open around it, and which foreign types are permitted. -/
structure Decoder where
  reader : Reader
  slots : Array LobKind
  depth : Nat
  allowed : AllowList
deriving Repr

/-- An operation that decodes; a failed one leaves the decoder where it got to. -/
abbrev Decode (α : Type) := ExceptT Fault (StateM Decoder) α

instance : MonadLift Read Decode where
  monadLift read := fun ⟨reader, slots, depth, allowed⟩ =>
    match read reader with
    | (result, reader) => (result, ⟨reader, slots, depth, allowed⟩)

namespace Decoder

/-- How deep values may be nested. -/
def maxDepth : Nat := 64

/-- The decoder before a whole body. -/
def ofBytes (body : Bytes) (allowed : AllowList) : Decoder :=
  ⟨Reader.ofBytes body, #[], 0, allowed⟩

def remaining : Decode Nat := do
  return (← getThe Decoder).reader.remaining

def tag : Decode Tag := do
  let code ← Reader.uint8
  if code = Kind.byName then
    let name ← Reader.shortString
    match ← (← getThe Decoder).allowed.resolve name with
    | some kind => return .known kind
    | none => return .foreign name
  else
    return .known (← Kind.ofCode code)

/-- Reads one level deeper, and comes back up whether or not the read succeeds. -/
def deeper (read : Decode α) : Decode α := fun ⟨reader, slots, depth, allowed⟩ =>
  match read ⟨reader, slots, depth + 1, allowed⟩ with
  | (result, ⟨reader, slots, depth, allowed⟩) => (result, ⟨reader, slots, depth - 1, allowed⟩)

def tooDeep : Decode α :=
  throw (.protocol .nestingTooDeep)

/-- The fault of meeting another tag than `kind`. -/
def unexpected (kind : Kind) (met : Tag) : Decode α :=
  throw (.unexpectedMessage kind.name met.name)

/-- Reads a code that stands for one of a few things. -/
def coded (ofCode : UInt8 → Except Fault α) : Decode α := do
  let code ← Reader.uint8
  ofCode code

/-- Reads `n` times, in order; `before` holds what was read already, the last one first. -/
def times (read : Decode α) : (n : Nat) → (before : List α) → Decode (List α)
  | 0, before => return before.reverse
  | n + 1, before => do
    let a ← read
    times read n (a :: before)

/-- Values behind their number, which the bytes that are left must allow: each has its tag. -/
def counted (read : Decode Value) : Decode (List Value) := do
  let count := (← Reader.uint32).toNat
  if (← getThe Decoder).reader.rest.holds count then
    times read count []
  else
    throw (.bufferUnderflow count (← remaining))

/-- A large object, announced under the number of those announced before it. -/
def lob : Decode Lob := do
  let kind ← coded LobKind.ofCode
  let index := (← Reader.uint16).toNat
  let expected := (← getThe Decoder).slots.size
  if index = expected then
    modifyThe Decoder fun ⟨reader, slots, depth, allowed⟩ =>
      ⟨reader, slots.push kind, depth, allowed⟩
    return ⟨kind, none⟩
  else
    throw (.protocol (.streamOutOfOrder index expected))

/-- A reference to an object on the server; a negative length is unknown. -/
def reference : Decode LobReference := do
  let id ← Reader.string
  let kind ← coded LobKind.ofCode
  let length ← Reader.int64
  return ⟨id, kind, if length < 0 then none else some length.toUInt64⟩

def handshakeBody : Decode Handshake := do
  let version ← Reader.uint8
  let productVersion ← Reader.string
  let authType ← coded AuthType.ofCode
  return { version, productVersion, authType }

def exceptionBody : Decode ServerException := do
  let className ← Reader.optional Reader.string
  let code ← Reader.optional Reader.string
  let message ← Reader.string
  return { className, code, message }

def chunkBody : Decode Chunk := do
  let data ← Reader.bytes
  let isLast ← Reader.boolean
  return { data, isLast }

def property : Read (String × String) := do
  let key ← Reader.string
  let value ← Reader.string
  return (key, value)

def logonRequestBody : Decode LogonRequest := do
  let user ← Reader.optional Reader.string
  let password ← Reader.optional Reader.string
  let token ← Reader.optional Reader.bytes
  let count ← Reader.uint32
  let properties ← Reader.times property count.toNat []
  return { user, password, token, properties }

def logonResultBody : Decode LogonResult := do
  let sessionId ← Reader.string
  let userName ← Reader.string
  let continuation ← Reader.optional Reader.bytes
  return { sessionId, userName, continuation }

def column : Read Column := do
  let name ← Reader.string
  let typeName ← Reader.shortString
  return { name, typeName }

/-- A body, read one level deeper while there are `levels` left. -/
def nested (levels : Nat) (read : Decode α) : Decode α :=
  match levels with
  | 0 => tooDeep
  | _ + 1 => deeper read

def exception (levels : Nat) : Decode ServerException := do
  let met ← tag
  if met = .known .exception then
    nested levels exceptionBody
  else
    unexpected .exception met

def optionalException (levels : Nat) : Decode (Option ServerException) := do
  let met ← tag
  if met = .known .null then
    return none
  else if met = .known .exception then
    return some (← nested levels exceptionBody)
  else
    unexpected .exception met

def invocationBody (value : Decode Value) : Decode Invocation := do
  let key ← Reader.uint64
  let service ← coded Service.ofCode
  let method ← Reader.shortString
  let args ← counted value
  return { key, service, method, args }

def replyBody (levels : Nat) (value : Decode Value) : Decode Reply := do
  let key ← Reader.uint64
  if ← Reader.boolean then
    return ⟨key, .error (← exception levels)⟩
  else
    return ⟨key, .ok (← value)⟩

/-- The query timeout is in milliseconds, and zero is none. -/
def requestBody (value : Decode Value) : Decode Request := do
  let executionId ← Reader.int64
  let sql ← Reader.string
  let parameters ← counted value
  let fetchSize ← Reader.uint32
  let cursorType ← coded CursorType.ofCode
  let rowLimit ← Reader.uint32
  let milliseconds := (← Reader.uint64).toNat
  let queryTimeout := if milliseconds = 0 then none else some (Duration.milliseconds milliseconds)
  return { executionId, sql, parameters, fetchSize, cursorType, rowLimit, queryTimeout }

def resultsBody (levels : Nat) (value : Decode Value) : Decode Results := do
  let firstRow ← Reader.int64
  let lastRow ← Reader.int64
  let finalRow ← Reader.int64
  let columnCount ← Reader.uint32
  let columns ← Reader.times column columnCount.toNat []
  let rowCount ← Reader.uint32
  let rows ← times (counted value) rowCount.toNat []
  let updateCount ← Reader.optional Reader.int64
  let warningCount ← Reader.uint32
  let warnings ← Reader.times Reader.string warningCount.toNat []
  let exception ← optionalException levels
  return { firstRow, lastRow, finalRow, columns, rows, updateCount, warnings, exception }

/-- The body of a message of some kind. Values in it may open `levels` more. -/
def messageBody (levels : Nat) (value : Decode Value) (kind : Kind) : Decode Message :=
  match kind with
  | .handshake => return .handshake (← handshakeBody)
  | .invocation => return .invocation (← invocationBody value)
  | .reply => return .reply (← replyBody levels value)
  | .request => return .request (← requestBody value)
  | .results => return .results (← resultsBody levels value)
  | .chunk => return .chunk (← chunkBody)
  | .exception => return .exception (← exceptionBody)
  | .logonRequest => return .logonRequest (← logonRequestBody)
  | .logonResult => return .logonResult (← logonResultBody)
  | other => throw (.unexpectedMessage "message" other.name)

def valueBody (levels : Nat) (value : Decode Value) (kind : Kind) : Decode Value :=
  match kind with
  | .null => return .null
  | .boolean => return .boolean (← Reader.boolean)
  | .integer => return .integer (← Reader.int32)
  | .long => return .long (← Reader.int64)
  | .double => return .double (← Reader.double)
  | .string => return .string (← Reader.string)
  | .binary => return .binary (← Reader.bytes)
  | .list => return .list (← counted value)
  | .streamReference => return .lob (← lob)
  | .lobReference => return .reference (← reference)
  | kind => return .message (← messageBody levels value kind)

/-- One tagged value, with `levels` left to open. -/
def valueWithin : (levels : Nat) → Decode Value
  | 0 => do
    let _ ← tag
    tooDeep
  | levels + 1 => do
    match ← tag with
    | .known kind => deeper (valueBody levels (valueWithin levels) kind)
    | .foreign name => deeper (do return .named name (← counted (valueWithin levels)))

/-- How many more values may be opened. -/
def levels : Decode Nat := do
  return maxDepth - (← getThe Decoder).depth

def value : Decode Value := do
  valueWithin (← levels)

def values : Decode (List Value) := do
  counted (valueWithin (← levels))

def message : Decode Message := do
  match ← value with
  | .message m => return m
  | other => throw (.unexpectedMessage "message" other.typeName)

/-- The body of a message of the kind just met, one level deeper. -/
def objectBody (kind : Kind) : Decode Message := do
  match ← levels with
  | 0 => tooDeep
  | levels + 1 => deeper (messageBody levels (valueWithin levels) kind)

/-- A tagged message of one kind. -/
def object (kind : Kind) : Decode Message := do
  let met ← tag
  if met = .known kind then
    objectBody kind
  else
    unexpected kind met

/-- A tagged message of one kind, which may be absent. -/
def optionalObject (kind : Kind) : Decode (Option Message) := do
  let met ← tag
  if met = .known .null then
    return none
  else if met = .known kind then
    return some (← objectBody kind)
  else
    unexpected kind met

/-- Ends the body: the kinds of the large objects it announced, if nothing follows. -/
def finish (d : Decoder) : Except Fault (List LobKind) :=
  match d.reader.rest with
  | [] => .ok d.slots.toList
  | rest => .error (.protocol (.trailingBody rest.length))

end Decoder

end QueryClient
