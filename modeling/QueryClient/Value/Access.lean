import QueryClient.Wire.Kind

/-!
# Looking into values

A value is looked at as what it holds, or not at all; whole numbers widen, nothing else converts.
-/

namespace QueryClient

namespace Value

def isNull : Value → Bool
  | .null => true
  | _ => false

def string? : Value → Option String
  | .string text => some text
  | _ => none

/-- A whole number of either width. -/
def long? : Value → Option Int64
  | .integer n => some n.toInt64
  | .long n => some n
  | _ => none

/-- A double, or the double nearest to a whole number. -/
def double? : Value → Option Double
  | .double x => some x
  | .integer n => some (Double.ofInt n.toInt)
  | .long n => some (Double.ofInt n.toInt)
  | _ => none

def boolean? : Value → Option Bool
  | .boolean b => some b
  | _ => none

def binary? : Value → Option Bytes
  | .binary bytes => some bytes
  | _ => none

def lob? : Value → Option Lob
  | .lob content => some content
  | _ => none

def reference? : Value → Option LobReference
  | .reference r => some r
  | _ => none

def message? : Value → Option Message
  | .message m => some m
  | _ => none

/-- A value that may be absent; absent is null. -/
def ofOption (f : α → Value) : Option α → Value
  | some a => f a
  | none => .null

end Value

def Row.cell (row : Row) (index : Nat) : Except Fault Value :=
  match row[index]? with
  | some cell => .ok cell
  | none => .error (.columnOutOfRange index row.length)

namespace Message

/-- A message taken for one of some kind. -/
def expect (kind : Kind) (m : Message) : Except Fault Message :=
  if m.kind = kind then .ok m else .error (.unexpectedMessage kind.name m.kind.name)

def greeting : Message → Except Fault Handshake
  | .handshake opening => .ok opening
  | other => .error (.unexpectedMessage Kind.handshake.name other.kind.name)

end Message

namespace Value

/-- A value taken for a message of some kind. -/
def expect (kind : Kind) : Value → Except Fault Message
  | .message m => m.expect kind
  | other => .error (.unexpectedMessage kind.name other.typeName)

def results : Value → Except Fault Results
  | .message (.results batch) => .ok batch
  | other => .error (.unexpectedMessage Kind.results.name other.typeName)

def chunk : Value → Except Fault Chunk
  | .message (.chunk piece) => .ok piece
  | other => .error (.unexpectedMessage Kind.chunk.name other.typeName)

/-- A value taken for the answer to a step of a logon. -/
def logonResult : Value → Except Fault LogonResult
  | .message (.logonResult answer) => .ok answer
  | other => .error (.unexpectedMessage Kind.logonResult.name other.typeName)

end Value

end QueryClient
