import QueryClient.Value

/-!
# Wire kinds

Every value on the wire starts with a tag. A registered kind has a one-byte code and a name; the
code `Kind.byName` announces that a name follows instead.
-/

namespace QueryClient

/-- A registered kind of value. -/
inductive Kind where
  | null
  | boolean
  | integer
  | long
  | double
  | string
  | binary
  | list
  | streamReference
  | lobReference
  | handshake
  | invocation
  | reply
  | request
  | results
  | chunk
  | exception
  | logonRequest
  | logonResult
deriving DecidableEq, Repr

namespace Kind

def all : List Kind :=
  [.null, .boolean, .integer, .long, .double, .string, .binary, .list, .streamReference,
    .lobReference, .handshake, .invocation, .reply, .request, .results, .chunk, .exception,
    .logonRequest, .logonResult]

/-- The code that stands for no kind: a type name follows. -/
def byName : UInt8 := 1

def code : Kind → UInt8
  | .null => 0
  | .boolean => 2
  | .integer => 3
  | .long => 4
  | .double => 5
  | .string => 6
  | .binary => 7
  | .list => 8
  | .streamReference => 9
  | .lobReference => 10
  | .handshake => 16
  | .invocation => 17
  | .reply => 18
  | .request => 19
  | .results => 20
  | .chunk => 21
  | .exception => 22
  | .logonRequest => 23
  | .logonResult => 24

def name : Kind → String
  | .null => "Null"
  | .boolean => "Boolean"
  | .integer => "Integer"
  | .long => "Long"
  | .double => "Double"
  | .string => "String"
  | .binary => "Binary"
  | .list => "List"
  | .streamReference => "StreamReference"
  | .lobReference => "LobReference"
  | .handshake => "Handshake"
  | .invocation => "ServiceInvocation"
  | .reply => "ServiceReply"
  | .request => "RequestMessage"
  | .results => "ResultsMessage"
  | .chunk => "LobChunk"
  | .exception => "RemoteException"
  | .logonRequest => "LogonRequest"
  | .logonResult => "LogonResult"

def ofCode? (code : UInt8) : Option Kind :=
  all.find? (·.code == code)

def ofName? (name : String) : Option Kind :=
  all.find? (·.name == name)

/-- The kind with a code, or the fault of meeting a code without one. -/
def ofCode (code : UInt8) : Except Fault Kind :=
  match ofCode? code with
  | some kind => .ok kind
  | none => .error (.unknownTypeCode code)

/-- No kind has the code that announces a name. -/
theorem code_ne_byName (kind : Kind) : kind.code ≠ byName := by
  cases kind <;> decide

theorem ofCode?_code (kind : Kind) : ofCode? kind.code = some kind := by
  cases kind <;> rfl

theorem ofName?_name (kind : Kind) : ofName? kind.name = some kind := by
  cases kind <;> decide

end Kind

def Message.kind : Message → Kind
  | .handshake _ => .handshake
  | .invocation _ => .invocation
  | .reply _ => .reply
  | .request _ => .request
  | .results _ => .results
  | .chunk _ => .chunk
  | .exception _ => .exception
  | .logonRequest _ => .logonRequest
  | .logonResult _ => .logonResult

/-- The name of what a value holds. -/
def Value.typeName : Value → String
  | .null => Kind.null.name
  | .boolean _ => Kind.boolean.name
  | .integer _ => Kind.integer.name
  | .long _ => Kind.long.name
  | .double _ => Kind.double.name
  | .string _ => Kind.string.name
  | .binary _ => Kind.binary.name
  | .list _ => Kind.list.name
  | .lob _ => Kind.streamReference.name
  | .reference _ => Kind.lobReference.name
  | .message m => m.kind.name
  | .named typeName _ => typeName

end QueryClient
