import QueryClient.Proofs.Wire.Format
import QueryClient.Wire.Decoder

/-!
# The grammar of bodies

The formats of values and messages. Every tag may be a code or a name, whichever way the others are
written; apart from tags, the length of a reference and a query timeout, each thing has one
spelling.
-/

namespace QueryClient

/-- The tag of a value. -/
def Value.tag : Value → Tag
  | .null => .known .null
  | .boolean _ => .known .boolean
  | .integer _ => .known .integer
  | .long _ => .known .long
  | .double _ => .known .double
  | .string _ => .known .string
  | .binary _ => .known .binary
  | .list _ => .known .list
  | .lob _ => .known .streamReference
  | .reference _ => .known .lobReference
  | .message m => .known m.kind
  | .named typeName _ => .foreign typeName

/-- A message of some kind is what that kind says; values that are no messages have the others. -/
theorem Message.of_kind (m : Message) {kind : Kind} (h : m.kind = kind) :
    match kind with
    | .handshake => ∃ a, m = .handshake a
    | .invocation => ∃ a, m = .invocation a
    | .reply => ∃ a, m = .reply a
    | .request => ∃ a, m = .request a
    | .results => ∃ a, m = .results a
    | .chunk => ∃ a, m = .chunk a
    | .exception => ∃ a, m = .exception a
    | .logonRequest => ∃ a, m = .logonRequest a
    | .logonResult => ∃ a, m = .logonResult a
    | _ => False := by
  cases m <;> cases h <;> exact ⟨_, rfl⟩

/-- A value with the tag of a plain kind is of that kind; all other kinds are those of messages. -/
theorem Value.of_tag (v : Value) {kind : Kind} (h : v.tag = .known kind) :
    match kind with
    | .null => v = .null
    | .boolean => ∃ b, v = .boolean b
    | .integer => ∃ n, v = .integer n
    | .long => ∃ n, v = .long n
    | .double => ∃ x, v = .double x
    | .string => ∃ text, v = .string text
    | .binary => ∃ content, v = .binary content
    | .list => ∃ items, v = .list items
    | .streamReference => ∃ l, v = .lob l
    | .lobReference => ∃ r, v = .reference r
    | _ => ∃ m, v = .message m ∧ m.kind = kind := by
  cases v with
  | null => cases h; rfl
  | named => cases h
  | message m => cases m <;> cases h <;> exact ⟨_, rfl, rfl⟩
  | _ => cases h; exact ⟨_, rfl⟩

namespace Format

def uint32 (n : UInt32) : Format := word 4 n.toNat

def uint64 (n : UInt64) : Format := word 8 n.toNat

def int32 (n : Int32) : Format := uint32 n.toUInt32

def int64 (n : Int64) : Format := uint64 n.toUInt64

def double (x : Double) : Format := uint64 x.bits

/-- The number of the next large object, which is thereby announced. -/
def stream (kind : LobKind) : Format := fun announced bytes kinds =>
  announced < 2 ^ 16 ∧ bytes = Bytes.ofNat 2 announced ∧ kinds = [kind]

/-- A length that may be unknown: any negative one is. -/
def remoteLength (length : Option UInt64) : Format :=
  any fun n : Int64 => (int64 n).given (length = if n < 0 then none else some n.toUInt64)

/-- A timeout in milliseconds, which is none if it is zero. -/
def timeout (duration : Option Duration) : Format :=
  any fun n : UInt64 => (uint64 n).given
    (duration = if n.toNat = 0 then none else some (Duration.milliseconds n.toNat))

def reference (r : LobReference) : Format :=
  fields [text r.id, byte r.kind.code, remoteLength r.length]

def exceptionBody (e : ServerException) : Format :=
  fields [optional text e.className, optional text e.code, text e.message]

def handshakeBody (handshake : Handshake) : Format :=
  fields [byte handshake.version, text handshake.productVersion, byte handshake.authType.code]

def chunkBody (chunk : Chunk) : Format :=
  fields [lengthBytes chunk.data, boolean chunk.isLast]

def property (entry : String × String) : Format :=
  fields [text entry.1, text entry.2]

def logonRequestBody (request : LogonRequest) : Format :=
  fields [optional text request.user, optional text request.password,
    optional lengthBytes request.token, counted (request.properties.map property)]

def logonResultBody (result : LogonResult) : Format :=
  fields [text result.sessionId, text result.userName, optional lengthBytes result.continuation]

def column (column : Column) : Format :=
  fields [text column.name, shortText column.typeName]

variable (allowed : AllowList)

/-- A tag. A name of a registered kind stands for the kind, and any other must be permitted. -/
def tag : Tag → Format
  | .known kind => either (byte kind.code) (fields [byte Kind.byName, shortText kind.name])
  | .foreign name =>
    (fields [byte Kind.byName, shortText name]).given (allowed.resolve name = .ok none)

def exception (e : ServerException) : Format :=
  seq (tag allowed (.known .exception)) (exceptionBody e)

def optionalException : Option ServerException → Format
  | some e => exception allowed e
  | none => tag allowed (.known .null)

mutual

/-- What follows the tag of a value. A large object is announced without its content. -/
def body : Value → Format
  | .null => exactly []
  | .boolean b => boolean b
  | .integer n => int32 n
  | .long n => int64 n
  | .double x => double x
  | .string s => text s
  | .binary content => lengthBytes content
  | .list items => counted (each items)
  | .lob ⟨kind, content⟩ => (fields [byte kind.code, stream kind]).given (content = none)
  | .reference r => reference r
  | .message m => messageBody m
  | .named _ parts => counted (each parts)

def each : List Value → List Format
  | [] => []
  | v :: rest => seq (tag allowed v.tag) (body v) :: each rest

def rows : List Row → List Format
  | [] => []
  | row :: rest => counted (each row) :: rows rest

/-- What follows the tag of a message. -/
def messageBody : Message → Format
  | .handshake handshake => handshakeBody handshake
  | .invocation ⟨key, service, method, args⟩ =>
    fields [uint64 key, byte service.code, shortText method, counted (each args)]
  | .reply ⟨key, .ok v⟩ => fields [uint64 key, boolean false, seq (tag allowed v.tag) (body v)]
  | .reply ⟨key, .error e⟩ => fields [uint64 key, boolean true, exception allowed e]
  | .request ⟨executionId, sql, parameters, fetchSize, cursorType, rowLimit, queryTimeout⟩ =>
    fields [int64 executionId, text sql, counted (each parameters), uint32 fetchSize,
      byte cursorType.code, uint32 rowLimit, timeout queryTimeout]
  | .results ⟨firstRow, lastRow, finalRow, columns, cells, updateCount, warnings, failure⟩ =>
    fields [int64 firstRow, int64 lastRow, int64 finalRow, counted (columns.map column),
      counted (rows cells), optional int64 updateCount, counted (warnings.map text),
      optionalException allowed failure]
  | .chunk chunk => chunkBody chunk
  | .exception e => exceptionBody e
  | .logonRequest request => logonRequestBody request
  | .logonResult result => logonResultBody result

end

/-- A value behind its tag. -/
def value (v : Value) : Format :=
  seq (tag allowed v.tag) (body allowed v)

/-- A message behind its tag. -/
def message (m : Message) : Format :=
  seq (tag allowed (.known m.kind)) (messageBody allowed m)

theorem each_eq (items : List Value) : each allowed items = items.map (value allowed) := by
  induction items with
  | nil => rfl
  | cons v rest ih =>
    rw [each, ih]
    rfl

theorem rows_eq (cells : List Row) :
    rows allowed cells = cells.map fun row => counted (row.map (value allowed)) := by
  induction cells with
  | nil => rfl
  | cons row rest ih => rw [rows, ih, each_eq, List.map_cons]

theorem value_message (m : Message) : value allowed (.message m) = message allowed m := by
  unfold value message
  rw [Value.tag, body]

theorem solid_tag (t : Tag) : (tag allowed t).Solid := by
  cases t with
  | known kind => exact (solid_byte _).either ((solid_byte _).fields _)
  | foreign name => exact ((solid_byte _).fields _).given _

theorem solid_value (v : Value) : (value allowed v).Solid :=
  (solid_tag allowed _).seq _

theorem solid_column (c : Column) : (column c).Solid :=
  (solid_lengthBytes _).fields _

theorem solid_property (entry : String × String) : (property entry).Solid :=
  (solid_lengthBytes _).fields _

theorem solid_text (s : String) : (text s).Solid :=
  solid_lengthBytes _

end Format

end QueryClient
