import QueryClient.Duration
import QueryClient.Lob.Kind
import QueryClient.ServerException
import QueryClient.Text.Quoted
import QueryClient.Text.Utf8

/-!
# What can go wrong

A fault is the cause of a failed operation. Its class says who has to act on it, its code is stable
for programs, and its message is for people. The free-worded causes (`stated`) carry a text that was
fixed elsewhere.
-/

namespace QueryClient

/-- How the bytes or the replies of a peer break the protocol. -/
inductive Violation where
  | emptyFrame
  | trailingBody (count : Nat)
  | trailingStreams (count : Nat)
  | nestingTooDeep
  | streamOutOfOrder (index expected : Nat)
  | invalidBoolean (byte : UInt8)
  | invalidLobKind (byte : UInt8)
  | invalidAuthType (byte : UInt8)
  | invalidCursorType (byte : UInt8)
  | unknownService (byte : UInt8)
  | invalidText (defect : Utf8.Defect)
  | nameTooLong (length : Nat)
  | bytesTooLong (length : Nat)
  | tooManyStreams
  | contentNotRead
  | replyConsumed (method : String)
  | noRowsFor (row : Int)
  | finalRowUnreported
  | stated (text : String)
deriving DecidableEq, Repr

/-- How a cursor was misused. -/
inductive Misstep where
  | needsScrolling (operation : String)
  | rowGone (row : Int)
  | rowZero
  | noRowToCountFrom
  | stated (text : String)
deriving DecidableEq, Repr

/-- Which setting cannot be used. -/
inductive Misconfiguration where
  | missingHost
  | badPort (address : String)
  | noFetchSize
  | noSavedBatches
  | smallObjectSize (least : Nat)
  | zeroTimeout
  | missingTls
  | noUser
  | stated (text : String)
deriving DecidableEq, Repr

/-- Why a logon failed. -/
inductive Refusal where
  | nothingToPresent
  | noNegotiator
  | tooManyRounds (limit : Nat)
  | byServer (e : ServerException)
  | stated (text : String)
deriving DecidableEq, Repr

/-- Why a value cannot be taken for what was asked. -/
inductive Mismatch where
  | notCharacters (kind : LobKind)
  | leadByte (byte : UInt8)
  | cutCharacter
  | badCharacter
  | invalidText (defect : Utf8.Defect)
  | notLob (column : Nat) (typeName : String)
  | stated (text : String)
deriving DecidableEq, Repr

/-- The cause of a failed operation. -/
inductive Fault where
  | unsupportedVersion (expected actual : UInt8)
  | unknownTypeCode (code : UInt8)
  | disallowedType (name : String)
  | frameTooLarge (size max : Nat)
  | bufferUnderflow (needed available : Nat)
  | bufferOverflow (needed available : Nat)
  | malformedBatch (first last : Int64) (rows : Nat)
  | unexpectedMessage (expected actual : String)
  | protocol (violation : Violation)
  | io (text : String)
  | connectionLost (reason : String)
  | connectionTimeout (timeout : Duration)
  | tls (text : String)
  | timeout (method : String) (timeout : Duration)
  | remote (e : ServerException)
  | illegalNavigation (misstep : Misstep)
  | noCurrentRow
  | columnOutOfRange (index count : Nat)
  | sessionClosed
  | cursorClosed
  | streamClosed
  | configuration (cause : Misconfiguration)
  | authentication (cause : Refusal)
  | conversion (cause : Mismatch)
deriving DecidableEq, Repr

/-- Who has to act on a fault. -/
inductive FaultClass where
  | protocolCorruption
  | timeout
  | remoteFailure
  | illegalNavigation
  | resourceClosed
  | io
  | configuration
  | authentication
  | dataConversion
deriving DecidableEq, Repr

def Violation.message : Violation → String
  | .emptyFrame => "empty frame"
  | .trailingBody count => s!"{count} trailing bytes after frame body"
  | .trailingStreams count => s!"{count} trailing bytes after frame streams"
  | .nestingTooDeep => "value nesting too deep"
  | .streamOutOfOrder index expected =>
    s!"stream reference {index} out of order (expected {expected})"
  | .invalidBoolean byte => s!"invalid boolean byte {byte}"
  | .invalidLobKind byte => s!"invalid LOB kind {byte}"
  | .invalidAuthType byte => s!"invalid auth type {byte}"
  | .invalidCursorType byte => s!"invalid cursor type {byte}"
  | .unknownService byte => s!"unknown service id {byte}"
  | .invalidText defect => s!"invalid UTF-8 string: {defect.message}"
  | .nameTooLong length => s!"name of {length} bytes too long"
  | .bytesTooLong length => s!"byte string of {length} bytes too long"
  | .tooManyStreams => "too many streams in one frame"
  | .contentNotRead => "stream content not yet read from transport"
  | .replyConsumed method => s!"reply to {method} already consumed"
  | .noRowsFor row => s!"server returned no rows for row {row}"
  | .finalRowUnreported => "server never reported the final row"
  | .stated text => text

def Misstep.message : Misstep → String
  | .needsScrolling operation => s!"{operation} is not allowed on a forward-only cursor"
  | .rowGone row => s!"row {row} is no longer available on a forward-only cursor"
  | .rowZero => "absolute(0) does not address a row"
  | .noRowToCountFrom => "relative() requires a current row"
  | .stated text => text

def Misconfiguration.message : Misconfiguration → String
  | .missingHost => "missing host"
  | .badPort address => s!"invalid port in {Text.quoted address}"
  | .noFetchSize => "fetch size must be positive"
  | .noSavedBatches => "saved batches must be at least 1"
  | .smallObjectSize least => s!"max object size must be at least {least} bytes"
  | .zeroTimeout => "timeouts must be non-zero"
  | .missingTls => "TLS required but no TLS configuration set"
  | .noUser => "no user name configured for logon"
  | .stated text => text

def Refusal.message : Refusal → String
  | .nothingToPresent => "no password, token or negotiator given"
  | .noNegotiator => "server requested a token exchange but no negotiator is configured"
  | .tooManyRounds limit => s!"token exchange did not finish after {limit} rounds"
  | .byServer e => e.text
  | .stated text => text

def Mismatch.message : Mismatch → String
  | .notCharacters kind => s!"{kind.name} content is not character data"
  | .leadByte byte => s!"invalid UTF-8 lead byte 0x{Text.hexByte byte}"
  | .cutCharacter => "stream ended inside a UTF-8 sequence"
  | .badCharacter => "invalid UTF-8 sequence"
  | .invalidText defect => defect.message
  | .notLob column typeName => s!"column {column} holds {typeName}, not a LOB reference"
  | .stated text => text

namespace Fault

def message : Fault → String
  | .unsupportedVersion expected actual =>
    s!"stream corrupted: unsupported wire version {actual} (expected {expected})"
  | .unknownTypeCode code => s!"stream corrupted: unknown type code {code}"
  | .disallowedType name => s!"stream corrupted: type name {Text.quoted name} is not allowed"
  | .frameTooLarge size max => s!"stream corrupted: frame of {size} bytes exceeds maximum of {max}"
  | .bufferUnderflow needed available =>
    s!"buffer underflow: need {needed} bytes but only {available} available"
  | .bufferOverflow needed available =>
    s!"buffer overflow: need {needed} bytes but only {available} available"
  | .malformedBatch first last rows =>
    s!"malformed batch: rows {first}..={last} but {rows} rows present"
  | .unexpectedMessage expected actual => s!"unexpected message: expected {expected}, got {actual}"
  | .protocol violation => s!"protocol error: {violation.message}"
  | .io text => s!"I/O error: {text}"
  | .connectionLost reason => s!"connection lost: {reason}"
  | .connectionTimeout elapsed => s!"connection timeout after {elapsed.text}"
  | .tls text => s!"TLS error: {text}"
  | .timeout method elapsed => s!"{method} timed out after {elapsed.text}"
  | .remote e => e.text
  | .illegalNavigation misstep => s!"illegal navigation: {misstep.message}"
  | .noCurrentRow => "cursor is not positioned on a row"
  | .columnOutOfRange index count => s!"column index {index} out of range (row has {count} columns)"
  | .sessionClosed => "session is closed"
  | .cursorClosed => "cursor is closed"
  | .streamClosed => "stream closed"
  | .configuration cause => s!"invalid configuration: {cause.message}"
  | .authentication cause => s!"authentication failed: {cause.message}"
  | .conversion cause => s!"data conversion error: {cause.message}"

def classOf : Fault → FaultClass
  | .unsupportedVersion .. | .unknownTypeCode _ | .disallowedType _ | .frameTooLarge ..
  | .bufferUnderflow .. | .bufferOverflow .. | .malformedBatch .. | .unexpectedMessage ..
  | .protocol _ => .protocolCorruption
  | .io _ | .connectionLost _ | .connectionTimeout _ => .io
  | .timeout .. => .timeout
  | .remote _ => .remoteFailure
  | .illegalNavigation _ | .noCurrentRow | .columnOutOfRange .. => .illegalNavigation
  | .sessionClosed | .cursorClosed | .streamClosed => .resourceClosed
  | .configuration _ | .tls _ => .configuration
  | .authentication _ => .authentication
  | .conversion _ => .dataConversion

/-- The stable code of the fault. -/
def code : Fault → String
  | .unsupportedVersion .. => "FQ-PROTO-VERSION"
  | .unknownTypeCode _ => "FQ-PROTO-TYPE"
  | .disallowedType _ => "FQ-PROTO-DISALLOWED"
  | .frameTooLarge .. => "FQ-PROTO-SIZE"
  | .bufferUnderflow .. => "FQ-PROTO-TRUNCATED"
  | .bufferOverflow .. => "FQ-PROTO-OVERFLOW"
  | .malformedBatch .. => "FQ-PROTO-BATCH"
  | .unexpectedMessage .. => "FQ-PROTO-UNEXPECTED"
  | .protocol _ => "FQ-PROTO"
  | .conversion _ => "FQ-DATA"
  | .io _ => "FQ-IO"
  | .connectionLost _ => "FQ-IO-LOST"
  | .connectionTimeout _ => "FQ-IO-CONNECT-TIMEOUT"
  | .tls _ => "FQ-CONFIG-TLS"
  | .timeout .. => "FQ-TIMEOUT"
  | .remote _ => "FQ-REMOTE"
  | .illegalNavigation _ => "FQ-NAV"
  | .noCurrentRow => "FQ-NAV-NO-ROW"
  | .columnOutOfRange .. => "FQ-NAV-COLUMN"
  | .sessionClosed => "FQ-CLOSED-SESSION"
  | .cursorClosed => "FQ-CLOSED-CURSOR"
  | .streamClosed => "FQ-CLOSED-STREAM"
  | .configuration _ => "FQ-CONFIG"
  | .authentication _ => "FQ-AUTH"

/-- Whether the session cannot go on after the fault. -/
def isFatal (fault : Fault) : Bool :=
  fault.classOf = .protocolCorruption || fault.classOf = .io

/-- Whether a call only ran past its deadline, so that it may be waited for again. -/
def isTimeout : Fault → Bool
  | .timeout .. => true
  | _ => false

/-- The exception of the server, if the fault reports one. -/
def exception? : Fault → Option ServerException
  | .remote e => some e
  | _ => none

end Fault

def FaultClass.name : FaultClass → String
  | .protocolCorruption => "ProtocolCorruption"
  | .timeout => "Timeout"
  | .remoteFailure => "RemoteFailure"
  | .illegalNavigation => "IllegalNavigation"
  | .resourceClosed => "ResourceClosed"
  | .io => "Io"
  | .configuration => "Configuration"
  | .authentication => "Authentication"
  | .dataConversion => "DataConversion"

end QueryClient
