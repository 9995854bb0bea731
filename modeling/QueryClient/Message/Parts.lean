import QueryClient.Bytes
import QueryClient.Fault

/-!
# Parts of messages

The messages and the parts of messages that hold no values: the handshake, a piece of a large
object, the two halves of a logon, and the small enumerations with their codes on the wire.
-/

namespace QueryClient

/-- How a server wants clients to authenticate. -/
inductive AuthType where
  | userPassword
  | token
deriving DecidableEq, Repr

/-- How a cursor may move: only on, or to any row. -/
inductive CursorType where
  | forwardOnly
  | scrollable
deriving DecidableEq, Repr

/-- The part of the server that a call is for. -/
inductive Service where
  | logon
  | dqp
deriving DecidableEq, Repr

namespace AuthType

def all : List AuthType := [.userPassword, .token]

def code : AuthType → UInt8
  | .userPassword => 0
  | .token => 1

def ofCode (code : UInt8) : Except Fault AuthType :=
  match all.find? (·.code == code) with
  | some found => .ok found
  | none => .error (.protocol (.invalidAuthType code))

def name : AuthType → String
  | .userPassword => "UserPassword"
  | .token => "Token"

end AuthType

namespace CursorType

def all : List CursorType := [.forwardOnly, .scrollable]

def code : CursorType → UInt8
  | .forwardOnly => 0
  | .scrollable => 1

def ofCode (code : UInt8) : Except Fault CursorType :=
  match all.find? (·.code == code) with
  | some found => .ok found
  | none => .error (.protocol (.invalidCursorType code))

def name : CursorType → String
  | .forwardOnly => "ForwardOnly"
  | .scrollable => "Scrollable"

end CursorType

namespace Service

def all : List Service := [.logon, .dqp]

def code : Service → UInt8
  | .logon => 1
  | .dqp => 2

def ofCode (code : UInt8) : Except Fault Service :=
  match all.find? (·.code == code) with
  | some found => .ok found
  | none => .error (.protocol (.unknownService code))

def name : Service → String
  | .logon => "Logon"
  | .dqp => "Dqp"

/-- The name under which the server knows the service. -/
def wireName : Service → String
  | .logon => "logon"
  | .dqp => "dqp"

end Service

/-- The first message in either direction. -/
structure Handshake where
  version : UInt8
  productVersion : String
  authType : AuthType
deriving DecidableEq, Repr

structure Chunk where
  data : Bytes
  isLast : Bool
deriving DecidableEq, Repr

/-- What a client presents at logon. -/
structure LogonRequest where
  user : Option String
  password : Option String
  token : Option Bytes
  properties : List (String × String)
deriving DecidableEq, Repr

/-- The answer to one step of a logon; with a continuation the server asks for another token. -/
structure LogonResult where
  sessionId : String
  userName : String
  continuation : Option Bytes
deriving DecidableEq, Repr

structure Column where
  name : String
  typeName : String
deriving DecidableEq, Repr

end QueryClient
