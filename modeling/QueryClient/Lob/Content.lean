import QueryClient.Bytes
import QueryClient.Fault
import QueryClient.Lob.Kind
import QueryClient.Text.Record

/-!
# Large objects and references to them

A large object in a message is only announced in the body; its content follows the body and is bound
to it when the whole frame has been read. A reference names an object that stays on the server until
it is streamed.
-/

namespace QueryClient

/-- A large object: its kind, and its content once that has been read. -/
structure Lob where
  kind : LobKind
  content : Option Bytes
deriving DecidableEq, Repr

/-- A large object kept by the server, with its length if the server knows it. -/
structure LobReference where
  id : String
  kind : LobKind
  length : Option UInt64
deriving DecidableEq, Repr

def LobKind.ofCode (code : UInt8) : Except Fault LobKind :=
  match LobKind.all.find? (·.code == code) with
  | some kind => .ok kind
  | none => .error (.protocol (.invalidLobKind code))

namespace Lob

/-- The content, if it has been read. -/
def bytes (lob : Lob) : Except Fault Bytes :=
  match lob.content with
  | some content => .ok content
  | none => .error (.protocol .contentNotRead)

def text (lob : Lob) : Except Fault String :=
  match lob.bytes with
  | .error fault => .error fault
  | .ok content => (Utf8.decode content).mapError fun defect => .conversion (.invalidText defect)

def length? (lob : Lob) : Option Nat :=
  lob.content.map List.length

/-- The object without its content. -/
def description (lob : Lob) : String :=
  Text.record "LobValue"
    [("kind", lob.kind.name), ("len", Text.optional (lob.length?.map Nat.repr))]

end Lob

end QueryClient
