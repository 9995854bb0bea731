/-!
# Kinds of large objects
-/

namespace QueryClient

inductive LobKind where
  | blob
  | clob
  | xml
deriving DecidableEq, Repr

namespace LobKind

def all : List LobKind := [.blob, .clob, .xml]

def code : LobKind → UInt8
  | .blob => 0
  | .clob => 1
  | .xml => 2

def isCharacter : LobKind → Bool
  | .blob => false
  | .clob | .xml => true

def name : LobKind → String
  | .blob => "Blob"
  | .clob => "Clob"
  | .xml => "Xml"

end LobKind

end QueryClient
