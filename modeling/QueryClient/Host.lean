import QueryClient.Fault
import QueryClient.Text.Blank

/-!
# Server addresses

An address is written as `host` or `host:port`. Blanks around it do not count, the last colon
separates the port, and without one the port is `Host.defaultPort`.
-/

namespace QueryClient

structure Host where
  name : String
  port : UInt16
deriving DecidableEq, Repr

namespace Host

/-- The port of a server that listens where it is expected. -/
def defaultPort : UInt16 := 31000

def text (host : Host) : String :=
  host.name ++ ":" ++ host.port.toNat.repr

/-- What stands before and after the last colon. -/
def splitLastColon (cs : List Char) : Option (List Char × List Char) :=
  match cs.reverse.span (· != ':') with
  | (_, []) => none
  | (after, _ :: before) => some (before.reverse, after.reverse)

/-- The number that decimal digits spell. -/
def decimal (digits : List Char) : Nat :=
  digits.foldl (fun n c => n * 10 + (c.toNat - '0'.toNat)) 0

/-- A port: decimal digits, which may follow a plus sign. -/
def port? (cs : List Char) : Option UInt16 :=
  let digits := match cs with
    | '+' :: digits => digits
    | digits => digits
  if digits.isEmpty || !digits.all Char.isDigit then none
  else if decimal digits < 0x10000 then some (UInt16.ofNat (decimal digits))
  else none

/-- The address that a text gives. -/
def parse (text : String) : Except Fault Host :=
  let cs := Text.trim text.toList
  let parts : Except Fault (List Char × UInt16) :=
    match splitLastColon cs with
    | none => .ok (cs, defaultPort)
    | some (name, port) =>
      match port? port with
      | some port => .ok (name, port)
      | none => .error (.configuration (.badPort (String.ofList cs)))
  match parts with
  | .error fault => .error fault
  | .ok ([], _) => .error (.configuration .missingHost)
  | .ok (name, port) => .ok ⟨String.ofList name, port⟩

end Host

end QueryClient
