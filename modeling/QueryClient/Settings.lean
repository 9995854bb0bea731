import QueryClient.Credentials
import QueryClient.Host
import QueryClient.Wire.Frame

/-!
# Settings

Where to connect, how to secure the connection, and the timeouts and sizes that a session and its
cursors run with.
-/

namespace QueryClient

/-- The files and names of a secured connection. -/
structure Tls where
  sniName : Option String
  trustAnchors : Option String
  /-- The chain of certificates and the key that the client presents. -/
  identity : Option (String × String)
deriving DecidableEq, Repr

/-- The public roots, and no identity of the client. -/
def Tls.standard : Tls := ⟨none, none, none⟩

/-- What a session runs with. -/
structure Settings where
  host : Host
  failoverHosts : List Host
  username : Option String
  password : Option String
  properties : List (String × String)
  tlsRequired : Bool
  tls : Option Tls
  connectTimeout : Duration
  /-- How long a wait sleeps before it looks at its deadline again. -/
  socketTimeout : Duration
  callTimeout : Duration
  fetchSize : UInt32
  maxObjectSize : Nat
  savedBatches : Nat
  prefetch : Bool
  tagsByCode : Bool
  allowed : AllowList
deriving DecidableEq, Repr

namespace Settings

/-- The smallest limit on the size of frames. -/
def leastObjectSize : Nat := 1024

/-- The settings for one server, everything else being standard. -/
def ofHost (host : Host) : Settings where
  host := host
  failoverHosts := []
  username := none
  password := none
  properties := []
  tlsRequired := false
  tls := none
  connectTimeout := Duration.seconds 10
  socketTimeout := Duration.seconds 1
  callTimeout := Duration.seconds 60
  fetchSize := 2048
  maxObjectSize := Frame.defaultMax
  savedBatches := 3
  prefetch := true
  tagsByCode := true
  allowed := AllowList.empty

/-- The settings for a server on the same machine. -/
def standard : Settings :=
  ofHost ⟨"localhost", Host.defaultPort⟩

def withTls (s : Settings) (tls : Tls) : Settings :=
  { s with tls := some tls, tlsRequired := true }

/-- The servers, the main one first. -/
def hosts (s : Settings) : List Host :=
  s.host :: s.failoverHosts

def encoding (s : Settings) : Frame.Options :=
  ⟨s.tagsByCode, s.maxObjectSize⟩

/-- The credentials that the settings hold, if they name a user. -/
def credentials (s : Settings) : Option Credentials :=
  s.username.map fun user =>
    { Credentials.ofPassword user (s.password.getD "") with properties := s.properties }

/-- Whether a session can run with the settings; the first fault wins. -/
def validate (s : Settings) : Except Fault Unit :=
  if s.host.name = "" then .error (.configuration .missingHost)
  else if s.fetchSize = 0 then .error (.configuration .noFetchSize)
  else if s.savedBatches = 0 then .error (.configuration .noSavedBatches)
  else if s.maxObjectSize < leastObjectSize then
    .error (.configuration (.smallObjectSize leastObjectSize))
  else if s.socketTimeout.isZero || s.callTimeout.isZero then .error (.configuration .zeroTimeout)
  else if s.tlsRequired && s.tls.isNone then .error (.configuration .missingTls)
  else .ok ()

end Settings

end QueryClient
