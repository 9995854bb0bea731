import QueryClient.Wire.Frame

/-!
# The handshake

Both sides say which version of the wire format they speak before anything else; the client goes on
only with its own version.
-/

namespace QueryClient.Handshake

/-- What this client says. -/
def client : Handshake where
  version := Frame.version
  productVersion := "0.1.0"
  authType := .userPassword

/-- Whether the other side speaks the version of this client. -/
def validate (handshake : Handshake) : Except Fault Unit :=
  if handshake.version = Frame.version then .ok ()
  else .error (.unsupportedVersion Frame.version handshake.version)

end QueryClient.Handshake
