import QueryClient.Message.Parts
import QueryClient.Text.Quoted
import QueryClient.Text.Record

/-!
# Credentials

What a client presents at logon. A description never shows the password, nor more of a token than
its length.
-/

namespace QueryClient

/-- What a client presents at logon. -/
structure Credentials where
  user : Option String
  password : Option String
  token : Option Bytes
  properties : List (String × String)
deriving DecidableEq, Repr

namespace Credentials

/-- A user name and a password. -/
def ofPassword (user password : String) : Credentials :=
  ⟨some user, some password, none, []⟩

/-- An exchange of tokens, the first of which is still to be made. -/
def negotiated : Credentials :=
  ⟨none, none, none, []⟩

/-- An exchange of tokens that starts with a given one. -/
def ofToken (token : Bytes) : Credentials :=
  ⟨none, none, some token, []⟩

/-- Whether the first token is still to be made. -/
def needsInitialToken (c : Credentials) : Bool :=
  c.password.isNone && c.token.isNone

/-- The credentials as they travel. -/
def request (c : Credentials) : LogonRequest :=
  ⟨c.user, c.password, c.token, c.properties⟩

/-- The credentials without their secrets. -/
def description (c : Credentials) : String :=
  Text.record "Credentials" [
    ("user", Text.optional (c.user.map Text.quoted)),
    ("password", Text.optional (c.password.map fun _ => Text.quoted "<redacted>")),
    ("token", Text.optional (c.token.map fun token => token.length.repr)),
    ("properties", Text.listed (c.properties.map fun (key, value) =>
      "(" ++ Text.quoted key ++ ", " ++ Text.quoted value ++ ")"))]

end Credentials

end QueryClient
