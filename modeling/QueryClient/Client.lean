import QueryClient.Cursor.Moves
import QueryClient.Cursor.Script
import QueryClient.Cursor.Walk
import QueryClient.Engine.Server
import QueryClient.Lob.Script
import QueryClient.Session.Connecting
import QueryClient.Session.Logon
import QueryClient.Session.ResultSet
import QueryClient.Value.Same
import QueryClient.Wire.Outflow

/-!
# The client

Everything that runs, without the theory: the wire format, cursors and streamers with scripted
sources, and sessions with an engine in memory to talk to.
-/
