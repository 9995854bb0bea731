import QueryClient.Client
import QueryClient.Proofs.Cursor.Residency
import QueryClient.Proofs.Cursor.Span
import QueryClient.Proofs.Attempt
import QueryClient.Proofs.Cursor.Ledger
import QueryClient.Proofs.Cursor.Steps
import QueryClient.Proofs.Cursor.Calls
import QueryClient.Proofs.Cursor.Discipline
import QueryClient.Proofs.Cursor.Atomicity
import QueryClient.Proofs.Cursor.ListCursor
import QueryClient.Proofs.Cursor.Mirror
import QueryClient.Proofs.Cursor.Progress
import QueryClient.Proofs.Cursor.Refinement
import QueryClient.Proofs.Cursor.Tail
import QueryClient.Proofs.Cursor.Scan
import QueryClient.Proofs.Cursor.Endless
import QueryClient.Proofs.Cursor.ForwardOnly
import QueryClient.Proofs.Cursor.Retention
import QueryClient.Proofs.Cursor.Stickiness
import QueryClient.Proofs.Cursor.Errands
import QueryClient.Proofs.Cursor.Standing
import QueryClient.Proofs.Cursor.Load
import QueryClient.Proofs.Cursor.Growth
import QueryClient.Proofs.Bytes
import QueryClient.Proofs.Text.Utf8
import QueryClient.Proofs.Value
import QueryClient.Proofs.Wire.Format
import QueryClient.Proofs.Wire.Grammar
import QueryClient.Proofs.Wire.Operation
import QueryClient.Proofs.Wire.Reading
import QueryClient.Proofs.Wire.Primitives
import QueryClient.Proofs.Wire.Decoding
import QueryClient.Proofs.Wire.Nesting
import QueryClient.Proofs.Wire.Delivery
import QueryClient.Proofs.Wire.Encoding
import QueryClient.Proofs.Wire.Writing
import QueryClient.Proofs.Wire.Appendix
import QueryClient.Proofs.Wire.RoundTrip
import QueryClient.Proofs.Session.Table
import QueryClient.Proofs.Session.Demultiplexing
import QueryClient.Proofs.Session.History
import QueryClient.Proofs.Session.Entries
import QueryClient.Proofs.Session.Failures
import QueryClient.Proofs.Session.Accounting
import QueryClient.Proofs.Session.Fetching
import QueryClient.Proofs.Session.Fatality
import QueryClient.Proofs.Lob.Ledger
import QueryClient.Proofs.Lob.Streaming
import QueryClient.Proofs.Lob.Reads
import QueryClient.Proofs.Lob.Spending
import QueryClient.Proofs.Lob.Resumption
import QueryClient.Proofs.Lob.Handles
import QueryClient.Proofs.Wire.Filling
import QueryClient.Proofs.Wire.Reencoding
import QueryClient.Proofs.Wire.Faults
import QueryClient.Proofs.Wire.Encounter
import QueryClient.Proofs.Wire.Refusing
import QueryClient.Proofs.Wire.AllowList
import QueryClient.Proofs.Wire.Framing
import QueryClient.Proofs.Wire.Inflow
import QueryClient.Proofs.Wire.Retagging
import QueryClient.Proofs.Wire.Unmistakable
import QueryClient.Proofs.Wire.Arrival
import QueryClient.Proofs.Wire.Acceptance
import QueryClient.Proofs.Wire.Room
import QueryClient.Proofs.Session.Sending
import QueryClient.Proofs.Session.Turns
import QueryClient.Proofs.Session.Streams
import QueryClient.Proofs.Session.Releases
import QueryClient.Proofs.Session.Seats
import QueryClient.Proofs.Session.Closes
import QueryClient.Proofs.Session.Interleaving
import QueryClient.Proofs.Session.Solo
import QueryClient.Proofs.Session.Deeds
import QueryClient.Proofs.Session.Orderly
import QueryClient.Proofs.Cursor.PastEnd
import QueryClient.Proofs.Cursor.Straying
import QueryClient.Proofs.Cursor.Sums
import QueryClient.Proofs.Cursor.Range
import QueryClient.Proofs.Cursor.Searches
import QueryClient.Proofs.Session.Marking
import QueryClient.Proofs.Session.Survivors
import QueryClient.Proofs.Cursor.Foresight
import QueryClient.Proofs.Text.Legible
import QueryClient.Proofs.Lob.Characters
import QueryClient.Proofs.Session.Logon
import QueryClient.Proofs.Wire.Draining
import QueryClient.Proofs.Session.Traffic
import QueryClient.Proofs.Engine.Timekeeping
import QueryClient.Proofs.Session.Patience
import QueryClient.Proofs.Wire.Advancing
import QueryClient.Proofs.Wire.Severing
import QueryClient.Proofs.Wire.Tally
import QueryClient.Proofs.Wire.Extent
import QueryClient.Proofs.Cursor.Coverage
import QueryClient.Proofs.Cursor.Eviction
import QueryClient.Proofs.Host
import QueryClient.Proofs.Wire.Cutting
import QueryClient.Proofs.Wire.Fields
