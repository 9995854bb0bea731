import QueryClient.Settings

/-!
# Cursor options
-/

namespace QueryClient.Cursor

/-- How a cursor moves and fetches. -/
structure Options where
  cursorType : CursorType
  fetchSize : UInt32
  /-- The deadline of one fetch. -/
  timeout : Duration
  /-- Whether to fetch ahead of demand. -/
  prefetch : Bool
  /-- How many batches a scrollable cursor keeps. -/
  savedBatches : Nat
deriving DecidableEq, Repr

namespace Options

/-- The options that follow from the settings of a session. -/
def ofSettings (settings : Settings) (cursorType : CursorType) : Options where
  cursorType := cursorType
  fetchSize := settings.fetchSize
  timeout := settings.callTimeout
  prefetch := settings.prefetch
  savedBatches := settings.savedBatches

/-- The options of a cursor that only moves on, everything else being standard. -/
def standard : Options :=
  ofSettings Settings.standard .forwardOnly

def description (o : Options) : String :=
  Text.record "CursorOptions" [
    ("cursor_type", o.cursorType.name),
    ("fetch_size", o.fetchSize.toNat.repr),
    ("timeout", o.timeout.text),
    ("prefetch", Text.truth o.prefetch),
    ("saved_batches", o.savedBatches.repr)]

end Options

end QueryClient.Cursor
