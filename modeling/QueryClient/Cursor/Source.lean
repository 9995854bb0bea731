import QueryClient.Fault
import QueryClient.Value

/-!
# Where a cursor gets its batches

A source issues fetches and hands out their results. Issuing and waiting are two steps, so that a
fetch can be under way while rows at hand are read. Its state, and its handles on outstanding
fetches, are its own.
-/

namespace QueryClient.Cursor

/-- The server side of a cursor, as operations on the state `σ` with handles `H`. -/
structure BatchSource (σ H : Type) where
  /-- Issues a fetch of up to `count` rows from `start` on. -/
  request : (start count : Int) → σ → Except Fault H × σ
  /-- Waits for a fetch. After a timeout it is still outstanding, after anything else it is spent.
  -/
  wait : Duration → H → σ → Except Fault Results × H × σ
  /-- Gives up a fetch. -/
  abandon : H → σ → σ
  /-- Releases the result on the server. -/
  close : σ → Except Fault Unit × σ

end QueryClient.Cursor
