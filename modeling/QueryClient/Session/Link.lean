import QueryClient.Wire.Inflow

/-!
# The link to a server

A link carries bytes in both directions and knows the time. What is sent is on its way at once, for
as long as the link takes any. To receive is to let time pass: up to some moment, or less if
something comes in before.
-/

namespace QueryClient

/-- A moment, in nanoseconds after a first one. There is no last one. -/
abbrev Instant := Nat

/-- A connection, as operations on its state `σ`. -/
structure Link (σ : Type) where
  now : σ → Instant
  /-- Whether what is sent is still taken. -/
  accepts : σ → Bool
  send : Bytes → σ → σ
  /-- Lets time pass up to a moment, or to the first one before at which something has come in.
  Gives all that has come in by then and has not been given before, and how it goes on after that.
  -/
  await : Instant → σ → Inflow × σ
  /-- Ends the connection from this side. -/
  shutDown : σ → σ

namespace Link

/-- How often a wait of some length may look at the link. It looks no more than once for nothing at
one moment, and once for something. -/
def looks (length : Duration) : Nat :=
  2 * length.nanoseconds + 2

end Link

end QueryClient
