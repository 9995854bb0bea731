import QueryClient.Double
import QueryClient.Fault

/-!
# Reading typed data from bytes

A reader stands between the bytes already taken and the rest. A read of fixed width takes all of its
bytes or none; a length-prefixed read takes its length first, and stays behind it when the content
is not all there.
-/

namespace QueryClient

/-- A place in some bytes: what follows it, and how many bytes lie before it. -/
structure Reader where
  rest : Bytes
  pos : Nat
deriving Repr

/-- An operation that reads; a failed one leaves the reader where it got to. -/
abbrev Read (α : Type) := ExceptT Fault (StateM Reader) α

namespace Reader

def ofBytes (bytes : Bytes) : Reader := ⟨bytes, 0⟩

def remaining (r : Reader) : Nat :=
  r.rest.length

def take (n : Nat) : Read Bytes := do
  let r ← get
  if r.rest.holds n then
    set (Reader.mk (r.rest.drop n) (r.pos + n))
    return r.rest.take n
  else
    throw (.bufferUnderflow n r.remaining)

def skip (n : Nat) : Read Unit := do
  let _ ← take n

def word (width : Nat) : Read Nat := do
  return (← take width).toNat

def uint8 : Read UInt8 := do
  return UInt8.ofNat (← word 1)

def uint16 : Read UInt16 := do
  return UInt16.ofNat (← word 2)

def uint32 : Read UInt32 := do
  return UInt32.ofNat (← word 4)

def uint64 : Read UInt64 := do
  return UInt64.ofNat (← word 8)

def int32 : Read Int32 := do
  return (← uint32).toInt32

def int64 : Read Int64 := do
  return (← uint64).toInt64

def double : Read Double := do
  return ⟨← uint64⟩

/-- A truth value, written as one byte. -/
def boolean : Read Bool := do
  match ← uint8 with
  | 0 => return false
  | 1 => return true
  | byte => throw (.protocol (.invalidBoolean byte))

/-- Bytes behind their four-byte length. -/
def bytes : Read Bytes := do
  take (← uint32).toNat

/-- The text that the bytes spell. -/
def textOf (content : Bytes) : Read String :=
  match Utf8.decode content with
  | .ok text => return text
  | .error defect => throw (.protocol (.invalidText defect))

/-- A text behind its four-byte length. -/
def string : Read String := do
  textOf (← bytes)

/-- A text behind its two-byte length. -/
def shortString : Read String := do
  textOf (← take (← uint16).toNat)

/-- A value behind a truth value that says whether it is there. -/
def optional (read : Read α) : Read (Option α) := do
  if ← boolean then
    return some (← read)
  else
    return none

/-- Reads `n` times, in order. -/
def times (read : Read α) : (n : Nat) → (before : List α) → Read (List α)
  | 0, before => return before.reverse
  | n + 1, before => do
    let a ← read
    times read n (a :: before)

end Reader

end QueryClient
