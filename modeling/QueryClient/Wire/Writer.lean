import QueryClient.Double
import QueryClient.Fault

/-!
# Writing typed data to bytes

A writer grows at its end and, if it has a limit, never past it. A write of several parts that fails
leaves the parts that fitted.
-/

namespace QueryClient

/-- The bytes written so far, and how many there may be. -/
structure Writer where
  written : Array UInt8
  limit : Option Nat
deriving Repr

/-- An operation that writes; a failed one leaves what it has written. -/
abbrev Write (α : Type) := ExceptT Fault (StateM Writer) α

namespace Writer

def empty (limit : Option Nat) : Writer := ⟨#[], limit⟩

def bytes (w : Writer) : Bytes :=
  w.written.toList

/-- Whether `n` more bytes would pass the limit. -/
def isFullFor (limit : Option Nat) (size n : Nat) : Bool :=
  match limit with
  | some max => max < size + n
  | none => false

/-- Writes bytes as they are, all of them or none. -/
def put (content : Bytes) : Write Unit := fun ⟨written, limit⟩ =>
  let n := content.length
  if isFullFor limit written.size n then
    (.error (.bufferOverflow n (limit.getD 0 - written.size)), ⟨written, limit⟩)
  else
    (.ok (), ⟨written ++ content, limit⟩)

def word (width n : Nat) : Write Unit :=
  put (Bytes.ofNat width n)

def uint8 (n : UInt8) : Write Unit := word 1 n.toNat

def uint16 (n : UInt16) : Write Unit := word 2 n.toNat

def uint32 (n : UInt32) : Write Unit := word 4 n.toNat

def uint64 (n : UInt64) : Write Unit := word 8 n.toNat

def int32 (n : Int32) : Write Unit := uint32 n.toUInt32

def int64 (n : Int64) : Write Unit := uint64 n.toUInt64

def double (x : Double) : Write Unit := uint64 x.bits

/-- A truth value as one byte. -/
def boolean (b : Bool) : Write Unit :=
  uint8 (if b then 1 else 0)

/-- Bytes behind their four-byte length. -/
def lengthBytes (content : Bytes) : Write Unit := do
  if content.length < 0x100000000 then
    word 4 content.length
    put content
  else
    throw (.protocol (.bytesTooLong content.length))

/-- A text behind its four-byte length. -/
def string (text : String) : Write Unit :=
  lengthBytes (Utf8.encode text)

/-- A text behind its two-byte length, which it must not outgrow. -/
def shortString (text : String) : Write Unit := do
  let content := Utf8.encode text
  if content.length < 0x10000 then
    word 2 content.length
    put content
  else
    throw (.protocol (.nameTooLong content.length))

/-- A value behind a truth value that says whether it is there. -/
def optional (write : α → Write Unit) : Option α → Write Unit
  | some a => do
    boolean true
    write a
  | none => boolean false

end Writer

end QueryClient
