import QueryClient.Bytes

/-!
# Hexadecimal text

Numbers and bytes in lower-case hexadecimal. Bytes are read back in either case.
-/

namespace QueryClient.Text

/-- The digits of `n` in the base, lowest first, `fuel` of them at most. -/
private def digitsUpTo : (fuel : Nat) → (base n : Nat) → List Nat
  | 0, _, _ => []
  | fuel + 1, base, n =>
    if n < base then [n] else n % base :: digitsUpTo fuel base (n / base)

private def hexDigit (n : Nat) : Char :=
  if n < 10 then Char.ofNat (0x30 + n) else Char.ofNat (0x61 + (n - 10))

/-- A number in lower-case hexadecimal, without leading zeros. -/
def hex (n : Nat) : String :=
  String.ofList ((digitsUpTo (n + 1) 16 n).reverse.map hexDigit)

/-- A byte as two hexadecimal digits. -/
def hexByte (byte : UInt8) : String :=
  String.ofList [hexDigit (byte.toNat / 16), hexDigit (byte.toNat % 16)]

/-- Bytes as two hexadecimal digits each. -/
def hexBytes (bytes : Bytes) : String :=
  String.join (bytes.map hexByte)

/-- The value of a hexadecimal digit in either case. -/
def hexValue? (c : Char) : Option Nat :=
  "0123456789abcdef".toList.idxOf? c.toLower

/-- The bytes that pairs of hexadecimal digits spell; `before` holds those already read, the last
one first. -/
def ofHexPairs? (before : Bytes) : List Char → Option Bytes
  | [] => some before.reverse
  | [_] => none
  | a :: b :: rest =>
    match hexValue? a, hexValue? b with
    | some high, some low => ofHexPairs? (UInt8.ofNat (high * 16 + low) :: before) rest
    | _, _ => none

/-- The bytes that a hexadecimal text spells. -/
def ofHex? (text : String) : Option Bytes :=
  ofHexPairs? [] text.toList

end QueryClient.Text
