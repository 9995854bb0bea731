import QueryClient.Bytes

/-!
# UTF-8

Text travels as UTF-8. Writing is `encode`; reading is strict: overlong forms, surrogates, numbers
past the last code point and stray bytes are refused, and a refusal says where the text stops being
readable and why.
-/

namespace QueryClient.Utf8

/-- Where text stops being readable: the bytes before `index` are whole characters. `length` counts
the bytes that cannot begin a character, and is absent when the content ends inside one. -/
structure Defect where
  index : Nat
  length : Option Nat
deriving DecidableEq, Repr

def encodeChar (c : Char) : Bytes :=
  let n := c.toNat
  if n < 0x80 then [UInt8.ofNat n]
  else if n < 0x800 then [UInt8.ofNat (0xC0 + n / 64), UInt8.ofNat (0x80 + n % 64)]
  else if n < 0x10000 then
    [UInt8.ofNat (0xE0 + n / 4096), UInt8.ofNat (0x80 + n / 64 % 64), UInt8.ofNat (0x80 + n % 64)]
  else
    [UInt8.ofNat (0xF0 + n / 262144), UInt8.ofNat (0x80 + n / 4096 % 64),
      UInt8.ofNat (0x80 + n / 64 % 64), UInt8.ofNat (0x80 + n % 64)]

def encode (text : String) : Bytes :=
  text.toList.flatMap encodeChar

def size (text : String) : Nat :=
  (encode text).length

/-- What the front of some content is: a character and the number of bytes it has beyond its first,
bytes that begin no character, or a character that the content cuts short. -/
inductive Front where
  | char (c : Char) (extra : Nat)
  | invalid (length : Nat)
  | cut
deriving DecidableEq, Repr

/-- Whether a byte may follow the lead byte of a character. -/
def isContinuation (byte : UInt8) : Bool :=
  0x80 ≤ byte.toNat && byte.toNat ≤ 0xBF

/-- Whether `byte` may stand second behind `lead`. The narrower ranges keep out overlong forms,
surrogates and numbers past the last code point. -/
def isSecond (lead byte : UInt8) : Bool :=
  let b := byte.toNat
  match lead.toNat with
  | 0xE0 => 0xA0 ≤ b && b ≤ 0xBF
  | 0xED => 0x80 ≤ b && b ≤ 0x9F
  | 0xF0 => 0x90 ≤ b && b ≤ 0xBF
  | 0xF4 => 0x80 ≤ b && b ≤ 0x8F
  | _ => isContinuation byte

/-- How many bytes a character has that begins with `lead`, if one does. -/
def width (lead : UInt8) : Option Nat :=
  let b := lead.toNat
  if b < 0x80 then some 1
  else if 0xC2 ≤ b && b ≤ 0xDF then some 2
  else if 0xE0 ≤ b && b ≤ 0xEF then some 3
  else if 0xF0 ≤ b && b ≤ 0xF4 then some 4
  else none

/-- Reads the front of `lead :: rest`. -/
def front (lead : UInt8) (rest : Bytes) : Front :=
  match width lead with
  | none => .invalid 1
  | some 1 => .char (Char.ofNat lead.toNat) 0
  | some 2 =>
    match rest with
    | [] => .cut
    | b :: _ =>
      if isContinuation b then .char (Char.ofNat ((lead.toNat - 0xC0) * 64 + (b.toNat - 0x80))) 1
      else .invalid 1
  | some 3 =>
    match rest with
    | [] => .cut
    | b :: rest =>
      if !isSecond lead b then .invalid 1
      else match rest with
        | [] => .cut
        | c :: _ =>
          if isContinuation c then
            .char (Char.ofNat ((lead.toNat - 0xE0) * 4096 + (b.toNat - 0x80) * 64
              + (c.toNat - 0x80))) 2
          else .invalid 2
  | some _ =>
    match rest with
    | [] => .cut
    | b :: rest =>
      if !isSecond lead b then .invalid 1
      else match rest with
        | [] => .cut
        | c :: rest =>
          if !isContinuation c then .invalid 2
          else match rest with
            | [] => .cut
            | d :: _ =>
              if isContinuation d then
                .char (Char.ofNat ((lead.toNat - 0xF0) * 262144 + (b.toNat - 0x80) * 4096
                  + (c.toNat - 0x80) * 64 + (d.toNat - 0x80))) 3
              else .invalid 3

/-- Reads characters from the front on; `index` bytes were read before. -/
def scan (index : Nat) (read : List Char) (bytes : Bytes) : Except Defect (List Char) :=
  match bytes with
  | [] => .ok read.reverse
  | lead :: rest =>
    match front lead rest with
    | .char c extra => scan (index + 1 + extra) (c :: read) (rest.drop extra)
    | .invalid length => .error ⟨index, some length⟩
    | .cut => .error ⟨index, none⟩
termination_by bytes.length
decreasing_by
  simp only [List.length_drop, List.length_cons]
  omega

/-- The text that the bytes spell. -/
def decode (bytes : Bytes) : Except Defect String :=
  (scan 0 [] bytes).map String.ofList

def Defect.message (defect : Defect) : String :=
  match defect.length with
  | some length => s!"invalid utf-8 sequence of {length} bytes from index {defect.index}"
  | none => s!"incomplete utf-8 byte sequence from index {defect.index}"

end QueryClient.Utf8
