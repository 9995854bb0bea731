import QueryClient.Wire.Appendix
import QueryClient.Wire.Binding
import QueryClient.Wire.Decoder
import QueryClient.Wire.Encoder

/-!
# Frames

A frame is the four-byte length of its payload, the payload, and the contents of the large objects
that the payload announces. The payload is a version byte and one tagged message. The length of the
payload and the sum of the contents are limited separately.
-/

namespace QueryClient.Frame

/-- The version of the wire format. -/
def version : UInt8 := 1

/-- The most bytes a payload may have, unless set otherwise. -/
def defaultMax : Nat := 33554432

/-- How messages are encoded: tags by code or by name, and the most bytes a payload may have. -/
structure Options where
  tagsByCode : Bool
  maxSize : Nat
deriving DecidableEq, Repr

/-- The payload and the contents it announces. -/
def encodePayload (options : Options) (m : Message) : Except Fault (Bytes × List Bytes) :=
  let body : Encode Unit := do
    Writer.uint8 version
    Encoder.message m
  match body (Encoder.start options.tagsByCode options.maxSize) with
  | (.error fault, _) => .error fault
  | (.ok (), encoder) => .ok (encoder.writer.bytes, encoder.streams.toList)

/-- The frame of a message. -/
def encode (options : Options) (m : Message) : Except Fault Bytes :=
  match encodePayload options m with
  | .error fault => .error fault
  | .ok (payload, contents) =>
    .ok (Bytes.ofNat 4 payload.length ++ payload ++ contents.flatMap Appendix.write)

/-- Fails for a payload that is empty or too long. -/
def checkLength (length max : Nat) : Except Fault Unit :=
  if length = 0 then .error (.protocol .emptyFrame)
  else if max < length then .error (.frameTooLarge length max)
  else .ok ()

/-- The message of a payload, its large objects without content, and their kinds in order. -/
def decodePayload (allowed : AllowList) (payload : Bytes) :
    Except Fault (Message × List LobKind) :=
  let body : Decode Message := do
    let actual ← Reader.uint8
    if actual = version then
      Decoder.message
    else
      throw (.unsupportedVersion version actual)
  match body (Decoder.ofBytes payload allowed) with
  | (.error fault, _) => .error fault
  | (.ok m, decoder) =>
    match decoder.finish with
    | .error fault => .error fault
    | .ok slots => .ok (m, slots)

/-- The payload behind its length. -/
def payload (max : Nat) : Read Bytes := do
  let length := (← Reader.uint32).toNat
  checkLength length max
  Reader.take length

/-- The message of a frame that takes up all of the bytes. -/
def decode (allowed : AllowList) (max : Nat) (frame : Bytes) : Except Fault Message :=
  match payload max (Reader.ofBytes frame) with
  | (.error fault, _) => .error fault
  | (.ok content, reader) =>
    match decodePayload allowed content with
    | .error fault => .error fault
    | .ok (m, slots) =>
      match Appendix.readAll max slots.length [] ⟨0, reader⟩ with
      | (.error fault, _) => .error fault
      | (.ok contents, ⟨_, reader⟩) =>
        match reader.rest with
        | [] => .ok (m.bind contents)
        | rest => .error (.protocol (.trailingStreams rest.length))

end QueryClient.Frame
