import QueryClient.Wire.Frame

/-!
# Frames to a bounded sink

A sink takes a certain number of bytes in all, and none once it is shut. A frame that does not fit
is written as far as it goes.
-/

namespace QueryClient

/-- A sink: the bytes it has taken, how many more it takes if there is a bound, and whether it is
shut. -/
structure Outflow where
  taken : Array UInt8
  room : Option Nat
  shut : Bool
deriving Repr

namespace Outflow

/-- A sink that has taken nothing. -/
def empty (room : Option Nat) : Outflow := ⟨#[], room, false⟩

/-- Writes bytes as far as they fit. -/
def write (bytes : Bytes) (sink : Outflow) : Except Fault Unit × Outflow :=
  if bytes.isEmpty then (.ok (), sink)
  else if sink.shut then (.error (.io "sink full"), sink)
  else
    match sink with
    | ⟨taken, none, shut⟩ => (.ok (), ⟨taken ++ bytes, none, shut⟩)
    | ⟨taken, some room, shut⟩ =>
      if bytes.length ≤ room then (.ok (), ⟨taken ++ bytes, some (room - bytes.length), shut⟩)
      else (.error (.io "sink full"), ⟨taken ++ bytes.take room, some 0, shut⟩)

/-- Encodes a message and writes its frame. -/
def message (options : Frame.Options) (m : Message) (sink : Outflow) :
    Except Fault Unit × Outflow :=
  match Frame.encode options m with
  | .error fault => (.error fault, sink)
  | .ok frame => sink.write frame

def close (sink : Outflow) : Outflow :=
  { sink with shut := true }

end Outflow

end QueryClient
