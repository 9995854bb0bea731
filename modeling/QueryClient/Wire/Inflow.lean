import QueryClient.Wire.Frame

/-!
# Frames from a flow of bytes

Bytes arrive in pieces, cut anywhere, until the flow ends, breaks or falls quiet. A message is taken
from it with exactly the bytes of its frame and of the contents behind it, so that the next message
starts where this one stopped.
-/

namespace QueryClient

/-- What follows the last piece of a flow. -/
inductive FlowEnd where
  | closed
  | broken (text : String)
  /-- Nothing yet. -/
  | quiet
deriving DecidableEq, Repr

/-- The pieces that are still to come, and what follows them. -/
structure Inflow where
  pieces : List Bytes
  ending : FlowEnd
deriving Repr

/-- Why a read from a flow did not give what was asked. -/
inductive FlowStop where
  | fault (fault : Fault)
  /-- The flow fell quiet first. -/
  | starved
deriving DecidableEq, Repr

namespace Inflow

/-- Bytes cut into pieces of given sizes, and what is left of them. -/
def cut (bytes : Bytes) : List Nat → List Bytes
  | [] => [bytes]
  | n :: rest => bytes.take n :: cut (bytes.drop n) rest

def size (flow : Inflow) : Nat :=
  flow.pieces.flatten.length

/-- The first `n` bytes of some pieces and the pieces after them, if there are that many. -/
def takePieces : (n : Nat) → List Bytes → Option (Bytes × List Bytes)
  | 0, pieces => some ([], pieces)
  | _ + 1, [] => none
  | n + 1, piece :: rest =>
    if piece.holds (n + 2) then
      some (piece.take (n + 1), piece.drop (n + 1) :: rest)
    else
      match takePieces (n + 1 - piece.length) rest with
      | some (bytes, rest) => some (piece ++ bytes, rest)
      | none => none

theorem length_takePieces {n : Nat} {pieces rest : List Bytes} {bytes : Bytes}
    (h : takePieces n pieces = some (bytes, rest)) :
    rest.flatten.length + n = pieces.flatten.length := by
  induction pieces generalizing n bytes rest with
  | nil =>
    cases n with
    | zero => simp [takePieces] at h; simp [h]
    | succ n => simp [takePieces] at h
  | cons piece pieces ih =>
    cases n with
    | zero => simp [takePieces] at h; simp [← h.2]
    | succ n =>
      rw [takePieces] at h
      split at h
      · rename_i hold
        simp only [Option.some.injEq, Prod.mk.injEq] at h
        simp only [Bytes.holds_eq_decide, decide_eq_true_eq] at hold
        simp only [← h.2, List.flatten_cons, List.length_append, List.length_drop]
        omega
      · rename_i hold
        simp only [Bytes.holds_eq_decide, decide_eq_true_eq] at hold
        split at h
        · rename_i inner
          simp only [Option.some.injEq, Prod.mk.injEq] at h
          have := ih inner
          simp only [← h.2, List.flatten_cons, List.length_append]
          omega
        · simp at h

/-- Takes the next `n` bytes. A flow that ends before them is used up. -/
def take (n : Nat) (flow : Inflow) : Except FlowStop Bytes × Inflow :=
  match takePieces n flow.pieces with
  | some (bytes, rest) => (.ok bytes, ⟨rest, flow.ending⟩)
  | none =>
    match flow.ending with
    | .closed => (.error (.fault (.connectionLost "server closed the connection")), ⟨[], .closed⟩)
    | .broken text => (.error (.fault (.io text)), ⟨[], .broken text⟩)
    | .quiet => (.error .starved, ⟨[], .quiet⟩)

theorem size_take {n : Nat} {flow rest : Inflow} {bytes : Bytes}
    (h : flow.take n = (.ok bytes, rest)) : rest.size + n = flow.size := by
  unfold take at h
  split at h
  · rename_i inner
    simp only [Prod.mk.injEq] at h
    rw [← h.2]
    exact length_takePieces inner
  · split at h <;> simp at h

/-- Reads pieces of content up to the empty one. `before` holds the pieces already read, the last
one first; `used` counts the bytes of content that the frame has had. -/
def contentPieces (max used : Nat) (before : List Bytes) (flow : Inflow) :
    Except FlowStop Bytes × Nat × Inflow :=
  match _header : flow.take 2 with
  | (.error stop, rest) => (.error stop, used, rest)
  | (.ok length, rest) =>
    if length.toNat = 0 then
      (.ok before.reverse.flatten, used, rest)
    else
      match Appendix.checkTotal (used + length.toNat) max with
      | .error fault => (.error (.fault fault), used + length.toNat, rest)
      | .ok () =>
        match _piece : rest.take length.toNat with
        | (.error stop, rest) => (.error stop, used + length.toNat, rest)
        | (.ok content, rest) =>
          contentPieces max (used + length.toNat) (content :: before) rest
termination_by flow.size
decreasing_by
  have := size_take _header
  have := size_take _piece
  omega

/-- Reads `n` contents, in order. -/
def contents (max : Nat) : (n used : Nat) → (before : List Bytes) → Inflow →
    Except FlowStop (List Bytes) × Inflow
  | 0, _, before, flow => (.ok before.reverse, flow)
  | n + 1, used, before, flow =>
    match contentPieces max used [] flow with
    | (.error stop, _, flow) => (.error stop, flow)
    | (.ok content, used, flow) => contents max n used (content :: before) flow

/-- Takes one message with the contents behind it. -/
def message (allowed : AllowList) (max : Nat) (flow : Inflow) : Except FlowStop Message × Inflow :=
  match flow.take 4 with
  | (.error stop, flow) => (.error stop, flow)
  | (.ok length, flow) =>
    match Frame.checkLength length.toNat max with
    | .error fault => (.error (.fault fault), flow)
    | .ok () =>
      match flow.take length.toNat with
      | (.error stop, flow) => (.error stop, flow)
      | (.ok payload, flow) =>
        match Frame.decodePayload allowed payload with
        | .error fault => (.error (.fault fault), flow)
        | .ok (m, slots) =>
          match contents max slots.length 0 [] flow with
          | (.error stop, flow) => (.error stop, flow)
          | (.ok bound, flow) => (.ok (m.bind bound), flow)

end Inflow

end QueryClient
