import QueryClient.Wire.Inflow

/-!
# What has arrived

Bytes that have come in so far hold some whole messages and perhaps the beginning of another. The
whole ones are taken; the beginning stays where it is, to be read again when more has come in.
-/

namespace QueryClient.Inflow

/-- Takes up to `n` messages that are there, and the fault at which reading ends if it is reached.
-/
def arrivalsUpTo (allowed : AllowList) (max : Nat) :
    (n : Nat) → Inflow → List (Except Fault Message) × Inflow
  | 0, flow => ([], flow)
  | n + 1, flow =>
    match flow.message allowed max with
    | (.ok m, rest) =>
      let (more, rest) := arrivalsUpTo allowed max n rest
      (.ok m :: more, rest)
    | (.error (.fault fault), rest) => ([.error fault], rest)
    | (.error .starved, _) => ([], flow)

/-- Takes all messages that are there, and the fault at which reading ends if it is reached. Every
message takes up bytes, so there are no more of them than bytes. -/
def arrivals (allowed : AllowList) (max : Nat) (flow : Inflow) :
    List (Except Fault Message) × Inflow :=
  arrivalsUpTo allowed max (flow.size + 1) flow

end QueryClient.Inflow
