import QueryClient.Session.State
import QueryClient.Wire.Arrivals

/-!
# Waiting

Whenever time passes, whatever comes in is taken in, for whichever call it may be. A wait for one
call goes on until its outcome is there or the deadline has come. In between it looks at the clock
each time the socket timeout has passed, which never ends it early. A call that timed out goes on
waiting for its reply and may be waited for again.
-/

namespace QueryClient.Session

variable {σ : Type}

/-- Takes in what has come in. -/
def takeIn (news : Inflow) (s : Session σ) : Session σ :=
  if s.reading then
    let flow : Inflow := ⟨s.unread ++ news.pieces, news.ending⟩
    let (arrivals, rest) := flow.arrivals s.settings.allowed s.settings.maxObjectSize
    let (reading, calls) := s.calls.receiveAll arrivals
    { s with unread := rest.pieces, reading := reading, calls := calls }
  else s

/-- The value of a reply, or why there is none. -/
def conclude : Except Fault Reply → Except Fault Value
  | .error fault => .error fault
  | .ok reply =>
    match reply.outcome with
    | .ok value => .ok value
    | .error exception => .error (.remote exception)

variable (link : Link σ)

/-- Lets time pass up to a moment, or until something comes in, and takes that in. -/
def listen (moment : Instant) (s : Session σ) : Session σ :=
  let (news, state) := link.await moment s.link
  takeIn news { s with link := state }

/-- Lets time pass up to a moment. -/
def restUntil (moment : Instant) : (looks : Nat) → Session σ → Session σ
  | 0, s => s
  | looks + 1, s =>
    if moment ≤ link.now s.link then s
    else restUntil moment looks (listen link moment s)

def rest (length : Duration) (s : Session σ) : Session σ :=
  restUntil link (link.now s.link + length.nanoseconds) (Link.looks length) s

/-- Waits for a call up to a deadline. -/
def waitUntil (timeout : Duration) (deadline : Instant) :
    (looks : Nat) → Handle → Session σ → Except Fault Value × Handle × Session σ
  | 0, handle, s => (.error (.timeout handle.method timeout), handle, s)
  | looks + 1, handle, s =>
    match s.calls.outcome? handle.key with
    | some outcome =>
      (conclude outcome, { handle with finished := true },
        { s with calls := s.calls.forget handle.key })
    | none =>
      let now := link.now s.link
      if deadline ≤ now then (.error (.timeout handle.method timeout), handle, s)
      else
        waitUntil timeout deadline looks handle
          (listen link (min deadline (now + s.settings.socketTimeout.nanoseconds)) s)

/-- Waits some time for a call. Once the outcome has been picked up there is nothing to wait for.
The deadline is taken to be a moment that the clock can represent: where a clock comes to an end, a
wait with a deadline beyond it breaks off without an answer, and that is left out. -/
def wait (timeout : Duration) (handle : Handle) (s : Session σ) :
    Except Fault Value × Handle × Session σ :=
  if handle.finished then (.error (.protocol (.replyConsumed handle.method)), handle, s)
  else if timeout.isZero then (.error (.timeout handle.method timeout), handle, s)
  else
    waitUntil link timeout (link.now s.link + timeout.nanoseconds) (Link.looks timeout) handle s

/-- Gives up a handle: its call is forgotten, and a late reply is discarded. -/
def abandon (handle : Handle) (s : Session σ) : Session σ :=
  if handle.finished then s else { s with calls := s.calls.forget handle.key }

end QueryClient.Session
