import Mathlib.Control.Monad.Basic
import QueryClient.Lob.Script
import QueryClient.Proofs.Attempt

/-!
# What a streamer asks of its source

A source can be watched: it answers as it would otherwise, and everything it is asked goes into a
ledger. The ledger says how many chunks were asked for and have come in, which request is
outstanding, and whether the remote stream was released.
-/

namespace QueryClient

namespace Lob

variable {σ H : Type}

/-- Something that a streamer asked of its source, with the answer. -/
inductive ChunkAsk (H : Type) where
  | requested (stream : UInt64) (reference : LobReference) (outcome : Except Fault H)
  /-- A wait spends its handle, and gives one for the next. -/
  | waited (call : H) (outcome : Except Fault Chunk) (next : H)
  | abandoned (call : H)
  | released (stream : UInt64) (reference : LobReference) (outcome : Except Fault Unit)
deriving DecidableEq

/-- A source, the marks of its one stream, and all that it was asked, the last thing first. -/
structure Watched (σ H : Type) where
  source : σ
  marks : Marks
  ledger : List (ChunkAsk H)

/-- A source that is watched. -/
def ChunkSource.watched (source : ChunkSource σ H) : ChunkSource (Watched σ H) H where
  request stream reference w :=
    let (outcome, state) := source.request stream reference w.source
    (outcome,
      { w with source := state, ledger := .requested stream reference outcome :: w.ledger })
  wait timeout call w :=
    let (outcome, next, state) := source.wait timeout call w.source
    (outcome, next, { w with source := state, ledger := .waited call outcome next :: w.ledger })
  abandon call w :=
    { w with source := source.abandon call w.source, ledger := .abandoned call :: w.ledger }
  release stream reference w :=
    let (outcome, state) := source.release stream reference w.source
    (outcome,
      { w with source := state, ledger := .released stream reference outcome :: w.ledger })
  marks _ w := w.marks
  setMarks _ marks w := { w with marks := marks }

namespace ChunkAsk

/-- Whether a chunk is asked for. -/
def isRequest : ChunkAsk H → Bool
  | requested .. => true
  | _ => false

/-- Whether a chunk comes in. -/
def isArrival : ChunkAsk H → Bool
  | waited _ (.ok _) _ => true
  | _ => false

def isRelease : ChunkAsk H → Bool
  | released .. => true
  | _ => false

end ChunkAsk

/-- The request that has been granted and for which there were only waits that timed out, as the
handle to wait with. -/
def outstanding? : List (ChunkAsk H) → Option H
  | [] => none
  | .requested _ _ (.ok call) :: _ => some call
  | .requested _ _ (.error _) :: before => outstanding? before
  | .waited _ (.ok _) _ :: _ => none
  | .waited _ (.error fault) next :: before =>
    if fault.isTimeout then (outstanding? before).map fun _ => next else none
  | .abandoned _ :: _ => none
  | .released .. :: before => outstanding? before

/-- Whether everything in a ledger has a property that may depend on what was there before. -/
def Throughout (P : List (ChunkAsk H) → ChunkAsk H → Prop) (ledger : List (ChunkAsk H)) : Prop :=
  ∀ entry before, entry :: before <:+ ledger → P before entry

section Throughout

variable {P : List (ChunkAsk H) → ChunkAsk H → Prop} {entry : ChunkAsk H}
  {before ledger : List (ChunkAsk H)}

theorem throughout_nil : Throughout P [] := by
  intro entry before h
  cases List.suffix_nil.1 h

theorem throughout_cons :
    Throughout P (entry :: ledger) ↔ P ledger entry ∧ Throughout P ledger := by
  constructor
  · intro h
    exact ⟨h entry ledger List.suffix_rfl, fun later before hsuffix =>
      h later before (hsuffix.trans (List.suffix_cons entry ledger))⟩
  · rintro ⟨hentry, h⟩ later before hsuffix
    rcases List.suffix_cons_iff.1 hsuffix with heq | hsuffix
    · cases heq
      exact hentry
    · exact h later before hsuffix

instance Throughout.decidable [∀ before entry, Decidable (P before entry)] :
    (ledger : List (ChunkAsk H)) → Decidable (Throughout P ledger)
  | [] => .isTrue throughout_nil
  | entry :: ledger =>
    have := Throughout.decidable ledger
    decidable_of_iff (P ledger entry ∧ Throughout P ledger) throughout_cons.symm

theorem Throughout.of_suffix (h : Throughout P ledger) (hsuffix : before <:+ ledger) :
    Throughout P before :=
  fun entry earlier hentry => h entry earlier (hentry.trans hsuffix)

end Throughout

/-- Whether a source that serves a content in chunks may answer so: it grants every request, and
every wait for the chunk asked for at the `i`-th time times out or brings the `i`-th chunk. -/
def ChunkAsk.Serves (chunks : List Bytes) (before : List (ChunkAsk H)) : ChunkAsk H → Prop
  | .requested _ _ outcome => ∃ call, outcome = .ok call
  | .waited _ outcome _ => ∀ i data, before.countP (·.isRequest) = i + 1 →
    chunks[i]? = some data →
    (∃ fault, outcome = .error fault ∧ fault.isTimeout = true) ∨
      outcome = .ok ⟨data, i + 1 == chunks.length⟩
  | .abandoned _ => True
  | .released .. => True

/-- Whether a source that serves a content in chunks may answer so, as a test. -/
def ChunkAsk.serves (chunks : List Bytes) (before : List (ChunkAsk H)) : ChunkAsk H → Bool
  | .requested _ _ outcome => outcome.isOk
  | .waited _ outcome _ =>
    match before.countP (·.isRequest) with
    | 0 => true
    | i + 1 => chunks[i]?.all fun data =>
      match outcome with
      | .error fault => fault.isTimeout
      | .ok chunk => chunk = ⟨data, i + 1 == chunks.length⟩
  | .abandoned _ => true
  | .released .. => true

theorem ChunkAsk.serves_iff {chunks : List Bytes} {before : List (ChunkAsk H)}
    {entry : ChunkAsk H} : entry.serves chunks before = true ↔ entry.Serves chunks before := by
  cases entry with
  | requested _ _ outcome => cases outcome <;> simp [serves, Serves, Except.isOk, Except.toBool]
  | waited _ outcome _ =>
    simp only [serves, Serves]
    cases before.countP (·.isRequest) with
    | zero => simp
    | succ i =>
      constructor
      · intro h j data hj hdata
        obtain rfl : i = j := Nat.succ.inj hj
        have hanswer := (Option.all_eq_true ..).1 h data hdata
        cases outcome <;> simpa using hanswer
      · intro h
        refine (Option.all_eq_true ..).2 fun data hdata => ?_
        have hanswer := h i data rfl hdata
        cases outcome <;> simpa using hanswer
  | abandoned => simp [serves, Serves]
  | released => simp [serves, Serves]

instance (chunks : List Bytes) (before : List (ChunkAsk H)) (entry : ChunkAsk H) :
    Decidable (entry.Serves chunks before) :=
  decidable_of_iff _ ChunkAsk.serves_iff

/-- Whether a source has served a content in chunks. -/
abbrev Serves (chunks : List Bytes) (ledger : List (ChunkAsk H)) : Prop :=
  Throughout (ChunkAsk.Serves chunks) ledger

/-- Whether something may be asked for a content of some number of chunks, after what was asked
before. -/
def ChunkAsk.Proper (chunks : Nat) (before : List (ChunkAsk H)) : ChunkAsk H → Prop
  | .requested .. => outstanding? before = none ∧ before.countP (·.isRequest) < chunks
  | .waited call _ _ => outstanding? before = some call
  | .abandoned call => outstanding? before = some call
  | .released .. => ∃ call chunk next earlier,
    before = .waited call (.ok chunk) next :: earlier ∧ chunk.isLast = true

/-- Whether everything that was asked was proper. -/
abbrev Disciplined (chunks : Nat) (ledger : List (ChunkAsk H)) : Prop :=
  Throughout (ChunkAsk.Proper chunks) ledger

end Lob

namespace Streamer

open Attempt Lob

variable {σ H α : Type}

/-! ## Running the steps of a streamer -/

@[simp] theorem exec_streamer (d : Desk σ H) :
    exec (streamer : Reading σ H (Streamer H)) d = (.ok d.streamer, d) := rfl

@[simp] theorem exec_update (f : Streamer H → Streamer H) (d : Desk σ H) :
    exec (update f) d = (.ok (), { d with streamer := f d.streamer }) := rfl

@[simp] theorem exec_ask (operation : σ → α × σ) (d : Desk σ H) :
    exec (ask operation : Reading σ H α) d =
      (.ok (operation d.source).1, { d with source := (operation d.source).2 }) := rfl

@[simp] theorem exec_marks (source : ChunkSource σ H) (d : Desk σ H) :
    exec (marks source) d = (.ok (source.marks d.streamer.stream d.source), d) := rfl

@[simp] theorem exec_mark (source : ChunkSource σ H) (f : Marks → Marks) (d : Desk σ H) :
    exec (mark source f) d =
      (.ok (), { d with
        source := source.setMarks d.streamer.stream
          (f (source.marks d.streamer.stream d.source)) d.source }) := rfl

theorem exec_ensureOpen {source : ChunkSource σ H} {d : Desk σ H}
    (h : (source.marks d.streamer.stream d.source).closed = false) :
    exec (ensureOpen source) d = (.ok (), d) := by
  simp only [ensureOpen, exec_bind, exec_marks, h]
  rfl

theorem exec_ensureOpen_of_closed {source : ChunkSource σ H} {d : Desk σ H}
    (h : (source.marks d.streamer.stream d.source).closed = true) :
    exec (ensureOpen source) d = (.error (.fault .streamClosed), d) := by
  simp only [ensureOpen, exec_bind, exec_marks, h]
  rfl

theorem exec_deliver (n : Nat) (d : Desk σ H) : exec (deliver n : Reading σ H Bytes) d =
    (.ok (d.streamer.buffer.take n), { d with streamer := { d.streamer with
      buffer := d.streamer.buffer.drop n
      bytesRead := d.streamer.bytesRead + (d.streamer.buffer.take n).length } }) := rfl

theorem exec_awaitChunk_of_none {source : ChunkSource σ H} {d : Desk σ H}
    (hflight : d.streamer.flight = none) : exec (awaitChunk source) d = (.ok (), d) := by
  simp only [awaitChunk, exec_bind, exec_streamer, hflight, exec_pure]

/-- To wait for the chunk that is under way is to take what comes, and to release the remote stream
after the last one. -/
theorem exec_awaitChunk_of_some {source : ChunkSource σ H} {d : Desk σ H} {call : H}
    (hflight : d.streamer.flight = some call) {outcome : Except Fault Chunk} {next : H} {state : σ}
    (hwait : source.wait d.streamer.timeout call d.source = (outcome, next, state)) :
    exec (awaitChunk source) d =
      match outcome with
      | .error fault =>
        (.error (.fault fault), ⟨{ d.streamer with flight := some next }, state⟩)
      | .ok chunk =>
        exec (if chunk.isLast then do
            update fun s => { s with lastSeen := true }
            releaseExhausted source
          else pure ())
          ⟨{ d.streamer with flight := none, buffer := chunk.data }, state⟩ := by
  simp only [awaitChunk, exec_bind, exec_streamer, hflight, exec_ask, hwait]
  cases outcome with
  | error fault => rfl
  | ok chunk => rfl

/-- To make bytes available is to look at what there is, and if that is nothing and not the end, to
ask for a chunk, to wait for it, and to look again. -/
theorem exec_fill {source : ChunkSource σ H} {d : Desk σ H}
    (h : (source.marks d.streamer.stream d.source).closed = false) (rounds : Nat) :
    exec (fill source (rounds + 1)) d =
      if d.streamer.buffer ≠ [] then (.ok true, d)
      else if d.streamer.lastSeen then (.ok false, d)
      else exec (do
        requestChunk source
        awaitChunk source
        fill source rounds) d := by
  rw [fill, exec_bind, exec_ensureOpen h]
  simp only [exec_bind, exec_streamer]
  by_cases hbuffer : d.streamer.buffer = []
  · by_cases hlast : d.streamer.lastSeen
    · simp [hbuffer, hlast]
    · simp [hbuffer, hlast, exec_bind]
  · simp [hbuffer]

end Streamer

end QueryClient
