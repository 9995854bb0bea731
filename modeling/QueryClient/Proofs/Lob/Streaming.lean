import Mathlib.Data.List.Infix
import QueryClient.Proofs.Lob.Ledger

/-!
# Streaming delivers the content

A streamer over a source that serves a content in chunks hands out that content, whatever it is
asked to read, wherever the chunks are cut, and however often a wait for one of them times out. What
it still has to hand out is what is in the buffer and in the chunks that have not come in.
-/

namespace QueryClient.Streamer

open Attempt Lob

variable {σ H α β : Type} {source : ChunkSource σ H} {chunks : List Bytes}
  {d e : Desk (Watched σ H) H}

/-! ## What operations keep -/

/-- Whether an operation keeps a property of a streamer and its source, also when it fails. -/
def Preserves (P : Desk σ H → Prop) (m : Reading σ H α) : Prop :=
  ∀ d, P d → P (exec m d).2

namespace Preserves

variable {P : Desk σ H → Prop}

theorem pure (a : α) : Preserves P (pure a : Reading σ H α) :=
  fun _ h => h

theorem throw (stop : Stop) : Preserves P (throw stop : Reading σ H α) :=
  fun _ h => h

theorem fail (fault : Fault) : Preserves P (fail fault : Reading σ H α) :=
  throw (.fault fault)

theorem bind {m : Reading σ H α} {f : α → Reading σ H β} (hm : Preserves P m)
    (hf : ∀ a, Preserves P (f a)) : Preserves P (m >>= f) := by
  intro d h
  have hfirst := hm d h
  rcases hexec : exec m d with ⟨_ | a, e⟩
  · rw [hexec] at hfirst
    rwa [exec_bind_error hexec]
  · rw [hexec] at hfirst
    rw [exec_bind_ok hexec]
    exact hf a e hfirst

theorem streamer : Preserves P (streamer : Reading σ H (Streamer H)) :=
  fun _ h => h

theorem ensureOpen (source : ChunkSource σ H) : Preserves P (ensureOpen source) :=
  bind (fun _ h => h) fun marked => by
    by_cases h : marked.closed
    · simpa [h] using fail _
    · simpa [h] using pure _

end Preserves

/-! ## The ledger only grows -/

/-- Whether an operation adds to the ledger and does not change what is there. -/
def Extends (m : Reading (Watched σ H) H α) : Prop :=
  ∀ d, d.source.ledger <:+ (exec m d).2.source.ledger

namespace Extends

theorem of_preserves {m : Reading (Watched σ H) H α}
    (h : ∀ ledger, Preserves (fun d => ledger <:+ d.source.ledger) m) : Extends m :=
  fun d => h d.source.ledger d List.suffix_rfl

theorem preserves {m : Reading (Watched σ H) H α} (h : Extends m) (ledger : List (ChunkAsk H)) :
    Preserves (fun d => ledger <:+ d.source.ledger) m :=
  fun d hledger => hledger.trans (h d)

theorem pure (a : α) : Extends (pure a : Reading (Watched σ H) H α) :=
  fun _ => List.suffix_rfl

theorem throw (stop : Stop) : Extends (throw stop : Reading (Watched σ H) H α) :=
  fun _ => List.suffix_rfl

theorem fail (fault : Fault) : Extends (fail fault : Reading (Watched σ H) H α) :=
  throw (.fault fault)

/-- What comes after an operation adds to what it has left. -/
theorem suffix_bind (m : Reading (Watched σ H) H α) {f : α → Reading (Watched σ H) H β}
    (hf : ∀ a, Extends (f a)) (d : Desk (Watched σ H) H) :
    (exec m d).2.source.ledger <:+ (exec (m >>= f) d).2.source.ledger := by
  rw [exec_bind]
  rcases exec m d with ⟨_ | a, e⟩
  · exact List.suffix_rfl
  · exact hf a e

theorem bind {m : Reading (Watched σ H) H α} {f : α → Reading (Watched σ H) H β}
    (hm : Extends m) (hf : ∀ a, Extends (f a)) : Extends (m >>= f) :=
  fun d => (hm d).trans (suffix_bind m hf d)

theorem streamer : Extends (streamer : Reading (Watched σ H) H (Streamer H)) :=
  fun _ => List.suffix_rfl

theorem update (f : Streamer H → Streamer H) :
    Extends (update f : Reading (Watched σ H) H Unit) :=
  fun _ => List.suffix_rfl

theorem ask {operation : Watched σ H → α × Watched σ H}
    (h : ∀ w, w.ledger <:+ (operation w).2.ledger) :
    Extends (ask operation : Reading (Watched σ H) H α) :=
  fun d => h d.source

theorem ensureOpen : Extends (ensureOpen source.watched) :=
  of_preserves fun _ => .ensureOpen _

theorem requestChunk : Extends (requestChunk source.watched) := by
  refine bind streamer fun s => ?_
  by_cases h : s.flight.isNone
  · simp only [h, if_true]
    refine bind (ask fun _ => List.suffix_cons _ _) fun outcome => ?_
    cases outcome with
    | error fault => exact fail fault
    | ok call => exact update _
  · simpa [h] using pure _

theorem releaseExhausted : Extends (releaseExhausted source.watched) := by
  refine bind (fun _ => List.suffix_rfl) fun claimed => ?_
  cases claimed with
  | true => exact bind streamer fun s => bind (ask fun _ => List.suffix_cons _ _) fun _ => pure _
  | false => exact pure _

theorem awaitChunk : Extends (awaitChunk source.watched) := by
  refine bind streamer fun s => ?_
  cases s.flight with
  | none => exact pure _
  | some call =>
    refine bind (ask fun _ => List.suffix_cons _ _) fun ⟨outcome, next⟩ => ?_
    cases outcome with
    | error fault => exact bind (update _) fun _ => fail fault
    | ok chunk =>
      refine bind (update _) fun _ => ?_
      by_cases h : chunk.isLast
      · simpa [h] using bind (update _) fun _ => releaseExhausted
      · simpa [h] using pure _

theorem fill (rounds : Nat) : Extends (fill source.watched rounds) := by
  induction rounds with
  | zero => exact throw _
  | succ rounds ih =>
    refine bind ensureOpen fun _ => bind streamer fun s => ?_
    by_cases hbuffer : s.buffer.isEmpty
    · by_cases hlast : s.lastSeen
      · simpa [hbuffer, hlast] using pure _
      · simpa [hbuffer, hlast] using bind requestChunk fun _ => bind awaitChunk fun _ => ih
    · simpa [hbuffer] using pure _

end Extends

/-! ## The account of a streamer -/

/-- How many chunks have come in. -/
def arrivals (d : Desk (Watched σ H) H) : Nat :=
  d.source.ledger.countP (·.isArrival)

/-- What has not been handed out of a content in chunks. -/
def unread (chunks : List Bytes) (d : Desk (Watched σ H) H) : Bytes :=
  d.streamer.buffer ++ (chunks.drop (arrivals d)).flatten

/-- A streamer that is open and in step with its ledger. -/
structure Sound (chunks : List Bytes) (d : Desk (Watched σ H) H) : Prop where
  opened : d.source.marks.closed = false
  released : d.source.marks.released = d.streamer.lastSeen
  flight : d.streamer.flight = outstanding? d.source.ledger
  arrivals_le : arrivals d ≤ chunks.length
  lastSeen_iff : d.streamer.lastSeen = true ↔ arrivals d = chunks.length
  idle : d.streamer.lastSeen = true → d.streamer.flight = none
  requests_eq : d.source.ledger.countP (·.isRequest) =
    arrivals d + if d.streamer.flight.isSome then 1 else 0
  releases_eq : d.source.ledger.countP (·.isRelease) = if d.streamer.lastSeen then 1 else 0
  disciplined : Disciplined chunks.length d.source.ledger

/-- A new streamer over a watched source. -/
def fresh (stream : UInt64) (reference : LobReference) (timeout : Duration) (s : σ) :
    Desk (Watched σ H) H :=
  ⟨start stream reference timeout, ⟨s, ⟨false, false⟩, []⟩⟩

theorem sound_fresh (hchunks : chunks ≠ []) (stream : UInt64) (reference : LobReference)
    (timeout : Duration) (s : σ) :
    Sound chunks (fresh stream reference timeout s : Desk (Watched σ H) H) where
  opened := rfl
  released := rfl
  flight := rfl
  arrivals_le := Nat.zero_le _
  lastSeen_iff := by
    have hlength : chunks.length ≠ 0 := fun h => hchunks (List.length_eq_zero_iff.1 h)
    simp [fresh, start, arrivals, Ne.symm hlength]
  idle _ := rfl
  requests_eq := rfl
  releases_eq := rfl
  disciplined := throughout_nil

theorem unread_fresh (stream : UInt64) (reference : LobReference) (timeout : Duration) (s : σ) :
    unread chunks (fresh stream reference timeout s : Desk (Watched σ H) H) = chunks.flatten := rfl

namespace Sound

theorem arrivals_lt (h : Sound chunks d) (hlast : d.streamer.lastSeen = false) :
    arrivals d < chunks.length := by
  have hne : arrivals d ≠ chunks.length := fun heq => by
    rw [h.lastSeen_iff.2 heq] at hlast
    cases hlast
  exact Nat.lt_of_le_of_ne h.arrivals_le hne

theorem lastSeen_of_flight (h : Sound chunks d) {call : H}
    (hflight : d.streamer.flight = some call) : d.streamer.lastSeen = false := by
  cases hlast : d.streamer.lastSeen with
  | false => rfl
  | true =>
    rw [h.idle hlast] at hflight
    cases hflight

theorem requests_of_idle (h : Sound chunks d) (hflight : d.streamer.flight = none) :
    d.source.ledger.countP (·.isRequest) = arrivals d := by
  simpa [hflight] using h.requests_eq

theorem requests_of_flight (h : Sound chunks d) {call : H}
    (hflight : d.streamer.flight = some call) :
    d.source.ledger.countP (·.isRequest) = arrivals d + 1 := by
  simpa [hflight] using h.requests_eq

theorem requests_le (h : Sound chunks d) :
    d.source.ledger.countP (·.isRequest) ≤ chunks.length := by
  cases hflight : d.streamer.flight with
  | none =>
    rw [h.requests_of_idle hflight]
    exact h.arrivals_le
  | some call =>
    rw [h.requests_of_flight hflight]
    exact h.arrivals_lt (h.lastSeen_of_flight hflight)

theorem releases_iff (h : Sound chunks d) : d.source.ledger.countP (·.isRelease) =
    if arrivals d = chunks.length then 1 else 0 := by
  simp only [h.releases_eq, h.lastSeen_iff]

/-! ### One chunk -/

/-- A request that is granted. -/
theorem requested (h : Sound chunks d) (hflight : d.streamer.flight = none)
    (hlast : d.streamer.lastSeen = false) (stream : UInt64) (reference : LobReference) (call : H)
    (state : σ) :
    Sound chunks ⟨{ d.streamer with flight := some call },
      ⟨state, d.source.marks, .requested stream reference (.ok call) :: d.source.ledger⟩⟩ where
  opened := h.opened
  released := h.released
  flight := rfl
  arrivals_le := by simpa [arrivals, ChunkAsk.isArrival] using h.arrivals_le
  lastSeen_iff := by simpa [arrivals, ChunkAsk.isArrival] using h.lastSeen_iff
  idle hseen := by simp [hlast] at hseen
  requests_eq := by
    simpa [arrivals, ChunkAsk.isArrival, ChunkAsk.isRequest] using h.requests_of_idle hflight
  releases_eq := by simpa [ChunkAsk.isRelease] using h.releases_eq
  disciplined := by
    refine throughout_cons.2 ⟨⟨h.flight.symm.trans hflight, ?_⟩, h.disciplined⟩
    rw [h.requests_of_idle hflight]
    exact h.arrivals_lt hlast

/-- A wait that times out. -/
theorem timedOut (h : Sound chunks d) {call : H} (hflight : d.streamer.flight = some call)
    {fault : Fault} (ht : fault.isTimeout = true) (next : H) (state : σ) :
    Sound chunks ⟨{ d.streamer with flight := some next },
      ⟨state, d.source.marks, .waited call (.error fault) next :: d.source.ledger⟩⟩ where
  opened := h.opened
  released := h.released
  flight := by simp [outstanding?, ht, ← h.flight, hflight]
  arrivals_le := by simpa [arrivals, ChunkAsk.isArrival] using h.arrivals_le
  lastSeen_iff := by simpa [arrivals, ChunkAsk.isArrival] using h.lastSeen_iff
  idle hseen := by simp [h.lastSeen_of_flight hflight] at hseen
  requests_eq := by
    simpa [arrivals, ChunkAsk.isArrival, ChunkAsk.isRequest] using h.requests_of_flight hflight
  releases_eq := by simpa [ChunkAsk.isRelease] using h.releases_eq
  disciplined := throughout_cons.2 ⟨h.flight.symm.trans hflight, h.disciplined⟩

/-- A chunk that is not the last. -/
theorem arrived (h : Sound chunks d) {call : H} (hflight : d.streamer.flight = some call)
    (hmore : arrivals d + 1 < chunks.length) (data : Bytes) (next : H) (state : σ) :
    Sound chunks ⟨{ d.streamer with flight := none, buffer := data },
      ⟨state, d.source.marks, .waited call (.ok ⟨data, false⟩) next :: d.source.ledger⟩⟩ where
  opened := h.opened
  released := h.released
  flight := rfl
  arrivals_le := by simpa [arrivals, ChunkAsk.isArrival] using Nat.le_of_lt hmore
  lastSeen_iff := by
    have hne : arrivals d + 1 ≠ chunks.length := Nat.ne_of_lt hmore
    simpa [arrivals, ChunkAsk.isArrival, h.lastSeen_of_flight hflight] using hne
  idle _ := rfl
  requests_eq := by
    simpa [arrivals, ChunkAsk.isArrival, ChunkAsk.isRequest] using h.requests_of_flight hflight
  releases_eq := by simpa [ChunkAsk.isRelease] using h.releases_eq
  disciplined := throughout_cons.2 ⟨h.flight.symm.trans hflight, h.disciplined⟩

/-- The last chunk, after which the remote stream is released. -/
theorem arrivedLast (h : Sound chunks d) {call : H} (hflight : d.streamer.flight = some call)
    (hall : arrivals d + 1 = chunks.length) (data : Bytes) (next : H) (stream : UInt64)
    (reference : LobReference) (outcome : Except Fault Unit) (state : σ) :
    Sound chunks ⟨{ d.streamer with flight := none, buffer := data, lastSeen := true },
      ⟨state, { d.source.marks with released := true },
        .released stream reference outcome :: .waited call (.ok ⟨data, true⟩) next ::
          d.source.ledger⟩⟩ where
  opened := h.opened
  released := rfl
  flight := rfl
  arrivals_le := by simpa [arrivals, ChunkAsk.isArrival] using Nat.le_of_eq hall
  lastSeen_iff := by simpa [arrivals, ChunkAsk.isArrival] using hall
  idle _ := rfl
  requests_eq := by
    simpa [arrivals, ChunkAsk.isArrival, ChunkAsk.isRequest] using h.requests_of_flight hflight
  releases_eq := by
    have hnone := h.releases_eq
    simp only [h.lastSeen_of_flight hflight] at hnone
    simpa [ChunkAsk.isRelease] using hnone
  disciplined := by
    have hwaited : Disciplined chunks.length
        (.waited call (.ok ⟨data, true⟩) next :: d.source.ledger) :=
      throughout_cons.2 ⟨h.flight.symm.trans hflight, h.disciplined⟩
    exact throughout_cons.2 ⟨⟨call, ⟨data, true⟩, next, d.source.ledger, rfl, rfl⟩, hwaited⟩

end Sound

/-- Two desks between which nothing has been handed out. -/
structure Keeps (chunks : List Bytes) (d e : Desk (Watched σ H) H) : Prop where
  sound : Sound chunks e
  unread_eq : unread chunks e = unread chunks d
  bytesRead_eq : e.streamer.bytesRead = d.streamer.bytesRead

theorem Keeps.trans {f : Desk (Watched σ H) H} (hfirst : Keeps chunks d e)
    (hsecond : Keeps chunks e f) : Keeps chunks d f :=
  ⟨hsecond.sound, hsecond.unread_eq.trans hfirst.unread_eq,
    hsecond.bytesRead_eq.trans hfirst.bytesRead_eq⟩

/-- A chunk is asked for unless one is under way. -/
theorem requestChunk_keeps (hs : Sound chunks d) (hlast : d.streamer.lastSeen = false)
    (hserves : Serves chunks (exec (requestChunk source.watched) d).2.source.ledger) :
    ∃ e call, exec (requestChunk source.watched) d = (.ok (), e) ∧ Keeps chunks d e ∧
      e.streamer = { d.streamer with flight := some call } ∧ arrivals e = arrivals d := by
  cases hflight : d.streamer.flight with
  | some call =>
    refine ⟨d, call, ?_, ⟨hs, rfl, rfl⟩, by rw [← hflight], rfl⟩
    simp [requestChunk, exec_bind, hflight]
  | none =>
    rcases hrequest : source.request d.streamer.stream d.streamer.reference d.source.source with
      ⟨outcome, state⟩
    cases outcome with
    | error fault =>
      have hledger : (exec (requestChunk source.watched) d).2.source.ledger =
          .requested d.streamer.stream d.streamer.reference (.error fault) :: d.source.ledger := by
        simp [requestChunk, exec_bind, hflight, ChunkSource.watched, hrequest]
      rw [hledger] at hserves
      obtain ⟨call, hcall⟩ := (throughout_cons.1 hserves).1
      cases hcall
    | ok call =>
      refine ⟨_, call, ?_, ⟨hs.requested hflight hlast d.streamer.stream d.streamer.reference call
        state, ?_, rfl⟩, rfl, ?_⟩
      · simp [requestChunk, exec_bind, hflight, ChunkSource.watched, hrequest]
      · simp [unread, arrivals, ChunkAsk.isArrival]
      · simp [arrivals, ChunkAsk.isArrival]

section Await

variable {call next : H} {state : σ}

theorem exec_awaitChunk_of_error {fault : Fault} (hflight : d.streamer.flight = some call)
    (hwait : source.wait d.streamer.timeout call d.source.source = (.error fault, next, state)) :
    exec (awaitChunk source.watched) d =
      (.error (.fault fault), ⟨{ d.streamer with flight := some next },
        ⟨state, d.source.marks, .waited call (.error fault) next :: d.source.ledger⟩⟩) := by
  simp [awaitChunk, exec_bind, hflight, ChunkSource.watched, hwait]

theorem exec_awaitChunk_of_more {data : Bytes} (hflight : d.streamer.flight = some call)
    (hwait : source.wait d.streamer.timeout call d.source.source =
      (.ok ⟨data, false⟩, next, state)) :
    exec (awaitChunk source.watched) d =
      (.ok (), ⟨{ d.streamer with flight := none, buffer := data },
        ⟨state, d.source.marks, .waited call (.ok ⟨data, false⟩) next :: d.source.ledger⟩⟩) := by
  simp [awaitChunk, exec_bind, hflight, ChunkSource.watched, hwait]

theorem exec_awaitChunk_of_last {data : Bytes} (hflight : d.streamer.flight = some call)
    (hwait : source.wait d.streamer.timeout call d.source.source =
      (.ok ⟨data, true⟩, next, state)) :
    exec (awaitChunk source.watched) d = exec (releaseExhausted source.watched)
      ⟨{ d.streamer with flight := none, buffer := data, lastSeen := true },
        ⟨state, d.source.marks, .waited call (.ok ⟨data, true⟩) next :: d.source.ledger⟩⟩ := by
  simp [awaitChunk, exec_bind, hflight, ChunkSource.watched, hwait]

theorem exec_releaseExhausted (h : d.source.marks.released = false) :
    exec (releaseExhausted source.watched) d = (.ok (),
      let (outcome, state) :=
        source.release d.streamer.stream d.streamer.reference d.source.source
      ⟨d.streamer, ⟨state, { d.source.marks with released := true },
        .released d.streamer.stream d.streamer.reference outcome :: d.source.ledger⟩⟩) := by
  simp [releaseExhausted, claimRelease, exec_bind, exec_map, Except.map, ChunkSource.watched, h]

/-- Whatever becomes of a wait, it is noted. -/
theorem awaitChunk_notes {outcome : Except Fault Chunk} (hflight : d.streamer.flight = some call)
    (hwait : source.wait d.streamer.timeout call d.source.source = (outcome, next, state)) :
    .waited call outcome next :: d.source.ledger <:+
      (exec (awaitChunk source.watched) d).2.source.ledger := by
  cases outcome with
  | error fault =>
    rw [exec_awaitChunk_of_error hflight hwait]
  | ok chunk =>
    obtain ⟨data, last⟩ := chunk
    cases last with
    | false =>
      rw [exec_awaitChunk_of_more hflight hwait]
    | true =>
      rw [exec_awaitChunk_of_last hflight hwait]
      refine List.IsSuffix.trans ?_ (Extends.releaseExhausted _)
      exact List.suffix_rfl

end Await

/-- The chunk under way comes in, or the wait for it times out. -/
theorem awaitChunk_keeps (hs : Sound chunks d) {call : H}
    (hflight : d.streamer.flight = some call) (hbuffer : d.streamer.buffer = [])
    (hserves : Serves chunks (exec (awaitChunk source.watched) d).2.source.ledger) :
    ∃ r e, exec (awaitChunk source.watched) d = (r, e) ∧ Keeps chunks d e ∧
      ((∃ fault, r = .error (.fault fault) ∧ fault.isTimeout = true ∧ e.streamer.buffer = []) ∨
        (r = .ok () ∧ arrivals e = arrivals d + 1)) := by
  have hlast := hs.lastSeen_of_flight hflight
  have hlt := hs.arrivals_lt hlast
  rcases hwait : source.wait d.streamer.timeout call d.source.source with ⟨outcome, next, state⟩
  have hentry := hserves _ _ (awaitChunk_notes hflight hwait) (arrivals d) chunks[arrivals d]
    (hs.requests_of_flight hflight) (List.getElem?_eq_getElem hlt)
  have hunread :
      unread chunks d = chunks[arrivals d] ++ (chunks.drop (arrivals d + 1)).flatten := by
    rw [unread, hbuffer, List.drop_eq_getElem_cons hlt]
    rfl
  rcases hentry with ⟨fault, rfl, ht⟩ | rfl
  · refine ⟨_, _, exec_awaitChunk_of_error hflight hwait,
      ⟨hs.timedOut hflight ht next state, ?_, rfl⟩, .inl ⟨fault, rfl, ht, hbuffer⟩⟩
    simp [unread, arrivals, ChunkAsk.isArrival]
  · by_cases hall : arrivals d + 1 = chunks.length
    · rw [beq_iff_eq.2 hall] at hwait
      have hreleased : d.source.marks.released = false := hs.released.trans hlast
      refine ⟨_, _, (exec_awaitChunk_of_last hflight hwait).trans
        (exec_releaseExhausted hreleased), ⟨hs.arrivedLast hflight hall _ next _ _ _ _, ?_, rfl⟩,
        .inr ⟨rfl, ?_⟩⟩
      · rw [hunread]
        simp [unread, arrivals, ChunkAsk.isArrival]
      · simp [arrivals, ChunkAsk.isArrival]
    · rw [beq_eq_false_iff_ne.2 hall] at hwait
      refine ⟨_, _, exec_awaitChunk_of_more hflight hwait,
        ⟨hs.arrived hflight (Nat.lt_of_le_of_ne hlt hall) _ next state, ?_, rfl⟩, .inr ⟨rfl, ?_⟩⟩
      · rw [hunread]
        simp [unread, arrivals, ChunkAsk.isArrival]
      · simp [arrivals, ChunkAsk.isArrival]

/-- At the end of the content nothing is left and nothing more comes in. -/
structure Ended (d : Desk (Watched σ H) H) : Prop where
  buffer : d.streamer.buffer = []
  lastSeen : d.streamer.lastSeen = true

theorem Sound.unread_of_ended (hs : Sound chunks d) (h : Ended d) : unread chunks d = [] := by
  simp [unread, h.buffer, hs.lastSeen_iff.1 h.lastSeen]

/-- Bytes are made available, unless the content has come to its end or a wait times out. -/
theorem fill_keeps {rounds : Nat} (hs : Sound chunks d)
    (hrounds : chunks.length - arrivals d < rounds)
    (hserves : Serves chunks (exec (fill source.watched rounds) d).2.source.ledger) :
    ∃ r e, exec (fill source.watched rounds) d = (r, e) ∧ Keeps chunks d e ∧
      ((r = .ok true ∧ e.streamer.buffer ≠ []) ∨ (r = .ok false ∧ Ended e) ∨
        ∃ fault, r = .error (.fault fault) ∧ fault.isTimeout = true ∧
          e.streamer.buffer = []) := by
  induction rounds generalizing d with
  | zero => cases hrounds
  | succ rounds ih =>
    rw [exec_fill hs.opened] at hserves ⊢
    by_cases hbuffer : d.streamer.buffer = []
    · cases hlast : d.streamer.lastSeen with
      | true => exact ⟨_, _, by simp [hbuffer], ⟨hs, rfl, rfl⟩, .inr (.inl ⟨rfl, hbuffer, hlast⟩)⟩
      | false =>
        simp only [hbuffer, hlast, ne_eq, not_true_eq_false, if_false, Bool.false_eq_true]
          at hserves ⊢
        have hrest (_ : Unit) :
            Extends (do awaitChunk source.watched; fill source.watched rounds) :=
          .bind .awaitChunk fun _ => .fill rounds
        obtain ⟨e, call, hrequest, hasked, hstreamer, harrivals⟩ := requestChunk_keeps hs hlast
          (hserves.of_suffix (Extends.suffix_bind (requestChunk source.watched) hrest d))
        rw [exec_bind_ok hrequest] at hserves ⊢
        have hflight : e.streamer.flight = some call := by rw [hstreamer]
        obtain ⟨r, f, hawait, hanswered, hcase⟩ := awaitChunk_keeps hasked.sound hflight
          (by rw [hstreamer, hbuffer])
          (hserves.of_suffix (Extends.suffix_bind (awaitChunk source.watched)
            (fun _ => Extends.fill rounds) e))
        have hkeeps := hasked.trans hanswered
        rcases hcase with ⟨fault, rfl, ht, hempty⟩ | ⟨rfl, hmore⟩
        · rw [exec_bind_error hawait]
          exact ⟨_, _, rfl, hkeeps, .inr (.inr ⟨fault, rfl, ht, hempty⟩)⟩
        · rw [exec_bind_ok hawait] at hserves ⊢
          have hlt := hs.arrivals_lt hlast
          obtain ⟨r, g, hfill, hfilled, hresult⟩ := ih hkeeps.sound (by omega) hserves
          exact ⟨r, g, hfill, hkeeps.trans hfilled, hresult⟩
    · exact ⟨_, _, by simp [hbuffer], ⟨hs, rfl, rfl⟩, .inl ⟨rfl, hbuffer⟩⟩

end QueryClient.Streamer
