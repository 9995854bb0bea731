import QueryClient.Proofs.Lob.Resumption

/-!
# The handle that a streamer holds

A streamer holds the handle of the last request that was granted until a chunk comes in for it. A
wait that fails leaves it with the handle whatever the failure is, so that it goes on to wait with a
handle that is spent (`failed_chunk_waited_again`). Nothing else is asked of the source then, and
reads come to nothing for as long as these waits fail (`reads_hold`).
-/

namespace QueryClient

namespace Lob

variable {H : Type}

/-- The handle of the last request that was granted, as the last wait left it, until a chunk comes
in for it. -/
def held? : List (ChunkAsk H) → Option H
  | [] => none
  | .requested _ _ (.ok call) :: _ => some call
  | .requested _ _ (.error _) :: before => held? before
  | .waited _ (.ok _) _ :: _ => none
  | .waited _ (.error _) next :: before => (held? before).map fun _ => next
  | .abandoned _ :: _ => none
  | .released .. :: before => held? before

/-- Whether one of the waits since the last request that was granted, none of which brought a chunk,
failed other than by timing out. -/
def isSpent : List (ChunkAsk H) → Bool
  | [] => false
  | .requested _ _ (.ok _) :: _ => false
  | .requested _ _ (.error _) :: before => isSpent before
  | .waited _ (.ok _) _ :: _ => false
  | .waited _ (.error fault) _ :: before => !fault.isTimeout || isSpent before
  | .abandoned _ :: _ => false
  | .released .. :: before => isSpent before

/-- What is outstanding is what is held, unless that is spent. -/
theorem outstanding?_eq (ledger : List (ChunkAsk H)) :
    outstanding? ledger = if isSpent ledger then none else held? ledger := by
  induction ledger with
  | nil => rfl
  | cons entry before ih =>
    cases entry with
    | requested _ _ outcome =>
      cases outcome with
      | ok call => rfl
      | error fault => exact ih
    | waited _ outcome next =>
      cases outcome with
      | ok chunk => rfl
      | error fault =>
        cases ht : fault.isTimeout with
        | false => simp [outstanding?, isSpent, ht]
        | true =>
          simp only [outstanding?, isSpent, held?, ht, ih]
          cases isSpent before <;> rfl
    | abandoned => rfl
    | released => exact ih

/-- Whether something is asked as long as it may be, and with the handle that is held. -/
def ChunkAsk.Held (before : List (ChunkAsk H)) : ChunkAsk H → Prop
  | .requested .. => held? before = none
  | .waited call _ _ => held? before = some call
  | .abandoned _ => False
  | .released .. => ∃ call chunk next earlier,
    before = .waited call (.ok chunk) next :: earlier ∧ chunk.isLast = true

/-- Whether a wait is with a handle for which all waits before have timed out. -/
def ChunkAsk.Lawful (before : List (ChunkAsk H)) : ChunkAsk H → Prop
  | .waited call _ _ => outstanding? before = some call
  | _ => True

/-- Whether a wait with a spent handle brings nothing. -/
def ChunkAsk.Fruitless (before : List (ChunkAsk H)) : ChunkAsk H → Prop
  | .waited _ outcome _ => isSpent before = true → ∃ fault, outcome = .error fault
  | _ => True

section Held

variable {entry : ChunkAsk H} {before ledger : List (ChunkAsk H)}

/-- A handle that is spent is held. -/
theorem held_of_isSpent (h : Throughout ChunkAsk.Held ledger) (hspent : isSpent ledger = true) :
    ∃ call, held? ledger = some call := by
  induction ledger with
  | nil => cases hspent
  | cons entry before ih =>
    obtain ⟨hentry, hbefore⟩ := throughout_cons.1 h
    cases entry with
    | requested _ _ outcome =>
      cases outcome with
      | ok call => cases hspent
      | error fault => exact ih hbefore hspent
    | waited call outcome next =>
      cases outcome with
      | ok chunk => cases hspent
      | error fault =>
        have hheld : held? before = some call := hentry
        exact ⟨next, by rw [held?, hheld]; rfl⟩
    | abandoned => cases hspent
    | released => exact ih hbefore hspent

/-- Nothing is asked after a handle is spent but to wait with it. -/
theorem waited_of_isSpent (h : Throughout ChunkAsk.Held (entry :: before))
    (hspent : isSpent before = true) :
    ∃ call outcome next, entry = .waited call outcome next ∧ held? before = some call := by
  obtain ⟨hentry, hbefore⟩ := throughout_cons.1 h
  obtain ⟨call, hheld⟩ := held_of_isSpent hbefore hspent
  cases entry with
  | requested =>
    have hfree : held? before = none := hentry
    rw [hfree] at hheld
    cases hheld
  | waited call outcome next => exact ⟨call, outcome, next, rfl, hentry⟩
  | abandoned => exact hentry.elim
  | released =>
    obtain ⟨call, chunk, next, earlier, rfl, -⟩ := hentry
    cases hspent

/-- All waits are lawful exactly when nothing is asked after a handle is spent. -/
theorem lawful_iff (h : Throughout ChunkAsk.Held ledger) :
    Throughout ChunkAsk.Lawful ledger ↔
      Throughout (fun before _ => isSpent before = false) ledger := by
  constructor
  · intro hlawful entry before hsuffix
    cases hspent : isSpent before with
    | false => rfl
    | true =>
      obtain ⟨call, outcome, next, rfl, -⟩ := waited_of_isSpent (h.of_suffix hsuffix) hspent
      have hout : outstanding? before = some call := hlawful _ _ hsuffix
      rw [outstanding?_eq, hspent] at hout
      cases hout
  · intro hfresh entry before hsuffix
    cases entry with
    | waited call outcome next =>
      have hheld : held? before = some call := h _ _ hsuffix
      have hspent : isSpent before = false := hfresh _ _ hsuffix
      rwa [ChunkAsk.Lawful, outstanding?_eq, hspent]
    | _ => trivial

/-- Once a handle is spent no request is made and no chunk comes in, if waits with spent handles
bring nothing. -/
theorem counts_of_isSpent (h : Throughout ChunkAsk.Held ledger)
    (hfruitless : Throughout ChunkAsk.Fruitless ledger) (hsuffix : before <:+ ledger)
    (hspent : isSpent before = true) :
    isSpent ledger = true ∧
      ledger.countP (·.isRequest) = before.countP (·.isRequest) ∧
      ledger.countP (·.isArrival) = before.countP (·.isArrival) := by
  induction ledger with
  | nil =>
    obtain rfl := List.suffix_nil.1 hsuffix
    cases hspent
  | cons entry earlier ih =>
    rcases List.suffix_cons_iff.1 hsuffix with rfl | hsuffix
    · exact ⟨hspent, rfl, rfl⟩
    · obtain ⟨hnow, hbefore⟩ := throughout_cons.1 hfruitless
      obtain ⟨hstill, hrequests, harrivals⟩ := ih (throughout_cons.1 h).2 hbefore hsuffix
      obtain ⟨call, outcome, next, rfl, -⟩ := waited_of_isSpent h hstill
      obtain ⟨fault, rfl⟩ := hnow hstill
      exact ⟨by simp [isSpent, hstill], hrequests, harrivals⟩

end Held

end Lob

namespace Streamer

open Attempt Lob

variable {σ H : Type} {source : ChunkSource σ H} {rounds : Nat} {d : Desk (Watched σ H) H}

/-- A streamer that has what its ledger says it holds. -/
structure Holding (d : Desk (Watched σ H) H) : Prop where
  flight : d.streamer.flight = held? d.source.ledger
  held : Throughout ChunkAsk.Held d.source.ledger

namespace Holding

theorem fresh (stream : UInt64) (reference : LobReference) (timeout : Duration) (s : σ) :
    Holding (fresh stream reference timeout s : Desk (Watched σ H) H) :=
  ⟨rfl, throughout_nil⟩

theorem deliver (n : Nat) : Preserves Holding (deliver n : Reading (Watched σ H) H Bytes) :=
  fun _ h => ⟨h.flight, h.held⟩

theorem requestChunk : Preserves Holding (requestChunk source.watched) := by
  intro d h
  cases hflight : d.streamer.flight with
  | some call =>
    have hexec : exec (Streamer.requestChunk source.watched) d = (.ok (), d) := by
      simp [Streamer.requestChunk, exec_bind, hflight]
    rwa [hexec]
  | none =>
    have hfree : held? d.source.ledger = none := h.flight.symm.trans hflight
    rcases hrequest : source.request d.streamer.stream d.streamer.reference d.source.source with
      ⟨fault | call, state⟩
    · have hexec : (exec (Streamer.requestChunk source.watched) d).2 = ⟨d.streamer, ⟨state,
          d.source.marks, .requested d.streamer.stream d.streamer.reference (.error fault) ::
            d.source.ledger⟩⟩ := by
        simp [Streamer.requestChunk, exec_bind, hflight, ChunkSource.watched, hrequest]
      rw [hexec]
      exact ⟨h.flight, throughout_cons.2 ⟨hfree, h.held⟩⟩
    · have hexec : (exec (Streamer.requestChunk source.watched) d).2 =
          ⟨{ d.streamer with flight := some call }, ⟨state, d.source.marks,
            .requested d.streamer.stream d.streamer.reference (.ok call) ::
              d.source.ledger⟩⟩ := by
        simp [Streamer.requestChunk, exec_bind, hflight, ChunkSource.watched, hrequest]
      rw [hexec]
      exact ⟨rfl, throughout_cons.2 ⟨hfree, h.held⟩⟩

/-- The remote stream is released when the last chunk has come in. -/
theorem releaseExhausted (h : Holding d) {call : H} {chunk : Chunk} {next : H}
    {before : List (ChunkAsk H)}
    (hledger : d.source.ledger = .waited call (.ok chunk) next :: before)
    (hlast : chunk.isLast = true) :
    Holding (exec (releaseExhausted source.watched) d).2 := by
  cases hreleased : d.source.marks.released with
  | true =>
    have hexec : (exec (Streamer.releaseExhausted source.watched) d).2 =
        ⟨d.streamer, { d.source with marks := { d.source.marks with released := true } }⟩ := by
      simp [Streamer.releaseExhausted, claimRelease, exec_bind, ChunkSource.watched, hreleased]
    rw [hexec]
    exact ⟨h.flight, h.held⟩
  | false =>
    rw [exec_releaseExhausted hreleased]
    exact ⟨h.flight, throughout_cons.2 ⟨⟨call, chunk, next, before, hledger, hlast⟩, h.held⟩⟩

theorem awaitChunk : Preserves Holding (awaitChunk source.watched) := by
  intro d h
  cases hflight : d.streamer.flight with
  | none =>
    have hexec : exec (Streamer.awaitChunk source.watched) d = (.ok (), d) := by
      simp [Streamer.awaitChunk, exec_bind, hflight]
    rwa [hexec]
  | some call =>
    have hheld : held? d.source.ledger = some call := h.flight.symm.trans hflight
    rcases hwait : source.wait d.streamer.timeout call d.source.source with
      ⟨fault | ⟨data, last⟩, next, state⟩
    · rw [exec_awaitChunk_of_error hflight hwait]
      exact ⟨by simp [held?, hheld], throughout_cons.2 ⟨hheld, h.held⟩⟩
    · cases last with
      | false =>
        rw [exec_awaitChunk_of_more hflight hwait]
        exact ⟨rfl, throughout_cons.2 ⟨hheld, h.held⟩⟩
      | true =>
        rw [exec_awaitChunk_of_last hflight hwait]
        refine releaseExhausted ⟨rfl, throughout_cons.2 ⟨hheld, h.held⟩⟩ rfl rfl

theorem fill : Preserves Holding (fill source.watched rounds) := by
  induction rounds with
  | zero => exact .throw _
  | succ rounds ih =>
    refine .bind (.ensureOpen _) fun _ => .bind .streamer fun s => ?_
    by_cases hbuffer : s.buffer.isEmpty
    · by_cases hlast : s.lastSeen
      · simpa [hbuffer, hlast] using .pure _
      · simpa [hbuffer, hlast] using .bind requestChunk fun _ => .bind awaitChunk fun _ => ih
    · simpa [hbuffer] using .pure _

theorem retrieveAll (h : Holding d) (calls : List Retrieval) :
    Holding (retrieveAll source.watched rounds calls d).2 := by
  induction calls generalizing d with
  | nil => exact h
  | cons call calls ih => exact ih (Preserves.retrieve fill deliver call d h)

end Holding

/-- **What is waited with.** In every sequence of reads, a chunk is asked for only while no handle
is held, and all waits are with the handle that is held. They are with an outstanding one exactly
when nothing is asked after a wait that failed other than by timing out. For after such a wait the
streamer only waits on, and when waits with a spent handle bring nothing, it neither asks for a
chunk nor gets one ever again. -/
theorem reads_hold (source : ChunkSource σ H) (rounds : Nat) (stream : UInt64)
    (reference : LobReference) (timeout : Duration) (s : σ) (calls : List Retrieval) :
    let ledger := (retrieveAll source.watched rounds calls
      (fresh stream reference timeout s)).2.source.ledger
    Throughout ChunkAsk.Held ledger ∧
      (Throughout ChunkAsk.Lawful ledger ↔
        Throughout (fun before _ => isSpent before = false) ledger) ∧
      ∀ before, before <:+ ledger → isSpent before = true →
        (∀ entry, entry :: before <:+ ledger → ∃ call outcome next,
          entry = .waited call outcome next ∧ held? before = some call) ∧
        (Throughout ChunkAsk.Fruitless ledger →
          ledger.countP (·.isRequest) = before.countP (·.isRequest) ∧
          ledger.countP (·.isArrival) = before.countP (·.isArrival)) := by
  intro ledger
  have hheld : Throughout ChunkAsk.Held ledger :=
    (Holding.retrieveAll (.fresh stream reference timeout s) calls).held
  refine ⟨hheld, lawful_iff hheld, fun before hsuffix hspent => ⟨fun entry hentry => ?_,
    fun hfruitless => (counts_of_isSpent hheld hfruitless hsuffix hspent).2⟩⟩
  exact waited_of_isSpent (hheld.of_suffix hentry) hspent

/-- Why a chunk cannot be read. -/
def unreadableChunk : ServerException where
  className := some "engine.LobException"
  code := some "E-13"
  message := "chunk cannot be read"

/-- A source of two bytes that fails the first request for them, and would grant a second one. -/
def failingScript : Script where
  requests := [
    .accepted [.error (.remote unreadableChunk)],
    .accepted [.ok ⟨Utf8.encode "ab", true⟩]]
  closeFault := none
  log := []
  marks := ⟨false, false⟩

/-- A read that comes after a chunk has failed waits again with the handle that is spent, and does
not ask for the chunk that it would get. -/
theorem failed_chunk_waited_again :
    let first := fresh 1 textReference (.seconds 1) failingScript
    let tried := exec (read Script.source.watched 4 2) first
    let again := exec (read Script.source.watched 4 2) tried.2
    tried.1 = .error (.fault (.remote unreadableChunk)) ∧
      outstanding? tried.2.source.ledger = none ∧
      again.1 = .error (.fault (.protocol (.stated "reply already consumed"))) ∧
      again.2.source.ledger.countP (·.isRequest) = 1 ∧
      ¬ Throughout ChunkAsk.Lawful again.2.source.ledger := by
  refine ⟨rfl, rfl, rfl, rfl, fun hlawful => ?_⟩
  cases hlawful _ _ List.suffix_rfl

end Streamer

end QueryClient
