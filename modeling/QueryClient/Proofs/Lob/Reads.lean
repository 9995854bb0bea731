import QueryClient.Proofs.Lob.Streaming

/-!
# Sequences of reads

Reads of single bytes and of many share one way of handing out what is in the buffer. Over a whole
sequence of them the content comes out once and in order, and the source is asked for each chunk
once.
-/

namespace QueryClient.Streamer

open Attempt Lob

variable {σ H : Type} {source : ChunkSource σ H} {chunks : List Bytes} {rounds : Nat}
  {d e : Desk (Watched σ H) H}

/-- A read of the next byte, or of up to some number of bytes. -/
inductive ReadCall where
  | byte
  | upTo (n : Nat)
deriving DecidableEq, Repr

namespace ReadCall

/-- The most bytes that are asked for. -/
def most : ReadCall → Nat
  | byte => 1
  | upTo n => n

def perform (source : ChunkSource σ H) (rounds : Nat) : ReadCall → Reading σ H Bytes
  | byte => return (← readByte source rounds).toList
  | upTo n => read source rounds n

end ReadCall

/-- The streamer and its source after a sequence of reads. -/
def afterReads (source : ChunkSource σ H) (rounds : Nat) (calls : List ReadCall)
    (d : Desk σ H) : Desk σ H :=
  calls.foldl (fun d call => (exec (call.perform source rounds) d).2) d

/-- The answers to a sequence of reads. -/
def transcript (source : ChunkSource σ H) (rounds : Nat) :
    List ReadCall → Desk σ H → List (ReadCall × Except Stop Bytes)
  | [], _ => []
  | call :: calls, d =>
    (call, (exec (call.perform source rounds) d).1) ::
      transcript source rounds calls (exec (call.perform source rounds) d).2

/-- The bytes that are handed out in a sequence of reads. -/
def delivered (answers : List (ReadCall × Except Stop Bytes)) : Bytes :=
  answers.flatMap fun answer => answer.2.toOption.getD []

/-! ## One read -/

/-- Makes bytes available and hands out up to `n` of them; none at the end of the stream. -/
def drain (source : ChunkSource σ H) (rounds n : Nat) : Reading σ H Bytes := do
  if ← fill source rounds then
    deliver n
  else
    return []

theorem exec_perform (call : ReadCall) (h : call.most ≠ 0) (source : ChunkSource σ H)
    (rounds : Nat) (d : Desk σ H) :
    exec (call.perform source rounds) d = exec (drain source rounds call.most) d := by
  cases call with
  | byte =>
    simp only [ReadCall.perform, readByte, drain, ReadCall.most, exec_bind]
    rcases exec (fill source rounds) d with ⟨_ | available, e⟩
    · rfl
    · cases available with
      | true =>
        simp only [if_true, exec_bind, exec_deliver]
        cases e.streamer.buffer <;> rfl
      | false => rfl
  | upTo n =>
    have hn : n ≠ 0 := h
    simp [ReadCall.perform, read, drain, ReadCall.most, hn]

/-- To ask for nothing is to find out whether the streamer is open. -/
theorem exec_perform_of_most_eq_zero {call : ReadCall} (h : call.most = 0)
    {source : ChunkSource σ H} {d : Desk σ H}
    (hopened : (source.marks d.streamer.stream d.source).closed = false) :
    exec (call.perform source rounds) d = (.ok [], d) := by
  cases call with
  | byte => cases h
  | upTo n =>
    obtain rfl : n = 0 := h
    simp [ReadCall.perform, read, exec_map, Except.map, exec_ensureOpen hopened]

section Preserves

variable {source : ChunkSource σ H} {P : Desk σ H → Prop}

theorem Preserves.handOut (hdeliver : ∀ n, Preserves P (deliver n)) (n : Nat) (available : Bool) :
    Preserves P (if available then deliver n else return [] : Reading σ H Bytes) := by
  cases available with
  | true => exact hdeliver n
  | false => exact .pure []

theorem Preserves.perform (hfill : Preserves P (fill source rounds))
    (hdeliver : ∀ n, Preserves P (deliver n)) (call : ReadCall) :
    Preserves P (call.perform source rounds) := by
  by_cases h : call.most = 0
  · cases call with
    | byte => cases h
    | upTo n =>
      obtain rfl : n = 0 := h
      exact .bind (.ensureOpen source) fun _ => .pure []
  · intro d
    rw [exec_perform call h]
    exact Preserves.bind hfill (.handOut hdeliver call.most) d

end Preserves

theorem Extends.handOut (n : Nat) (available : Bool) :
    Extends (if available then deliver n else return [] : Reading (Watched σ H) H Bytes) :=
  .of_preserves fun _ => .handOut (fun _ _ h => h) n available

theorem Extends.perform (call : ReadCall) : Extends (call.perform source.watched rounds) :=
  .of_preserves fun ledger => .perform ((Extends.fill rounds).preserves ledger) (fun _ _ h => h) call

/-- What is handed out comes off the front of what is unread. -/
theorem Sound.delivered (hs : Sound chunks d) (n : Nat) :
    Sound chunks (exec (deliver n) d).2 ∧
      unread chunks d = d.streamer.buffer.take n ++ unread chunks (exec (deliver n) d).2 := by
  refine ⟨⟨hs.opened, hs.released, hs.flight, hs.arrivals_le, hs.lastSeen_iff, hs.idle,
    hs.requests_eq, hs.releases_eq, hs.disciplined⟩, ?_⟩
  simp [unread, arrivals, exec_deliver, ← List.append_assoc]

/-- What a read may come to: it hands out the first of what is unread, no more than is asked for,
and nothing at all only if nothing is asked for or the content has come to its end; or it times out
and hands out nothing. -/
inductive Reads (chunks : List Bytes) (call : ReadCall) (d e : Desk (Watched σ H) H) :
    Except Stop Bytes → Prop
  | handedOut {bytes : Bytes} (sound : Sound chunks e) (hlength : bytes.length ≤ call.most)
      (hunread : unread chunks d = bytes ++ unread chunks e)
      (hbytes : e.streamer.bytesRead = d.streamer.bytesRead + bytes.length)
      (hend : bytes = [] → call.most ≠ 0 → Ended e) : Reads chunks call d e (.ok bytes)
  | timedOut {fault : Fault} (ht : fault.isTimeout = true) (keeps : Keeps chunks d e) :
      Reads chunks call d e (.error (.fault fault))

theorem perform_reads (hs : Sound chunks d) (hrounds : chunks.length < rounds) (call : ReadCall)
    (hserves : Serves chunks (exec (call.perform source.watched rounds) d).2.source.ledger) :
    Reads chunks call d (exec (call.perform source.watched rounds) d).2
      (exec (call.perform source.watched rounds) d).1 := by
  by_cases h : call.most = 0
  · rw [exec_perform_of_most_eq_zero h hs.opened]
    exact .handedOut hs (Nat.zero_le _) rfl rfl fun _ hmost => absurd h hmost
  · rw [exec_perform call h] at hserves ⊢
    have hfilled := hserves.of_suffix (Extends.suffix_bind (fill source.watched rounds)
      (.handOut call.most) d)
    obtain ⟨r, e, hfill, hkeeps, hcase⟩ := fill_keeps hs (by omega) hfilled
    rw [drain] at hserves ⊢
    rcases hcase with ⟨rfl, hbuffer⟩ | ⟨rfl, hended⟩ | ⟨fault, rfl, ht, -⟩
    · rw [exec_bind_ok hfill]
      obtain ⟨hsound, hunread⟩ := hkeeps.sound.delivered call.most
      refine .handedOut hsound (List.length_take_le _ _) (hkeeps.unread_eq.symm.trans hunread) ?_ ?_
      · simp [exec_deliver, hkeeps.bytesRead_eq]
      · intro hnil hmost
        rcases List.take_eq_nil_iff.1 hnil with hzero | hempty
        · exact absurd hzero hmost
        · exact absurd hempty hbuffer
    · rw [exec_bind_ok hfill]
      exact .handedOut hkeeps.sound (Nat.zero_le _) hkeeps.unread_eq.symm hkeeps.bytesRead_eq
        fun _ _ => hended
    · rw [exec_bind_error hfill]
      exact .timedOut ht hkeeps

/-- At its end a streamer has nothing more to give, and asks for nothing. -/
theorem exec_perform_of_ended (hs : Sound chunks d) (hended : Ended d)
    (hrounds : chunks.length < rounds) (call : ReadCall) :
    exec (call.perform source.watched rounds) d = (.ok [], d) := by
  by_cases h : call.most = 0
  · exact exec_perform_of_most_eq_zero h hs.opened
  · obtain ⟨rounds, rfl⟩ := Nat.exists_eq_add_one_of_ne_zero (Nat.ne_zero_of_lt hrounds)
    rw [exec_perform call h, drain, exec_bind, exec_fill hs.opened]
    simp [hended.buffer, hended.lastSeen]

/-! ## A sequence of reads -/

theorem afterReads_cons (source : ChunkSource σ H) (call : ReadCall) (calls : List ReadCall)
    (d : Desk σ H) :
    afterReads source rounds (call :: calls) d =
      afterReads source rounds calls (exec (call.perform source rounds) d).2 := rfl

theorem afterReads_append (source : ChunkSource σ H) (before after : List ReadCall)
    (d : Desk σ H) :
    afterReads source rounds (before ++ after) d =
      afterReads source rounds after (afterReads source rounds before d) :=
  List.foldl_append

theorem suffix_afterReads (calls : List ReadCall) (d : Desk (Watched σ H) H) :
    d.source.ledger <:+ (afterReads source.watched rounds calls d).source.ledger := by
  induction calls generalizing d with
  | nil => exact List.suffix_rfl
  | cons call calls ih => exact (Extends.perform call d).trans (ih _)

theorem delivered_cons (answer : ReadCall × Except Stop Bytes)
    (answers : List (ReadCall × Except Stop Bytes)) :
    delivered (answer :: answers) = answer.2.toOption.getD [] ++ delivered answers :=
  List.flatMap_cons

/-- Whether an answer is some bytes, no more than were asked for, or a timeout. -/
def Answered (answer : ReadCall × Except Stop Bytes) : Prop :=
  (∃ bytes, answer.2 = .ok bytes ∧ bytes.length ≤ answer.1.most) ∨
    ∃ fault, answer.2 = .error (.fault fault) ∧ fault.isTimeout = true

/-- What a sequence of reads leaves of the content, and what it has handed out. -/
structure Streams (chunks : List Bytes) (d e : Desk (Watched σ H) H)
    (answers : List (ReadCall × Except Stop Bytes)) : Prop where
  sound : Sound chunks e
  unread_eq : unread chunks d = delivered answers ++ unread chunks e
  bytesRead_eq : e.streamer.bytesRead = d.streamer.bytesRead + (delivered answers).length
  answered : ∀ answer ∈ answers, Answered answer

theorem streams_afterReads (hs : Sound chunks d) (hrounds : chunks.length < rounds)
    (calls : List ReadCall)
    (hserves : Serves chunks (afterReads source.watched rounds calls d).source.ledger) :
    Streams chunks d (afterReads source.watched rounds calls d)
      (transcript source.watched rounds calls d) := by
  induction calls generalizing d with
  | nil => exact ⟨hs, rfl, rfl, by simp [transcript]⟩
  | cons call calls ih =>
    rw [afterReads_cons] at hserves ⊢
    rw [transcript]
    have hread := perform_reads hs hrounds call
      (hserves.of_suffix (suffix_afterReads calls _))
    generalize exec (call.perform source.watched rounds) d = result at hread hserves ⊢
    obtain ⟨r, e⟩ := result
    cases hread with
    | handedOut sound hlength hunread hbytes hend =>
      have hrest := ih sound hserves
      refine ⟨hrest.sound, ?_, ?_, List.forall_mem_cons.2 ⟨.inl ⟨_, rfl, hlength⟩, hrest.answered⟩⟩
      · rw [delivered_cons, hunread, hrest.unread_eq, ← List.append_assoc]
        rfl
      · rw [delivered_cons, hrest.bytesRead_eq, hbytes, List.length_append, Nat.add_assoc]
        rfl
    | timedOut ht keeps =>
      have hrest := ih keeps.sound hserves
      refine ⟨hrest.sound, ?_, ?_, List.forall_mem_cons.2 ⟨.inr ⟨_, rfl, ht⟩, hrest.answered⟩⟩
      · rw [delivered_cons, ← keeps.unread_eq, hrest.unread_eq]
        rfl
      · rw [delivered_cons, hrest.bytesRead_eq, keeps.bytesRead_eq]
        rfl

theorem transcript_of_ended (hs : Sound chunks d) (hended : Ended d)
    (hrounds : chunks.length < rounds) (calls : List ReadCall) :
    ∀ answer ∈ transcript source.watched rounds calls d, answer.2 = .ok [] := by
  induction calls with
  | nil => simp [transcript]
  | cons call calls ih =>
    rw [transcript, exec_perform_of_ended hs hended hrounds call]
    exact List.forall_mem_cons.2 ⟨rfl, ih⟩

/-- **Reads deliver the content.** Over a source that serves a content in chunks, whatever is read
and however often waits time out: every read brings some bytes, no more than it asks for, or a
timeout; what has been handed out and what is unread are the content; a read that times out hands
out nothing and loses nothing; the end is reported once everything has been handed out, and from
then on. The source is asked for each chunk at most once and never while another is outstanding, and
the remote stream is released with the last chunk and only then. -/
theorem reads_deliver (source : ChunkSource σ H) (hchunks : chunks ≠ [])
    (hrounds : chunks.length < rounds) (stream : UInt64) (reference : LobReference)
    (timeout : Duration) (s : σ) (calls : List ReadCall)
    (hserves : Serves chunks (afterReads source.watched rounds calls
      (fresh stream reference timeout s)).source.ledger) :
    let first : Desk (Watched σ H) H := fresh stream reference timeout s
    let last := afterReads source.watched rounds calls first
    let answers := transcript source.watched rounds calls first
    (∀ answer ∈ answers, Answered answer) ∧
    delivered answers ++ unread chunks last = chunks.flatten ∧
    last.streamer.bytesRead = (delivered answers).length ∧
    (∀ before call after, calls = before ++ call :: after →
      let d := afterReads source.watched rounds before first
      let read := exec (call.perform source.watched rounds) d
      (∀ stop, read.1 = .error stop → unread chunks read.2 = unread chunks d ∧
        read.2.streamer.bytesRead = d.streamer.bytesRead) ∧
      (read.1 = .ok [] → call.most ≠ 0 →
        delivered (transcript source.watched rounds before first) = chunks.flatten ∧
        ∀ later ∈ transcript source.watched rounds after read.2, later.2 = .ok [])) ∧
    last.source.ledger.countP (·.isRequest) ≤ chunks.length ∧
    Disciplined chunks.length last.source.ledger ∧
    last.source.ledger.countP (·.isRelease) = if arrivals last = chunks.length then 1 else 0 := by
  intro first last answers
  have hsound : Sound chunks first := sound_fresh hchunks stream reference timeout s
  have hstreams : Streams chunks first last answers :=
    streams_afterReads hsound hrounds calls hserves
  refine ⟨?_, ?_, ?_, ?_, ?_, ?_, ?_⟩
  · exact hstreams.answered
  · rw [← hstreams.unread_eq]
    exact unread_fresh stream reference timeout s
  · rw [hstreams.bytesRead_eq]
    exact Nat.zero_add _
  · rintro before call after rfl d read
    have hserved : Serves chunks (afterReads source.watched rounds after read.2).source.ledger := by
      rwa [afterReads_append, afterReads_cons] at hserves
    have hnow : Serves chunks read.2.source.ledger := hserved.of_suffix (suffix_afterReads after _)
    have hbefore : Streams chunks first d (transcript source.watched rounds before first) :=
      streams_afterReads hsound hrounds before (hnow.of_suffix (Extends.perform call d))
    have hread : Reads chunks call d read.2 read.1 :=
      perform_reads hbefore.sound hrounds call hnow
    generalize read = result at hread
    obtain ⟨r, e⟩ := result
    cases hread with
    | timedOut ht keeps =>
      refine ⟨fun _ _ => ⟨keeps.unread_eq, keeps.bytesRead_eq⟩, fun h => ?_⟩
      cases h
    | handedOut sound hlength hunread hbytes hend =>
      refine ⟨fun _ h => (by cases h), fun h hmost => ?_⟩
      obtain rfl := Except.ok.inj h
      have hended := hend rfl hmost
      refine ⟨?_, transcript_of_ended sound hended hrounds after⟩
      have hcontent := hbefore.unread_eq
      rw [hunread, sound.unread_of_ended hended] at hcontent
      exact (List.append_nil _).symm.trans (hcontent.symm.trans
        (unread_fresh stream reference timeout s))
  · exact hstreams.sound.requests_le
  · exact hstreams.sound.disciplined
  · exact hstreams.sound.releases_iff

/-- Two bytes, none and one byte. -/
def threeChunks : List Bytes := [[1, 2], [], [3]]

/-- A source of three chunks that is slow to begin. -/
def slowScript : Script where
  requests := [
    .accepted [.error (.timeout "chunk" (.seconds 1)), .ok ⟨[1, 2], false⟩],
    .accepted [.ok ⟨[], false⟩],
    .accepted [.ok ⟨[3], true⟩]]
  closeFault := none
  log := []
  marks := ⟨false, false⟩

def slowReads : List ReadCall := [.byte, .byte, .upTo 4, .upTo 4, .upTo 4]

def slowReference : LobReference := ⟨"slow", .blob, some 3⟩

theorem serves_slowScript : Serves threeChunks
    (afterReads Script.source.watched 4 slowReads
      (fresh 1 slowReference (.seconds 1) slowScript)).source.ledger := by
  decide +kernel

/-- The first read times out and loses nothing, and the last one finds nothing left. -/
theorem reads_deliver_slowScript :
    let first := fresh 1 slowReference (.seconds 1) slowScript
    let tried := exec (ReadCall.perform Script.source.watched 4 .byte) first
    tried.1 = .error (.fault (.timeout "chunk" (.seconds 1))) ∧
      unread threeChunks tried.2 = [1, 2, 3] ∧
      delivered (transcript Script.source.watched 4 (slowReads.take 4) first) = [1, 2, 3] := by
  intro first tried
  obtain ⟨-, -, -, hreads, -⟩ := reads_deliver Script.source (by decide)
    (by decide) 1 slowReference (.seconds 1) slowScript slowReads serves_slowScript
  have htried : tried.1 = .error (.fault (.timeout "chunk" (.seconds 1))) := by decide +kernel
  have hkept := (hreads [] .byte (slowReads.drop 1) rfl).1 _ htried
  have hend := (hreads (slowReads.take 4) (.upTo 4) [] rfl).2 (by decide +kernel) (by decide)
  exact ⟨htried, hkept.1.trans (unread_fresh 1 slowReference (.seconds 1) slowScript), hend.1⟩

end QueryClient.Streamer
