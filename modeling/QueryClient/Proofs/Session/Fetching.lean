import QueryClient.Proofs.Cursor.Mirror
import QueryClient.Proofs.Lob.Resumption
import QueryClient.Proofs.Session.Accounting

/-!
# Cursors and streamers over a session

A cursor fetches its batches through a session, and a streamer its chunks. What they add to the
faults of the session is not fatal, but for two of a cursor: that the server has no rows where there
should be some, and that it never reports the final row. These break the protocol, and the session
does not hear of them.
-/

namespace QueryClient.Session

variable {σ S α β : Type} {settings : Settings} {Own : Fault → Prop} {view : S → Session σ}

/-! ## Attempts that work on a session -/

/-- How an attempt ends whose state has a session in it: with an answer, for lack of rounds, or with
a fault that is accounted for. The session stays sound. -/
inductive Attempted (view : S → Session σ) (settings : Settings) (Own : Fault → Prop) :
    Except Stop α × S → Prop
  | done {a : α} {d : S} (sound : (view d).Sound settings) :
      Attempted view settings Own (.ok a, d)
  | cut {d : S} (sound : (view d).Sound settings) :
      Attempted view settings Own (.error .outOfRounds, d)
  | failed {fault : Fault} {d : S} (sound : (view d).Sound settings)
      (h : fault.isFatal = true → Own fault ∨ (view d).LostOver fault) :
      Attempted view settings Own (.error (.fault fault), d)

theorem Attempted.sound {result : Except Stop α × S} (h : Attempted view settings Own result) :
    (view result.2).Sound settings := by
  cases h with
  | done sound => exact sound
  | cut sound => exact sound
  | failed sound h => exact sound

/-- Whether an attempt accounts for its faults wherever it starts. -/
def Accountable (view : S → Session σ) (settings : Settings) (Own : Fault → Prop)
    (m : Attempt S α) : Prop :=
  ∀ d, (view d).Sound settings → Attempted view settings Own (Attempt.exec m d)

namespace Accountable

variable {m : Attempt S α} {f : α → Attempt S β}

theorem pure (a : α) : Accountable view settings Own (pure a : Attempt S α) :=
  fun _ hd => .done hd

theorem outOfRounds : Accountable view settings Own (throw .outOfRounds : Attempt S α) :=
  fun _ hd => .cut hd

theorem fail {fault : Fault} (h : fault.isFatal = true → Own fault) :
    Accountable view settings Own (Attempt.fail fault : Attempt S α) :=
  fun _ hd => .failed hd fun hfatal => .inl (h hfatal)

theorem harmless {fault : Fault} (h : fault.isFatal = false) :
    Accountable view settings Own (Attempt.fail fault : Attempt S α) := by
  refine fail fun hfatal => ?_
  rw [h] at hfatal
  cases hfatal

theorem ofExcept {outcome : Except Fault α}
    (h : ∀ fault, outcome = .error fault → fault.isFatal = false) :
    Accountable view settings Own (Attempt.ofExcept outcome : Attempt S α) := by
  cases outcome with
  | ok a => exact .pure a
  | error fault => exact .harmless (h fault rfl)

theorem bind (hm : Accountable view settings Own m)
    (hf : ∀ a, Accountable view settings Own (f a)) : Accountable view settings Own (m >>= f) := by
  intro d hd
  have h := hm d hd
  rw [Attempt.exec_bind]
  generalize Attempt.exec m d = result at h ⊢
  cases h with
  | done hd => exact hf _ _ hd
  | cut hd => exact .cut hd
  | failed hd h => exact .failed hd h

theorem recover {handler : Fault → Attempt S α} (hm : Accountable view settings Own m)
    (hhandler : ∀ fault, Accountable view settings Own (handler fault)) :
    Accountable view settings Own (Attempt.recover m handler) := by
  intro d hd
  have h := hm d hd
  rw [Attempt.exec_recover]
  generalize Attempt.exec m d = result at h ⊢
  cases h with
  | done hd => exact .done hd
  | cut hd => exact .cut hd
  | failed hd h => exact hhandler _ _ hd

end Accountable

/-! ## Cursors -/

/-- What fetching a batch may fail with by itself. -/
def BatchFault (settings : Settings) (fault : Fault) : Prop :=
  (∃ args, Unsendable settings .dqp "processCursorRequest" args fault) ∨
    (∃ handle, UsedUp handle fault) ∨ Misread Value.results fault

/-- What a call on a cursor may fail with by itself. -/
def CursorFault (settings : Settings) (fault : Fault) : Prop :=
  BatchFault settings fault ∨
    (∃ row, fault = .protocol (.noRowsFor row)) ∨ fault = .protocol .finalRowUnreported ∨
    ∃ args, Unsendable settings .dqp "closeRequest" args fault

section Cursors

open Cursor Cursor.Nav

variable {link : Link σ} {e : Nat} {rounds : Nat}

/-- A row that is not at hand, and a failure in its place, are not fatal. -/
theorem isFatal_of_rowAt {rows : Residency} {row : Int} {fault : Fault}
    (h : rows.rowAt row = .error fault) : fault.isFatal = false := by
  rcases of_rowAt_eq_error h with rfl | ⟨exception, rfl⟩
  · rfl
  · rfl

/-- Whether a call on a cursor over a session accounts for its faults. -/
abbrev Navigates (settings : Settings) (m : Nav (Session σ) Handle α) : Prop :=
  Accountable Cursor.Desk.source settings (CursorFault settings) m

namespace Navigates

theorem cursor : Navigates settings (cursor : Nav (Session σ) Handle _) :=
  fun _ hd => .done hd

theorem update (f : Cursor Handle → Cursor Handle) :
    Navigates settings (update f : Nav (Session σ) Handle Unit) :=
  fun _ hd => .done hd

theorem note (sums : List Int) : Navigates settings (note sums : Nav (Session σ) Handle Unit) :=
  fun _ hd => .done hd

theorem sum (a b : Int) : Navigates settings (sum a b : Nav (Session σ) Handle Int) :=
  fun _ hd => .done hd

theorem ensureOpen (c : Cursor Handle) :
    Navigates settings (Attempt.ofExcept c.ensureOpen : Nav (Session σ) Handle Unit) := by
  refine .ofExcept fun fault h => ?_
  unfold Cursor.ensureOpen at h
  split at h
  · cases h
    rfl
  · cases h

theorem ensureScrollable (operation : String) :
    Navigates settings (ensureScrollable operation : Nav (Session σ) Handle Unit) := by
  unfold Cursor.ensureScrollable
  refine .bind cursor fun c => ?_
  split
  · exact .harmless rfl
  · exact .pure ()

theorem issue (purpose : Purpose) (span : Span) :
    Navigates settings (issue (batchSource link e) purpose span) := by
  intro d hd
  have hrequest := accounted_requestBatch link e span.start span.count hd
  rw [exec_issue]
  change Accounted settings _ _ ((batchSource link e).request span.start span.count d.source)
    at hrequest
  generalize (batchSource link e).request span.start span.count d.source = result at hrequest ⊢
  cases hrequest with
  | done ht _ => exact .done ht
  | failed ht h =>
    exact .failed ht fun hfatal => (h hfatal).imp_left fun hframe => .inl (.inl hframe)

/-- A batch that comes through a session agrees with itself, so the cursor has no fault to find
with it. -/
theorem await : Navigates settings (await (batchSource link e)) := by
  intro d hd
  cases hflight : d.cursor.flight with
  | none =>
    rw [exec_await_of_none _ hflight]
    exact .done hd
  | some flight =>
    have haccounted :=
      accounted_waitAs link Value.results d.cursor.options.timeout flight.call hd
    generalize hwait : waitAs link Value.results d.cursor.options.timeout flight.call d.source =
      result at haccounted
    obtain ⟨outcome, call, t⟩ := result
    rw [exec_await_of_some hflight hwait]
    cases haccounted with
    | failed ht h =>
      refine .failed ht fun hfatal => (h hfatal).imp_left fun hown => .inl (.inr ?_)
      exact hown.imp_left fun hused => ⟨flight.call, hused⟩
    | @done batch _ ht h =>
      obtain ⟨value, hagrees, htake⟩ := h
      have hvalid : batch.validate = .ok () := hagrees batch (eq_message_of_results htake)
      rw [received_of_valid hvalid]
      exact .done ht

/-- A search accounts for its faults if what it finds is no fatal fault, and if the end of what the
source has to say is one that the cursor may report. -/
theorem seek {quest : Quest Handle α} {settle : Nav (Session σ) Handle Unit}
    (hfind : ∀ c fault, quest.find c = some (.error fault) → fault.isFatal = false)
    (hmissing : CursorFault settings (.protocol quest.missing))
    (hsettle : Navigates settings settle) (stalled : Bool) :
    Navigates settings (seek (batchSource link e) quest settle rounds stalled) := by
  induction rounds generalizing stalled with
  | zero => exact .outOfRounds
  | succ rounds ih =>
    rw [Cursor.seek]
    refine .bind cursor fun c => ?_
    split
    · rename_i found hfound
      exact .ofExcept fun fault h => hfind c fault (h ▸ hfound)
    · refine .bind ?_ fun _ => .bind await fun _ => .bind hsettle fun _ => ih _
      unfold Cursor.fetchFor
      refine .bind cursor fun c => ?_
      split
      · split
        · exact .fail fun _ => hmissing
        · exact .bind (note _) fun _ => issue _ _
      · exact .pure ()

theorem seekRow (target : Int) (heading : Heading) :
    Navigates settings
      (Cursor.seek (batchSource link e) (.row target heading) (pure ()) rounds false) :=
  seek (fun _ _ hfind => isFatal_of_rowAt (rowAt_of_find_row hfind)) (.inr (.inl ⟨target, rfl⟩))
    (.pure ()) false

theorem hasRow (row : Int) : Navigates settings (hasRow (batchSource link e) rounds row) :=
  seek (fun c fault hfind => absurd hfind (find_existence_ne_error row c fault))
    (.inr (.inl ⟨row, rfl⟩)) (.pure ()) false

theorem keepNearEnd : Navigates settings (keepNearEnd : Nav (Session σ) Handle Unit) := by
  unfold Cursor.keepNearEnd
  refine .bind cursor fun c => ?_
  split
  · exact .pure ()
  · exact .bind (note _) fun _ => update _

theorem ensureFinalKnown :
    Navigates settings (ensureFinalKnown (batchSource link e) rounds) :=
  seek (fun c fault hfind => absurd hfind (find_finalRow_ne_error c fault))
    (.inr (.inr (.inl rfl))) keepNearEnd false

theorem evict (row : Int) : Navigates settings (evict row : Nav (Session σ) Handle Unit) := by
  unfold Cursor.evict
  refine .bind cursor fun c => ?_
  split
  · exact update _
  · exact .bind (note _) fun _ => update _

theorem prefetch (row : Int) : Navigates settings (prefetch (batchSource link e) row) := by
  unfold Cursor.prefetch
  refine .bind cursor fun c => ?_
  split
  · refine .bind (note _) fun _ => ?_
    split
    · exact .pure ()
    · split
      -- a fetch ahead of demand may fail as it likes
      · exact .recover (issue _ _) fun _ => .pure ()
      · exact .pure ()
  · exact .pure ()

theorem standOn (row : Int) : Navigates settings (standOn (batchSource link e) row) := by
  unfold Cursor.standOn
  refine .bind (update _) fun _ => .bind (evict row) fun _ => .bind cursor fun c => ?_
  split
  · exact prefetch row
  · exact .pure ()

theorem moveTo (target : Int) (heading : Heading) :
    Navigates settings (moveTo (batchSource link e) rounds target heading) := by
  intro d hd
  rw [exec_moveTo]
  split
  · exact Accountable.harmless rfl d hd
  · split
    · exact .done hd
    · have hrow : Navigates settings
          (Cursor.seek (batchSource link e) (.row target heading) (pure ()) rounds false) :=
        seekRow target heading
      have hseek := hrow (d.turn heading) hd
      generalize Attempt.exec _ (d.turn heading) = result at hseek ⊢
      cases hseek with
      | cut hf => exact .cut hf
      | failed hf h => exact .failed hf h
      | @done found f hf =>
        cases found with
        -- to stand on a row never fails, so the fetch ahead counts for the session only
        | true => exact .done (standOn target f hf).sound
        | false => exact .done hf

theorem next : Navigates settings (next (batchSource link e) rounds) := by
  unfold Cursor.next
  refine .bind cursor fun c => .bind (ensureOpen c) fun _ => ?_
  split
  · exact moveTo _ _
  · exact .bind (sum _ _) fun _ => moveTo _ _
  · exact .pure false

theorem previous : Navigates settings (previous (batchSource link e) rounds) := by
  unfold Cursor.previous
  refine .bind cursor fun c => .bind (ensureOpen c) fun _ => ?_
  split
  · exact .pure false
  · exact .bind (sum _ _) fun _ => moveTo _ _
  · split
    · exact moveTo _ _
    · refine .bind (ensureScrollable _) fun _ => .bind ensureFinalKnown fun _ => moveTo _ _

theorem absolute (row : Int) : Navigates settings (absolute (batchSource link e) rounds row) := by
  unfold Cursor.absolute
  refine .bind cursor fun c => .bind (ensureOpen c) fun _ => ?_
  split
  · exact .harmless rfl
  · split
    · refine .bind (ensureScrollable _) fun _ => .bind ensureFinalKnown fun last =>
        .bind (sum _ _) fun _ => .bind (sum _ _) fun target => ?_
      split
      · exact .bind (update _) fun _ => .pure false
      · exact .bind cursor fun _ => moveTo _ _
    · exact .bind cursor fun _ => moveTo _ _

theorem relative (delta : Int) :
    Navigates settings (relative (batchSource link e) rounds delta) := by
  unfold Cursor.relative
  refine .bind cursor fun c => .bind (ensureOpen c) fun _ => ?_
  split
  · split
    · exact .bind (.ofExcept fun _ h => isFatal_of_rowAt h) fun _ => .pure true
    · exact moveTo _ _
  · exact .harmless rfl

theorem isLast : Navigates settings (isLast (batchSource link e) rounds) := by
  unfold Cursor.isLast
  refine .bind cursor fun c => .bind (ensureOpen c) fun _ => ?_
  split
  · exact .bind (sum _ _) fun _ => .bind (hasRow _) fun _ => .pure _
  · exact .pure false

theorem isBeforeFirst : Navigates settings (isBeforeFirst (batchSource link e) rounds) := by
  unfold Cursor.isBeforeFirst
  refine .bind cursor fun c => .bind (ensureOpen c) fun _ => ?_
  split
  · exact hasRow 1
  · exact .pure false

/-- After the check that the cursor is open, and the check that it may move freely. -/
theorem scrolling {m : Nav (Session σ) Handle α} (operation : String) (hm : Navigates settings m) :
    Navigates settings (do
      Attempt.ofExcept (← Nav.cursor).ensureOpen
      Cursor.ensureScrollable operation
      m) :=
  .bind cursor fun c => .bind (ensureOpen c) fun _ => .bind (ensureScrollable operation) fun _ => hm

theorem move (move : Move) : Navigates settings (move.perform (batchSource link e) rounds) := by
  cases move with
  | next => exact next
  | previous => exact previous
  | absolute row => exact absolute row
  | relative delta => exact relative delta
  | first => exact scrolling "first()" (absolute 1)
  | last => exact scrolling "last()" (absolute (-1))
  | isLast => exact isLast
  | isBeforeFirst => exact isBeforeFirst

theorem abandon (call : Handle) :
    Navigates settings (ask fun s => ((), (batchSource link e).abandon call s) :
      Nav (Session σ) Handle Unit) :=
  fun _ hd => .done (hd.abandon call)

theorem release :
    Navigates settings (do
      let outcome ← ask (batchSource link e).close
      Nav.update (·.enter .closed)
      Attempt.ofExcept outcome : Nav (Session σ) Handle Unit) := by
  intro d hd
  have hclose := accounted_closeExecution link e hd
  change Accounted settings _ _ ((batchSource link e).close d.source) at hclose
  simp only [Attempt.exec_bind, exec_ask, exec_update, Attempt.exec_ofExcept]
  generalize (batchSource link e).close d.source = result at hclose ⊢
  cases hclose with
  | done ht _ => exact .done ht
  | failed ht h =>
    exact .failed ht fun hfatal => (h hfatal).imp_left fun hframe => .inr (.inr (.inr hframe))

theorem close : Navigates settings (Cursor.close (batchSource link e)) := by
  unfold Cursor.close
  refine .bind cursor fun c => ?_
  split
  · exact .pure ()
  · refine .bind (update _) fun _ => ?_
    split
    · exact .bind (abandon _) fun _ => .bind (update _) fun _ => release
    · exact release

/-- Every call on a cursor accounts for its faults. -/
theorem call (call : Call) : Navigates settings (call.perform (batchSource link e) rounds) := by
  cases call with
  | move m => exact .bind (move m) fun _ => .pure _
  | beforeFirst => exact .bind (scrolling "before_first()" (update _)) fun _ => .pure none
  | afterLast => exact .bind (scrolling "after_last()" (update _)) fun _ => .pure none
  | close => exact .bind close fun _ => .pure none

end Navigates

end Cursors

/-! ## Streamers -/

/-- What a call on a streamer may fail with by itself. -/
def StreamFault (settings : Settings) (fault : Fault) : Prop :=
  (∃ args, Unsendable settings .dqp "requestNextLobChunk" args fault) ∨
    (∃ handle, UsedUp handle fault) ∨ Misread Value.chunk fault ∨
    ∃ args, Unsendable settings .dqp "closeLobChunkStream" args fault

section Streamers

open Lob Streamer

variable {link : Link σ} {e : Nat} {rounds : Nat}

/-- Whether a call on a streamer over a session accounts for its faults. -/
abbrev Streams (settings : Settings) (m : Reading (Session σ) Handle α) : Prop :=
  Accountable Streamer.Desk.source settings (StreamFault settings) m

namespace Streams

theorem streamer : Streams settings (streamer : Reading (Session σ) Handle _) :=
  fun _ hd => .done hd

theorem update (f : Streamer Handle → Streamer Handle) :
    Streams settings (Streamer.update f : Reading (Session σ) Handle Unit) :=
  fun _ hd => .done hd

theorem marks : Streams settings (Streamer.marks (chunkSource link e)) :=
  fun _ hd => .done hd

theorem mark (f : Marks → Marks) : Streams settings (Streamer.mark (chunkSource link e) f) :=
  fun _ hd => .done ⟨hd.same, hd.calls⟩

theorem ensureOpen : Streams settings (Streamer.ensureOpen (chunkSource link e)) := by
  unfold Streamer.ensureOpen
  refine .bind marks fun marked => ?_
  split
  · exact .harmless rfl
  · exact .pure ()

theorem claimRelease : Streams settings (Streamer.claimRelease (chunkSource link e)) :=
  .bind marks fun _ => .bind (mark _) fun _ => .pure _

/-- Whatever becomes of a release, the session stays sound. -/
theorem releaseExhausted : Streams settings (Streamer.releaseExhausted (chunkSource link e)) := by
  unfold Streamer.releaseExhausted
  refine .bind claimRelease fun claimed => ?_
  split
  · refine .bind streamer fun s => .bind (fun d hd => ?_) fun _ => .pure ()
    exact .done (accounted_releaseStream link e s.stream s.reference hd).sound
  · exact .pure ()

theorem requestChunk : Streams settings (Streamer.requestChunk (chunkSource link e)) := by
  unfold Streamer.requestChunk
  refine .bind streamer fun s => ?_
  split
  · intro d hd
    have hrequest := accounted_requestChunk link e s.stream s.reference hd
    change Accounted settings _ _ ((chunkSource link e).request s.stream s.reference d.source)
      at hrequest
    simp only [Attempt.exec_bind, Streamer.exec_ask]
    generalize (chunkSource link e).request s.stream s.reference d.source = result at hrequest ⊢
    cases hrequest with
    | done ht _ => exact .done ht
    | failed ht h => exact .failed ht fun hfatal => (h hfatal).imp_left .inl
  · exact .pure ()

theorem awaitChunk : Streams settings (Streamer.awaitChunk (chunkSource link e)) := by
  intro d hd
  cases hflight : d.streamer.flight with
  | none =>
    rw [exec_awaitChunk_of_none hflight]
    exact .done hd
  | some call =>
    have haccounted := accounted_waitAs link Value.chunk d.streamer.timeout call hd
    generalize hwait : waitAs link Value.chunk d.streamer.timeout call d.source = result
      at haccounted
    obtain ⟨outcome, next, t⟩ := result
    rw [exec_awaitChunk_of_some hflight hwait]
    cases haccounted with
    | failed ht h =>
      refine .failed ht fun hfatal => (h hfatal).imp_left ?_
      rintro (hused | hmisread)
      · exact .inr (.inl ⟨call, hused⟩)
      · exact .inr (.inr (.inl hmisread))
    | @done chunk _ ht _ =>
      dsimp only
      split
      · exact Accountable.bind (update _) (fun _ => releaseExhausted) _ ht
      · exact .done ht

theorem fill : Streams settings (Streamer.fill (chunkSource link e) rounds) := by
  induction rounds with
  | zero => exact .outOfRounds
  | succ rounds ih =>
    unfold Streamer.fill
    refine .bind ensureOpen fun _ => .bind streamer fun s => ?_
    split
    · exact .pure true
    · split
      · exact .pure false
      · exact .bind requestChunk fun _ => .bind awaitChunk fun _ => ih

theorem deliver (n : Nat) :
    Streams settings (Streamer.deliver n : Reading (Session σ) Handle Bytes) :=
  .bind streamer fun _ => .bind (update _) fun _ => .pure _

theorem readByte : Streams settings (Streamer.readByte (chunkSource link e) rounds) := by
  unfold Streamer.readByte
  refine .bind fill fun available => ?_
  split
  · exact .bind (deliver 1) fun _ => .pure _
  · exact .pure none

theorem read (n : Nat) : Streams settings (Streamer.read (chunkSource link e) rounds n) := by
  unfold Streamer.read
  have hfill : Streams settings (do
      if ← Streamer.fill (chunkSource link e) rounds then Streamer.deliver n else return []) := by
    refine .bind fill fun available => ?_
    split
    · exact deliver n
    · exact .pure []
  split
  · exact .bind ensureOpen fun _ => .pure []
  · exact hfill

theorem ensureCharacters :
    Streams settings (Streamer.ensureCharacters : Reading (Session σ) Handle Unit) := by
  unfold Streamer.ensureCharacters
  refine .bind streamer fun s => ?_
  split
  · exact .harmless rfl
  · exact .pure ()

theorem readFollowing (n : Nat) (before : Bytes) :
    Streams settings (Streamer.readFollowing (chunkSource link e) rounds n before) := by
  induction n generalizing before with
  | zero => exact .pure _
  | succ n ih =>
    unfold Streamer.readFollowing
    refine .bind readByte fun byte => ?_
    split
    · exact .harmless rfl
    · exact ih _

theorem readChar : Streams settings (Streamer.readChar (chunkSource link e) rounds) := by
  unfold Streamer.readChar
  refine .bind ensureCharacters fun _ => .bind readByte fun byte => ?_
  split
  · exact .pure none
  · split
    · exact .harmless rfl
    · refine .bind (readFollowing _ _) fun rest => ?_
      split
      · exact .pure _
      · exact .harmless rfl

theorem readChunks (chunks : Nat) (before : List Bytes) :
    Streams settings (Streamer.readChunks (chunkSource link e) rounds chunks before) := by
  induction chunks generalizing before with
  | zero => exact .outOfRounds
  | succ chunks ih =>
    unfold Streamer.readChunks
    refine .bind fill fun available => ?_
    split
    · exact .bind streamer fun s => .bind (deliver _) fun _ => ih _
    · exact .pure _

theorem readToString : Streams settings (Streamer.readToString (chunkSource link e) rounds) := by
  unfold Streamer.readToString
  refine .bind ensureCharacters fun _ => .bind (readChunks _ _) fun bytes => ?_
  split
  · exact .pure _
  · exact .harmless rfl

/-- Every read accounts for its faults. -/
theorem retrieve (call : Retrieval) :
    Streams settings (call.perform (chunkSource link e) rounds) := by
  cases call with
  | bytes call =>
    cases call with
    | byte => exact .bind readByte fun _ => .pure _
    | upTo n => exact read n
  | char => exact .bind readChar fun _ => .pure _
  | rest => exact readChunks rounds []
  | text => exact .bind readToString fun _ => .pure _

theorem abandon (call : Handle) :
    Streams settings (Streamer.ask fun state => ((), (chunkSource link e).abandon call state) :
      Reading (Session σ) Handle Unit) :=
  fun _ hd => .done (hd.abandon call)

theorem release (stream : UInt64) (reference : LobReference) :
    Streams settings (do
      match ← Streamer.ask ((chunkSource link e).release stream reference) with
      | .error fault => Attempt.fail fault
      | .ok () => return : Reading (Session σ) Handle Unit) := by
  intro d hd
  have hrelease := accounted_releaseStream link e stream reference hd
  change Accounted settings _ _ ((chunkSource link e).release stream reference d.source)
    at hrelease
  simp only [Attempt.exec_bind, Streamer.exec_ask]
  generalize (chunkSource link e).release stream reference d.source = result at hrelease ⊢
  cases hrelease with
  | done ht _ => exact .done ht
  | failed ht h =>
    exact .failed ht fun hfatal => (h hfatal).imp_left fun hframe => .inr (.inr (.inr hframe))

theorem close : Streams settings (Streamer.close (chunkSource link e)) := by
  have hclaimed : ∀ s : Streamer Handle, Streams settings (do
      if ← Streamer.claimRelease (chunkSource link e) then
        match ← Streamer.ask ((chunkSource link e).release s.stream s.reference) with
        | .error fault => Attempt.fail fault
        | .ok () => return) := by
    intro s
    refine .bind claimRelease fun claimed => ?_
    split
    · exact release s.stream s.reference
    · exact .pure ()
  unfold Streamer.close
  refine .bind marks fun marked => ?_
  split
  · refine .bind (mark _) fun _ => .bind streamer fun s => .bind (update _) fun _ => ?_
    split
    · exact .bind (abandon _) fun _ => hclaimed s
    · exact hclaimed s
  · exact .pure ()

end Streams

end Streamers

end QueryClient.Session
