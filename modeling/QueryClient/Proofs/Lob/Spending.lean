import QueryClient.Proofs.Lob.Reads

/-!
# What reads spend

A read takes bytes off the front of what is unread, whether it comes to hand them out or not. Byte
after byte and chunk after chunk the pieces add up, and a wait that times out in between leaves
behind what was taken before it.
-/

namespace QueryClient.Streamer

open Attempt Lob

variable {σ H : Type} {source : ChunkSource σ H} {chunks : List Bytes} {rounds : Nat}
  {d e f : Desk (Watched σ H) H} {spent : Bytes}

/-! ## What is spent -/

/-- Two desks between which some bytes were taken off the front of what is unread. -/
structure Spends (chunks : List Bytes) (d e : Desk (Watched σ H) H) (spent : Bytes) : Prop where
  sound : Sound chunks e
  unread_eq : unread chunks d = spent ++ unread chunks e
  bytesRead_eq : e.streamer.bytesRead = d.streamer.bytesRead + spent.length

theorem Sound.spends_nil (hs : Sound chunks d) : Spends chunks d d [] :=
  ⟨hs, rfl, rfl⟩

theorem Sound.spends_deliver (hs : Sound chunks d) (n : Nat) :
    Spends chunks d (exec (deliver n) d).2 (d.streamer.buffer.take n) :=
  ⟨(hs.delivered n).1, (hs.delivered n).2, rfl⟩

theorem Keeps.spends (h : Keeps chunks d e) : Spends chunks d e [] :=
  ⟨h.sound, h.unread_eq.symm, h.bytesRead_eq⟩

theorem Spends.trans {later : Bytes} (hfirst : Spends chunks d e spent)
    (hsecond : Spends chunks e f later) : Spends chunks d f (spent ++ later) where
  sound := hsecond.sound
  unread_eq := by rw [hfirst.unread_eq, hsecond.unread_eq, List.append_assoc]
  bytesRead_eq := by
    rw [hsecond.bytesRead_eq, hfirst.bytesRead_eq, List.length_append, Nat.add_assoc]

/-- What came in between two desks. -/
def cameIn (chunks : List Bytes) (d e : Desk (Watched σ H) H) : Bytes :=
  ((chunks.drop (arrivals d)).take (arrivals e - arrivals d)).flatten

theorem arrivals_le_of_suffix (h : d.source.ledger <:+ e.source.ledger) :
    arrivals d ≤ arrivals e :=
  h.sublist.countP_le

/-- With nothing left in the buffer, all that had come in is spent. -/
theorem Spends.eq_of_buffer (h : Spends chunks d e spent)
    (hledger : d.source.ledger <:+ e.source.ledger) (hbuffer : e.streamer.buffer = []) :
    spent = d.streamer.buffer ++ cameIn chunks d e := by
  have hle := arrivals_le_of_suffix hledger
  have hsplit : (chunks.drop (arrivals d)).flatten =
      cameIn chunks d e ++ (chunks.drop (arrivals e)).flatten := by
    rw [cameIn, ← List.flatten_append,
      show chunks.drop (arrivals e) =
        (chunks.drop (arrivals d)).drop (arrivals e - arrivals d) by
          rw [List.drop_drop, Nat.add_sub_of_le hle],
      List.take_append_drop]
  have hunread := h.unread_eq
  rw [unread, unread, hbuffer, hsplit, List.nil_append, ← List.append_assoc] at hunread
  exact (List.append_cancel_right hunread).symm

/-! ## One byte after another -/

/-- What a read of one byte may come to. -/
inductive ReadsByte (chunks : List Bytes) (d e : Desk (Watched σ H) H) :
    Except Stop (Option UInt8) → Prop
  | byte {byte : UInt8} (h : Spends chunks d e [byte]) : ReadsByte chunks d e (.ok (some byte))
  | ended (h : Spends chunks d e []) (hend : unread chunks e = []) :
      ReadsByte chunks d e (.ok none)
  | timedOut {fault : Fault} (ht : fault.isTimeout = true) (h : Spends chunks d e []) :
      ReadsByte chunks d e (.error (.fault fault))

theorem exec_byte_perform (source : ChunkSource σ H) (d : Desk σ H) :
    exec (ReadCall.byte.perform source rounds) d =
      ((exec (readByte source rounds) d).1.map Option.toList,
        (exec (readByte source rounds) d).2) :=
  exec_bind_pure ..

section Preserves

variable {source : ChunkSource σ H} {P : Desk σ H → Prop}
  (hfill : Preserves P (fill source rounds)) (hdeliver : ∀ n, Preserves P (deliver n))

include hfill hdeliver

theorem Preserves.readByte : Preserves P (readByte source rounds) := by
  intro d h
  have hperform : P (exec (ReadCall.byte.perform source rounds) d).2 :=
    Preserves.perform hfill hdeliver .byte d h
  rwa [exec_byte_perform] at hperform

theorem Preserves.readFollowing (n : Nat) (before : Bytes) :
    Preserves P (readFollowing source rounds n before) := by
  induction n generalizing before with
  | zero => exact .pure _
  | succ n ih =>
    refine .bind (.readByte hfill hdeliver) fun byte => ?_
    cases byte with
    | none => exact .fail _
    | some byte => exact ih _

theorem Preserves.readChunks (count : Nat) (before : List Bytes) :
    Preserves P (readChunks source rounds count before) := by
  induction count generalizing before with
  | zero => exact .throw _
  | succ count ih =>
    refine .bind hfill fun available => ?_
    cases available with
    | true => exact .bind .streamer fun s => .bind (.handOut hdeliver _ true) fun bytes => ih _
    | false => exact .pure _

end Preserves

theorem Extends.readFollowing (n : Nat) (before : Bytes) :
    Extends (readFollowing source.watched rounds n before) :=
  .of_preserves fun ledger =>
    .readFollowing ((Extends.fill rounds).preserves ledger) (fun _ _ h => h) n before

theorem Extends.readChunks (count : Nat) (before : List Bytes) :
    Extends (readChunks source.watched rounds count before) :=
  .of_preserves fun ledger =>
    .readChunks ((Extends.fill rounds).preserves ledger) (fun _ _ h => h) count before

theorem readByte_reads (hs : Sound chunks d) (hrounds : chunks.length < rounds)
    (hserves : Serves chunks (exec (readByte source.watched rounds) d).2.source.ledger) :
    ReadsByte chunks d (exec (readByte source.watched rounds) d).2
      (exec (readByte source.watched rounds) d).1 := by
  have hperform : Serves chunks
      (exec (ReadCall.byte.perform source.watched rounds) d).2.source.ledger := by
    rwa [exec_byte_perform]
  have hreads := perform_reads hs hrounds .byte hperform
  rw [exec_byte_perform] at hreads
  generalize exec (Streamer.readByte source.watched rounds) d = outcome at hreads ⊢
  obtain ⟨r, e⟩ := outcome
  rcases r with stop | _ | byte
  · cases hreads with
    | timedOut ht keeps => exact .timedOut ht keeps.spends
  · cases hreads with
    | handedOut sound _ hunread hbytes hend =>
      exact .ended ⟨sound, hunread, hbytes⟩ (sound.unread_of_ended (hend rfl (by decide)))
  · cases hreads with
    | handedOut sound _ hunread hbytes _ => exact .byte ⟨sound, hunread, hbytes⟩

/-- The bytes that follow in a character come in, unless the content ends or a wait times out. -/
theorem readFollowing_spends (hs : Sound chunks d) (hrounds : chunks.length < rounds) (n : Nat)
    (before : Bytes)
    (hserves : Serves chunks
      (exec (readFollowing source.watched rounds n before) d).2.source.ledger) :
    ∃ r e spent, exec (readFollowing source.watched rounds n before) d = (r, e) ∧
      Spends chunks d e spent ∧
      ((r = .ok (before.reverse ++ spent) ∧ spent.length = n) ∨
        (r = .error (.fault (.conversion .cutCharacter)) ∧ spent.length < n ∧
          unread chunks e = []) ∨
        ∃ fault, r = .error (.fault fault) ∧ fault.isTimeout = true ∧ spent.length < n) := by
  induction n generalizing d before with
  | zero => exact ⟨_, _, [], rfl, hs.spends_nil, .inl ⟨by simp, rfl⟩⟩
  | succ n ih =>
    rw [readFollowing] at hserves ⊢
    have hnow : Serves chunks (exec (readByte source.watched rounds) d).2.source.ledger := by
      refine hserves.of_suffix (Extends.suffix_bind _ (fun byte => ?_) d)
      cases byte with
      | none => exact .fail _
      | some byte => exact .readFollowing n _
    have hread := readByte_reads hs hrounds hnow
    rcases hbyte : exec (readByte source.watched rounds) d with ⟨r, e⟩
    rw [hbyte] at hread
    cases hread with
    | timedOut ht h =>
      rw [exec_bind_error hbyte]
      exact ⟨_, _, [], rfl, h, .inr (.inr ⟨_, rfl, ht, Nat.succ_pos n⟩)⟩
    | ended h hend =>
      rw [exec_bind_ok hbyte]
      exact ⟨_, _, [], rfl, h, .inr (.inl ⟨rfl, Nat.succ_pos n, hend⟩)⟩
    | @byte byte h =>
      rw [exec_bind_ok hbyte] at hserves ⊢
      obtain ⟨r, f, spent, hexec, hspends, hcase⟩ := ih h.sound (byte :: before) hserves
      refine ⟨r, f, byte :: spent, hexec, h.trans hspends, ?_⟩
      rcases hcase with ⟨rfl, hlength⟩ | ⟨rfl, hlength, hend⟩ | ⟨fault, rfl, ht, hlength⟩
      · exact .inl ⟨by simp, congrArg Nat.succ hlength⟩
      · exact .inr (.inl ⟨rfl, Nat.succ_lt_succ hlength, hend⟩)
      · exact .inr (.inr ⟨fault, rfl, ht, Nat.succ_lt_succ hlength⟩)

/-! ## Chunk after chunk -/

/-- How many chunks a streamer has before it, with the one in its buffer. -/
def ahead (chunks : List Bytes) (d : Desk (Watched σ H) H) : Nat :=
  chunks.length - arrivals d + if d.streamer.buffer = [] then 0 else 1

/-- To hand out all that was made available leaves fewer chunks. -/
theorem Keeps.ahead_lt (h : Keeps chunks d e) (hledger : d.source.ledger <:+ e.source.ledger)
    (hbuffer : e.streamer.buffer ≠ []) :
    ahead chunks (exec (deliver e.streamer.buffer.length) e).2 < ahead chunks d := by
  have hle := arrivals_le_of_suffix hledger
  have hmost := h.sound.arrivals_le
  have hrest : ahead chunks (exec (deliver e.streamer.buffer.length) e).2 =
      chunks.length - arrivals e := by
    simp [ahead, exec_deliver, arrivals]
  rw [hrest, ahead]
  by_cases hempty : d.streamer.buffer = []
  · have hne : arrivals d ≠ arrivals e := fun heq => by
      have hunread := h.unread_eq
      rw [unread, unread, hempty, heq] at hunread
      exact hbuffer (List.append_cancel_right hunread)
    rw [if_pos hempty]
    omega
  · rw [if_neg hempty]
    omega

/-- The rest of the content comes in, unless a wait times out. -/
theorem readChunks_spends (hs : Sound chunks d) (hrounds : chunks.length < rounds) {count : Nat}
    (hcount : ahead chunks d < count) (before : List Bytes)
    (hserves : Serves chunks
      (exec (readChunks source.watched rounds count before) d).2.source.ledger) :
    ∃ r e spent, exec (readChunks source.watched rounds count before) d = (r, e) ∧
      Spends chunks d e spent ∧
      ((r = .ok (before.reverse.flatten ++ spent) ∧ unread chunks e = []) ∨
        ∃ fault, r = .error (.fault fault) ∧ fault.isTimeout = true ∧
          e.streamer.buffer = []) := by
  -- on the chunks ahead: one that is handed out leaves fewer, be it from the buffer or newly come in
  induction count generalizing d before with
  | zero => cases hcount
  | succ count ih =>
    rw [readChunks] at hserves ⊢
    have hnow : Serves chunks (exec (fill source.watched rounds) d).2.source.ledger := by
      refine hserves.of_suffix (Extends.suffix_bind _ (fun available => ?_) d)
      cases available with
      | true =>
        exact .bind .streamer fun s => .bind (.handOut _ true) fun bytes => .readChunks count _
      | false => exact .pure _
    have hledger : d.source.ledger <:+ (exec (fill source.watched rounds) d).2.source.ledger :=
      Extends.fill rounds d
    obtain ⟨r, e, hfill, hkeeps, hcase⟩ := fill_keeps hs (by omega) hnow
    rw [hfill] at hledger
    rcases hcase with ⟨rfl, hbuffer⟩ | ⟨rfl, hended⟩ | ⟨fault, rfl, ht, hempty⟩
    · rw [exec_bind_ok hfill] at hserves ⊢
      have hrun : exec (deliver e.streamer.buffer.length : Reading (Watched σ H) H Bytes) e =
          (.ok e.streamer.buffer, (exec (deliver e.streamer.buffer.length) e).2) := by
        rw [exec_deliver, List.take_length]
      rw [if_pos rfl, exec_bind_ok (exec_streamer e), exec_bind_ok hrun] at hserves ⊢
      have hspends := hkeeps.spends.trans (hkeeps.sound.spends_deliver e.streamer.buffer.length)
      rw [List.take_length, List.nil_append] at hspends
      have hless := hkeeps.ahead_lt hledger hbuffer
      obtain ⟨r, f, spent, hexec, hrest, hcase⟩ :=
        ih hspends.sound (by omega) (e.streamer.buffer :: before) hserves
      refine ⟨r, f, e.streamer.buffer ++ spent, hexec, hspends.trans hrest, ?_⟩
      rcases hcase with ⟨rfl, hend⟩ | hfault
      · exact .inl ⟨by simp, hend⟩
      · exact .inr hfault
    · rw [exec_bind_ok hfill]
      exact ⟨_, _, [], rfl, hkeeps.spends,
        .inl ⟨by simp, hkeeps.sound.unread_of_ended hended⟩⟩
    · rw [exec_bind_error hfill]
      exact ⟨_, _, [], rfl, hkeeps.spends, .inr ⟨fault, rfl, ht, hempty⟩⟩

end QueryClient.Streamer
