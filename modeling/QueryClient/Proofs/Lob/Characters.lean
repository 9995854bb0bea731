import QueryClient.Proofs.Lob.Resumption
import QueryClient.Proofs.Text.Legible

/-!
# Reading a text character by character

Reading one character after another decodes a content, wherever its chunks are cut. From a source
that gives what it is asked for, the characters are those of the longest text that the content
begins with, and what comes after them says whether that is the whole content (`chars_decode`). So a
text that is read by characters is the one that is read at once.
-/

namespace QueryClient

namespace Lob

variable {H : Type} {before ledger : List (ChunkAsk H)}

/-- Whether a source did not give what it was asked for. -/
def ChunkAsk.isSetback : ChunkAsk H → Bool
  | .requested _ _ (.error _) => true
  | .waited _ (.error _) _ => true
  | _ => false

/-- Whether a source gave all that it was asked for. -/
def Prompt (ledger : List (ChunkAsk H)) : Prop :=
  ∀ entry ∈ ledger, entry.isSetback = false

instance (ledger : List (ChunkAsk H)) : Decidable (Prompt ledger) :=
  inferInstanceAs (Decidable (∀ entry ∈ ledger, _))

theorem Prompt.of_suffix (h : Prompt ledger) (hsuffix : before <:+ ledger) : Prompt before :=
  fun entry hentry => h entry (hsuffix.subset hentry)

end Lob

namespace Streamer

open Attempt Lob
open Utf8 (encodeChar encodeChar_ne_nil Opens exists_opens isValidUTF8_encodeChar_append)

variable {σ H α β : Type} {source : ChunkSource σ H} {chunks : List Bytes} {rounds : Nat}
  {d e : Desk (Watched σ H) H}

/-! ## Timeouts come from the source -/

/-- Whether an operation times out only over a setback. -/
def Candid (m : Reading (Watched σ H) H α) : Prop :=
  ∀ d fault, (exec m d).1 = .error (.fault fault) → fault.isTimeout = true →
    ∃ entry ∈ (exec m d).2.source.ledger, entry.isSetback = true

namespace Candid

theorem of_ok {m : Reading (Watched σ H) H α} (h : ∀ d, ∃ a, (exec m d).1 = .ok a) :
    Candid m := by
  intro d fault hfault
  obtain ⟨a, ha⟩ := h d
  rw [ha] at hfault
  cases hfault

theorem pure (a : α) : Candid (pure a : Reading (Watched σ H) H α) :=
  of_ok fun _ => ⟨a, rfl⟩

theorem fail {fault : Fault} (h : fault.isTimeout = false) :
    Candid (fail fault : Reading (Watched σ H) H α) := by
  rintro d _ hfault ht
  cases hfault
  rw [h] at ht
  cases ht

theorem outOfRounds : Candid (throw .outOfRounds : Reading (Watched σ H) H α) := by
  rintro d fault hfault
  cases hfault

theorem bind {m : Reading (Watched σ H) H α} {f : α → Reading (Watched σ H) H β}
    (hm : Candid m) (hf : ∀ a, Candid (f a)) : Candid (m >>= f) := by
  intro d fault hfault ht
  rcases hexec : exec m d with ⟨stop | a, e⟩
  · rw [exec_bind_error hexec] at hfault ⊢
    cases hfault
    have hsetback := hm d fault (by rw [hexec]) ht
    rwa [hexec] at hsetback
  · rw [exec_bind_ok hexec] at hfault ⊢
    exact hf a e fault hfault ht

theorem streamer : Candid (streamer : Reading (Watched σ H) H (Streamer H)) :=
  of_ok fun d => ⟨d.streamer, rfl⟩

theorem deliver (n : Nat) : Candid (deliver n : Reading (Watched σ H) H Bytes) :=
  of_ok fun _ => ⟨_, rfl⟩

theorem ensureOpen : Candid (ensureOpen source.watched) :=
  bind (of_ok fun _ => ⟨_, rfl⟩) fun marked => by
    by_cases h : marked.closed
    · simpa [h] using fail rfl
    · simpa [h] using pure _

theorem requestChunk : Candid (requestChunk source.watched) := by
  intro d fault hfault _
  cases hflight : d.streamer.flight with
  | some call =>
    simp [Streamer.requestChunk, exec_bind, hflight] at hfault
  | none =>
    rcases hrequest : source.request d.streamer.stream d.streamer.reference d.source.source with
      ⟨refusal | call, state⟩
    · have hledger : (exec (Streamer.requestChunk source.watched) d).2.source.ledger =
          .requested d.streamer.stream d.streamer.reference (.error refusal) ::
            d.source.ledger := by
        simp [Streamer.requestChunk, exec_bind, hflight, ChunkSource.watched, hrequest]
      rw [hledger]
      exact ⟨_, List.mem_cons_self, rfl⟩
    · simp [Streamer.requestChunk, exec_bind, hflight, ChunkSource.watched, hrequest] at hfault

theorem releaseExhausted : Candid (releaseExhausted source.watched) :=
  of_ok fun d => by
    cases h : d.source.marks.released with
    | false => exact ⟨(), by rw [exec_releaseExhausted h]⟩
    | true =>
      exact ⟨(), by simp [Streamer.releaseExhausted, claimRelease, exec_bind,
        ChunkSource.watched, h]⟩

theorem awaitChunk : Candid (awaitChunk source.watched) := by
  intro d fault hfault ht
  cases hflight : d.streamer.flight with
  | none =>
    rw [exec_awaitChunk_of_none hflight] at hfault
    cases hfault
  | some call =>
    rcases hwait : source.wait d.streamer.timeout call d.source.source with
      ⟨failure | ⟨data, last⟩, next, state⟩
    · rw [exec_awaitChunk_of_error hflight hwait]
      exact ⟨_, List.mem_cons_self, rfl⟩
    · cases last with
      | false =>
        rw [exec_awaitChunk_of_more hflight hwait] at hfault
        cases hfault
      | true =>
        rw [exec_awaitChunk_of_last hflight hwait] at hfault ⊢
        exact releaseExhausted _ fault hfault ht

theorem fill (rounds : Nat) : Candid (fill source.watched rounds) := by
  induction rounds with
  | zero => exact outOfRounds
  | succ rounds ih =>
    refine bind ensureOpen fun _ => bind streamer fun s => ?_
    by_cases hbuffer : s.buffer.isEmpty
    · by_cases hlast : s.lastSeen
      · simpa [hbuffer, hlast] using pure _
      · simpa [hbuffer, hlast] using bind requestChunk fun _ => bind awaitChunk fun _ => ih
    · simpa [hbuffer] using pure _

theorem readByte : Candid (readByte source.watched rounds) := by
  refine bind (fill rounds) fun available => ?_
  cases available with
  | true => exact bind (deliver 1) fun _ => pure _
  | false => exact pure none

theorem readFollowing (n : Nat) (before : Bytes) :
    Candid (readFollowing source.watched rounds n before) := by
  induction n generalizing before with
  | zero => exact pure _
  | succ n ih =>
    refine bind readByte fun byte => ?_
    cases byte with
    | none => exact fail rfl
    | some byte => exact ih _

theorem ensureCharacters : Candid (ensureCharacters : Reading (Watched σ H) H Unit) := by
  intro d fault hfault ht
  rw [exec_ensureCharacters] at hfault
  dsimp only at hfault
  split at hfault
  · cases hfault
  · cases hfault
    cases ht

theorem readChar : Candid (readChar source.watched rounds) := by
  refine bind ensureCharacters fun _ => bind readByte fun byte => ?_
  cases byte with
  | none => exact pure none
  | some lead =>
    cases hlead : following lead with
    | none => simpa only [hlead] using fail rfl
    | some n =>
      simp only [hlead]
      refine bind (readFollowing n []) fun rest => ?_
      cases Utf8.front lead rest with
      | char => exact pure _
      | invalid => exact fail rfl
      | cut => exact fail rfl

theorem readChunks (count : Nat) (before : List Bytes) :
    Candid (readChunks source.watched rounds count before) := by
  induction count generalizing before with
  | zero => exact outOfRounds
  | succ count ih =>
    refine bind (fill rounds) fun available => ?_
    cases available with
    | true => exact bind streamer fun s => bind (deliver _) fun bytes => ih _
    | false => exact pure _

theorem readToString : Candid (readToString source.watched rounds) := by
  refine bind ensureCharacters fun _ => bind (readChunks rounds []) fun bytes => ?_
  cases Utf8.decode bytes with
  | ok text => exact pure text
  | error defect => exact fail rfl

end Candid

/-! ## The object stays the same -/

section Reference

variable {source : ChunkSource σ H} {reference : LobReference}

theorem preserves_reference_requestChunk :
    Preserves (fun d => d.streamer.reference = reference) (requestChunk source) := by
  refine .bind .streamer fun s => ?_
  by_cases h : s.flight.isNone
  · simp only [h, if_true]
    refine .bind (fun _ hd => hd) fun outcome => ?_
    cases outcome with
    | error fault => exact .fail fault
    | ok call => exact fun _ hd => hd
  · simpa [h] using .pure _

theorem preserves_reference_releaseExhausted :
    Preserves (fun d => d.streamer.reference = reference) (releaseExhausted source) := by
  refine .bind (fun _ hd => hd) fun claimed => ?_
  cases claimed with
  | true => exact .bind .streamer fun s => .bind (fun _ hd => hd) fun _ => .pure _
  | false => exact .pure _

theorem preserves_reference_awaitChunk :
    Preserves (fun d => d.streamer.reference = reference) (awaitChunk source) := by
  refine .bind .streamer fun s => ?_
  cases s.flight with
  | none => exact .pure _
  | some call =>
    refine .bind (fun _ hd => hd) fun ⟨outcome, next⟩ => ?_
    cases outcome with
    | error fault => exact .bind (fun _ hd => hd) fun _ => .fail fault
    | ok chunk =>
      refine .bind (fun _ hd => hd) fun _ => ?_
      by_cases h : chunk.isLast
      · simpa [h] using .bind (fun _ hd => hd) fun _ => preserves_reference_releaseExhausted
      · simpa [h] using .pure _

theorem preserves_reference_fill :
    Preserves (fun d => d.streamer.reference = reference) (fill source rounds) := by
  induction rounds with
  | zero => exact .throw _
  | succ rounds ih =>
    refine .bind (.ensureOpen _) fun _ => .bind .streamer fun s => ?_
    by_cases hbuffer : s.buffer.isEmpty
    · by_cases hlast : s.lastSeen
      · simpa [hbuffer, hlast] using .pure _
      · simpa [hbuffer, hlast] using
          .bind preserves_reference_requestChunk fun _ =>
            .bind preserves_reference_awaitChunk fun _ => ih
    · simpa [hbuffer] using .pure _

theorem preserves_reference_readChar :
    Preserves (fun d => d.streamer.reference = reference) (readChar source rounds) :=
  .readChar preserves_reference_fill fun _ _ h => h

end Reference

theorem Extends.readChar : Extends (readChar source.watched rounds) :=
  .of_preserves fun ledger => .readChar ((Extends.fill rounds).preserves ledger) fun _ _ h => h

/-! ## One character -/

/-- What a read of a character comes to when the source gives what it is asked for, by the text that
is in front of what is unread. -/
inductive ReadsChar (chunks : List Bytes) (d e : Desk (Watched σ H) H) :
    List Char → Except Stop (Option Char) → Prop
  | char {c : Char} {cs : List Char} (h : Spends chunks d e (encodeChar c))
      (hopens : Opens cs (unread chunks e)) : ReadsChar chunks d e (c :: cs) (.ok (some c))
  | ended (h : Spends chunks d e []) (hend : unread chunks d = []) :
      ReadsChar chunks d e [] (.ok none)
  | misread {cause : Mismatch} (hinvalid : ¬ (unread chunks d).toByteArray.IsValidUTF8) :
      ReadsChar chunks d e [] (.error (.fault (.conversion cause)))

section Reads

variable {cs : List Char} {reads : Nat} (hs : Sound chunks d)
  (hkind : d.streamer.reference.kind.isCharacter = true)

include hs hkind

theorem readChar_reads (hrounds : chunks.length < rounds) (hopens : Opens cs (unread chunks d))
    (hserves : Serves chunks (exec (readChar source.watched rounds) d).2.source.ledger)
    (hprompt : Prompt (exec (readChar source.watched rounds) d).2.source.ledger) :
    ReadsChar chunks d (exec (readChar source.watched rounds) d).2 cs
        (exec (readChar source.watched rounds) d).1 ∧
      (exec (readChar source.watched rounds) d).2.streamer.reference.kind.isCharacter = true := by
  have hexec : exec (Retrieval.char.perform source.watched rounds) d =
      ((exec (readChar source.watched rounds) d).1.map fun c => (c.map encodeChar).getD [],
        (exec (readChar source.watched rounds) d).2) := exec_bind_pure ..
  have hresumes : Resumes chunks .char d _ _ :=
    char_resumes hs hrounds (by rw [hexec]; exact hserves)
  have hcandid : Candid (readChar source.watched rounds) := .readChar
  have hcandid := hcandid d
  have hsame : (exec (readChar source.watched rounds) d).2.streamer.reference =
    d.streamer.reference := preserves_reference_readChar d rfl
  rw [hexec] at hresumes
  refine ⟨?_, hsame ▸ hkind⟩
  generalize exec (readChar source.watched rounds) d = outcome at hresumes hcandid hprompt ⊢
  obtain ⟨stop | _ | c, e⟩ := outcome
  · cases hresumes with
    | timedOut ht =>
      obtain ⟨entry, hentry, hsetback⟩ := hcandid _ rfl ht
      rw [hprompt entry hentry] at hsetback
      cases hsetback
    | misread _ hleft =>
      obtain ⟨hmore, hnone⟩ := hleft.resolve_left (by simp [hkind])
      obtain rfl := hopens.eq_nil hnone
      refine .misread fun hvalid => hmore ?_
      exact (hopens.isValidUTF8_iff.1 hvalid).symm
  · cases hresumes with
    | handedOut h hyields =>
      have hend : unread chunks d = [] := by
        rcases hyields with ⟨-, hend⟩ | ⟨c, hc⟩
        · exact hend
        · exact absurd hc.symm (encodeChar_ne_nil c)
      obtain rfl : cs = [] := hopens.eq_nil fun c hc => by
        rw [hend] at hc
        exact encodeChar_ne_nil c (List.prefix_nil.1 hc)
      exact .ended h hend
  · cases hresumes with
    | handedOut h _ =>
      rw [h.unread_eq] at hopens
      obtain ⟨later, rfl, hlater⟩ := hopens.uncons
      exact .char h hlater

end Reads

/-! ## Character after character -/

/-- Reads of a character one after another: the outcomes, and where they leave the streamer. -/
def charReads (source : ChunkSource σ H) (rounds : Nat) :
    Nat → Desk σ H → List (Except Stop (Option Char)) × Desk σ H
  | 0, d => ([], d)
  | reads + 1, d =>
    let now := exec (readChar source rounds) d
    let later := charReads source rounds reads now.2
    (now.1 :: later.1, later.2)

theorem suffix_charReads (reads : Nat) (d : Desk (Watched σ H) H) :
    d.source.ledger <:+ (charReads source.watched rounds reads d).2.source.ledger := by
  induction reads generalizing d with
  | zero => exact List.suffix_rfl
  | succ reads ih => exact (Extends.readChar d).trans (ih _)

/-- What the `i`-th read comes to when a content begins with some text: to a character of it, and
after them to nothing if the text is the whole content, and to a refusal if it is not. -/
structure Decodes (content : Bytes) (cs : List Char) (i : Nat)
    (outcome : Except Stop (Option Char)) : Prop where
  char : ∀ c, cs[i]? = some c → outcome = .ok (some c)
  ended : content.toByteArray.IsValidUTF8 → cs.length ≤ i → outcome = .ok none
  refused : ¬ content.toByteArray.IsValidUTF8 → i = cs.length →
    ∃ cause, outcome = .error (.fault (.conversion cause))

/-- With no text in front it only matters whether there is anything. -/
theorem Decodes.of_nil {content : Bytes} {i : Nat} {outcome : Except Stop (Option Char)}
    (hended : content.toByteArray.IsValidUTF8 → outcome = .ok none)
    (hrefused : ¬ content.toByteArray.IsValidUTF8 → i = 0 →
      ∃ cause, outcome = .error (.fault (.conversion cause))) : Decodes content [] i outcome where
  char _ hc := by cases hc
  ended hvalid _ := hended hvalid
  refused := hrefused

/-- What a read of the text after a character comes to, it comes to one read later. -/
theorem Decodes.cons {left : Bytes} {cs : List Char} {i : Nat}
    {outcome : Except Stop (Option Char)} (h : Decodes left cs i outcome) (c : Char) :
    Decodes (encodeChar c ++ left) (c :: cs) (i + 1) outcome where
  char := h.char
  ended hvalid hlength := h.ended (isValidUTF8_encodeChar_append.1 hvalid)
    (Nat.le_of_succ_le_succ hlength)
  refused hinvalid hlength := h.refused (fun hvalid =>
    hinvalid (isValidUTF8_encodeChar_append.2 hvalid)) (Nat.succ.inj hlength)

section Reads

variable {cs : List Char} {reads : Nat} (hs : Sound chunks d) (hrounds : chunks.length + 1 < rounds)
  (hkind : d.streamer.reference.kind.isCharacter = true)

include hs hrounds hkind

/-- **Reads of characters** hand out the text in front, and then say whether there is more. -/
theorem charReads_decode (hopens : Opens cs (unread chunks d))
    (hserves : Serves chunks (charReads source.watched rounds reads d).2.source.ledger)
    (hprompt : Prompt (charReads source.watched rounds reads d).2.source.ledger) {i : Nat}
    {outcome : Except Stop (Option Char)}
    (houtcome : (charReads source.watched rounds reads d).1[i]? = some outcome) :
    Decodes (unread chunks d) cs i outcome := by
  induction reads generalizing d cs i with
  | zero => cases houtcome
  | succ reads ih =>
    have hsuffix : (exec (readChar source.watched rounds) d).2.source.ledger <:+
      (charReads source.watched rounds (reads + 1) d).2.source.ledger := suffix_charReads reads _
    obtain ⟨hread, hkind⟩ := readChar_reads hs hkind (by omega) hopens (hserves.of_suffix hsuffix)
      (hprompt.of_suffix hsuffix)
    simp only [charReads] at hserves hprompt houtcome
    generalize exec (readChar source.watched rounds) d = now at *
    obtain ⟨r, e⟩ := now
    cases hread with
    | @char c cs h hlater =>
      rw [h.unread_eq]
      cases i with
      | zero =>
        obtain rfl := Option.some.inj houtcome
        exact ⟨fun _ hc => hc ▸ rfl, fun _ hlength => absurd hlength (by simp),
          fun _ hlength => absurd hlength (by simp)⟩
      | succ i => exact (ih h.sound hkind hlater hserves hprompt houtcome).cons c
    | ended h hend =>
      have hstill : unread chunks e = [] := h.unread_eq.symm.trans hend
      have hnone : Opens [] (unread chunks e) := by
        rw [hstill, ← hend]
        exact hopens
      rw [hend, ← hstill]
      cases i with
      | zero =>
        obtain rfl := Option.some.inj houtcome
        exact .of_nil (fun _ => rfl) fun hinvalid =>
          absurd (hnone.isValidUTF8_iff.2 hstill.symm) hinvalid
      | succ i =>
        have hrest := ih h.sound hkind hnone hserves hprompt houtcome
        exact .of_nil (fun hvalid => hrest.ended hvalid (Nat.zero_le i)) fun _ hlength =>
          absurd hlength (Nat.succ_ne_zero i)
    | @misread cause hinvalid =>
      refine .of_nil (fun hvalid => absurd hvalid hinvalid) ?_
      rintro - rfl
      obtain rfl := Option.some.inj houtcome
      exact ⟨cause, rfl⟩

/-- **The loop of reads** gathers the text in front, and ends as the read behind it does. -/
theorem readChars_decode (hopens : Opens cs (unread chunks d)) (hreads : cs.length < reads)
    (before : List Char)
    (hserves : Serves chunks (charReads source.watched rounds reads d).2.source.ledger)
    (hprompt : Prompt (charReads source.watched rounds reads d).2.source.ledger) :
    ∃ outcome, ((readChars source.watched rounds reads before).run d).1 =
        (String.ofList (before.reverse ++ cs), outcome) ∧
      ((unread chunks d).toByteArray.IsValidUTF8 → outcome = .ok ()) ∧
      (¬ (unread chunks d).toByteArray.IsValidUTF8 →
        ∃ cause, outcome = .error (.fault (.conversion cause))) := by
  induction reads generalizing d cs before with
  | zero => cases hreads
  | succ reads ih =>
    have hsuffix : (exec (readChar source.watched rounds) d).2.source.ledger <:+
      (charReads source.watched rounds (reads + 1) d).2.source.ledger := suffix_charReads reads _
    obtain ⟨hread, hkind⟩ := readChar_reads hs hkind (by omega) hopens (hserves.of_suffix hsuffix)
      (hprompt.of_suffix hsuffix)
    have hloop : (readChars source.watched rounds (reads + 1) before).run d =
        match exec (readChar source.watched rounds) d with
        | (.ok (some c), e) => (readChars source.watched rounds reads (c :: before)).run e
        | (.ok none, e) => ((String.ofList before.reverse, .ok ()), e)
        | (.error stop, e) => ((String.ofList before.reverse, .error stop), e) := by
      rw [readChars, StateT.run_bind, exec]
      rcases (readChar source.watched rounds).run.run d with ⟨_ | _ | _, _⟩ <;> rfl
    rw [hloop]
    simp only [charReads] at hserves hprompt
    generalize exec (readChar source.watched rounds) d = now at *
    obtain ⟨r, e⟩ := now
    cases hread with
    | @char c cs h hlater =>
      obtain ⟨outcome, hrun, hvalid, hinvalid⟩ := ih h.sound hkind hlater
        (Nat.lt_of_succ_lt_succ hreads) (c :: before) hserves hprompt
      rw [h.unread_eq, isValidUTF8_encodeChar_append]
      refine ⟨outcome, ?_, hvalid, hinvalid⟩
      rw [hrun, List.reverse_cons, List.append_assoc, List.singleton_append]
    | ended h hend =>
      refine ⟨.ok (), by rw [List.append_nil], fun _ => rfl, fun hinvalid => ?_⟩
      rw [hend] at hinvalid hopens
      exact absurd (hopens.isValidUTF8_iff.2 rfl) hinvalid
    | @misread cause hinvalid =>
      exact ⟨_, by rw [List.append_nil], fun hvalid => absurd hvalid hinvalid,
        fun _ => ⟨cause, rfl⟩⟩

/-- **A read of the whole text** gives what is unread if that is a text. -/
theorem readToString_decode
    (hserves : Serves chunks (exec (readToString source.watched rounds) d).2.source.ledger)
    (hprompt : Prompt (exec (readToString source.watched rounds) d).2.source.ledger)
    (text : String) : (exec (readToString source.watched rounds) d).1 = .ok text ↔
      unread chunks d = Utf8.encode text := by
  have hexec : exec (Retrieval.text.perform source.watched rounds) d =
      ((exec (readToString source.watched rounds) d).1.map Utf8.encode,
        (exec (readToString source.watched rounds) d).2) := exec_bind_pure ..
  have hresumes : Resumes chunks .text d _ _ :=
    text_resumes hs hrounds (by rw [hexec]; exact hserves)
  have hcandid : Candid (readToString source.watched rounds) := .readToString
  have hcandid := hcandid d
  rw [hexec] at hresumes
  generalize exec (readToString source.watched rounds) d = outcome at hresumes hcandid hprompt ⊢
  obtain ⟨stop | read, e⟩ := outcome
  · cases hresumes with
    | timedOut ht =>
      obtain ⟨entry, hentry, hsetback⟩ := hcandid _ rfl ht
      rw [hprompt entry hentry] at hsetback
      cases hsetback
    | misread _ hleft =>
      have hnone := hleft.resolve_left (by simp [hkind]) text
      exact ⟨fun h => (by cases h), fun h => absurd h hnone⟩
  · cases hresumes with
    | handedOut _ hyields =>
      have hread : unread chunks d = Utf8.encode read := hyields.1.symm
      rw [hread]
      exact ⟨fun h => congrArg Utf8.encode (Except.ok.inj h), fun h =>
        congrArg Except.ok (Utf8.encode_injective h)⟩

end Reads

/-- **Characters are decoded.** A new streamer of a text, over a source that gives what it is asked
for and serves a content in chunks, hands out the characters of the longest text that the content
begins with, in order. When that is the whole content there is nothing after it, however often it is
asked for; when it is not, the next read is refused. A loop of such reads gathers that text, and
succeeds with a text exactly when a new streamer that is asked for all of the content at once does,
over any such source and wherever its chunks are cut. -/
theorem chars_decode {τ K : Type} {pieces : List Bytes} (source : ChunkSource σ H)
    (other : ChunkSource τ K) (hchunks : chunks ≠ []) (hpieces : pieces ≠ [])
    (hsame : pieces.flatten = chunks.flatten) (hrounds : chunks.length + 1 < rounds)
    (hrounds' : pieces.length + 1 < rounds) (stream stream' : UInt64) {reference : LobReference}
    (hkind : reference.kind.isCharacter = true) (timeout timeout' : Duration) (s : σ) (t : τ)
    (reads : Nat)
    (hserves : Serves chunks (charReads source.watched rounds reads
      (fresh stream reference timeout s)).2.source.ledger)
    (hprompt : Prompt (charReads source.watched rounds reads
      (fresh stream reference timeout s)).2.source.ledger)
    (hserves' : Serves pieces (exec (readToString other.watched rounds)
      (fresh stream' reference timeout' t)).2.source.ledger)
    (hprompt' : Prompt (exec (readToString other.watched rounds)
      (fresh stream' reference timeout' t)).2.source.ledger) :
    let first : Desk (Watched σ H) H := fresh stream reference timeout s
    let whole := (exec (readToString other.watched rounds) (fresh stream' reference timeout' t)).1
    ∃ cs, Opens cs chunks.flatten ∧
      (∀ i outcome, (charReads source.watched rounds reads first).1[i]? = some outcome →
        Decodes chunks.flatten cs i outcome) ∧
      (cs.length < reads →
        let loop := ((readChars source.watched rounds reads []).run first).1
        loop.1 = String.ofList cs ∧
          (loop.2 = .ok () ∨ ∃ cause, loop.2 = .error (.fault (.conversion cause))) ∧
          ∀ text, loop = (text, .ok ()) ↔ whole = .ok text) := by
  intro first whole
  have hsound : Sound chunks first := sound_fresh hchunks stream reference timeout s
  have hcontent : unread chunks first = chunks.flatten := unread_fresh stream reference timeout s
  obtain ⟨cs, hopens⟩ := exists_opens chunks.flatten
  rw [← hcontent] at hopens ⊢
  refine ⟨cs, hopens, fun i outcome houtcome =>
    charReads_decode hsound hrounds hkind hopens hserves hprompt houtcome, fun hreads => ?_⟩
  obtain ⟨outcome, hrun, hvalid, hinvalid⟩ :=
    readChars_decode hsound hrounds hkind hopens hreads [] hserves hprompt
  rw [List.reverse_nil, List.nil_append] at hrun
  intro loop
  rw [show loop = (String.ofList cs, outcome) from hrun]
  refine ⟨rfl, ?_, fun text => ?_⟩
  · by_cases h : (unread chunks first).toByteArray.IsValidUTF8
    · exact .inl (hvalid h)
    · exact .inr (hinvalid h)
  have hwhole : whole = .ok text ↔ unread chunks first = Utf8.encode text := by
    have hsound' : Sound pieces (fresh stream' reference timeout' t : Desk (Watched τ K) K) :=
      sound_fresh hpieces stream' reference timeout' t
    rw [hcontent, ← hsame]
    exact readToString_decode hsound' hrounds' hkind hserves' hprompt' text
  have hutf : (unread chunks first).toByteArray.IsValidUTF8 ↔
      unread chunks first = Utf8.encode (String.ofList cs) := by
    rw [hopens.isValidUTF8_iff, Utf8.encode_ofList, eq_comm]
  rw [hwhole]
  constructor
  · intro h
    obtain ⟨rfl, rfl⟩ := Prod.mk.inj h
    by_contra hother
    obtain ⟨cause, hcause⟩ := hinvalid fun h => hother (hutf.1 h)
    cases hcause
  · intro h
    have hall := Utf8.isValidUTF8_iff.2 ⟨text.toList, h⟩
    obtain rfl : text = String.ofList cs := Utf8.encode_injective (h.symm.trans (hutf.1 hall))
    rw [hvalid hall]

/-- A source that serves a content in chunks, each as soon as it is asked for. -/
def promptScript (chunks : List Bytes) : Script where
  requests := chunks.zipIdx.map fun (data, i) => .accepted [.ok ⟨data, i + 1 == chunks.length⟩]
  closeFault := none
  log := []
  marks := ⟨false, false⟩

/-- A text of three characters that is cut inside two of them, with an empty chunk in between. -/
def cutChunks : List Bytes := [[0x78, 0xC3], [0xA9, 0xF0], [], [0x9F, 0x98, 0x80]]

/-- A text that is cut inside its characters is read whole, and there is nothing after it. -/
theorem chars_decode_cutChunks :
    (∃ cs, Opens cs cutChunks.flatten ∧ cs.length ≤ 3 ∧
      ((readChars Script.source.watched 6 5 []).run
        (fresh 1 textReference (.seconds 1) (promptScript cutChunks))).1.1 = String.ofList cs) ∧
      (exec (readToString Script.source.watched 6)
        (fresh 2 textReference (.seconds 1) (promptScript [cutChunks.flatten]))).1 =
          .ok "xé😀" := by
  have hkind : textReference.kind.isCharacter = true := rfl
  have hrounds : cutChunks.length + 1 < 6 := by decide
  have hsame : [cutChunks.flatten].flatten = cutChunks.flatten := List.flatten_singleton
  obtain ⟨cs, hopens, hreads, hloop⟩ := chars_decode Script.source Script.source (by decide)
    (List.cons_ne_nil _ _) hsame hrounds (by decide) 1 2 hkind (.seconds 1) (.seconds 1)
    (promptScript cutChunks) (promptScript [cutChunks.flatten]) 5 (by decide +kernel)
    (by decide +kernel) (by decide +kernel) (by decide +kernel)
  have hlength : cs.length ≤ 3 := by
    by_contra hmore
    have hlast : cs[3]? = some cs[3] := List.getElem?_eq_getElem (Nat.lt_of_not_le hmore)
    cases (hreads 3 (.ok none) (by decide +kernel)).char _ hlast
  obtain ⟨htext, -, hwhole⟩ := hloop (Nat.lt_of_le_of_lt hlength (by decide))
  exact ⟨⟨cs, hopens, hlength, htext⟩, (hwhole "xé😀").1 (by decide +kernel)⟩

end Streamer

end QueryClient
