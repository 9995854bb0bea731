import QueryClient.Proofs.Lob.Spending
import QueryClient.Proofs.Text.Utf8

/-!
# Reading on after a timeout

A read of bytes that times out hands out nothing and loses nothing. A read of a character, or of all
that is left, puts together what it hands out; when a wait times out it gives that up, and the next
read goes on behind it. So what is handed out and what is unread are the content less what was given
up, and a text that is read again after a timeout lacks its front.
-/

namespace QueryClient.Streamer

open Attempt Lob
open Utf8 (encodeChar encodeChar_ne_nil encodeChar_of_front front_of_encodeChar decode_eq_ok_iff)

variable {σ H : Type} {source : ChunkSource σ H} {chunks : List Bytes} {rounds : Nat}
  {d e : Desk (Watched σ H) H}

/-! ## Characters -/

/-- The lead byte of a character says how many bytes follow it. -/
theorem following_of_encodeChar {c : Char} {lead : UInt8} {tail : Bytes}
    (h : encodeChar c = lead :: tail) : following lead = some tail.length := by
  have hvalid : c.toNat < 0xD800 ∨ 0xDFFF < c.toNat ∧ c.toNat < 0x110000 := c.valid
  unfold encodeChar at h
  generalize c.toNat = n at hvalid h
  simp only at h
  split_ifs at h with h1 h2 h3
  all_goals
    obtain ⟨rfl, rfl⟩ := List.cons.inj h
    simp only [following, UInt8.toNat_ofNat', Bool.and_eq_true, decide_eq_true_eq,
      List.length_cons, List.length_nil]
    split_ifs <;> first | rfl | omega

theorem following_le {lead : UInt8} {n : Nat} (h : following lead = some n) : n ≤ 3 := by
  unfold following at h
  simp only [Bool.and_eq_true, decide_eq_true_eq] at h
  split_ifs at h <;> cases h <;> decide

/-- A character in front has its lead byte there and as many bytes behind it as that says. -/
theorem exists_tail_of_isPrefix {c : Char} {lead : UInt8} {left : Bytes}
    (h : encodeChar c <+: lead :: left) :
    ∃ tail, encodeChar c = lead :: tail ∧ tail <+: left ∧ following lead = some tail.length := by
  obtain ⟨first, tail, hc⟩ := List.exists_cons_of_ne_nil (encodeChar_ne_nil c)
  rw [hc, List.cons_prefix_cons] at h
  obtain ⟨rfl, htail⟩ := h
  exact ⟨tail, hc, htail, following_of_encodeChar hc⟩

theorem length_of_isPrefix {c : Char} {lead : UInt8} {left : Bytes} {n : Nat}
    (hlead : following lead = some n) (h : encodeChar c <+: lead :: left) :
    (encodeChar c).length = n + 1 := by
  obtain ⟨tail, hc, -, hfollow⟩ := exists_tail_of_isPrefix h
  obtain rfl := Option.some.inj (hlead.symm.trans hfollow)
  rw [hc, List.length_cons]

section Lead

variable {c : Char} {lead : UInt8} {rest left : Bytes}

/-- With as many bytes as the lead byte asks for, a character that is read is all of them. -/
theorem encodeChar_of_front_all (hrest : following lead = some rest.length) {extra : Nat}
    (h : Utf8.front lead rest = .char c extra) : encodeChar c = lead :: rest := by
  obtain ⟨tail, after, rfl, -, hc⟩ := encodeChar_of_front h
  have hlength := Option.some.inj (hrest.symm.trans (following_of_encodeChar hc))
  obtain rfl : after = [] := List.length_eq_zero_iff.1 (by simpa using hlength)
  rw [hc, List.append_nil]

/-- A character in front is read from as many bytes as its lead byte asks for. -/
theorem front_of_isPrefix (hrest : following lead = some rest.length)
    (h : encodeChar c <+: lead :: (rest ++ left)) :
    Utf8.front lead rest = .char c rest.length := by
  obtain ⟨tail, hc, htail, hfollow⟩ := exists_tail_of_isPrefix h
  have hlength := Option.some.inj (hfollow.symm.trans hrest)
  obtain rfl : tail = rest :=
    (List.prefix_of_prefix_length_le htail (List.prefix_append rest left) hlength.le).eq_of_length
      hlength
  have hfront : Utf8.front lead (tail ++ []) = .char c tail.length := front_of_encodeChar hc
  rwa [List.append_nil] at hfront

end Lead

/-! ## Retrievals -/

/-- A read of some bytes, of the next character, of all that is left, or of that as text. -/
inductive Retrieval where
  | bytes (call : ReadCall)
  | char
  | rest
  | text
deriving DecidableEq, Repr

namespace Retrieval

/-- Hands out the bytes of what is read. -/
def perform (source : ChunkSource σ H) (rounds : Nat) : Retrieval → Reading σ H Bytes
  | bytes call => call.perform source rounds
  | char => return ((← readChar source rounds).map encodeChar).getD []
  | rest => readToEnd source rounds
  | text => return Utf8.encode (← readToString source rounds)

/-- Whether bytes off the front of what is left are what a retrieval is for. -/
def Yields (left : Bytes) : Retrieval → Bytes → Prop
  | bytes call, handed => handed.length ≤ call.most ∧ (handed = [] → call.most = 0 ∨ left = [])
  | char, handed => (handed = [] ∧ left = []) ∨ ∃ c, handed = encodeChar c
  | rest, handed => handed = left
  | text, handed => handed = left ∧ ∃ text, left = Utf8.encode text

/-- What a retrieval between two desks gives up when it times out: nothing of some bytes, of a
character the bytes that it had put together, of all that is left what had come in. -/
def Forfeits (chunks : List Bytes) (d e : Desk (Watched σ H) H) : Retrieval → Bytes → Prop
  | bytes _, spent => spent = []
  | char, spent => spent.length ≤ 3 ∧
    ∀ c, encodeChar c <+: unread chunks d → spent.length < (encodeChar c).length
  | rest, spent | text, spent => spent = d.streamer.buffer ++ cameIn chunks d e

/-- Whether what is left is not what a retrieval is for. -/
def Unreadable (kind : LobKind) (left : Bytes) : Retrieval → Prop
  | bytes _ | rest => False
  | char => kind.isCharacter = false ∨ left ≠ [] ∧ ∀ c, ¬ encodeChar c <+: left
  | text => kind.isCharacter = false ∨ ∀ text, left ≠ Utf8.encode text

end Retrieval

/-- What a retrieval may come to: it hands out what it is for, or it times out and gives up what it
had put together, or what it finds is not what it is for. -/
inductive Resumes (chunks : List Bytes) (call : Retrieval) (d e : Desk (Watched σ H) H) :
    Except Stop Bytes → Prop
  | handedOut {bytes : Bytes} (h : Spends chunks d e bytes)
      (hyields : call.Yields (unread chunks d) bytes) : Resumes chunks call d e (.ok bytes)
  | timedOut {fault : Fault} {spent : Bytes} (ht : fault.isTimeout = true)
      (h : Spends chunks d e spent) (hforfeits : call.Forfeits chunks d e spent) :
      Resumes chunks call d e (.error (.fault fault))
  | misread {cause : Mismatch} {spent : Bytes} (h : Spends chunks d e spent)
      (hleft : call.Unreadable d.streamer.reference.kind (unread chunks d)) :
      Resumes chunks call d e (.error (.fault (.conversion cause)))

theorem exec_ensureCharacters (d : Desk σ H) : exec ensureCharacters d =
    (if d.streamer.reference.kind.isCharacter then .ok ()
      else .error (.fault (.conversion (.notCharacters d.streamer.reference.kind))), d) := by
  simp only [ensureCharacters, exec_bind, exec_streamer]
  cases d.streamer.reference.kind.isCharacter <;> rfl

namespace Preserves

variable {source : ChunkSource σ H} {P : Desk σ H → Prop}

theorem ensureCharacters : Preserves P (ensureCharacters : Reading σ H Unit) := by
  intro d h
  rwa [exec_ensureCharacters]

theorem afterLead (lead : UInt8) (rest : Bytes) :
    Preserves P (match Utf8.front lead rest with
      | .char c _ => return some c
      | _ => Attempt.fail (.conversion .badCharacter) : Reading σ H (Option Char)) := by
  cases Utf8.front lead rest with
  | char => exact .pure _
  | invalid => exact .fail _
  | cut => exact .fail _

theorem afterBytes (bytes : Bytes) :
    Preserves P (match Utf8.decode bytes with
      | .ok text => return text
      | .error defect => Attempt.fail (.conversion (.invalidText defect)) :
        Reading σ H String) := by
  cases Utf8.decode bytes with
  | ok text => exact .pure text
  | error defect => exact .fail _

variable (hfill : Preserves P (fill source rounds)) (hdeliver : ∀ n, Preserves P (deliver n))

include hfill hdeliver

theorem behind (byte : Option UInt8) :
    Preserves P (match byte with
      | none => return none
      | some lead =>
        match following lead with
        | none => Attempt.fail (.conversion (.leadByte lead))
        | some n => do
          let rest ← Streamer.readFollowing source rounds n []
          match Utf8.front lead rest with
          | .char c _ => return some c
          | _ => Attempt.fail (.conversion .badCharacter) : Reading σ H (Option Char)) := by
  cases byte with
  | none => exact .pure none
  | some lead =>
    cases hlead : following lead with
    | none => simpa only [hlead] using .fail _
    | some n =>
      simpa only [hlead] using .bind (.readFollowing hfill hdeliver n []) (.afterLead lead)

theorem readChar : Preserves P (readChar source rounds) :=
  .bind .ensureCharacters fun _ => .bind (.readByte hfill hdeliver) (.behind hfill hdeliver)

theorem readToString : Preserves P (readToString source rounds) :=
  .bind .ensureCharacters fun _ => .bind (.readChunks hfill hdeliver rounds []) .afterBytes

/-- **What filling and delivering keep**, every retrieval keeps. -/
theorem retrieve (call : Retrieval) : Preserves P (call.perform source rounds) := by
  cases call with
  | bytes call => exact .perform hfill hdeliver call
  | char => exact .bind (.readChar hfill hdeliver) fun _ => .pure _
  | rest => exact .readChunks hfill hdeliver rounds []
  | text => exact .bind (.readToString hfill hdeliver) fun _ => .pure _

end Preserves

theorem Extends.retrieve (call : Retrieval) : Extends (call.perform source.watched rounds) :=
  .of_preserves fun ledger =>
    .retrieve ((Extends.fill rounds).preserves ledger) (fun _ _ h => h) call

section Resumes

variable (hs : Sound chunks d)

theorem Reads.resumes {call : ReadCall} {r : Except Stop Bytes} (h : Reads chunks call d e r) :
    Resumes chunks (.bytes call) d e r := by
  cases h with
  | handedOut sound hlength hunread hbytes hend =>
    refine .handedOut ⟨sound, hunread, hbytes⟩ ⟨hlength, fun hnil => ?_⟩
    by_cases hmost : call.most = 0
    · exact .inl hmost
    · rw [hunread, hnil, sound.unread_of_ended (hend hnil hmost)]
      exact .inr rfl
  | timedOut ht keeps => exact .timedOut ht keeps.spends rfl

include hs

theorem readToEnd_spends (hrounds : chunks.length + 1 < rounds)
    (hserves : Serves chunks (exec (readToEnd source.watched rounds) d).2.source.ledger) :
    ∃ r e spent, exec (readToEnd source.watched rounds) d = (r, e) ∧ Spends chunks d e spent ∧
      ((r = .ok spent ∧ unread chunks d = spent ∧ unread chunks e = []) ∨
        ∃ fault, r = .error (.fault fault) ∧ fault.isTimeout = true ∧
          spent = d.streamer.buffer ++ cameIn chunks d e) := by
  have hahead : ahead chunks d < rounds := by
    rw [ahead]
    split <;> omega
  have hledger : d.source.ledger <:+
      (exec (readToEnd source.watched rounds) d).2.source.ledger :=
    Extends.readChunks rounds [] d
  obtain ⟨r, e, spent, hexec, hspends, hcase⟩ :=
    readChunks_spends hs (by omega) hahead [] hserves
  rw [show exec (readToEnd source.watched rounds) d = (r, e) from hexec] at hledger
  refine ⟨r, e, spent, hexec, hspends, ?_⟩
  rcases hcase with ⟨rfl, hend⟩ | ⟨fault, rfl, ht, hempty⟩
  · have hunread := hspends.unread_eq
    rw [hend, List.append_nil] at hunread
    exact .inl ⟨rfl, hunread, hend⟩
  · exact .inr ⟨fault, rfl, ht, hspends.eq_of_buffer hledger hempty⟩

theorem text_resumes (hrounds : chunks.length + 1 < rounds)
    (hserves : Serves chunks
      (exec (Retrieval.text.perform source.watched rounds) d).2.source.ledger) :
    Resumes chunks .text d (exec (Retrieval.text.perform source.watched rounds) d).2
      (exec (Retrieval.text.perform source.watched rounds) d).1 := by
  simp only [Retrieval.perform, exec_bind_pure] at hserves ⊢
  rw [readToString, exec_bind, exec_ensureCharacters] at hserves ⊢
  cases hkind : d.streamer.reference.kind.isCharacter with
  | false =>
    simp only [Bool.false_eq_true, if_false]
    exact .misread hs.spends_nil (.inl hkind)
  | true =>
    simp only [hkind, if_true] at hserves ⊢
    have hnow : Serves chunks (exec (readToEnd source.watched rounds) d).2.source.ledger :=
      hserves.of_suffix
        (Extends.suffix_bind _ (fun bytes => .of_preserves fun _ => .afterBytes bytes) d)
    obtain ⟨r, e, spent, hexec, hspends, hcase⟩ := readToEnd_spends hs hrounds hnow
    rcases hcase with ⟨rfl, hunread, -⟩ | ⟨fault, rfl, ht, hlost⟩
    · rw [exec_bind_ok hexec]
      cases hdecode : Utf8.decode spent with
      | ok text =>
        obtain rfl := decode_eq_ok_iff.1 hdecode
        exact .handedOut hspends ⟨hunread.symm, text, hunread⟩
      | error defect =>
        refine .misread hspends (.inr fun text htext => ?_)
        rw [decode_eq_ok_iff.2 (hunread.symm.trans htext)] at hdecode
        cases hdecode
    · rw [exec_bind_error hexec]
      exact .timedOut ht hspends hlost

omit hs in
/-- A character goes on behind its lead byte. -/
theorem char_resumes_of_lead (hrounds : chunks.length < rounds) {lead : UInt8} {n : Nat}
    (h : Spends chunks d e [lead]) (hlead : following lead = some n)
    (hserves : Serves chunks (exec (do
      let rest ← readFollowing source.watched rounds n []
      match Utf8.front lead rest with
      | .char c _ => return some c
      | _ => fail (.conversion .badCharacter) :
        Reading (Watched σ H) H (Option Char)) e).2.source.ledger) :
    let outcome := exec (do
      let rest ← readFollowing source.watched rounds n []
      match Utf8.front lead rest with
      | .char c _ => return some c
      | _ => fail (.conversion .badCharacter) : Reading (Watched σ H) H (Option Char)) e
    Resumes chunks .char d outcome.2 (outcome.1.map fun c => (c.map encodeChar).getD []) := by
  have hnow : Serves chunks
      (exec (readFollowing source.watched rounds n []) e).2.source.ledger :=
    hserves.of_suffix
      (Extends.suffix_bind _ (fun rest => .of_preserves fun _ => .afterLead lead rest) e)
  obtain ⟨r, f, spent, hexec, hspends, hcase⟩ := readFollowing_spends h.sound hrounds n [] hnow
  have hall := h.trans hspends
  have hunread : unread chunks d = lead :: (spent ++ unread chunks f) := hall.unread_eq
  have hmore : unread chunks d ≠ [] := by
    rw [hunread]
    exact List.cons_ne_nil _ _
  have hlength {c : Char} (hc : encodeChar c <+: unread chunks d) :
      (encodeChar c).length = n + 1 := by
    rw [hunread] at hc
    exact length_of_isPrefix hlead hc
  dsimp only
  -- all the bytes that follow have come in, or the content has ended before, or a wait timed out
  rcases hcase with ⟨rfl, rfl⟩ | ⟨rfl, hshort, hend⟩ | ⟨fault, rfl, ht, hshort⟩
  · rw [exec_bind_ok hexec, List.reverse_nil, List.nil_append]
    have hfront (c : Char) (hc : encodeChar c <+: unread chunks d) :
        Utf8.front lead spent = .char c spent.length := by
      rw [hunread] at hc
      exact front_of_isPrefix hlead hc
    cases hread : Utf8.front lead spent with
    | char c extra =>
      have hbytes := encodeChar_of_front_all hlead hread
      exact .handedOut (show Spends chunks d f (encodeChar c) from hbytes ▸ hall) (.inr ⟨c, rfl⟩)
    | invalid | cut =>
      refine .misread hall (.inr ⟨hmore, fun c hc => ?_⟩)
      rw [hfront c hc] at hread
      cases hread
  · rw [exec_bind_error hexec]
    refine .misread hall (.inr ⟨hmore, fun c hc => ?_⟩)
    have hmost := hc.length_le
    rw [hlength hc, hunread, hend, List.append_nil, List.length_cons] at hmost
    omega
  · rw [exec_bind_error hexec]
    have hthree := following_le hlead
    refine .timedOut ht hall ⟨?_, fun c hc => ?_⟩
    · rw [List.length_append, List.length_singleton]
      omega
    · rw [hlength hc, List.length_append, List.length_singleton]
      omega

theorem char_resumes (hrounds : chunks.length < rounds)
    (hserves : Serves chunks
      (exec (Retrieval.char.perform source.watched rounds) d).2.source.ledger) :
    Resumes chunks .char d (exec (Retrieval.char.perform source.watched rounds) d).2
      (exec (Retrieval.char.perform source.watched rounds) d).1 := by
  simp only [Retrieval.perform, exec_bind_pure] at hserves ⊢
  rw [readChar, exec_bind, exec_ensureCharacters] at hserves ⊢
  cases hkind : d.streamer.reference.kind.isCharacter with
  | false =>
    simp only [Bool.false_eq_true, if_false]
    exact .misread hs.spends_nil (.inl hkind)
  | true =>
    simp only [hkind, if_true] at hserves ⊢
    have hnow : Serves chunks (exec (readByte source.watched rounds) d).2.source.ledger :=
      hserves.of_suffix (Extends.suffix_bind _ (fun byte => .of_preserves fun ledger =>
        .behind ((Extends.fill rounds).preserves ledger) (fun _ _ h => h) byte) d)
    have hread := readByte_reads hs hrounds hnow
    rcases hbyte : exec (readByte source.watched rounds) d with ⟨r, e⟩
    rw [hbyte] at hread
    cases hread with
    | timedOut ht h =>
      rw [exec_bind_error hbyte]
      refine .timedOut ht h ⟨Nat.zero_le 3, fun c _ => ?_⟩
      exact List.length_pos_iff.2 (encodeChar_ne_nil c)
    | ended h hend =>
      rw [exec_bind_ok hbyte]
      exact .handedOut h (.inl ⟨rfl, h.unread_eq.trans hend⟩)
    | @byte lead h =>
      rw [exec_bind_ok hbyte] at hserves ⊢
      cases hlead : following lead with
      | none =>
        simp only [hlead]
        refine .misread h (.inr ⟨by simp [h.unread_eq], fun c hc => ?_⟩)
        rw [h.unread_eq] at hc
        obtain ⟨_, _, _, hfollow⟩ := exists_tail_of_isPrefix hc
        rw [hlead] at hfollow
        cases hfollow
      | some n =>
        simp only [hlead] at hserves ⊢
        exact char_resumes_of_lead hrounds h hlead hserves

/-- **Every retrieval** takes what it hands out, or what it gives up, off the front of what is
unread. -/
theorem perform_resumes (hrounds : chunks.length + 1 < rounds) (call : Retrieval)
    (hserves : Serves chunks (exec (call.perform source.watched rounds) d).2.source.ledger) :
    Resumes chunks call d (exec (call.perform source.watched rounds) d).2
      (exec (call.perform source.watched rounds) d).1 := by
  cases call with
  | bytes call => exact (perform_reads hs (by omega) call hserves).resumes
  | char => exact char_resumes hs (by omega) hserves
  | rest =>
    obtain ⟨r, e, spent, hexec, hspends, hcase⟩ := readToEnd_spends hs hrounds hserves
    rw [Retrieval.perform, hexec]
    rcases hcase with ⟨rfl, hunread, -⟩ | ⟨fault, rfl, ht, hlost⟩
    · exact .handedOut hspends hunread.symm
    · exact .timedOut ht hspends hlost
  | text => exact text_resumes hs hrounds hserves

end Resumes

/-! ## A sequence of retrievals -/

/-- Retrievals one after another: the answers, and where they leave the streamer. -/
def retrieveAll (source : ChunkSource σ H) (rounds : Nat) :
    List Retrieval → Desk σ H → List (Retrieval × Except Stop Bytes) × Desk σ H
  | [], d => ([], d)
  | call :: calls, d =>
    let now := exec (call.perform source rounds) d
    let later := retrieveAll source rounds calls now.2
    ((call, now.1) :: later.1, later.2)

/-- The bytes that are handed out in a sequence of retrievals. -/
def handedOut (answers : List (Retrieval × Except Stop Bytes)) : Bytes :=
  answers.flatMap fun answer => answer.2.toOption.getD []

/-- Whether only reads of some bytes failed. -/
def FailsInBytes (answers : List (Retrieval × Except Stop Bytes)) : Prop :=
  ∀ answer ∈ answers, ∀ stop, answer.2 = .error stop → ∃ call, answer.1 = .bytes call

theorem retrieveAll_append (source : ChunkSource σ H) (before after : List Retrieval)
    (d : Desk σ H) : (retrieveAll source rounds (before ++ after) d).2 =
      (retrieveAll source rounds after (retrieveAll source rounds before d).2).2 := by
  induction before generalizing d with
  | nil => rfl
  | cons call before ih => exact ih _

theorem suffix_retrieveAll (calls : List Retrieval) (d : Desk (Watched σ H) H) :
    d.source.ledger <:+ (retrieveAll source.watched rounds calls d).2.source.ledger := by
  induction calls generalizing d with
  | nil => exact List.suffix_rfl
  | cons call calls ih => exact (Extends.retrieve call d).trans (ih _)

/-- What is spent holds what is handed out, and is all of it when bytes are read. -/
theorem Resumes.spends {call : Retrieval} {r : Except Stop Bytes} (h : Resumes chunks call d e r) :
    ∃ spent, Spends chunks d e spent ∧ (r.toOption.getD []).Sublist spent ∧
      ((∀ stop, r = .error stop → ∃ read, call = .bytes read) → r.toOption.getD [] = spent) := by
  cases h with
  | handedOut h => exact ⟨_, h, List.Sublist.refl _, fun _ => rfl⟩
  | timedOut _ h hforfeits =>
    refine ⟨_, h, List.nil_sublist _, fun hbytes => ?_⟩
    obtain ⟨read, rfl⟩ := hbytes _ rfl
    exact Eq.symm hforfeits
  | misread h hleft =>
    refine ⟨_, h, List.nil_sublist _, fun hbytes => ?_⟩
    obtain ⟨read, rfl⟩ := hbytes _ rfl
    exact hleft.elim

/-- **A sequence of retrievals** spends what it hands out, and what was given up in between. -/
theorem retrieveAll_spends (hs : Sound chunks d) (hrounds : chunks.length + 1 < rounds)
    (calls : List Retrieval)
    (hserves : Serves chunks (retrieveAll source.watched rounds calls d).2.source.ledger) :
    ∃ spent, Spends chunks d (retrieveAll source.watched rounds calls d).2 spent ∧
      (handedOut (retrieveAll source.watched rounds calls d).1).Sublist spent ∧
      (FailsInBytes (retrieveAll source.watched rounds calls d).1 →
        handedOut (retrieveAll source.watched rounds calls d).1 = spent) := by
  induction calls generalizing d with
  | nil => exact ⟨[], hs.spends_nil, List.Sublist.refl _, fun _ => rfl⟩
  | cons call calls ih =>
    simp only [retrieveAll] at hserves ⊢
    obtain ⟨now, hnow, hpart, hall⟩ := (perform_resumes hs hrounds call
      (hserves.of_suffix (suffix_retrieveAll calls _))).spends
    obtain ⟨later, hlater, hparts, halls⟩ := ih hnow.sound hserves
    refine ⟨now ++ later, hnow.trans hlater, ?_, fun hbytes => ?_⟩
    · rw [handedOut, List.flatMap_cons]
      exact hpart.append hparts
    · obtain ⟨hfirst, hrest⟩ := List.forall_mem_cons.1 hbytes
      rw [handedOut, List.flatMap_cons]
      exact congrArg₂ (· ++ ·) (hall hfirst) (halls hrest)

/-- **Where reads go on.** Over a source that serves a content in chunks, whatever is read and
however often waits time out: the count of the bytes read is the place in the content where the next
read begins. A read of some bytes that times out moves it nowhere; one of a character moves it past
the bytes that it had put together, which are fewer than the character has, and one of all that is
left past all that had come in. So nothing is handed out twice or out of order, but what was given
up is not handed out again, and everything is handed out as long as only reads of some bytes fail.
-/
theorem retrievals_resume (source : ChunkSource σ H) (hchunks : chunks ≠ [])
    (hrounds : chunks.length + 1 < rounds) (stream : UInt64) (reference : LobReference)
    (timeout : Duration) (s : σ) (calls : List Retrieval)
    (hserves : Serves chunks (retrieveAll source.watched rounds calls
      (fresh stream reference timeout s)).2.source.ledger) :
    let first : Desk (Watched σ H) H := fresh stream reference timeout s
    let answers := (retrieveAll source.watched rounds calls first).1
    let last := (retrieveAll source.watched rounds calls first).2
    (∀ before call after, calls = before ++ call :: after →
      let d := (retrieveAll source.watched rounds before first).2
      let read := exec (call.perform source.watched rounds) d
      unread chunks d = chunks.flatten.drop d.streamer.bytesRead ∧
        Resumes chunks call d read.2 read.1) ∧
    (handedOut answers ++ unread chunks last).Sublist chunks.flatten ∧
    (FailsInBytes answers → handedOut answers ++ unread chunks last = chunks.flatten) := by
  intro first answers last
  have hsound : Sound chunks first := sound_fresh hchunks stream reference timeout s
  have hcontent : unread chunks first = chunks.flatten := unread_fresh stream reference timeout s
  obtain ⟨spent, hspends, hpart, hall⟩ := retrieveAll_spends hsound hrounds calls hserves
  rw [← hcontent, hspends.unread_eq]
  refine ⟨?_, hpart.append_right _, fun hbytes => congrArg (· ++ _) (hall hbytes)⟩
  rintro before call after rfl d read
  have hnow : Serves chunks read.2.source.ledger := by
    rw [retrieveAll_append] at hserves
    exact hserves.of_suffix (suffix_retrieveAll after _)
  obtain ⟨gone, hgone, -, -⟩ := retrieveAll_spends hsound hrounds before
    (hnow.of_suffix (Extends.retrieve call d))
  refine ⟨?_, perform_resumes hgone.sound hrounds call hnow⟩
  have hplace : d.streamer.bytesRead = gone.length := hgone.bytesRead_eq.trans (Nat.zero_add _)
  rw [← hspends.unread_eq, hgone.unread_eq, hplace, List.drop_left]

/-- Two pieces of text. -/
def textChunks : List Bytes := [Utf8.encode "ab", Utf8.encode "cd"]

/-- A source of a text that is slow to bring the second piece. -/
def haltingScript : Script where
  requests := [
    .accepted [.ok ⟨Utf8.encode "ab", false⟩],
    .accepted [.error (.timeout "chunk" (.seconds 1)), .ok ⟨Utf8.encode "cd", true⟩]]
  closeFault := none
  log := []
  marks := ⟨false, false⟩

def textReference : LobReference := ⟨"text", .clob, some 4⟩

/-- A text that is asked for again after a timeout has no more than was left of it. -/
theorem retrievals_resume_haltingScript :
    let first := fresh 1 textReference (.seconds 1) haltingScript
    let both := retrieveAll Script.source.watched 4 [.text, .text] first
    handedOut both.1 = Utf8.encode "cd" ∧
      (handedOut both.1 ++ unread textChunks both.2).Sublist (Utf8.encode "abcd") := by
  intro first both
  have hserves : Serves textChunks both.2.source.ledger := by decide +kernel
  have hrounds : textChunks.length + 1 < 4 := by decide
  obtain ⟨-, hpart, -⟩ := retrievals_resume Script.source (by decide) hrounds 1 textReference
    (.seconds 1) haltingScript [.text, .text] hserves
  exact ⟨by decide +kernel, hpart⟩

/-- A read of a text times out with nothing handed out, and the next one does not have what had been
there to read. -/
theorem text_retried_lacks_front :
    let first := fresh 1 textReference (.seconds 1) haltingScript
    let tried := exec (readToString Script.source.watched 4) first
    let again := exec (readToString Script.source.watched 4) tried.2
    Serves textChunks again.2.source.ledger ∧
      unread textChunks first = Utf8.encode "abcd" ∧
      tried.1 = .error (.fault (.timeout "chunk" (.seconds 1))) ∧
      unread textChunks tried.2 = Utf8.encode "cd" ∧
      again.1 = .ok "cd" := by
  decide +kernel

end QueryClient.Streamer
