import Mathlib.Data.List.Basic
import QueryClient.Proofs.Wire.Reencoding

/-!
# Where a frame ends

A frame says itself where it ends: whatever follows it does not change what is read, and is left
alone. So a frame that stands at the front of some bytes is one that decodes alone. Bytes may also
break off inside a frame, in its length, its payload or one of its contents, without anything wrong
before that.
-/

namespace QueryClient

namespace Appendix

/-- Bytes that hold some contents one behind another, each cut in some way. -/
inductive Holds : Bytes → List Bytes → Prop
  | nil : Holds [] []
  | cons {cutting contents : List Bytes} {rest : Bytes}
      (hcutting : ∀ piece ∈ cutting, IsPiece piece) (h : Holds rest contents) :
      Holds (cutting.flatMap writePiece ++ writePiece [] ++ rest) (cutting.flatten :: contents)

/-- A content that ends too early: before its end has come, and with nothing wrong before that. -/
inductive CutShort (max : Nat) : (used : Nat) → Bytes → Prop
  | length {used : Nat} {bytes : Bytes} (h : bytes.length < 2) : CutShort max used bytes
  | piece {used length : Nat} {rest : Bytes} (hpos : 0 < length) (hlt : length < 2 ^ 16)
      (hmax : used + length ≤ max) (h : rest.length < length) :
      CutShort max used (Bytes.ofNat 2 length ++ rest)
  | later {used : Nat} {piece rest : Bytes} (hpiece : IsPiece piece)
      (hmax : used + piece.length ≤ max) (h : CutShort max (used + piece.length) rest) :
      CutShort max used (writePiece piece ++ rest)

/-- Bytes that end before `n` contents are complete, with nothing wrong before that. -/
inductive BreaksOff (max : Nat) : (n used : Nat) → Bytes → Prop
  | here {n used : Nat} {bytes : Bytes} (h : CutShort max used bytes) :
      BreaksOff max (n + 1) used bytes
  | later {n used : Nat} {cutting : List Bytes} {rest : Bytes}
      (hcutting : ∀ piece ∈ cutting, IsPiece piece) (hmax : used + cutting.flatten.length ≤ max)
      (h : BreaksOff max n (used + cutting.flatten.length) rest) :
      BreaksOff max (n + 1) used (cutting.flatMap writePiece ++ writePiece [] ++ rest)

variable {max n used pos : Nat} {before contents : List Bytes} {bytes rest content : Bytes}

/-- Reading goes by the number that stands in front. -/
theorem readPieces_word {word tail : Bytes} (hword : word.length = 2) :
    readPieces max used before pos (word ++ tail) =
      if word.toNat = 0 then (.ok before.reverse.flatten, ⟨used, ⟨tail, pos + 2⟩⟩)
      else match checkTotal (used + word.toNat) max with
      | .error fault => (.error fault, ⟨used + word.toNat, ⟨tail, pos + 2⟩⟩)
      | .ok () =>
        if word.toNat ≤ tail.length then
          readPieces max (used + word.toNat) (tail.take word.toNat :: before)
            (pos + 2 + word.toNat) (tail.drop word.toNat)
        else (.error (.bufferUnderflow word.toNat tail.length),
          ⟨used + word.toNat, ⟨tail, pos + 2⟩⟩) := by
  obtain ⟨high, low, rfl⟩ := List.length_eq_two.mp hword
  have hnumber : Bytes.toNat [high, low] = high.toNat * 256 + low.toNat := by
    simp [Bytes.toNat_cons]
  rw [List.cons_append, List.cons_append, List.nil_append, readPieces, hnumber]
  cases checkTotal (used + (high.toNat * 256 + low.toNat)) max with
  | error fault => rfl
  | ok _ => simp only [Bytes.holds_eq_decide, decide_eq_true_eq]

/-- Reading fails where a content is cut short. -/
theorem readPieces_of_cutShort (h : CutShort max used bytes) : ∃ needed available p,
    readPieces max used before pos bytes = (.error (.bufferUnderflow needed available), p) := by
  induction h generalizing before pos with
  | @length used bytes hshort =>
    rcases bytes with _ | ⟨first, _ | ⟨second, rest⟩⟩
    · exact ⟨2, 0, _, by rw [readPieces]; rfl; simp⟩
    · exact ⟨2, 1, _, by rw [readPieces]; rfl; simp⟩
    · exact absurd hshort (by simp)
  | @piece used length rest hpos hlt hmax hshort =>
    have hnumber : (Bytes.ofNat 2 length).toNat = length := Bytes.toNat_ofNat hlt
    rw [readPieces_word (Bytes.length_ofNat 2 length), hnumber, if_neg hpos.ne',
      checkTotal_eq_ok_iff.mpr hmax]
    dsimp only
    rw [if_neg (by omega)]
    exact ⟨length, rest.length, _, rfl⟩
  | later hpiece hmax _ ih =>
    rw [readPieces_piece hpiece hmax]
    exact ih

theorem readAll_of_breaksOff (h : BreaksOff max n used bytes) : ∃ needed available p,
    readAll max n before ⟨used, ⟨bytes, pos⟩⟩ =
      (.error (.bufferUnderflow needed available), p) := by
  induction h generalizing before pos with
  | here hshort =>
    obtain ⟨needed, available, p, hfault⟩ := readPieces_of_cutShort hshort
    rw [readAll, read, hfault]
    exact ⟨needed, available, p, rfl⟩
  | later hcutting hmax _ ih =>
    rw [readAll, read, readPieces_cutting hcutting fun _ => hmax]
    exact ih

/-- Reading contents succeeds on the bytes that hold them, if they stay within the limit, and leaves
what follows. -/
theorem readAll_eq_ok_iff (hused : used ≤ max) :
    (∃ used' pos', readAll max n before ⟨used, ⟨bytes, pos⟩⟩ =
      (.ok contents, ⟨used', ⟨rest, pos'⟩⟩)) ↔
    ∃ taken later, bytes = taken ++ rest ∧ Holds taken later ∧
      contents = before.reverse ++ later ∧ later.length = n ∧
      used + (later.map List.length).sum ≤ max := by
  -- one content at a time: what stays of the limit for the later ones is what this one leaves
  induction n generalizing used pos before bytes with
  | zero =>
    constructor
    · rintro ⟨used', pos', h⟩
      cases h
      exact ⟨[], [], rfl, .nil, (List.append_nil _).symm, rfl, hused⟩
    · rintro ⟨taken, later, rfl, hholds, rfl, hlength, -⟩
      cases hholds with
      | nil => exact ⟨used, pos, by rw [readAll, List.append_nil]; rfl⟩
      | cons => cases hlength
  | succ n ih =>
    constructor
    · rintro ⟨used', pos', h⟩
      rw [readAll] at h
      split at h
      · cases h
      · next content p hread =>
        obtain ⟨between, ⟨tail, pos₁⟩⟩ := p
        obtain ⟨cutting, hcutting, rfl, rfl, rfl, hmax⟩ := cutting_of_readPieces hread
        obtain ⟨taken, later, rfl, hholds, rfl, rfl, htotal⟩ := (ih (hmax hused)).mp ⟨_, _, h⟩
        refine ⟨_, _, (List.append_assoc ..).symm, .cons hcutting hholds, by simp, rfl, ?_⟩
        rwa [List.map_cons, List.sum_cons, ← Nat.add_assoc]
    · rintro ⟨taken, later, rfl, hholds, rfl, hlength, htotal⟩
      cases hholds with
      | nil => cases hlength
      | cons hcutting hholds =>
        rw [List.map_cons, List.sum_cons, ← Nat.add_assoc] at htotal
        have hmax := le_of_add_le_left htotal
        rw [readAll, read, List.append_assoc, readPieces_cutting hcutting fun _ => hmax]
        exact (ih hmax).mpr ⟨_, _, rfl, hholds, by simp, Nat.succ.inj hlength, htotal⟩

end Appendix

namespace Frame

open Operation

variable {allowed : AllowList} {max : Nat} {bytes rest : Bytes} {m : Message}

/-- The message of the frame at the front of some bytes, and what follows that frame. -/
def first (allowed : AllowList) (max : Nat) (bytes : Bytes) : Except Fault (Message × Bytes) :=
  match payload max (Reader.ofBytes bytes) with
  | (.error fault, _) => .error fault
  | (.ok content, reader) =>
    match decodePayload allowed content with
    | .error fault => .error fault
    | .ok (m, slots) =>
      match Appendix.readAll max slots.length [] ⟨0, reader⟩ with
      | (.error fault, _) => .error fault
      | (.ok contents, ⟨_, reader⟩) => .ok (m.bind contents, reader.rest)

theorem payload_short (h : bytes.length < 4) : payload max (Reader.ofBytes bytes) =
    (.error (.bufferUnderflow 4 bytes.length), Reader.ofBytes bytes) := by
  have htake : Reader.take 4 (Reader.ofBytes bytes) =
      (.error (.bufferUnderflow 4 bytes.length), Reader.ofBytes bytes) := by
    rw [Reader.take_apply, if_neg (by simpa [Reader.ofBytes] using h)]
    rfl
  exact bind_of_error (bind_of_error (bind_of_error htake))

/-- The payload is taken by the number that stands in front. -/
theorem payload_word {word tail : Bytes} (hword : word.length = 4) :
    payload max (Reader.ofBytes (word ++ tail)) =
      match checkLength word.toNat max with
      | .error fault => (.error fault, ⟨tail, 4⟩)
      | .ok () => Reader.take word.toNat ⟨tail, 4⟩ := by
  have htake : Reader.take 4 (Reader.ofBytes (word ++ tail)) = (.ok word, ⟨tail, 4⟩) := by
    rw [Reader.take_apply, Reader.ofBytes, ← hword, if_pos (by simp), List.take_left,
      List.drop_left, Nat.zero_add]
  have hlt : word.toNat < 2 ^ 32 := by
    have hlt := Bytes.toNat_lt word
    rwa [hword] at hlt
  have hlength : Reader.uint32 (Reader.ofBytes (word ++ tail)) =
      (.ok (UInt32.ofNat word.toNat), ⟨tail, 4⟩) :=
    bind_of_ok (bind_of_ok htake)
  have hnumber : (UInt32.ofNat word.toNat).toNat = word.toNat := UInt32.toNat_ofNat_of_lt' hlt
  unfold payload
  rw [bind_of_ok hlength, hnumber]
  cases checkLength word.toNat max <;> rfl

theorem first_of_checkLength {word tail : Bytes} {fault : Fault} (hword : word.length = 4)
    (hcheck : checkLength word.toNat max = .error fault) :
    first allowed max (word ++ tail) = .error fault := by
  rw [first, payload_word hword, hcheck]

theorem first_content {word content tail : Bytes} (hword : word.length = 4)
    (hcheck : checkLength word.toNat max = .ok ()) (hlength : content.length = word.toNat) :
    first allowed max (word ++ (content ++ tail)) =
      match decodePayload allowed content with
      | .error fault => .error fault
      | .ok (m, slots) =>
        match Appendix.readAll max slots.length [] ⟨0, ⟨tail, 4 + content.length⟩⟩ with
        | (.error fault, _) => .error fault
        | (.ok contents, ⟨_, reader⟩) => .ok (m.bind contents, reader.rest) := by
  have hpayload : payload max (Reader.ofBytes (word ++ (content ++ tail))) =
      (.ok content, ⟨tail, 4 + content.length⟩) := by
    rw [payload_word hword, hcheck, ← hlength, Reader.take_apply]
    simp
  rw [first, hpayload]

theorem decode_eq_first : decode allowed max bytes =
    match first allowed max bytes with
    | .error fault => .error fault
    | .ok (m, []) => .ok m
    | .ok (_, rest) => .error (.protocol (.trailingStreams rest.length)) := by
  unfold decode first
  rcases payload max (Reader.ofBytes bytes) with ⟨fault | content, reader⟩
  · rfl
  dsimp only
  rcases decodePayload allowed content with fault | ⟨m, slots⟩
  · rfl
  dsimp only
  rcases Appendix.readAll max slots.length [] ⟨0, reader⟩ with ⟨fault | contents, _, rest, pos⟩
  · rfl
  · cases rest <;> rfl

/-- What bytes with a frame at the front consist of. -/
theorem first_eq_ok_iff : first allowed max bytes = .ok (m, rest) ↔
    ∃ content body kinds taken contents,
      bytes = Bytes.ofNat 4 content.length ++ content ++ (taken ++ rest) ∧
      checkLength content.length max = .ok () ∧ content.length < 2 ^ 32 ∧
      decodePayload allowed content = .ok (body, kinds) ∧ Appendix.Holds taken contents ∧
      contents.length = kinds.length ∧ (contents.map List.length).sum ≤ max ∧
      m = body.bind contents := by
  constructor
  · intro h
    unfold first at h
    split at h
    · cases h
    next content reader hpayload =>
    obtain ⟨hcheck, hlt, rfl⟩ := prefix_of_payload hpayload
    split at h
    · cases h
    next body kinds hbody =>
    split at h
    · cases h
    next contents used reader' hcontents =>
    cases h
    obtain ⟨taken, later, hrest, hholds, rfl, hcount, htotal⟩ :=
      (Appendix.readAll_eq_ok_iff (Nat.zero_le max)).mp ⟨_, _, hcontents⟩
    rw [Nat.zero_add] at htotal
    exact ⟨content, body, kinds, taken, contents, by rw [hrest], hcheck, hlt, hbody, hholds, hcount,
      htotal, rfl⟩
  · rintro ⟨content, body, kinds, taken, contents, rfl, hcheck, hlt, hbody, hholds, hcount, htotal,
      rfl⟩
    obtain ⟨hpos, hmax⟩ := checkLength_eq_ok_iff.mp hcheck
    obtain ⟨pos, hpayload⟩ := payload_of_prefix (List.length_pos_iff.mp hpos) hmax hlt
      (taken ++ rest)
    obtain ⟨used', pos', hcontents⟩ := (Appendix.readAll_eq_ok_iff (Nat.zero_le max)).mpr
      ⟨taken, contents, rfl, hholds, rfl, hcount, by rwa [Nat.zero_add]⟩
    unfold first
    rw [hpayload]
    dsimp only
    rw [hbody]
    dsimp only
    rw [hcontents]
    rfl

theorem decode_eq_ok_iff_first : decode allowed max bytes = .ok m ↔
    first allowed max bytes = .ok (m, []) := by
  rw [decode_eq_first]
  rcases first allowed max bytes with fault | ⟨m', _ | ⟨byte, rest⟩⟩ <;> simp

/-- The frame at the front of some bytes decodes alone, and whatever follows a frame that decodes
is left alone. -/
theorem first_eq_ok_iff_decode : first allowed max bytes = .ok (m, rest) ↔
    ∃ frame, bytes = frame ++ rest ∧ decode allowed max frame = .ok m := by
  constructor
  · intro h
    obtain ⟨content, body, kinds, taken, contents, rfl, hframe⟩ := first_eq_ok_iff.mp h
    refine ⟨Bytes.ofNat 4 content.length ++ content ++ taken, (List.append_assoc ..).symm, ?_⟩
    rw [decode_eq_ok_iff_first, first_eq_ok_iff]
    exact ⟨content, body, kinds, taken, contents, by rw [List.append_nil], hframe⟩
  · rintro ⟨frame, rfl, hdecode⟩
    rw [decode_eq_ok_iff_first, first_eq_ok_iff] at hdecode
    obtain ⟨content, body, kinds, taken, contents, rfl, hframe⟩ := hdecode
    rw [List.append_nil, first_eq_ok_iff]
    exact ⟨content, body, kinds, taken, contents, List.append_assoc .., hframe⟩

/-- Bytes that end before a frame and the contents behind it are complete, with nothing wrong before
that. -/
inductive BreaksOff (allowed : AllowList) (max : Nat) : Bytes → Prop
  | length {bytes : Bytes} (h : bytes.length < 4) : BreaksOff allowed max bytes
  | payload {length : Nat} {rest : Bytes} (hlt : length < 2 ^ 32)
      (hcheck : checkLength length max = .ok ()) (h : rest.length < length) :
      BreaksOff allowed max (Bytes.ofNat 4 length ++ rest)
  | contents {content rest : Bytes} {body : Message} {kinds : List LobKind}
      (hlt : content.length < 2 ^ 32) (hcheck : checkLength content.length max = .ok ())
      (hbody : decodePayload allowed content = .ok (body, kinds))
      (h : Appendix.BreaksOff max kinds.length 0 rest) :
      BreaksOff allowed max (Bytes.ofNat 4 content.length ++ content ++ rest)

/-- Decoding fails where the bytes break off. -/
theorem first_of_breaksOff (h : BreaksOff allowed max bytes) : ∃ needed available,
    first allowed max bytes = .error (.bufferUnderflow needed available) := by
  cases h with
  | length hshort =>
    refine ⟨4, bytes.length, ?_⟩
    rw [first, payload_short hshort]
  | @payload length rest hlt hcheck hshort =>
    have hnumber : (Bytes.ofNat 4 length).toNat = length := Bytes.toNat_ofNat hlt
    refine ⟨length, rest.length, ?_⟩
    rw [first, payload_word (Bytes.length_ofNat 4 length), hnumber, hcheck]
    dsimp only
    rw [Reader.take_apply, if_neg (by simpa using hshort)]
    rfl
  | @contents content rest body kinds hlt hcheck hbody hbreaks =>
    have hnumber : (Bytes.ofNat 4 content.length).toNat = content.length := Bytes.toNat_ofNat hlt
    rw [List.append_assoc, first_content (Bytes.length_ofNat ..) (hnumber.symm ▸ hcheck)
      hnumber.symm, hbody]
    dsimp only
    obtain ⟨needed, available, p, hfault⟩ := Appendix.readAll_of_breaksOff hbreaks
    rw [hfault]
    exact ⟨needed, available, rfl⟩

end Frame

end QueryClient
