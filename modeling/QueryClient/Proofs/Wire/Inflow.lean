import QueryClient.Proofs.Wire.Framing
import QueryClient.Proofs.Wire.Refusing
import QueryClient.Wire.Arrivals

/-!
# Reading from a flow is decoding

However a flow is cut into pieces, a message is taken from it exactly if the bytes of the flow begin
with a frame of that message, and the flow then stands behind the frame. It is lost exactly if
its bytes break off inside a frame. Any other failure is the one that decoding the bytes has.
-/

namespace QueryClient.Inflow

variable {n : Nat} {flow rest : Inflow} {bytes tail : Bytes}

/-- What is still to come, however it is cut. -/
def unread (flow : Inflow) : Bytes :=
  flow.pieces.flatten

/-- The end of a flow that was closed while something was still asked of it. -/
def lost : FlowStop :=
  .fault (.connectionLost "server closed the connection")

/-! ## Taking bytes -/

theorem takePieces_of_le {pieces : List Bytes} (h : n ≤ pieces.flatten.length) :
    ∃ rest, takePieces n pieces = some (pieces.flatten.take n, rest) ∧
      rest.flatten = pieces.flatten.drop n := by
  induction pieces generalizing n with
  | nil =>
    obtain rfl : n = 0 := Nat.le_zero.mp h
    exact ⟨[], rfl, rfl⟩
  | cons piece pieces ih =>
    cases n with
    | zero => exact ⟨piece :: pieces, rfl, rfl⟩
    | succ n =>
      rw [takePieces, Bytes.holds_eq_decide]
      by_cases hn : n + 2 ≤ piece.length
      · rw [if_pos (decide_eq_true hn), List.flatten_cons]
        refine ⟨_, by rw [List.take_append_of_le_length (by omega)], ?_⟩
        rw [List.flatten_cons, List.drop_append_of_le_length (by omega)]
      · rw [if_neg (by simpa using hn)]
        rw [List.flatten_cons, List.length_append] at h
        obtain ⟨rest, htake, hrest⟩ := ih (n := n + 1 - piece.length) (by omega)
        have hpiece : piece.length ≤ n + 1 := by omega
        rw [htake, List.flatten_cons, List.take_append, List.take_of_length_le hpiece,
          List.drop_append, List.drop_of_length_le hpiece]
        exact ⟨rest, rfl, hrest⟩

theorem take_append (hunread : flow.unread = bytes ++ tail) :
    ∃ rest, flow.take bytes.length = (.ok bytes, rest) ∧ rest.unread = tail ∧
      rest.ending = flow.ending := by
  have hle : bytes.length ≤ flow.pieces.flatten.length := by
    change flow.pieces.flatten = _ at hunread
    rw [hunread, List.length_append]
    omega
  obtain ⟨pieces, htake, hpieces⟩ := takePieces_of_le hle
  refine ⟨⟨pieces, flow.ending⟩, ?_, ?_, rfl⟩
  · rw [take, htake]
    change flow.pieces.flatten = _ at hunread
    rw [hunread, List.take_left]
  · change flow.pieces.flatten = _ at hunread
    rw [unread, hpieces, hunread, List.drop_left]

theorem take_short (hclosed : flow.ending = .closed) (h : flow.unread.length < n) :
    flow.take n = (.error lost, ⟨[], .closed⟩) := by
  unfold take
  split
  · next hsome =>
    have hlength := length_takePieces hsome
    unfold unread at h
    omega
  · rw [hclosed]
    rfl

theorem take_eq_ok (h : flow.take n = (.ok bytes, rest)) :
    bytes.length = n ∧ flow.unread = bytes ++ rest.unread ∧ rest.ending = flow.ending := by
  have hle : n ≤ flow.unread.length := by
    have hsize := size_take h
    unfold size at hsize
    unfold unread
    omega
  obtain ⟨after, htake, hunread, hending⟩ :=
    take_append (List.take_append_drop n flow.unread).symm
  rw [List.length_take_of_le hle, h] at htake
  cases htake
  exact ⟨List.length_take_of_le hle, by rw [hunread, List.take_append_drop], hending⟩

theorem take_eq_error {stop : FlowStop} (hclosed : flow.ending = .closed)
    (h : flow.take n = (.error stop, rest)) : stop = lost ∧ flow.unread.length < n := by
  by_cases hlt : flow.unread.length < n
  · rw [take_short hclosed hlt] at h
    cases h
    exact ⟨rfl, hlt⟩
  · obtain ⟨after, htake, -⟩ := take_append (List.take_append_drop n flow.unread).symm
    rw [List.length_take_of_le (by omega), h] at htake
    cases htake

/-! ## Taking contents -/

section Contents

open Appendix

variable {max used used' : Nat} {before : List Bytes} {content : Bytes} {stop : FlowStop}

/-- The content that is taken from a flow is the one that is read from its bytes. -/
theorem contentPieces_eq_ok (h : contentPieces max used before flow = (.ok content, used', rest))
    (pos : Nat) : rest.ending = flow.ending ∧ ∃ pos',
      readPieces max used before pos flow.unread = (.ok content, ⟨used', ⟨rest.unread, pos'⟩⟩) := by
  fun_induction contentPieces max used before flow generalizing pos with
  | case1 | case3 | case4 => cases h
  | case2 used before flow word after hheader hzero =>
    cases h
    obtain ⟨hword, hunread, hending⟩ := take_eq_ok hheader
    rw [hunread, readPieces_word hword, if_pos hzero]
    exact ⟨hending, _, rfl⟩
  | case5 used before flow word after hheader hpos hcheck piece later hpiece ih =>
    obtain ⟨hword, hunread, hending⟩ := take_eq_ok hheader
    obtain ⟨hlength, hunread', hending'⟩ := take_eq_ok hpiece
    obtain ⟨hclosed, hread⟩ := ih h (pos + 2 + word.toNat)
    refine ⟨hclosed.trans (hending'.trans hending), ?_⟩
    rw [hunread, readPieces_word hword, if_neg hpos, hcheck, hunread']
    dsimp only
    rw [if_pos (by simp [hlength]), ← hlength, List.take_left, List.drop_left, hlength]
    exact hread

/-- A closed flow gives no content if it breaks off inside the content, and then it is lost, or if
reading the content from its bytes fails, and then it fails likewise. -/
theorem contentPieces_eq_error (hclosed : flow.ending = .closed)
    (h : contentPieces max used before flow = (.error stop, used', rest)) (pos : Nat) :
    stop = lost ∧ CutShort max used flow.unread ∨ ∃ fault p, stop = .fault fault ∧
      readPieces max used before pos flow.unread = (.error fault, p) := by
  fun_induction contentPieces max used before flow generalizing pos with
  | case1 used before flow stop' after hheader =>
    cases h
    obtain ⟨rfl, hshort⟩ := take_eq_error hclosed hheader
    exact .inl ⟨rfl, .length hshort⟩
  | case2 => cases h
  | case3 used before flow word after hheader hpos fault hcheck =>
    cases h
    obtain ⟨hword, hunread, -⟩ := take_eq_ok hheader
    rw [hunread, readPieces_word hword, if_neg hpos, hcheck]
    exact .inr ⟨fault, _, rfl, rfl⟩
  | case4 used before flow word after hheader hpos hcheck stop' later hpiece =>
    cases h
    obtain ⟨hword, hunread, hending⟩ := take_eq_ok hheader
    obtain ⟨rfl, hshort⟩ := take_eq_error (hending.trans hclosed) hpiece
    refine .inl ⟨rfl, ?_⟩
    rw [hunread, ← Bytes.ofNat_toNat word, hword]
    have hlt := Bytes.toNat_lt word
    rw [hword] at hlt
    exact .piece (Nat.pos_of_ne_zero hpos) hlt (checkTotal_eq_ok_iff.mp hcheck) hshort
  | case5 used before flow word after hheader hpos hcheck piece later hpiece ih =>
    obtain ⟨hword, hunread, hending⟩ := take_eq_ok hheader
    obtain ⟨hlength, hunread', hending'⟩ := take_eq_ok hpiece
    rcases ih (hending'.trans (hending.trans hclosed)) h (pos + 2 + word.toNat) with
      ⟨rfl, hshort⟩ | ⟨fault, p, rfl, hfault⟩
    · refine .inl ⟨rfl, ?_⟩
      have hlt := Bytes.toNat_lt word
      rw [hword] at hlt
      have hpiece : IsPiece piece := by
        constructor
        · rintro rfl
          exact hpos hlength.symm
        · rw [hlength]
          exact Nat.le_of_lt_succ hlt
      have hwritten : writePiece piece = word ++ piece := by
        rw [writePiece, hlength, ← hword, Bytes.ofNat_toNat]
      rw [hunread, hunread', ← List.append_assoc, ← hwritten]
      rw [← hlength] at hcheck hshort
      exact .later hpiece (checkTotal_eq_ok_iff.mp hcheck) hshort
    · refine .inr ⟨fault, p, rfl, ?_⟩
      rw [hunread, readPieces_word hword, if_neg hpos, hcheck, hunread']
      dsimp only
      rwa [if_pos (by simp [hlength]), ← hlength, List.take_left, List.drop_left, hlength]

theorem contentPieces_of_short (hclosed : flow.ending = .closed) (h : flow.unread.length < 2) :
    (contentPieces max used before flow).1 = .error lost := by
  have htake := take_short hclosed h
  unfold contentPieces
  split
  · next hheader =>
    cases htake.symm.trans hheader
    rfl
  · next hheader => cases htake.symm.trans hheader

/-- Taking a content goes by the number that stands in front. -/
theorem contentPieces_word {word : Bytes} (hword : word.length = 2) (hpos : word.toNat ≠ 0)
    (hmax : used + word.toNat ≤ max) (hunread : flow.unread = word ++ tail) :
    ∃ after : Inflow, after.unread = tail ∧ after.ending = flow.ending ∧
      contentPieces max used before flow = match after.take word.toNat with
      | (.error stop, rest) => (.error stop, used + word.toNat, rest)
      | (.ok piece, rest) => contentPieces max (used + word.toNat) (piece :: before) rest := by
  obtain ⟨after, htake, hafter, hending⟩ := take_append hunread
  rw [hword] at htake
  refine ⟨after, hafter, hending, ?_⟩
  rw [contentPieces]
  split
  · next hheader => cases htake.symm.trans hheader
  · next hheader =>
    cases htake.symm.trans hheader
    rw [if_neg hpos, checkTotal_eq_ok_iff.mpr hmax]
    dsimp only
    split
    · next hpiece => rw [hpiece]
    · next hpiece => rw [hpiece]

theorem contentPieces_of_cutShort (hclosed : flow.ending = .closed)
    (h : CutShort max used flow.unread) :
    (contentPieces max used before flow).1 = .error lost := by
  generalize hunread : flow.unread = bytes at h
  induction h generalizing flow before with
  | length hshort => exact contentPieces_of_short hclosed (hunread ▸ hshort)
  | @piece used length rest hpos hlt hmax hshort =>
    have hnumber : (Bytes.ofNat 2 length).toNat = length := Bytes.toNat_ofNat hlt
    obtain ⟨after, hafter, hending, heq⟩ := contentPieces_word (Bytes.length_ofNat 2 length)
      (by omega) (hnumber.symm ▸ hmax) hunread
    rw [heq, hnumber, take_short (hending.trans hclosed) (hafter ▸ hshort)]
  | @later used piece rest hpiece hmax _ ih =>
    have hlt : piece.length < 256 ^ 2 := Nat.lt_succ_of_le hpiece.2
    have hnumber : (Bytes.ofNat 2 piece.length).toNat = piece.length := Bytes.toNat_ofNat hlt
    have hpos := List.length_pos_iff.mpr hpiece.1
    rw [writePiece, List.append_assoc] at hunread
    obtain ⟨after, hafter, hending, heq⟩ := contentPieces_word
      (Bytes.length_ofNat 2 piece.length) (by omega) (hnumber.symm ▸ hmax) hunread
    obtain ⟨last, htake, hlast, hending'⟩ := take_append hafter
    rw [heq, hnumber, htake]
    exact ih (hending'.trans (hending.trans hclosed)) hlast

/-- A content that is read from the bytes of a closed flow is taken from it. -/
theorem contentPieces_of_readPieces {pos pos' : Nat} (hclosed : flow.ending = .closed)
    (h : readPieces max used before pos flow.unread = (.ok content, ⟨used', ⟨tail, pos'⟩⟩)) :
    ∃ rest : Inflow, contentPieces max used before flow = (.ok content, used', rest) ∧
      rest.unread = tail ∧ rest.ending = .closed := by
  rcases htaken : contentPieces max used before flow with ⟨stop | content', used₁, rest⟩
  · rcases contentPieces_eq_error hclosed htaken pos with ⟨-, hshort⟩ | ⟨fault, p, -, hfault⟩
    · obtain ⟨needed, available, p, hfault⟩ := readPieces_of_cutShort hshort
      cases h.symm.trans hfault
    · cases h.symm.trans hfault
  · obtain ⟨hending, pos₁, hread⟩ := contentPieces_eq_ok htaken pos
    rw [h] at hread
    cases hread
    exact ⟨rest, rfl, rfl, hending.trans hclosed⟩

variable {all : List Bytes}

theorem contents_eq_ok (h : contents max n used before flow = (.ok all, rest)) (pos : Nat) :
    rest.ending = flow.ending ∧ ∃ used' pos',
      readAll max n before ⟨used, ⟨flow.unread, pos⟩⟩ =
        (.ok all, ⟨used', ⟨rest.unread, pos'⟩⟩) := by
  induction n generalizing used before flow pos with
  | zero =>
    cases h
    exact ⟨rfl, used, pos, rfl⟩
  | succ n ih =>
    rw [contents] at h
    split at h
    · cases h
    · next hcontent =>
      obtain ⟨hending, pos₁, hread⟩ := contentPieces_eq_ok hcontent pos
      obtain ⟨hending', used', pos', hrest⟩ := ih h pos₁
      rw [readAll, Appendix.read, hread]
      exact ⟨hending'.trans hending, used', pos', hrest⟩

theorem contents_eq_error (hclosed : flow.ending = .closed) (hused : used ≤ max)
    (h : contents max n used before flow = (.error stop, rest)) (pos : Nat) :
    stop = lost ∧ BreaksOff max n used flow.unread ∨ ∃ fault p, stop = .fault fault ∧
      readAll max n before ⟨used, ⟨flow.unread, pos⟩⟩ = (.error fault, p) := by
  induction n generalizing used before flow pos with
  | zero => cases h
  | succ n ih =>
    rw [contents] at h
    rw [readAll, Appendix.read]
    split at h
    · next hcontent =>
      cases h
      rcases contentPieces_eq_error hclosed hcontent pos with
        ⟨rfl, hshort⟩ | ⟨fault, p, rfl, hfault⟩
      · exact .inl ⟨rfl, .here hshort⟩
      · rw [hfault]
        exact .inr ⟨fault, p, rfl, rfl⟩
    · next hcontent =>
      obtain ⟨hending, pos₁, hread⟩ := contentPieces_eq_ok hcontent pos
      obtain ⟨cutting, hcutting, hbytes, rfl, rfl, hmax⟩ := cutting_of_readPieces hread
      rw [hread]
      rcases ih (hending.trans hclosed) (hmax hused) h pos₁ with ⟨rfl, hbreaks⟩ | hfault
      · rw [hbytes]
        exact .inl ⟨rfl, .later hcutting (hmax hused) hbreaks⟩
      · exact .inr hfault

theorem contents_of_breaksOff (hclosed : flow.ending = .closed)
    (h : BreaksOff max n used flow.unread) :
    (contents max n used before flow).1 = .error lost := by
  generalize hunread : flow.unread = bytes at h
  induction h generalizing flow before with
  | here hshort =>
    have hlost : (contentPieces max _ [] flow).1 = .error lost :=
      contentPieces_of_cutShort hclosed (hunread ▸ hshort)
    rw [contents]
    split
    · next hcontent =>
      rw [hcontent] at hlost
      cases hlost
      rfl
    · next hcontent =>
      rw [hcontent] at hlost
      cases hlost
  | later hcutting hmax _ ih =>
    have hread : readPieces max _ [] 0 flow.unread = _ :=
      (congrArg _ hunread).trans (readPieces_cutting hcutting fun _ => hmax)
    obtain ⟨after, hcontent, hafter, hending⟩ := contentPieces_of_readPieces hclosed hread
    rw [contents, hcontent]
    exact ih hending hafter

end Contents

/-! ## Taking messages -/

section Messages

open QueryClient.Frame

variable {allowed : AllowList} {max : Nat} {m : Message} {stop : FlowStop}

/-- The message that is taken from a flow is that of the frame at the front of its bytes. -/
theorem message_eq_ok (h : message allowed max flow = (.ok m, rest)) :
    rest.ending = flow.ending ∧ first allowed max flow.unread = .ok (m, rest.unread) := by
  unfold message at h
  split at h
  · cases h
  next word flow₁ hword =>
  obtain ⟨hlength, hunread, hending⟩ := take_eq_ok hword
  split at h
  · cases h
  next hcheck =>
  split at h
  · cases h
  next content flow₂ hcontent =>
  obtain ⟨hlength', hunread', hending'⟩ := take_eq_ok hcontent
  split at h
  · cases h
  next body kinds hbody =>
  split at h
  · cases h
  next bound flow₃ hbound =>
  cases h
  obtain ⟨hending'', used', pos', hread⟩ := contents_eq_ok hbound (4 + content.length)
  rw [hunread, hunread', first_content hlength hcheck hlength', hbody]
  dsimp only
  rw [hread]
  exact ⟨hending''.trans (hending'.trans hending), rfl⟩

/-- A closed flow gives no message if it breaks off inside a frame, and then it is lost, or if
decoding its bytes fails, and then it fails likewise. -/
theorem message_eq_error (hclosed : flow.ending = .closed)
    (h : message allowed max flow = (.error stop, rest)) :
    stop = lost ∧ Frame.BreaksOff allowed max flow.unread ∨ ∃ fault, stop = .fault fault ∧
      first allowed max flow.unread = .error fault ∧ fault.classOf = .protocolCorruption := by
  unfold message at h
  split at h
  · next hword =>
    cases h
    obtain ⟨rfl, hshort⟩ := take_eq_error hclosed hword
    exact .inl ⟨rfl, .length hshort⟩
  next word flow₁ hword =>
  obtain ⟨hlength, hunread, hending⟩ := take_eq_ok hword
  have hlt := Bytes.toNat_lt word
  rw [hlength] at hlt
  rw [hunread]
  split at h
  · next fault hcheck =>
    cases h
    exact .inr ⟨fault, rfl, first_of_checkLength hlength hcheck,
      (malformed_of_checkLength hcheck).1⟩
  next hcheck =>
  split at h
  · next hcontent =>
    cases h
    obtain ⟨rfl, hshort⟩ := take_eq_error (hending.trans hclosed) hcontent
    rw [← Bytes.ofNat_toNat word, hlength]
    exact .inl ⟨rfl, .payload hlt hcheck hshort⟩
  next content flow₂ hcontent =>
  obtain ⟨hlength', hunread', hending'⟩ := take_eq_ok hcontent
  split at h
  · next fault hbody =>
    cases h
    rw [hunread', first_content hlength hcheck hlength', hbody]
    exact .inr ⟨fault, rfl, rfl, corrupt_of_decodePayload hbody⟩
  next body kinds hbody =>
  split at h
  · next hbound =>
    cases h
    rcases contents_eq_error (hending'.trans (hending.trans hclosed)) (Nat.zero_le max) hbound
      (4 + content.length) with ⟨rfl, hbreaks⟩ | ⟨fault, p, rfl, hfault⟩
    · rw [hunread', ← Bytes.ofNat_toNat word, hlength, ← hlength', ← List.append_assoc]
      rw [← hlength'] at hlt hcheck
      exact .inl ⟨rfl, .contents hlt hcheck hbody hbreaks⟩
    · refine .inr ⟨fault, rfl, ?_, ?_⟩
      · rw [hunread', first_content hlength hcheck hlength', hbody]
        dsimp only
        rw [hfault]
      · exact (Appendix.malformed_of_readAll (congrArg Prod.fst hfault)).1
  · cases h

theorem message_of_breaksOff (hclosed : flow.ending = .closed)
    (h : Frame.BreaksOff allowed max flow.unread) :
    (message allowed max flow).1 = .error lost := by
  generalize hunread : flow.unread = bytes at h
  unfold message
  cases h with
  | length hshort => rw [take_short hclosed (hunread ▸ hshort)]
  | @payload length rest hlt hcheck hshort =>
    have hnumber : (Bytes.ofNat 4 length).toNat = length := Bytes.toNat_ofNat hlt
    obtain ⟨after, htake, hafter, hending⟩ := take_append hunread
    rw [Bytes.length_ofNat] at htake
    rw [htake]
    dsimp only
    rw [hnumber, hcheck]
    dsimp only
    rw [take_short (hending.trans hclosed) (hafter ▸ hshort)]
  | @contents content rest body kinds hlt hcheck hbody hbreaks =>
    have hnumber : (Bytes.ofNat 4 content.length).toNat = content.length := Bytes.toNat_ofNat hlt
    rw [List.append_assoc] at hunread
    obtain ⟨after, htake, hafter, hending⟩ := take_append hunread
    obtain ⟨last, htake', hlast, hending'⟩ := take_append hafter
    rw [Bytes.length_ofNat] at htake
    rw [htake]
    dsimp only
    rw [hnumber, hcheck]
    dsimp only
    rw [htake']
    dsimp only
    rw [hbody]
    dsimp only
    have hlost : (Inflow.contents max kinds.length 0 [] last).1 = .error lost :=
      contents_of_breaksOff (hending'.trans (hending.trans hclosed)) (hlast ▸ hbreaks)
    split
    · next hstop =>
      rw [hstop] at hlost
      cases hlost
      rfl
    · next hbound =>
      rw [hbound] at hlost
      cases hlost

/-- A frame at the front of the bytes of a closed flow is taken from it. -/
theorem message_of_first (hclosed : flow.ending = .closed)
    (h : first allowed max flow.unread = .ok (m, tail)) :
    ∃ rest : Inflow, message allowed max flow = (.ok m, rest) ∧ rest.unread = tail ∧
      rest.ending = .closed := by
  rcases htaken : message allowed max flow with ⟨stop | m', rest⟩
  · rcases message_eq_error hclosed htaken with ⟨-, hbreaks⟩ | ⟨fault, -, hfault, -⟩
    · obtain ⟨needed, available, hfault⟩ := first_of_breaksOff hbreaks
      cases h.symm.trans hfault
    · cases h.symm.trans hfault
  · obtain ⟨hending, hfirst⟩ := message_eq_ok htaken
    rw [h] at hfirst
    cases hfirst
    exact ⟨rest, rfl, rfl, hending.trans hclosed⟩

/-- A message is taken from a closed flow with the bytes that decode to it alone. -/
theorem message_eq_ok_iff {pieces : List Bytes} {bytes tail : Bytes}
    (hflatten : pieces.flatten = bytes ++ tail) :
    (∃ rest, message allowed max ⟨pieces, .closed⟩ = (.ok m, ⟨rest, .closed⟩) ∧
      rest.flatten = tail) ↔ decode allowed max bytes = .ok m := by
  constructor
  · rintro ⟨rest, h, rfl⟩
    obtain ⟨-, hfirst⟩ := message_eq_ok h
    obtain ⟨frame, hframe, hdecode⟩ := first_eq_ok_iff_decode.mp hfirst
    obtain rfl : bytes = frame := List.append_cancel_right (hflatten.symm.trans hframe)
    exact hdecode
  · intro hdecode
    have hfirst : first allowed max (unread ⟨pieces, .closed⟩) = .ok (m, tail) :=
      first_eq_ok_iff_decode.mpr ⟨bytes, hflatten, hdecode⟩
    obtain ⟨⟨rest, _⟩, h, rfl, rfl⟩ := message_of_first rfl hfirst
    exact ⟨rest, h, rfl⟩

/-- From frames behind one another, as many messages are taken as are asked for. -/
theorem arrivalsUpTo_of_frames {frames : List Bytes} {ms : List Message}
    (hframes : List.Forall₂ (fun frame m => decode allowed max frame = .ok m) frames ms)
    {pieces : List Bytes} (hflatten : pieces.flatten = frames.flatten ++ tail) {i : Nat}
    (hi : i ≤ ms.length) : ∃ rest, arrivalsUpTo allowed max i ⟨pieces, .closed⟩ =
      ((ms.take i).map .ok, ⟨rest, .closed⟩) ∧ rest.flatten = (frames.drop i).flatten ++ tail := by
  induction hframes generalizing pieces i with
  | nil =>
    obtain rfl : i = 0 := Nat.le_zero.mp hi
    exact ⟨pieces, rfl, hflatten⟩
  | cons hdecode _ ih =>
    cases i with
    | zero => exact ⟨pieces, rfl, hflatten⟩
    | succ i =>
      rw [List.flatten_cons, List.append_assoc] at hflatten
      obtain ⟨rest, hmessage, hrest⟩ := (message_eq_ok_iff hflatten).mpr hdecode
      obtain ⟨last, harrivals, hlast⟩ := ih hrest (Nat.le_of_succ_le_succ hi)
      refine ⟨last, ?_, hlast⟩
      rw [arrivalsUpTo, hmessage]
      dsimp only
      rw [harrivals]
      rfl

/-- Reading from a closed flow is decoding. A message is taken with exactly those bytes that decode
to it alone; the flow is lost exactly if its bytes break off inside a frame; any other failure is
that of decoding all of its bytes. So from frames behind one another all messages are taken in
order, and the flow stands between two frames after each of them. -/
theorem message_decodes (allowed : AllowList) (max : Nat) (pieces : List Bytes) :
    (∀ m k, (∃ rest, message allowed max ⟨pieces, .closed⟩ = (.ok m, ⟨rest, .closed⟩) ∧
        ∃ taken : Bytes, taken.length = k ∧ pieces.flatten = taken ++ rest.flatten) ↔
      k ≤ pieces.flatten.length ∧ decode allowed max (pieces.flatten.take k) = .ok m) ∧
    ((message allowed max ⟨pieces, .closed⟩).1 =
        .error (.fault (.connectionLost "server closed the connection")) ↔
      Frame.BreaksOff allowed max pieces.flatten) ∧
    (∀ stop, (message allowed max ⟨pieces, .closed⟩).1 = .error stop →
      stop = .fault (.connectionLost "server closed the connection") ∨
      ∃ fault, stop = .fault fault ∧ decode allowed max pieces.flatten = .error fault) ∧
    ∀ frames ms tail, List.Forall₂ (fun frame m => decode allowed max frame = .ok m) frames ms →
      pieces.flatten = frames.flatten ++ tail → ∀ i ≤ ms.length, ∃ rest,
        arrivalsUpTo allowed max i ⟨pieces, .closed⟩ =
          ((ms.take i).map .ok, ⟨rest, .closed⟩) ∧
        rest.flatten = (frames.drop i).flatten ++ tail := by
  refine ⟨?_, ?_, ?_, ?_⟩
  · intro m k
    constructor
    · rintro ⟨rest, h, taken, rfl, hflatten⟩
      have hdecode := (message_eq_ok_iff hflatten).mp ⟨rest, h, rfl⟩
      rw [hflatten, List.take_left, List.length_append]
      exact ⟨Nat.le_add_right _ _, hdecode⟩
    · rintro ⟨hk, hdecode⟩
      have hflatten := (List.take_append_drop k pieces.flatten).symm
      obtain ⟨rest, h, hrest⟩ := (message_eq_ok_iff hflatten).mpr hdecode
      exact ⟨rest, h, pieces.flatten.take k, List.length_take_of_le hk, hrest ▸ hflatten⟩
  · constructor
    · intro h
      -- no fault of decoding is a lost connection: it is of another class
      rcases message_eq_error rfl (Prod.ext h rfl) with ⟨-, hbreaks⟩ | ⟨fault, hlost, -, hclass⟩
      · exact hbreaks
      · cases hlost
        cases hclass
    · intro hbreaks
      have hunread : Frame.BreaksOff allowed max (unread ⟨pieces, .closed⟩) := hbreaks
      exact message_of_breaksOff rfl hunread
  · intro stop h
    rcases message_eq_error rfl (Prod.ext h rfl) with ⟨rfl, -⟩ | ⟨fault, rfl, hfirst, -⟩
    · exact .inl rfl
    · refine .inr ⟨fault, rfl, ?_⟩
      have hfirst' : first allowed max pieces.flatten = .error fault := hfirst
      rw [decode_eq_first, hfirst']
  · intro frames ms tail hframes hflatten i hi
    exact arrivalsUpTo_of_frames hframes hflatten hi

theorem flatten_cut (bytes : Bytes) (sizes : List Nat) : (cut bytes sizes).flatten = bytes := by
  induction sizes generalizing bytes with
  | nil => simp [cut]
  | cons n sizes ih => rw [cut, List.flatten_cons, ih, List.take_append_drop]

/-- Two frames with contents behind them, cut in any way. -/
theorem message_decodes_wordyFrame : ∃ m, decode .empty 4096 wordyFrame = .ok m ∧
    ∀ sizes, ∃ rest, arrivalsUpTo .empty 4096 2 ⟨cut (wordyFrame ++ wordyFrame) sizes, .closed⟩ =
      ([.ok m, .ok m], ⟨rest, .closed⟩) ∧ rest.flatten = [] := by
  have hkind : (decode .empty 4096 wordyFrame).toOption.map Message.kind = some .reply := by
    decide +kernel
  obtain ⟨m, hframe, -⟩ := Operation.exists_of_toOption_map hkind
  refine ⟨m, hframe, fun sizes => ?_⟩
  have hall := (message_decodes .empty 4096 (cut (wordyFrame ++ wordyFrame) sizes)).2.2.2
  exact hall [wordyFrame, wordyFrame] [m, m] [] (.cons hframe (.cons hframe .nil))
    (by simp [flatten_cut]) 2 (Nat.le_refl 2)

end Messages

end QueryClient.Inflow
